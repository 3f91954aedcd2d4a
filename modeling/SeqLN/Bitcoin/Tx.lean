import SeqLN.Common
import SeqLN.Lib.ByteOrder
import SeqLN.Lib.SelectionSort
import SeqLN.Sym.Clock

/-!
# Transactions as the daemons build them

`bitcoin/tx.c` and `common/permute_tx.c`: a transaction grows by inputs and outputs, all in the asset
that was set last; `permuteOutputs` sorts its outputs, with what the caller keeps about each;
`BitcoinTx.finalize` adds what the outputs leave of the inputs as a fee output, on a chain that has
such outputs. An asset is the id behind its first byte, 0x01, and a value can be read.
-/

namespace SeqLN.Bitcoin

open SeqLN.Sym List

/-- The id of an asset, the 32 bytes behind the 0x01 of an explicit one. -/
abbrev AssetId := ByteString 32

/-- What a transaction takes from the network. Source: `struct chainparams` -/
structure Chain where
  isElements : Bool
  feeAsset : AssetId

/-- An output; on a chain without assets it has none. Source: `struct wally_tx_output` -/
structure TxOutput where
  satoshi : ℕ
  script : Bytes
  asset : Option AssetId
  deriving DecidableEq

/-- An input, with the amount, the asset and the witness script of what it spends.
Source: `struct wally_tx_input`, and the `witness_utxo` beside it -/
structure TxInput where
  outpoint : Outpoint
  sequence : ℕ
  amount : ℕ
  asset : Option AssetId
  wscript : Bytes
  deriving DecidableEq

/-- Source: `struct bitcoin_tx`, its `wtx` and `output_asset` -/
structure BitcoinTx where
  isElements : Bool
  outputAsset : Option AssetId
  locktime : ℕ
  inputs : List TxInput
  outputs : List TxOutput
  deriving DecidableEq

/-! ### Building -/

variable {asset : Option AssetId}

/-- Source: `bitcoin_tx`, `set_default_output_asset` -/
def bitcoinTx (ch : Chain) (locktime : ℕ) : BitcoinTx where
  isElements := ch.isElements
  outputAsset := if ch.isElements then some ch.feeAsset else none
  locktime
  inputs := []
  outputs := []

namespace BitcoinTx

/-- Source: `bitcoin_tx_set_output_asset` -/
def setOutputAsset (tx : BitcoinTx) : Option AssetId → BitcoinTx
  | some asset => if tx.isElements then { tx with outputAsset := some asset } else tx
  | none => tx

/-- Source: `bitcoin_tx_add_output` -/
def addOutput (tx : BitcoinTx) (script : Bytes) (amount : ℕ) : BitcoinTx :=
  { tx with outputs := tx.outputs ++ [⟨amount, script, tx.outputAsset⟩] }

/-- Source: `bitcoin_tx_add_input` -/
def addInput (tx : BitcoinTx) (outpoint : Outpoint) (sequence amount : ℕ) (wscript : Bytes) :
    BitcoinTx :=
  { tx with inputs := tx.inputs ++ [⟨outpoint, sequence, amount, tx.outputAsset, wscript⟩] }

section frame

variable (tx : BitcoinTx) (asset : Option AssetId) (script : Bytes) (amount : ℕ)
variable (outpoint : Outpoint) (sequence : ℕ)

@[simp] lemma setOutputAsset_isElements : (tx.setOutputAsset asset).isElements = tx.isElements := by
  unfold setOutputAsset
  split
  · split <;> rfl
  · rfl

@[simp] lemma setOutputAsset_inputs : (tx.setOutputAsset asset).inputs = tx.inputs := by
  unfold setOutputAsset
  split
  · split <;> rfl
  · rfl

@[simp] lemma setOutputAsset_outputs : (tx.setOutputAsset asset).outputs = tx.outputs := by
  unfold setOutputAsset
  split
  · split <;> rfl
  · rfl

@[simp] lemma addOutput_isElements : (tx.addOutput script amount).isElements = tx.isElements := rfl

@[simp] lemma addOutput_outputAsset : (tx.addOutput script amount).outputAsset = tx.outputAsset := rfl

@[simp] lemma addOutput_inputs : (tx.addOutput script amount).inputs = tx.inputs := rfl

@[simp] lemma addOutput_outputs : (tx.addOutput script amount).outputs =
    tx.outputs ++ [⟨amount, script, tx.outputAsset⟩] := rfl

@[simp] lemma addInput_isElements :
    (tx.addInput outpoint sequence amount script).isElements = tx.isElements := rfl

@[simp] lemma addInput_outputAsset :
    (tx.addInput outpoint sequence amount script).outputAsset = tx.outputAsset := rfl

@[simp] lemma addInput_outputs :
    (tx.addInput outpoint sequence amount script).outputs = tx.outputs := rfl

@[simp] lemma addInput_inputs : (tx.addInput outpoint sequence amount script).inputs =
    tx.inputs ++ [⟨outpoint, sequence, amount, tx.outputAsset, script⟩] := rfl

end frame

/-- An asset as the transactions of a chain have it. -/
def assetOn (ch : Chain) (asset : AssetId) : Option AssetId := if ch.isElements then some asset else none

/-- A transaction that is built on a chain. -/
structure OnChain (ch : Chain) (tx : BitcoinTx) : Prop where
  isElements : tx.isElements = ch.isElements
  outputAsset : ch.isElements = false → tx.outputAsset = none

section onChain

variable {ch : Chain} {tx : BitcoinTx}

lemma onChain_bitcoinTx (ch : Chain) (locktime : ℕ) : OnChain ch (bitcoinTx ch locktime) :=
  ⟨rfl, fun h => by simp [bitcoinTx, h]⟩

/-- The asset that was set is the one of the next outputs. -/
theorem OnChain.setOutputAsset (h : OnChain ch tx) (asset : AssetId) :
    OnChain ch (tx.setOutputAsset (some asset)) ∧
      (tx.setOutputAsset (some asset)).outputAsset = assetOn ch asset := by
  have hset : (tx.setOutputAsset (some asset)).outputAsset = assetOn ch asset := by
    unfold assetOn
    cases hel : ch.isElements with
    | true => simp [BitcoinTx.setOutputAsset, h.isElements, hel]
    | false => simp [BitcoinTx.setOutputAsset, h.isElements, hel, h.outputAsset hel]
  refine ⟨⟨(setOutputAsset_isElements ..).trans h.isElements, fun hel => ?_⟩, hset⟩
  rw [hset, assetOn, hel, if_neg Bool.false_ne_true]

lemma OnChain.addInput (h : OnChain ch tx) (outpoint : Outpoint) (sequence amount : ℕ)
    (wscript : Bytes) : OnChain ch (tx.addInput outpoint sequence amount wscript) :=
  ⟨h.isElements, h.outputAsset⟩

end onChain

/-! ### The fee -/

variable {tx : BitcoinTx} {outs : List TxOutput}

/-- Source: `elements_tx_output_is_fee` -/
def outputIsFee (tx : BitcoinTx) (o : TxOutput) : Bool := tx.isElements && o.script.isEmpty

/-- An output that the fee is reckoned without: another asset's, or a fee. -/
def leavesOut (tx : BitcoinTx) (o : TxOutput) : Bool :=
  tx.outputIsFee o || (tx.isElements && o.asset ≠ tx.outputAsset)

/-- Source: `bitcoin_tx_compute_fee_w_inputs` -/
def computeFeeWInputs (tx : BitcoinTx) (inputVal : ℕ) : List TxOutput → ℕ
  | [] => inputVal
  | o :: outs =>
    if tx.leavesOut o then computeFeeWInputs tx inputVal outs
    else
      match amountSub inputVal o.satoshi with
      | some inputVal => computeFeeWInputs tx inputVal outs
      | none => 0

/-- The amounts of the inputs together; `none` where the source's assertion fails. -/
def inputTotal : List TxInput → ℕ → Option ℕ
  | [], total => some total
  | i :: ins, total => do inputTotal ins (← amountAdd total i.amount)

/-- Source: `bitcoin_tx_compute_fee` -/
def computeFee (tx : BitcoinTx) : Option ℕ := do
  return tx.computeFeeWInputs (← inputTotal tx.inputs 0) tx.outputs

/-- The fee output, the first of an empty script, or a new one.
Source: `elements_tx_add_fee_output` -/
def elementsTxAddFeeOutput (tx : BitcoinTx) : Option BitcoinTx := do
  let fee ← tx.computeFee
  if !tx.isElements then return tx
  match tx.outputs.findIdx? tx.outputIsFee with
  | none => return tx.addOutput [] fee
  | some pos => return { tx with outputs := tx.outputs.modify pos fun o => { o with satoshi := fee } }

/-- Source: `bitcoin_tx_finalize` -/
def finalize (tx : BitcoinTx) : Option BitcoinTx := tx.elementsTxAddFeeOutput

/-- The amounts of the outputs that the fee is reckoned with. -/
def counted (tx : BitcoinTx) (outs : List TxOutput) : ℕ :=
  ((outs.filter fun o => !tx.leavesOut o).map TxOutput.satoshi).sum

lemma counted_cons_of_leavesOut {o : TxOutput} (h : tx.leavesOut o = true)
    (outs : List TxOutput) : tx.counted (o :: outs) = tx.counted outs := by
  unfold counted
  rw [List.filter_cons_of_neg (by simpa using h)]

lemma counted_cons {o : TxOutput} (h : tx.leavesOut o = false) (outs : List TxOutput) :
    tx.counted (o :: outs) = o.satoshi + tx.counted outs := by
  unfold counted
  rw [List.filter_cons_of_pos (by simpa using h), List.map_cons, List.sum_cons]

/-- The fee is what the outputs leave, and nothing where they exceed the inputs. -/
theorem computeFeeWInputs_eq (tx : BitcoinTx) (inputVal : ℕ) (outs : List TxOutput) :
    tx.computeFeeWInputs inputVal outs = inputVal - tx.counted outs := by
  induction outs generalizing inputVal with
  | nil => rfl
  | cons o outs ih =>
    rw [computeFeeWInputs]
    cases ho : tx.leavesOut o with
    | true => rw [if_pos rfl, ih, counted_cons_of_leavesOut ho]
    | false =>
      rw [if_neg Bool.false_ne_true, counted_cons ho]
      by_cases hle : o.satoshi ≤ inputVal
      · simp only [amountSub_of_le hle, ih]
        omega
      · simp only [amountSub_of_not_le hle]
        omega

lemma inputTotal_eq_some {ins : List TxInput} {total total' : ℕ}
    (h : inputTotal ins total = some total') : total' = total + (ins.map TxInput.amount).sum := by
  induction ins generalizing total with
  | nil =>
    cases h
    rfl
  | cons i ins ih =>
    obtain ⟨sum, hsum, h⟩ := Option.bind_eq_some_iff.1 h
    obtain ⟨-, rfl⟩ := amountAdd_eq_some.1 hsum
    rw [ih h, List.map_cons, List.sum_cons, Nat.add_assoc]

/-- The fee of a transaction, once it could be computed, is what the outputs leave of the inputs. -/
theorem computeFee_eq_some {fee : ℕ} (h : tx.computeFee = some fee) :
    fee = (tx.inputs.map TxInput.amount).sum - tx.counted tx.outputs := by
  obtain ⟨total, htotal, h⟩ := Option.bind_eq_some_iff.1 h
  cases h
  rw [computeFeeWInputs_eq, inputTotal_eq_some htotal, Nat.zero_add]

/-- Outputs in the transaction's asset, to scripts that are not empty, are all reckoned with. -/
theorem counted_eq_sum (h : ∀ o ∈ outs, o.asset = tx.outputAsset ∧ o.script ≠ []) :
    tx.counted outs = (outs.map TxOutput.satoshi).sum := by
  unfold counted
  rw [List.filter_eq_self.2]
  intro o ho
  simp [leavesOut, outputIsFee, (h o ho).1, (h o ho).2]

/-- The fee output comes last where no other output has an empty script. -/
theorem elementsTxAddFeeOutput_eq {fee : ℕ} (hfee : tx.computeFee = some fee)
    (hnone : ∀ o ∈ tx.outputs, o.script ≠ []) :
    tx.elementsTxAddFeeOutput = some (if tx.isElements then tx.addOutput [] fee else tx) := by
  unfold elementsTxAddFeeOutput
  rw [hfee]
  have hfind : tx.outputs.findIdx? tx.outputIsFee = none := by
    rw [List.findIdx?_eq_none_iff]
    intro o ho
    simp [outputIsFee, hnone o ho]
  simp only [Option.bind_eq_bind, Option.bind_some, hfind]
  cases tx.isElements <;> rfl

/-- A transaction in one asset, finished: what its outputs leave is the fee output, if any. -/
theorem finalize_eq_some {tx' : BitcoinTx} (h : tx.finalize = some tx')
    (hmem : ∀ o ∈ tx.outputs, o.asset = tx.outputAsset ∧ o.script ≠ []) :
    tx' = if tx.isElements then tx.addOutput [] ((tx.inputs.map TxInput.amount).sum -
      (tx.outputs.map TxOutput.satoshi).sum) else tx := by
  obtain ⟨fee, hfee, -⟩ := Option.bind_eq_some_iff.1 h
  have heq := computeFee_eq_some hfee
  rw [counted_eq_sum hmem] at heq
  rw [finalize, elementsTxAddFeeOutput_eq hfee fun o ho => (hmem o ho).2, heq] at h
  exact (Option.some.inj h).symm

/-! ### The amounts of an asset -/

/-- What the inputs have of an asset. -/
def spent (tx : BitcoinTx) (a : Option AssetId) : ℕ :=
  ((tx.inputs.filter fun i => i.asset = a).map TxInput.amount).sum

/-- What outputs have of an asset. -/
def amountIn (a : Option AssetId) (outs : List TxOutput) : ℕ :=
  ((outs.filter fun o => o.asset = a).map TxOutput.satoshi).sum

/-- What the outputs pay of an asset. -/
def paid (tx : BitcoinTx) (a : Option AssetId) : ℕ :=
  amountIn a (tx.outputs.filter fun o => !tx.outputIsFee o)

/-- The fee in an asset: the fee outputs, or what the outputs leave on a chain without them. -/
def feeIn (tx : BitcoinTx) (a : Option AssetId) : ℕ :=
  if tx.isElements then amountIn a (tx.outputs.filter tx.outputIsFee)
  else tx.spent a - amountIn a tx.outputs

lemma amountIn_append (a : Option AssetId) (outs outs' : List TxOutput) :
    amountIn a (outs ++ outs') = amountIn a outs + amountIn a outs' := by
  simp [amountIn]

lemma amountIn_singleton (a : Option AssetId) (o : TxOutput) :
    amountIn a [o] = if o.asset = a then o.satoshi else 0 := by
  by_cases h : o.asset = a <;> simp [amountIn, h]

lemma amountIn_perm {a : Option AssetId} {outs' : List TxOutput} (h : outs ~ outs') :
    amountIn a outs = amountIn a outs' :=
  ((h.filter _).map _).sum_eq

/-- Outputs of one asset have their sum in it, and nothing in another. -/
theorem amountIn_of_asset (h : ∀ o ∈ outs, o.asset = asset) (a : Option AssetId) :
    amountIn a outs = if asset = a then (outs.map TxOutput.satoshi).sum else 0 := by
  unfold amountIn
  split
  · next heq =>
    rw [List.filter_eq_self.2 fun o ho => by simp [h o ho, heq]]
  · next hne =>
    rw [List.filter_eq_nil_iff.2 fun o ho => by simp [h o ho, hne]]
    rfl

lemma spent_addInput (tx : BitcoinTx) (outpoint : Outpoint) (sequence amount : ℕ) (wscript : Bytes)
    (a : Option AssetId) : (tx.addInput outpoint sequence amount wscript).spent a =
      tx.spent a + if tx.outputAsset = a then amount else 0 := by
  by_cases h : tx.outputAsset = a <;> simp [spent, h]

/-- Every output pays or is a fee. -/
theorem amountIn_outputs (tx : BitcoinTx) (a : Option AssetId) :
    amountIn a tx.outputs = tx.paid a + amountIn a (tx.outputs.filter tx.outputIsFee) := by
  rw [paid, ← amountIn_append]
  refine amountIn_perm ?_
  have hsplit := List.filter_append_perm (fun o => !tx.outputIsFee o) tx.outputs
  simpa using hsplit.symm

/-- Where the outputs have what the inputs have (with fee outputs), or not more, the inputs are paid
out and the fee. -/
theorem spent_eq {a : Option AssetId} (hle : amountIn a tx.outputs ≤ tx.spent a)
    (heq : tx.isElements = true → amountIn a tx.outputs = tx.spent a) :
    tx.spent a = tx.paid a + tx.feeIn a := by
  cases hel : tx.isElements with
  | true => rw [feeIn, if_pos hel, ← amountIn_outputs, heq hel]
  | false =>
    have hfilter : tx.outputs.filter tx.outputIsFee = [] := by
      simp [List.filter_eq_nil_iff, outputIsFee, hel]
    have hpaid := amountIn_outputs tx a
    rw [hfilter] at hpaid
    have hnil : amountIn a [] = 0 := rfl
    rw [feeIn, hel, if_neg Bool.false_ne_true]
    omega

end BitcoinTx

/-! ### The order of the outputs -/

/-- An output with the number that breaks ties and the caller's entry of its map. -/
structure Slot (η : Type) where
  out : TxOutput
  cltv : ℕ
  entry : η

/-- Source: `output_better` -/
def outputBetter (a : TxOutput) (cltvA : ℕ) (b : TxOutput) (cltvB : ℕ) : Bool :=
  if a.satoshi ≠ b.satoshi then a.satoshi < b.satoshi
  else
    match memcmp a.script b.script with
    | .lt => true
    | .gt => false
    | .eq =>
      if a.script.length ≠ b.script.length then a.script.length < b.script.length
      else cltvA < cltvB

section permute

variable {η : Type}

/-- The comparison of two outputs in their places. -/
def slotBetter (a b : Slot η) : Bool := outputBetter a.out a.cltv b.out b.cltv

/-- The outputs, and all that is kept beside them, in order. Source: `permute_outputs` -/
def permuteOutputs (slots : List (Slot η)) : List (Slot η) :=
  selectionSort slotBetter (slots.length - 1) slots

/-- What the comparison reads of a slot. -/
def Slot.key (s : Slot η) : ℕ × Bytes × ℕ := (s.out.satoshi, s.out.script, s.cltv)

lemma slotBetter_eq (a b : Slot η) : slotBetter a b = (cmpKey a.key b.key == .lt) := by
  have hscript := memcmp_then_length a.out.script b.out.script
  have hcmp : cmpKey a.key b.key = (compare a.out.satoshi b.out.satoshi).then
      (((memcmp a.out.script b.out.script).then
        (compare a.out.script.length b.out.script.length)).then (compare a.cltv b.cltv)) := by
    rw [hscript]
    rfl
  have hlt : ∀ m n : ℕ, (compare m n == .lt) = decide (m < n) := by
    intro m n
    rw [Nat.compare_eq_ite_lt]
    split_ifs <;> simp_all
  rw [hcmp, slotBetter, outputBetter]
  split
  · next hne =>
    have hne' : compare a.out.satoshi b.out.satoshi ≠ .eq := by
      rwa [Ne, Nat.compare_eq_eq]
    rw [← hlt]
    cases hc : compare a.out.satoshi b.out.satoshi <;> simp_all
  · next heq =>
    rw [not_not] at heq
    rw [Nat.compare_eq_eq.2 heq]
    cases memcmp a.out.script b.out.script with
    | lt => rfl
    | gt => rfl
    | eq =>
      simp only [Ordering.then]
      split
      · next hne =>
        have hne' : compare a.out.script.length b.out.script.length ≠ .eq := by
          rwa [Ne, Nat.compare_eq_eq]
        rw [← hlt]
        cases hc : compare a.out.script.length b.out.script.length <;> simp_all
      · next heq =>
        rw [not_not] at heq
        rw [Nat.compare_eq_eq.2 heq, ← hlt]

lemma slotBetter_eq_false {a b : Slot η} :
    slotBetter b a = false ↔ (cmpKey a.key b.key).isLE = true := by
  have hswap : cmpKey b.key a.key = (cmpKey a.key b.key).swap := Std.OrientedCmp.eq_swap
  rw [slotBetter_eq, hswap]
  cases cmpKey a.key b.key <;> decide

lemma strictWeak_slotBetter : @StrictWeak (Slot η) slotBetter where
  asymm {a b} h := by
    rw [slotBetter_eq, beq_iff_eq] at h
    rw [slotBetter_eq_false, h]
    rfl
  trans hab hbc := by
    rw [slotBetter_eq_false] at hab hbc ⊢
    exact Std.TransCmp.isLE_trans hab hbc

lemma perm_permuteOutputs (slots : List (Slot η)) : permuteOutputs slots ~ slots :=
  perm_selectionSort _ _ _

/-- The amount and the script of an output, and a number for outputs that share them. -/
def Slot.tieKey (c : Slot η → ℕ) (s : Slot η) : ℕ × Bytes × ℕ := (s.out.satoshi, s.out.script, c s)

/-- Slots that share an amount and a script stand in the order of a number. -/
def TiesBy (c : Slot η → ℕ) (slots : List (Slot η)) : Prop :=
  ∀ a ∈ slots, ∀ b ∈ slots, a.out.satoshi = b.out.satoshi → a.out.script = b.out.script →
    a.cltv ≤ b.cltv → c a ≤ c b

lemma tiesBy_const (n : ℕ) (slots : List (Slot η)) : TiesBy (fun _ => n) slots :=
  fun _ _ _ _ _ _ _ => le_rfl

lemma cmpKey_isLE_iff {a b : ℕ × Bytes × ℕ} : (cmpKey a b).isLE = true ↔
    compare a.1 b.1 = .lt ∨ a.1 = b.1 ∧
      (compare a.2.1 b.2.1 = .lt ∨ a.2.1 = b.2.1 ∧ a.2.2 ≤ b.2.2) := by
  have hcmp : cmpKey a b = (compare a.1 b.1).then ((compare a.2.1 b.2.1).then (compare a.2.2 b.2.2)) :=
    rfl
  have h1 : a.1 = b.1 ↔ compare a.1 b.1 = .eq := Nat.compare_eq_eq.symm
  have h2 : a.2.1 = b.2.1 ↔ compare a.2.1 b.2.1 = .eq :=
    Std.LawfulEqOrd.compare_eq_iff_eq.symm
  have h3 : a.2.2 ≤ b.2.2 ↔ (compare a.2.2 b.2.2).isLE = true := Nat.isLE_compare.symm
  rw [hcmp, h1, h2, h3]
  cases compare a.1 b.1 <;> cases compare a.2.1 b.2.1 <;> simp

/-- Slots with the same collection of keys are put in the same order of keys. -/
theorem permuteOutputs_map_eq {c : Slot η → ℕ} {slots slots' : List (Slot η)}
    (hties : TiesBy c slots) (hties' : TiesBy c slots')
    (h : slots.map (Slot.tieKey c) ~ slots'.map (Slot.tieKey c)) :
    (permuteOutputs slots).map (Slot.tieKey c) = (permuteOutputs slots').map (Slot.tieKey c) := by
  have hkey : ∀ l : List (Slot η), TiesBy c l → ∀ a ∈ l, ∀ b ∈ l, slotBetter b a = false →
      (cmpKey (a.tieKey c) (b.tieKey c)).isLE = true := by
    intro l hl a ha b hb hab
    rw [slotBetter_eq_false, cmpKey_isLE_iff] at hab
    rw [cmpKey_isLE_iff]
    rcases hab with h1 | ⟨h1, h2 | ⟨h2, h3⟩⟩
    · exact .inl h1
    · exact .inr ⟨h1, .inl h2⟩
    · exact .inr ⟨h1, .inr ⟨h2, hl a ha b hb h1 h2 h3⟩⟩
  exact selectionSort_map_eq strictWeak_slotBetter (fun a b => eq_of_cmpKey_isLE)
    (hkey slots hties) (hkey slots' hties') h

/-- Outputs of one asset: the same collection is put in the same order. -/
theorem permuteOutputs_map_out_eq {slots slots' : List (Slot η)}
    (hasset : ∀ s ∈ slots, s.out.asset = asset) (hasset' : ∀ s ∈ slots', s.out.asset = asset)
    (h : slots.map Slot.out ~ slots'.map Slot.out) :
    (permuteOutputs slots).map Slot.out = (permuteOutputs slots').map Slot.out := by
  have hmap : ∀ l : List (Slot η), (∀ s ∈ l, s.out.asset = asset) →
      l.map Slot.out = (l.map (Slot.tieKey fun _ => 0)).map fun k => ⟨k.1, k.2.1, asset⟩ := by
    intro l hl
    rw [List.map_map]
    refine List.map_congr_left fun s hs => ?_
    obtain ⟨⟨satoshi, script, a⟩, cltv, entry⟩ := s
    obtain rfl : a = asset := hl _ hs
    rfl
  have hkeys : slots.map (Slot.tieKey fun _ => 0) ~ slots'.map (Slot.tieKey fun _ => 0) := by
    have := h.map fun o : TxOutput => (o.satoshi, o.script, 0)
    rwa [List.map_map, List.map_map] at this
  have hsorted := permuteOutputs_map_eq (tiesBy_const 0 slots) (tiesBy_const 0 slots') hkeys
  rw [hmap _ fun s hs => hasset s ((perm_permuteOutputs slots).subset hs),
    hmap _ fun s hs => hasset' s ((perm_permuteOutputs slots').subset hs), hsorted]

end permute

end SeqLN.Bitcoin
