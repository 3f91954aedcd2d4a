import SeqLN.Closing.CloseTx

/-!
# Both sides build the same mutual close

Each side starts from its own half of the balances (`Mirrored`). The amounts are the same with the
sides exchanged (`peerStartClosingd_mirrored`), and so is the transaction (`closeTxOf_exchange`): lane 0
is sorted by amount and script, and a further lane's two shares come in the order of a linear order on
them (`laneOrder_comm`). `Parts.conserves`: lane by lane the outputs have what the inputs have. The
result is `mutualClose_mirrored`.
-/

namespace SeqLN.Closing

open Bitcoin SeqLN.Sym List Option BitcoinTx

/-! ### The amounts -/

variable {c c' : Channel}

/-- A lane seen from the other side. -/
structure LaneMirrored (l l' : Lane) : Prop where
  asset : l'.asset = l.asset
  outnum : l'.outnum = l.outnum
  fundingSats : l'.fundingSats = l.fundingSats
  ourMsat : l.ourMsat + l'.ourMsat = l.fundingSats * 1000

/-- A channel seen from the other side. -/
structure Mirrored (c c' : Channel) : Prop where
  funding : c'.funding = c.funding
  fundingSats : c'.fundingSats = c.fundingSats
  channelAsset : c'.channelAsset = c.channelAsset
  opener : c'.opener = c.opener.other
  ourMsat : c.ourMsat + c'.ourMsat = c.fundingSats * 1000
  lanes : List.Forall₂ LaneMirrored c.lanes c'.lanes
  fundingKey : ∀ s, c'.fundingKey s = c.fundingKey s.other
  shutdownScriptpubkey : ∀ s, c'.shutdownScriptpubkey s = c.shutdownScriptpubkey s.other
  dustLimit : c'.dustLimit = c.dustLimit
  wrongFunding : c'.wrongFunding = c.wrongFunding

/-- The shares of a lane exchanged. -/
def CloseLane.exchange (l : CloseLane) : CloseLane := { l with toUs := l.toThem, toThem := l.toUs }

/-- What closingd is given, seen from the other side. -/
def ClosingInit.exchange (init : ClosingInit) : ClosingInit :=
  ⟨fun s => init.out s.other, init.lanes.map CloseLane.exchange⟩

/-- What is not ours is theirs, and ours on their side. -/
theorem amountSatSubMsat_eq {sats ours theirs : ℕ} (h : ours + theirs = sats * 1000) :
    amountSatSubMsat sats ours = if sats * 1000 < 2 ^ 64 then some theirs else none := by
  unfold amountSatSubMsat
  rw [amountSub_of_le (by omega)]
  congr 2
  omega

/-- A lane of the close is the same for both peers, the shares exchanged. -/
lemma closeLane_mirrored (hfunding : c'.funding = c.funding)
    (hopener : c'.opener = c.opener.other) {l l' : Lane} (h : LaneMirrored l l') :
    closeLane c' l' = (closeLane c l).map CloseLane.exchange := by
  obtain ⟨hasset, houtnum, hsats, hmsat⟩ := h
  have hmsat' : l'.ourMsat + l.ourMsat = l'.fundingSats * 1000 := by rw [hsats]; omega
  unfold closeLane
  rw [amountSatSubMsat_eq hmsat, amountSatSubMsat_eq hmsat', hsats, hasset, houtnum, hfunding, hopener]
  split
  · cases c.opener with
    | LOCAL =>
      cases hrest : amountSub l.fundingSats (satRoundDown l'.ourMsat) with
      | none => simp [hrest]
      | some rest => simp [hrest, CloseLane.exchange]
    | REMOTE =>
      cases hrest : amountSub l.fundingSats (satRoundDown l.ourMsat) with
      | none => simp [hrest]
      | some rest => simp [hrest, CloseLane.exchange]
  · rfl

lemma mapM_closeLane_mirrored (hfunding : c'.funding = c.funding)
    (hopener : c'.opener = c.opener.other) {ls ls' : List Lane}
    (h : List.Forall₂ LaneMirrored ls ls') :
    ls'.mapM (closeLane c') = (ls.mapM (closeLane c)).map (List.map CloseLane.exchange) := by
  induction h with
  | nil => rfl
  | cons hl _ ih =>
    rw [mapM_cons, mapM_cons, ih, closeLane_mirrored hfunding hopener hl]
    rename_i l _ ls _ _
    cases closeLane c l with
    | none => rfl
    | some cl =>
      cases ls.mapM (closeLane c) with
      | none => rfl
      | some cls => rfl

/-- The amounts of the two sides are the same, seen from either end. -/
theorem peerStartClosingd_mirrored (h : Mirrored c c') (hcredit : c.creditOwed = 0)
    (hcredit' : c'.creditOwed = 0) :
    peerStartClosingd c' = (peerStartClosingd c).map ClosingInit.exchange := by
  have hmsat := h.ourMsat
  have hmsat' : c'.ourMsat + c.ourMsat = c'.fundingSats * 1000 := by rw [h.fundingSats]; omega
  unfold peerStartClosingd payCredit
  rw [amountSatSubMsat_eq hmsat, amountSatSubMsat_eq hmsat', h.fundingSats, hcredit, hcredit',
    mapM_closeLane_mirrored h.funding h.opener h.lanes]
  split
  · cases c.lanes.mapM (closeLane c) with
    | none => rfl
    | some lanes =>
      simp only [bind_eq_bind, bind_some, if_true, map_some, Option.pure_def,
        ClosingInit.exchange]
      congr 2
      funext s
      cases s <;> rfl
  · rfl

/-! ### The order of a lane's shares -/

/-- The two shares in order. -/
def laneOrder (x y : ℕ × Bytes) : List (ℕ × Bytes) := if oursFirst x y then [x, y] else [y, x]

/-- A share as a key. -/
def shareKey (x : ℕ × Bytes) : ℕ × Bytes × ℕ := (x.1, x.2, 0)

lemma oursFirst_iff (x y : ℕ × Bytes) :
    oursFirst x y = true ↔ (cmpKey (shareKey x) (shareKey y)).isLE = true := by
  rw [cmpKey_isLE_iff]
  have hscript := memcmp_then_length x.2 y.2
  have heq : x.2 = y.2 ↔ compare x.2 y.2 = .eq := Std.LawfulEqOrd.compare_eq_iff_eq.symm
  simp only [shareKey, oursFirst, le_refl, and_true, heq, Nat.compare_eq_lt, ← hscript]
  split
  · next hne => simp [hne]
  · next heq' =>
    rw [not_not] at heq'
    simp only [heq', lt_irrefl, true_and, false_or]
    cases memcmp x.2 y.2 with
    | lt => simp
    | gt => simp
    | eq =>
      simp only [Ordering.then, decide_eq_true_eq, Nat.compare_eq_lt, Nat.compare_eq_eq]
      omega

/-- The order does not depend on whose share is ours. -/
theorem laneOrder_comm (x y : ℕ × Bytes) : laneOrder x y = laneOrder y x := by
  unfold laneOrder
  cases hxy : oursFirst x y with
  | true =>
    cases hyx : oursFirst y x with
    | true =>
      rw [oursFirst_iff] at hxy hyx
      have hkey := eq_of_cmpKey_isLE hxy hyx
      have hamount : (shareKey x).1 = (shareKey y).1 := congrArg Prod.fst hkey
      have hscript : (shareKey x).2.1 = (shareKey y).2.1 := congrArg (fun k => k.2.1) hkey
      obtain rfl : x = y := Prod.ext hamount hscript
      rfl
    | false => rfl
  | false =>
    cases hyx : oursFirst y x with
    | true => rfl
    | false =>
      -- a linear order has one of the two first
      have hswap : cmpKey (shareKey y) (shareKey x) = (cmpKey (shareKey x) (shareKey y)).swap :=
        Std.OrientedCmp.eq_swap
      have hnot := mt (oursFirst_iff x y).2 (by simp [hxy])
      have hnot' := mt (oursFirst_iff y x).2 (by simp [hyx])
      rw [hswap] at hnot'
      cases hc : cmpKey (shareKey x) (shareKey y) <;> simp [hc] at hnot hnot'

/-! ### The transaction with the sides exchanged -/

variable {outs : List TxOutput} {ch : Chain} {tx : BitcoinTx} {keypath : Option (Bytes → Bool)}

/-- The output of a share that is not dust. -/
def dustShare (dustLimit : ℕ) (asset : Option AssetId) (script : Bytes) (amount : ℕ) :
    List TxOutput :=
  if dustLimit ≤ amount then [⟨amount, script, asset⟩] else []

lemma addOverDust_eq (dustLimit : ℕ) (script : Bytes) (amount : ℕ) (tx : BitcoinTx) :
    addOverDust dustLimit script amount tx =
      { tx with outputs := tx.outputs ++ dustShare dustLimit tx.outputAsset script amount } := by
  unfold addOverDust dustShare
  split
  · rfl
  · simp

lemma asset_of_mem_dustShare {dustLimit amount : ℕ} {asset : Option AssetId} {script : Bytes}
    {o : TxOutput} (h : o ∈ dustShare dustLimit asset script amount) :
    o.asset = asset ∧ o.script = script := by
  unfold dustShare at h
  split at h
  · rw [mem_singleton.1 h]
    exact ⟨rfl, rfl⟩
  · cases h

/-- Sorting leaves nothing of the order in which outputs of one asset were added. -/
theorem sortOutputs_eq_of_perm (tx : BitcoinTx) {asset : Option AssetId} {outs' : List TxOutput}
    (hasset : ∀ o ∈ outs, o.asset = asset) (h : outs ~ outs') :
    sortOutputs { tx with outputs := outs } = sortOutputs { tx with outputs := outs' } := by
  have hslots : ∀ outs : List TxOutput, (∀ o ∈ outs, o.asset = asset) →
      ∀ s ∈ outs.map fun o => (⟨o, 0, ()⟩ : Slot Unit), s.out.asset = asset := by
    intro outs hasset s hs
    obtain ⟨o, ho, rfl⟩ := List.mem_map.1 hs
    exact hasset o ho
  have hsort := permuteOutputs_map_out_eq (hslots outs hasset)
    (hslots outs' fun o ho => hasset o (h.symm.subset ho)) ?_
  · simp only [sortOutputs, hsort]
  · simpa [List.map_map, Function.comp_def] using h

lemma closeInputs_exchange (ch : Chain) (fundingWscript : Bytes) (funding : Outpoint)
    (fundingSats : ℕ) (channelAsset : AssetId) (lanes : List CloseLane) :
    closeInputs ch fundingWscript funding fundingSats channelAsset (lanes.map CloseLane.exchange) =
      closeInputs ch fundingWscript funding fundingSats channelAsset lanes := by
  simp only [closeInputs, foldl_map, CloseLane.exchange]

/-- What the further lanes have of an asset. -/
def lanesAmount (ch : Chain) (a : Option AssetId) (lanes : List CloseLane) : ℕ :=
  (lanes.map fun l => if assetOn ch l.asset = a then l.fundingSats else 0).sum

/-- The lanes' inputs spend the lanes' amounts. -/
lemma foldl_addInput_spec (fundingWscript : Bytes) (lanes : List CloseLane) (h : tx.OnChain ch) :
    let tx' := lanes.foldl (fun tx l => (tx.setOutputAsset (some l.asset)).addInput l.funding
      defaultSequence l.fundingSats fundingWscript) tx
    tx'.OnChain ch ∧ tx'.outputs = tx.outputs ∧
      ∀ a, tx'.spent a = tx.spent a + lanesAmount ch a lanes := by
  induction lanes generalizing tx with
  | nil => exact ⟨h, rfl, fun a => rfl⟩
  | cons l lanes ih =>
    obtain ⟨hset, hasset⟩ := h.setOutputAsset l.asset
    obtain ⟨hchain, houts, hspent⟩ := ih (hset.addInput l.funding defaultSequence l.fundingSats
      fundingWscript)
    refine ⟨hchain, houts.trans (by simp), fun a => ?_⟩
    have hsame : (tx.setOutputAsset (some l.asset)).spent a = tx.spent a := by
      simp [spent]
    rw [foldl_cons, hspent, spent_addInput, hasset, hsame, lanesAmount, lanesAmount,
      map_cons, List.sum_cons, Nat.add_assoc]

/-- The inputs of a close have each lane's funding in its asset. -/
theorem closeInputs_spec (ch : Chain) (fundingWscript : Bytes) (funding : Outpoint) (fundingSats : ℕ)
    (channelAsset : AssetId) (lanes : List CloseLane) :
    let tx := closeInputs ch fundingWscript funding fundingSats channelAsset lanes
    tx.OnChain ch ∧ tx.outputAsset = assetOn ch channelAsset ∧ tx.outputs = [] ∧
      ∀ a, tx.spent a =
        (if assetOn ch channelAsset = a then fundingSats else 0) + lanesAmount ch a lanes := by
  obtain ⟨hset, hasset⟩ := (onChain_bitcoinTx ch 0).setOutputAsset channelAsset
  obtain ⟨hchain, houts, hspent⟩ := foldl_addInput_spec fundingWscript lanes
    (hset.addInput funding defaultSequence fundingSats fundingWscript)
  obtain ⟨hset', hasset'⟩ := hchain.setOutputAsset channelAsset
  refine ⟨hset', hasset', ?_, fun a => ?_⟩
  · simpa [closeInputs, bitcoinTx] using houts
  · have hnone : ((bitcoinTx ch 0).setOutputAsset (some channelAsset)).spent a = 0 := by
      simp [spent, bitcoinTx]
    have hspent := hspent a
    rw [spent_addInput, hasset, hnone, Nat.zero_add] at hspent
    rw [← hspent]
    simp [closeInputs, spent]

/-- A share added, unless it is nothing. -/
def addNonzero (tx : BitcoinTx) (share : ℕ × Bytes) : BitcoinTx :=
  if share.1 = 0 then tx else tx.addOutput share.2 share.1

lemma addShare_eq (hk : ∀ script, keypathAdded keypath script = true) (tx : BitcoinTx)
    (own : Bool) (share : ℕ × Bytes) :
    addShare keypath tx own share = some (addNonzero tx share) := by
  unfold addShare addNonzero
  split
  · rfl
  · simp [hk]

/-- The shares of a lane, where the wallet's keys can be noted. -/
theorem addLane_eq (hk : ∀ script, keypathAdded keypath script = true)
    (ourScript theirScript : Bytes) (tx : BitcoinTx) (l : CloseLane) :
    addLane keypath ourScript theirScript tx l =
      if l.toUs + l.toThem < 2 ^ 64 ∧ l.toUs + l.toThem = l.fundingSats then
        some ((laneOrder (l.toUs, ourScript) (l.toThem, theirScript)).foldl addNonzero
          (tx.setOutputAsset (some l.asset)))
      else none := by
  unfold addLane
  by_cases hfit : l.toUs + l.toThem < 2 ^ 64
  · rw [amountAdd_of_lt hfit]
    by_cases hsum : l.toUs + l.toThem = l.fundingSats
    · simp only [bind_eq_bind, bind_some, hsum, addShare_eq hk, hsum ▸ hfit,
        and_self, if_true, laneOrder]
      split <;> rfl
    · simp [hsum]
  · rw [amountAdd_of_not_lt hfit]
    symm
    exact if_neg fun h => hfit h.1

section exchange

variable {keypath keypath' : Option (Bytes → Bool)}
  (hk : ∀ script, keypathAdded keypath script = true)
  (hk' : ∀ script, keypathAdded keypath' script = true)
include hk hk'

lemma addLane_exchange (ourScript theirScript : Bytes) (tx : BitcoinTx) (l : CloseLane) :
    addLane keypath' theirScript ourScript tx l.exchange =
      addLane keypath ourScript theirScript tx l := by
  rw [addLane_eq hk, addLane_eq hk', laneOrder_comm]
  simp only [CloseLane.exchange, Nat.add_comm]

lemma foldlM_addLane_exchange (ourScript theirScript : Bytes) (tx : BitcoinTx)
    (lanes : List CloseLane) :
    (lanes.map CloseLane.exchange).foldlM (addLane keypath' theirScript ourScript) tx =
      lanes.foldlM (addLane keypath ourScript theirScript) tx := by
  induction lanes generalizing tx with
  | nil => rfl
  | cons l lanes ih =>
    simp only [map_cons, foldlM_cons, addLane_exchange hk hk', ih]

/-- With the sides exchanged the same transaction is built. -/
theorem closeTxOf_exchange (ch : Chain) (ourScript theirScript fundingWscript : Bytes)
    (funding : Outpoint) (fundingSats toUs toThem dustLimit : ℕ) (channelAsset : AssetId)
    (lanes : List CloseLane) :
    closeTxOf ch keypath' theirScript ourScript fundingWscript funding fundingSats toThem toUs
        dustLimit channelAsset (lanes.map CloseLane.exchange) =
      closeTxOf ch keypath ourScript theirScript fundingWscript funding fundingSats toUs toThem
        dustLimit channelAsset lanes := by
  have hadd : ∀ a b, amountAdd a b = amountAdd b a := fun a b => by simp only [amountAdd, Nat.add_comm]
  have hsort : ∀ tx : BitcoinTx, tx.outputs = [] →
      sortOutputs (addOverDust dustLimit ourScript toUs (addOverDust dustLimit theirScript toThem tx)) =
      sortOutputs (addOverDust dustLimit theirScript toThem (addOverDust dustLimit ourScript toUs tx)) := by
    intro tx htx
    simp only [addOverDust_eq, htx, nil_append]
    have hasset : ∀ o ∈ dustShare dustLimit tx.outputAsset theirScript toThem ++
        dustShare dustLimit tx.outputAsset ourScript toUs, o.asset = tx.outputAsset := by
      intro o ho
      rcases mem_append.1 ho with ho | ho
      · exact (asset_of_mem_dustShare ho).1
      · exact (asset_of_mem_dustShare ho).1
    exact sortOutputs_eq_of_perm tx hasset perm_append_comm
  have hempty : (lanes.map CloseLane.exchange).isEmpty = lanes.isEmpty := by cases lanes <;> rfl
  have hout := (closeInputs_spec ch fundingWscript funding fundingSats channelAsset lanes).2.2.1
  unfold closeTxOf
  simp only [closeInputs_exchange, hadd toThem, hk, hk', hempty, hsort _ hout, implies_true,
    foldlM_addLane_exchange hk hk', or_comm]
  rw [hadd (if dustLimit ≤ toThem then toThem else 0)]

end exchange

/-! ### What the transaction has of each asset -/

variable {asset channelAsset : AssetId} {lanes : Option AssetId → ℕ}

/-- What shares add to a transaction: outputs in its asset, to their scripts, of their amounts. -/
theorem foldl_addNonzero_spec (shares : List (ℕ × Bytes)) (tx : BitcoinTx) :
    ∃ outs, shares.foldl addNonzero tx = { tx with outputs := tx.outputs ++ outs } ∧
      (∀ o ∈ outs, o.asset = tx.outputAsset ∧ o.script ∈ shares.map Prod.snd) ∧
      (outs.map TxOutput.satoshi).sum = (shares.map Prod.fst).sum := by
  induction shares generalizing tx with
  | nil => exact ⟨[], by simp, by simp, rfl⟩
  | cons x shares ih =>
    obtain ⟨outs, htx, hmem, hsum⟩ := ih (addNonzero tx x)
    by_cases hx : x.1 = 0
    · have hsame : addNonzero tx x = tx := if_pos hx
      rw [hsame] at htx hmem
      refine ⟨outs, by rw [foldl_cons, hsame, htx], fun o ho => ?_, ?_⟩
      · exact ⟨(hmem o ho).1, mem_cons_of_mem _ (hmem o ho).2⟩
      · rw [hsum, map_cons, List.sum_cons, hx, Nat.zero_add]
    · have hadd : addNonzero tx x = tx.addOutput x.2 x.1 := if_neg hx
      rw [hadd] at htx hmem
      refine ⟨⟨x.1, x.2, tx.outputAsset⟩ :: outs, ?_, fun o ho => ?_, ?_⟩
      · rw [foldl_cons, hadd, htx]
        simp [addOutput]
      · rcases mem_cons.1 ho with rfl | ho
        · exact ⟨rfl, mem_cons_self⟩
        · exact ⟨(hmem o ho).1, mem_cons_of_mem _ (hmem o ho).2⟩
      · simp [hsum]

/-- A transaction with outputs to two scripts on top. -/
structure Extends (ourScript theirScript : Bytes) (tx tx' : BitcoinTx) (outs : List TxOutput) :
    Prop where
  isElements : tx'.isElements = tx.isElements
  inputs : tx'.inputs = tx.inputs
  outputs : tx'.outputs = tx.outputs ++ outs
  scripts : ∀ o ∈ outs, o.script = ourScript ∨ o.script = theirScript

/-- For each asset the inputs are the outputs and the fee, which is in the channel's. -/
def Conserves (ch : Chain) (channelAsset : AssetId) (tx : BitcoinTx) : Prop :=
  ∀ a, tx.spent a = tx.paid a + tx.feeIn a ∧
    (a ≠ assetOn ch channelAsset → tx.feeIn a = 0)

/-- Its inputs are lane 0's funding and the lanes', its outputs a part of lane 0, the lanes', and
the rest of lane 0 as the fee. -/
structure Parts (ch : Chain) (asset : AssetId) (tx : BitcoinTx) (funding kept : ℕ)
    (lanes : Option AssetId → ℕ) (outs tail : List TxOutput) : Prop where
  isElements : tx.isElements = ch.isElements
  spent : ∀ a, tx.spent a = (if assetOn ch asset = a then funding else 0) + lanes a
  outputs : tx.outputs = outs ++ tail
  scripts : ∀ o ∈ outs, o.script ≠ []
  amounts : ∀ a, amountIn a outs =
    (if assetOn ch asset = a then kept else 0) + lanes a
  kept_le : kept ≤ funding
  tail_eq : tail = [⟨funding - kept, [], assetOn ch asset⟩] ∨
    tail = [] ∧ ch.isElements = false
  lanes_eq : ch.isElements = false → ∀ a, a ≠ none → lanes a = 0

/-- The outputs with an empty script are the fee. -/
theorem Parts.filter_outputIsFee {funding kept : ℕ} {tail : List TxOutput}
    (h : Parts ch asset tx funding kept lanes outs tail) (hel : tx.isElements = true) :
    tx.outputs.filter tx.outputIsFee = tail := by
  have houts : outs.filter tx.outputIsFee = [] := by
    rw [filter_eq_nil_iff]
    intro o ho
    simp [outputIsFee, h.scripts o ho]
  rw [h.outputs, filter_append, houts]
  rcases h.tail_eq with heq | ⟨heq, -⟩
  · simp [heq, outputIsFee, hel]
  · simp [heq]

/-- A transaction of the parts spends what it pays and its fee. -/
theorem Parts.conserves {funding kept : ℕ} {tail : List TxOutput}
    (h : Parts ch asset tx funding kept lanes outs tail) : Conserves ch asset tx := by
  have hkept := h.kept_le
  have htail : ∀ a, amountIn a tail = (if assetOn ch asset = a ∧ tail ≠ [] then
      funding - kept else 0) := by
    intro a
    rcases h.tail_eq with htail | ⟨htail, -⟩
    · rw [htail, amountIn_singleton]
      simp
    · simp [htail, amountIn]
  have htotal : ∀ a, amountIn a tx.outputs = amountIn a outs +
      amountIn a tail := by
    intro a
    rw [h.outputs, amountIn_append]
  have hle : ∀ a, amountIn a tx.outputs ≤ tx.spent a := by
    intro a
    rw [htotal, h.amounts, htail, h.spent]
    by_cases ha : assetOn ch asset = a
    · simp only [ha, true_and, if_true]
      split_ifs <;> omega
    · simp [ha]
  intro a
  cases hel : ch.isElements with
  | true =>
    have htail' : tail = [⟨funding - kept, [], assetOn ch asset⟩] := by
      rcases h.tail_eq with htail | ⟨-, hel'⟩
      · exact htail
      · rw [hel] at hel'
        cases hel'
    have helt : tx.isElements = true := h.isElements.trans hel
    refine ⟨spent_eq (hle a) fun _ => ?_, fun hne => ?_⟩
    · rw [htotal, h.amounts, htail, h.spent]
      have hne : tail ≠ [] := by simp [htail']
      simp only [hne, ne_eq, not_false_eq_true, and_true]
      split_ifs <;> omega
    · rw [feeIn, if_pos helt, h.filter_outputIsFee helt, htail,
        if_neg fun h => hne h.1.symm]
  | false =>
    have helf : tx.isElements = false := h.isElements.trans hel
    refine ⟨spent_eq (hle a) fun h' => absurd (helf.symm.trans h') Bool.false_ne_true,
      fun hne => ?_⟩
    have hnone : assetOn ch asset = none := by simp [assetOn, hel]
    rw [hnone] at hne
    have hspent := h.spent a
    rw [hnone, if_neg (Ne.symm hne), h.lanes_eq hel a hne] at hspent
    rw [feeIn, helf, if_neg Bool.false_ne_true]
    omega

/-- The fee is what is not kept of lane 0. -/
theorem Parts.feeIn_eq {funding kept : ℕ} {tail : List TxOutput}
    (h : Parts ch asset tx funding kept lanes outs tail)
    (htail : tail ≠ [] → ch.isElements = true) :
    tx.feeIn (assetOn ch asset) = funding - kept := by
  rcases h.tail_eq with heq | ⟨heq, hel⟩
  · have helt : tx.isElements = true := h.isElements.trans (htail (by simp [heq]))
    rw [feeIn, if_pos helt, h.filter_outputIsFee helt, heq, amountIn_singleton,
      if_pos rfl]
  · have houts : tx.outputs = outs := by rw [h.outputs, heq, append_nil]
    rw [feeIn, if_neg (by simp [h.isElements, hel]), houts, h.spent, h.amounts, if_pos rfl,
      if_pos rfl]
    omega

/-- What lane 0 pays of a share. -/
def keptShare (dustLimit amount : ℕ) : ℕ := if dustLimit ≤ amount then amount else 0

lemma keptShare_le (dustLimit amount : ℕ) : keptShare dustLimit amount ≤ amount := by
  unfold keptShare
  split_ifs <;> omega

lemma sum_dustShare (dustLimit : ℕ) (asset : Option AssetId) (script : Bytes) (amount : ℕ) :
    ((dustShare dustLimit asset script amount).map TxOutput.satoshi).sum =
      keptShare dustLimit amount := by
  unfold dustShare keptShare
  split <;> simp

/-- Lane 0 before the further lanes. -/
theorem lane0_spec (ourScript theirScript : Bytes) (tx : BitcoinTx) (dustLimit toUs toThem : ℕ)
    (hout : tx.outputs = []) :
    ∃ outs, sortOutputs (addOverDust dustLimit theirScript toThem
        (addOverDust dustLimit ourScript toUs tx)) = { tx with outputs := outs } ∧
      (∀ o ∈ outs, o.asset = tx.outputAsset ∧ (o.script = ourScript ∨ o.script = theirScript)) ∧
      (outs.map TxOutput.satoshi).sum = keptShare dustLimit toUs + keptShare dustLimit toThem := by
  have hperm := (perm_permuteOutputs ((dustShare dustLimit tx.outputAsset ourScript toUs ++
    dustShare dustLimit tx.outputAsset theirScript toThem).map
      fun o => (⟨o, 0, ()⟩ : Slot Unit))).map Slot.out
  rw [List.map_map, Function.comp_def, List.map_id'] at hperm
  refine ⟨_, by simp only [sortOutputs, addOverDust_eq, hout, nil_append]; rfl, ?_, ?_⟩
  · intro o ho
    rcases mem_append.1 (hperm.subset ho) with ho | ho
    · exact ⟨(asset_of_mem_dustShare ho).1, .inl (asset_of_mem_dustShare ho).2⟩
    · exact ⟨(asset_of_mem_dustShare ho).1, .inr (asset_of_mem_dustShare ho).2⟩
  · rw [(hperm.map TxOutput.satoshi).sum_eq, map_append, List.sum_append, sum_dustShare,
      sum_dustShare]

/-- Lane 0 of a close: what it is paid from, and its outputs in order. -/
def closeLane0 (ch : Chain) (ourScript theirScript fundingWscript : Bytes) (funding : Outpoint)
    (fundingSats toUs toThem dustLimit : ℕ) (channelAsset : AssetId) (lanes : List CloseLane) :
    BitcoinTx :=
  sortOutputs (addOverDust dustLimit theirScript toThem (addOverDust dustLimit ourScript toUs
    (closeInputs ch fundingWscript funding fundingSats channelAsset lanes)))

/-- How a close is built: lane 0 sorted, then the further lanes, then the fee. -/
theorem closeTxOf_ok {ourScript theirScript fundingWscript : Bytes} {funding : Outpoint}
    {fundingSats toUs toThem dustLimit : ℕ} {lanes : List CloseLane}
    (h : closeTxOf ch keypath ourScript theirScript fundingWscript funding fundingSats toUs toThem
      dustLimit channelAsset lanes = some tx) :
    let tx₀ := closeLane0 ch ourScript theirScript fundingWscript funding fundingSats toUs toThem
      dustLimit channelAsset lanes
    toUs + toThem ≤ fundingSats ∧ (lanes = [] ∧ tx₀.finalize = some tx ∨
      lanes ≠ [] ∧ ∃ tx₁, lanes.foldlM (addLane keypath ourScript theirScript) tx₀ = some tx₁ ∧
        tx = (tx₁.setOutputAsset (some channelAsset)).addOutput []
          (fundingSats - (keptShare dustLimit toUs + keptShare dustLimit toThem))) := by
  obtain ⟨totalOut, htotal, h⟩ := bind_eq_some_iff.1 h
  obtain ⟨_, hfit, h⟩ := bind_eq_some_iff.1 h
  obtain ⟨_, -, h⟩ := bind_eq_some_iff.1 h
  obtain ⟨lane0Out, hlane0, h⟩ := bind_eq_some_iff.1 h
  obtain ⟨_, -, h⟩ := bind_eq_some_iff.1 h
  obtain ⟨-, rfl⟩ := amountAdd_eq_some.1 htotal
  obtain ⟨-, rfl⟩ := amountAdd_eq_some.1 hlane0
  refine ⟨guard_eq_some.1 hfit, ?_⟩
  cases lanes with
  | nil => exact .inl ⟨rfl, h⟩
  | cons l lanes =>
    obtain ⟨tx₁, htx₁, h⟩ := bind_eq_some_iff.1 h
    obtain ⟨fee, hfee, h⟩ := bind_eq_some_iff.1 h
    obtain ⟨-, rfl⟩ := amountSub_eq_some.1 hfee
    cases h
    exact .inr ⟨cons_ne_nil _ _, tx₁, htx₁, rfl⟩

lemma lanesAmount_eq_zero (hel : ch.isElements = false) {a : Option AssetId} (ha : a ≠ none)
    (lanes : List CloseLane) : lanesAmount ch a lanes = 0 := by
  refine sum_eq_zero fun n hn => ?_
  obtain ⟨l, -, rfl⟩ := List.mem_map.1 hn
  simp [assetOn, hel, Ne.symm ha]

section conserves

variable {ch : Chain} {keypath : Option (Bytes → Bool)}
  (hk : ∀ script, keypathAdded keypath script = true) {ourScript theirScript : Bytes}
include hk

/-- A lane is paid out in its asset, to the two scripts. -/
theorem addLane_spec {tx' : BitcoinTx} {l : CloseLane} (h : tx.OnChain ch)
    (hadd : addLane keypath ourScript theirScript tx l = some tx') :
    tx'.OnChain ch ∧ ∃ outs, Extends ourScript theirScript tx tx' outs ∧
      ∀ a, amountIn a outs =
        if assetOn ch l.asset = a then l.fundingSats else 0 := by
  rw [addLane_eq hk] at hadd
  split at hadd
  · next hfit =>
    obtain ⟨hset, hasset⟩ := h.setOutputAsset l.asset
    obtain ⟨outs, htx, hmem, hsum⟩ := foldl_addNonzero_spec
      (laneOrder (l.toUs, ourScript) (l.toThem, theirScript)) (tx.setOutputAsset (some l.asset))
    rw [htx] at hadd
    cases hadd
    have hshares : laneOrder (l.toUs, ourScript) (l.toThem, theirScript) ~
        [(l.toUs, ourScript), (l.toThem, theirScript)] := by
      unfold laneOrder
      split
      · exact .rfl
      · exact .swap ..
    refine ⟨⟨hset.isElements, hset.outputAsset⟩, outs, ⟨by simp, by simp, by simp, fun o ho => ?_⟩,
      fun a => ?_⟩
    · have := (hshares.map Prod.snd).subset (hmem o ho).2
      simpa using this
    · rw [amountIn_of_asset fun o ho => (hmem o ho).1, hasset, hsum,
        (hshares.map Prod.fst).sum_eq]
      simp [hfit.2]
  · cases hadd

/-- The lanes' outputs pay the lanes' amounts. -/
lemma foldlM_addLane_spec {tx' : BitcoinTx} {lanes : List CloseLane} (h : tx.OnChain ch)
    (hadd : lanes.foldlM (addLane keypath ourScript theirScript) tx = some tx') :
    tx'.OnChain ch ∧ ∃ outs, Extends ourScript theirScript tx tx' outs ∧
      ∀ a, amountIn a outs = lanesAmount ch a lanes := by
  induction lanes generalizing tx with
  | nil =>
    cases hadd
    exact ⟨h, [], ⟨rfl, rfl, (append_nil _).symm, fun o ho => by cases ho⟩, fun a => rfl⟩
  | cons l lanes ih =>
    rw [foldlM_cons] at hadd
    obtain ⟨tx₁, hlane, hrest⟩ := bind_eq_some_iff.1 hadd
    obtain ⟨h₁, outs, hext, hamount⟩ := addLane_spec hk h hlane
    obtain ⟨h', outs', hext', hamount'⟩ := ih h₁ hrest
    refine ⟨h', outs ++ outs', ⟨?_, ?_, ?_, fun o ho => ?_⟩, fun a => ?_⟩
    · rw [hext'.isElements, hext.isElements]
    · rw [hext'.inputs, hext.inputs]
    · rw [hext'.outputs, hext.outputs, append_assoc]
    · exact (mem_append.1 ho).elim (hext.scripts o) (hext'.scripts o)
    · rw [amountIn_append, hamount, hamount']
      rfl

/-- The transaction of a close has the parts, and of one lane no fee output where the chain has none. -/
theorem parts_closeTxOf {fundingWscript : Bytes} {funding : Outpoint}
    {fundingSats toUs toThem dustLimit : ℕ} {lanes : List CloseLane} (hours : ourScript ≠ [])
    (htheirs : theirScript ≠ [])
    (h : closeTxOf ch keypath ourScript theirScript fundingWscript funding fundingSats toUs toThem
      dustLimit channelAsset lanes = some tx) :
    ∃ amounts outs tail, Parts ch channelAsset tx fundingSats
      (keptShare dustLimit toUs + keptShare dustLimit toThem) amounts outs tail ∧
      (lanes = [] → tail ≠ [] → ch.isElements = true) := by
  obtain ⟨hchain, hasset, houts, hspent⟩ :=
    closeInputs_spec ch fundingWscript funding fundingSats channelAsset lanes
  obtain ⟨hfit, h⟩ := closeTxOf_ok h
  obtain ⟨outs, htx, hmem, hsum⟩ := lane0_spec ourScript theirScript
    (closeInputs ch fundingWscript funding fundingSats channelAsset lanes) dustLimit toUs toThem houts
  rw [← closeLane0] at htx
  have hscripts : ∀ o : TxOutput, o.script = ourScript ∨ o.script = theirScript → o.script ≠ [] := by
    rintro o (ho | ho)
    · rwa [ho]
    · rwa [ho]
  have hamount : ∀ a, amountIn a outs = if assetOn ch channelAsset = a then
      keptShare dustLimit toUs + keptShare dustLimit toThem else 0 := by
    intro a
    rw [amountIn_of_asset fun o ho => (hmem o ho).1, hasset, hsum]
  have hkept : keptShare dustLimit toUs + keptShare dustLimit toThem ≤ fundingSats := by
    have := keptShare_le dustLimit toUs
    have := keptShare_le dustLimit toThem
    omega
  rw [htx] at h
  rcases h with ⟨rfl, h⟩ | ⟨hne, tx₁, hadd, rfl⟩
  · -- one lane: the fee output is what the outputs leave
    have hnone : ∀ o ∈ outs, o.script ≠ [] := fun o ho => hscripts o (hmem o ho).2
    have hfinal := finalize_eq_some h fun o ho => ⟨(hmem o ho).1, hnone o ho⟩
    have hin : ((closeInputs ch fundingWscript funding fundingSats channelAsset []).inputs.map
        TxInput.amount).sum = fundingSats := by
      simp [closeInputs, bitcoinTx]
    have hel := hchain.isElements
    simp only [hin, hsum] at hfinal
    cases helc : ch.isElements with
    | true =>
      rw [if_pos (hel.trans helc)] at hfinal
      rw [hfinal]
      refine ⟨_, _, _, ⟨hel, hspent, rfl, hnone, hamount, hkept, .inl ?_, ?_⟩, fun _ _ => rfl⟩
      · rw [hasset]
      · exact fun hel _ ha => lanesAmount_eq_zero hel ha []
    | false =>
      rw [if_neg (by simp [hel, helc])] at hfinal
      rw [hfinal]
      refine ⟨_, _, [], ⟨hel, hspent, (append_nil _).symm, hnone, hamount, hkept,
        .inr ⟨rfl, helc⟩, ?_⟩, fun _ hne => absurd rfl hne⟩
      exact fun hel _ ha => lanesAmount_eq_zero hel ha []
  · -- several: the shares of the lanes, and the rest of lane 0
    have hchain₀ : BitcoinTx.OnChain ch
        { closeInputs ch fundingWscript funding fundingSats channelAsset lanes with outputs := outs } :=
      ⟨hchain.isElements, hchain.outputAsset⟩
    obtain ⟨hchain₁, outs', hext, hlanes⟩ := foldlM_addLane_spec hk hchain₀ hadd
    obtain ⟨-, hasset₁⟩ := hchain₁.setOutputAsset channelAsset
    have houts : ((tx₁.setOutputAsset (some channelAsset)).addOutput [] (fundingSats -
        (keptShare dustLimit toUs + keptShare dustLimit toThem))).outputs = (outs ++ outs') ++
          [⟨fundingSats - (keptShare dustLimit toUs + keptShare dustLimit toThem), [],
            assetOn ch channelAsset⟩] := by
      simp only [addOutput_outputs, setOutputAsset_outputs, hext.outputs, hasset₁]
    refine ⟨fun a => lanesAmount ch a lanes, _, _, ⟨?_, fun a => ?_, houts, fun o ho => ?_,
      fun a => ?_, hkept, .inl rfl, fun hel a ha => lanesAmount_eq_zero hel ha lanes⟩, ?_⟩
    · simp [hext.isElements, hchain.isElements]
    · rw [← hspent a]
      simp [spent, hext.inputs]
    · exact (mem_append.1 ho).elim (fun ho => hscripts o (hmem o ho).2)
        fun ho => hscripts o (hext.scripts o ho)
    · rw [amountIn_append, hamount, hlanes]
    · exact fun hnil => absurd hnil hne

end conserves

/-! ### The close -/

/-- The wallet's key, where our script is one of its own, could be noted beside our outputs. -/
def Channel.KeypathAdded (c : Channel) : Prop := ∀ script, keypathAdded c.keypath script = true

lemma bitcoinRedeem2of2_comm (key1 key2 : ByteString 33) :
    bitcoinRedeem2of2 key1 key2 = bitcoinRedeem2of2 key2 key1 := by
  unfold bitcoinRedeem2of2
  by_cases h : key1.bytes < key2.bytes
  · rw [if_pos h, if_neg (List.lt_asymm h)]
  · by_cases h' : key2.bytes < key1.bytes
    · rw [if_neg h, if_pos h']
    · rw [ByteString.ext (List.le_antisymm (List.not_lt.1 h') (List.not_lt.1 h))]

/-- The two peers build one closing transaction. -/
lemma closeTx_mirrored (ch : Chain) (h : Mirrored c c') (hk : c.KeypathAdded)
    (hk' : c'.KeypathAdded) (init : ClosingInit) (fee : ℕ) :
    closeTx ch c' init.exchange fee = closeTx ch c init fee := by
  have hout : ∀ opened, ∀ s, Function.update init.exchange.out c'.opener opened s =
      Function.update init.out c.opener opened s.other := by
    intro opened s
    rw [h.opener]
    by_cases hs : s = c.opener.other
    · rw [hs]
      simp
    · have hs' : s.other ≠ c.opener := fun h' => hs (by rw [← h', Side.other_other])
      rw [Function.update_of_ne hs, Function.update_of_ne hs']
      rfl
  have hopener : init.exchange.out c'.opener = init.out c.opener := by
    rw [h.opener]
    exact congrArg init.out c.opener.other_other
  have hlanes : init.exchange.lanes = init.lanes.map CloseLane.exchange := rfl
  unfold closeTx
  rw [hopener, h.wrongFunding]
  simp only [hout, h.shutdownScriptpubkey, h.fundingKey, h.funding, h.fundingSats, h.dustLimit,
    h.channelAsset, Side.other_LOCAL, Side.other_REMOTE, hlanes, closeTxOf_exchange hk hk',
    bitcoinRedeem2of2_comm (c.fundingKey .REMOTE) (c.fundingKey .LOCAL)]

/-- What our side and the other one have of lane 0, in whole satoshis. -/
def Channel.wholeOf (c : Channel) : Side → ℕ
  | .LOCAL => satRoundDown c.ourMsat
  | .REMOTE => satRoundDown (c.fundingSats * 1000 - c.ourMsat)

/-- The share of a side in lane 0 once the opener has paid a fee. -/
def Channel.share (c : Channel) (fee : ℕ) (s : Side) : ℕ :=
  if s = c.opener then c.wholeOf s - fee else c.wholeOf s

/-- What lane 0 leaves to the fee beside the fee that was agreed: what rounding leaves, and the shares
below the dust limit. -/
def Channel.unpaid (c : Channel) (fee : ℕ) : ℕ :=
  (c.fundingSats - c.wholeOf .LOCAL - c.wholeOf .REMOTE) +
    (c.share fee .LOCAL - keptShare c.dustLimit (c.share fee .LOCAL)) +
    (c.share fee .REMOTE - keptShare c.dustLimit (c.share fee .REMOTE))

lemma wholeOf_add_le (h : Mirrored c c') :
    c.wholeOf .LOCAL + c.wholeOf .REMOTE ≤ c.fundingSats := by
  have := h.ourMsat
  simp only [Channel.wholeOf, satRoundDown]
  omega

/-- What closingd is given of lane 0. -/
theorem out_of_peerStartClosingd {init : ClosingInit} (hcredit : c.creditOwed = 0)
    (h : peerStartClosingd c = some init) : init.out = c.wholeOf := by
  obtain ⟨theirs, htheirs, h⟩ := bind_eq_some_iff.1 h
  obtain ⟨out, hout, h⟩ := bind_eq_some_iff.1 h
  obtain ⟨lanes, -, h⟩ := bind_eq_some_iff.1 h
  cases h
  unfold amountSatSubMsat at htheirs
  split at htheirs
  · obtain ⟨-, rfl⟩ := amountSub_eq_some.1 htheirs
    rw [payCredit, if_pos hcredit] at hout
    cases hout
    funext s
    cases s <;> rfl
  · cases htheirs

/-- The close of a side has the parts of its channel. -/
theorem parts_mutualClose {fee : ℕ} (hcredit : c.creditOwed = 0) (hk : c.KeypathAdded)
    (hscripts : ∀ s, c.shutdownScriptpubkey s ≠ []) (htx : mutualClose ch c fee = some tx) :
    fee ≤ c.wholeOf c.opener ∧ ∃ amounts outs tail,
      Parts ch c.channelAsset tx c.fundingSats (keptShare c.dustLimit (c.share fee .LOCAL) +
        keptShare c.dustLimit (c.share fee .REMOTE)) amounts outs tail ∧
      (c.lanes = [] → tail ≠ [] → ch.isElements = true) := by
  obtain ⟨init, hinit, hclose⟩ := bind_eq_some_iff.1 htx
  obtain ⟨opened, hopened, hrest⟩ := bind_eq_some_iff.1 hclose
  obtain ⟨tx₀, htx₀, hlast⟩ := bind_eq_some_iff.1 hrest
  obtain ⟨hfee, rfl⟩ := amountSub_eq_some.1 hopened
  rw [out_of_peerStartClosingd hcredit hinit] at hfee htx₀
  have hshare : ∀ s, Function.update c.wholeOf c.opener (c.wholeOf c.opener - fee) s =
      c.share fee s := by
    intro s
    unfold Channel.share
    by_cases hs : s = c.opener
    · rw [hs, Function.update_self, if_pos rfl]
    · rw [Function.update_of_ne hs, if_neg hs]
  rw [hshare, hshare] at htx₀
  obtain ⟨amounts, outs, tail, hparts, htail⟩ :=
    parts_closeTxOf hk (hscripts .LOCAL) (hscripts .REMOTE) htx₀
  have hnil : c.lanes = [] → init.lanes = [] := by
    intro hnil
    obtain ⟨_, -, h⟩ := bind_eq_some_iff.1 hinit
    obtain ⟨_, -, h⟩ := bind_eq_some_iff.1 h
    obtain ⟨lanes, hlanes, h⟩ := bind_eq_some_iff.1 h
    rw [hnil] at hlanes
    cases hlanes
    cases h
    rfl
  refine ⟨hfee, amounts, outs, tail, ?_, fun hc => htail (hnil hc)⟩
  cases hwrong : c.wrongFunding with
  | none =>
    rw [hwrong] at hlast
    cases hlast
    exact hparts
  | some outpoint =>
    rw [hwrong] at hlast
    cases hlast
    -- the outpoint of an input is no part
    refine { hparts with spent := fun a => ?_ }
    rw [← hparts.spent a]
    unfold spent
    cases tx₀.inputs with
    | nil => rfl
    | cons i ins => by_cases ha : i.asset = a <;> simp [ha]

/-- The two sides build the same mutual close, or none; in it each asset's inputs are its outputs
and, in lane 0's, the fee: what was agreed, and what rounding and the dust limit leave. -/
theorem mutualClose_mirrored (ch : Chain) (c c' : Channel) (fee : ℕ) (h : Mirrored c c')
    (hcredit : c.creditOwed = 0) (hcredit' : c'.creditOwed = 0) (hk : c.KeypathAdded)
    (hk' : c'.KeypathAdded) (hscripts : ∀ s, c.shutdownScriptpubkey s ≠ []) :
    mutualClose ch c fee = mutualClose ch c' fee ∧
      ∀ tx, mutualClose ch c fee = some tx →
        Conserves ch c.channelAsset tx ∧
        (ch.isElements = true ∨ c.lanes = [] →
          tx.feeIn (assetOn ch c.channelAsset) = fee + c.unpaid fee) := by
  constructor
  · unfold mutualClose
    rw [peerStartClosingd_mirrored h hcredit hcredit']
    cases peerStartClosingd c with
    | none => rfl
    | some init => exact (closeTx_mirrored ch h hk hk' init fee).symm
  · intro tx htx
    obtain ⟨hfee, amounts, outs, tail, hparts, htail⟩ := parts_mutualClose hcredit hk hscripts htx
    refine ⟨hparts.conserves, fun hone => ?_⟩
    have hwhole := wholeOf_add_le h
    have hkept := keptShare_le c.dustLimit (c.share fee .LOCAL)
    have hkept' := keptShare_le c.dustLimit (c.share fee .REMOTE)
    have hshares : c.share fee .LOCAL + c.share fee .REMOTE + fee =
        c.wholeOf .LOCAL + c.wholeOf .REMOTE := by
      unfold Channel.share
      cases hopener : c.opener <;> rw [hopener] at hfee <;> simp <;> omega
    rw [hparts.feeIn_eq, Channel.unpaid]
    · omega
    · rcases hone with hel | hone
      · exact fun _ => hel
      · exact htail hone

namespace Example

def chain : Chain := ⟨true, .replicate 32 1⟩

/-- A channel of two assets that we opened. -/
def alice : Channel where
  funding := ⟨.replicate 32 5, 0⟩
  fundingSats := 100000
  channelAsset := .replicate 32 8
  opener := .LOCAL
  ourMsat := 60000500
  lanes := [⟨.replicate 32 9, 1, 500, 200300⟩]
  fundingKey
    | .LOCAL => .replicate 33 2
    | .REMOTE => .replicate 33 3
  shutdownScriptpubkey
    | .LOCAL => 0x00 :: 20 :: List.replicate 20 7
    | .REMOTE => 0x00 :: 20 :: List.replicate 20 6
  dustLimit := 546
  creditOwed := 0
  wrongFunding := none
  keypath := none

/-- The same channel on the other side. -/
def bob : Channel :=
  { alice with
    opener := .REMOTE
    ourMsat := 39999500
    lanes := [⟨.replicate 32 9, 1, 500, 299700⟩]
    fundingKey := fun s => alice.fundingKey s.other
    shutdownScriptpubkey := fun s => alice.shutdownScriptpubkey s.other }

lemma mirrored : Mirrored alice bob where
  funding := rfl
  fundingSats := rfl
  channelAsset := rfl
  opener := rfl
  ourMsat := rfl
  lanes := .cons ⟨rfl, rfl, rfl, rfl⟩ .nil
  fundingKey _ := rfl
  shutdownScriptpubkey _ := rfl
  dustLimit := rfl
  wrongFunding := rfl

/-- The close of the example, of which the fee is the hundred that were agreed and the satoshi that
rounding leaves. -/
theorem mutualClose_alice_bob : mutualClose chain alice 100 = mutualClose chain bob 100 ∧
    ∃ tx, mutualClose chain alice 100 = some tx ∧ Conserves chain (.replicate 32 8) tx ∧
      tx.feeIn (some (.replicate 32 8)) = 101 := by
  have hscripts : ∀ s, alice.shutdownScriptpubkey s ≠ [] := by
    intro s
    cases s <;> simp [alice]
  obtain ⟨heq, hclose⟩ := mutualClose_mirrored chain alice bob 100 mirrored rfl rfl
    (fun _ => rfl) (fun _ => rfl) hscripts
  have hsome : (mutualClose chain alice 100).isSome = true := by decide +kernel
  obtain ⟨tx, htx⟩ := isSome_iff_exists.1 hsome
  obtain ⟨hconserves, hfee⟩ := hclose tx htx
  refine ⟨heq, tx, htx, hconserves, (hfee (.inl rfl)).trans ?_⟩
  decide

end Example

end SeqLN.Closing
