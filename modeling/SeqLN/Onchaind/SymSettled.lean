import SeqLN.Lib.FirstFit
import SeqLN.Sym.SettlementAgreement

/-!
# Reading a settlement off the chain

`onchaind/onchaind.c`, `sym_settled`: each output of a settlement that pays an HTLC's script is tracked
as that HTLC, and those that no output was found for are reported missing. The script names owner, hash
and expiry, not amount or lane, and the loop takes the first unmatched HTLC. `settled_exact_iff`: this
is right exactly where, among HTLCs of one script, the untrimmed ones come first, in the order of the
settlement.
-/

namespace SeqLN.Onchaind

open Lib Lib.FirstFit SeqLN.Sym List Option

/-! ### The loop over the outputs -/

/-- What `onchaind` is told of an HTLC. Source: `struct htlc_stub` -/
structure HtlcStub where
  owner : Side
  cltvExpiry : ℕ
  ripemd : ByteString 20
  hasLockPoint : Bool
  deriving DecidableEq

/-- An output of a transaction, with its asset's version and tag. -/
structure TxOutput where
  asset : ByteString 33
  value : ℕ
  script : Bytes
  deriving DecidableEq

/-- A transaction as `onchaind` gets it: an output that was left out is none.
Source: `struct tx_parts` -/
structure TxParts where
  txid : ByteString 32
  outputs : List (Option TxOutput)

/-- What the loop reads of the channel. -/
structure Watched where
  /-- Source: `channel_asset` -/
  channelAsset : ByteString 33
  /-- The assets of the other lanes. Source: `sym_lanes` -/
  lanes : List (ByteString 33)
  /-- Source: `sym_basepoints[LOCAL].payment` -/
  payment : Pubkey
  /-- Source: `sym_basepoints` -/
  htlc : Side → Pubkey
  /-- Source: `sym_htlcs` -/
  stubs : List HtlcStub

/-- An output that is tracked: our balance, or that of an HTLC, given by its place in the list. -/
inductive Tracked where
  | toUs (n amt : ℕ)
  | htlc (n amt stub : ℕ)
  deriving DecidableEq

/-- What the loop leaves: the tracked outputs and the HTLCs, each with its place, that are still
unmatched. -/
structure Settled where
  tracked : List Tracked
  unmatched : List (HtlcStub × ℕ)

section loop

variable (S : SpkBuilder) (w : Watched)

/-- The script of an HTLC's output. Source: `sym_htlc_tree`, `tap_tree2_scriptpubkey` -/
def stubScript (s : HtlcStub) : Bytes := S.htlc (w.htlc s.owner) (w.htlc s.owner.other) s.ripemd s.cltvExpiry

/-- An HTLC that an output may be. -/
def paysStub (u : HtlcStub × ℕ) (o : TxOutput) : Bool := !u.1.hasLockPoint && stubScript S w u.1 = o.script

/-- One output. Source: the loop of `sym_settled` -/
def settleOutput (s : Settled) (o : Option TxOutput × ℕ) : Settled :=
  match o.1 with
  | none => s
  | some out =>
    if out.script = [] then s
    else if out.asset ≠ w.channelAsset ∧ out.asset ∉ w.lanes then s
    else if out.script = S.p2wpkh w.payment then
      { s with tracked := s.tracked ++ [.toUs o.2 out.value] }
    else
      match s.unmatched.find? (paysStub S w · out) with
      | some u =>
        { tracked := s.tracked ++ [.htlc o.2 out.value u.2]
          unmatched := s.unmatched.eraseP (paysStub S w · out) }
      | none => s

/-- The settlement of a state; one that was read before is not read again.
Source: `sym_settled`; the unmatched HTLCs go to `note_missing_htlcs` -/
def symSettled (settled : List (ByteString 32)) (tx : TxParts) : Option Settled :=
  if tx.txid ∈ settled then none
  else some (tx.outputs.zipIdx.foldl (settleOutput S w) ⟨[], w.stubs.zipIdx⟩)

/-! ### The loop as a first fit -/

variable {o : Option TxOutput × ℕ}

/-- The outputs that the loop looks up an HTLC for. -/
def lookedUp (out : TxOutput) : Bool :=
  out.script ≠ [] ∧ (out.asset = w.channelAsset ∨ out.asset ∈ w.lanes) ∧
    out.script ≠ S.p2wpkh w.payment

def lookedUpItem (o : Option TxOutput × ℕ) : Option (TxOutput × ℕ) :=
  (o.1.filter (lookedUp S w)).map fun out => (out, o.2)

def fitsItem (u : HtlcStub × ℕ) (x : TxOutput × ℕ) : Bool := paysStub S w u x.1

/-- The place of an output, its value and the place of its HTLC. -/
def Tracked.stub? : Tracked → Option (ℕ × ℕ × ℕ)
  | .toUs _ _ => none
  | .htlc n amt stub => some (n, amt, stub)

variable {S w}

lemma settleOutput_of_none {s : Settled} (h : lookedUpItem S w o = none) :
    (settleOutput S w s o).tracked.filterMap Tracked.stub? = s.tracked.filterMap Tracked.stub? ∧
      (settleOutput S w s o).unmatched = s.unmatched := by
  obtain ⟨_ | out, n⟩ := o
  · exact ⟨rfl, rfl⟩
  · have hno : ¬ lookedUp S w out = true := by
      simpa [lookedUpItem] using h
    unfold settleOutput
    dsimp only
    split
    · exact ⟨rfl, rfl⟩
    · next hscript =>
      split
      · exact ⟨rfl, rfl⟩
      · next hasset =>
        split
        · simp [Tracked.stub?]
        · next hours =>
          refine absurd (decide_eq_true ⟨hscript, ?_, hours⟩) hno
          tauto

lemma settleOutput_of_some {s : Settled} {x : TxOutput × ℕ} (h : lookedUpItem S w o = some x) :
    settleOutput S w s o =
      match s.unmatched.find? (paysStub S w · x.1) with
      | some u =>
        { tracked := s.tracked ++ [.htlc x.2 x.1.value u.2]
          unmatched := s.unmatched.eraseP (paysStub S w · x.1) }
      | none => s := by
  obtain ⟨o, n⟩ := o
  obtain ⟨out, hout, rfl⟩ := map_eq_some_iff.1 h
  obtain ⟨rfl, hyes⟩ := filter_eq_some_iff.1 hout
  obtain ⟨hscript, hasset, hours⟩ := of_decide_eq_true hyes
  unfold settleOutput
  dsimp only
  rw [if_neg hscript, if_neg (by tauto), if_neg hours]

/-- The whole loop: its HTLCs and what is left are those of a first fit. -/
theorem foldl_settleOutput (es : List (Option TxOutput × ℕ)) (s : Settled) :
    (es.foldl (settleOutput S w) s).tracked.filterMap Tracked.stub? =
        s.tracked.filterMap Tracked.stub? ++
          (firstFit (fitsItem S w) s.unmatched (es.filterMap (lookedUpItem S w))).1.map
            (fun q => (q.1.2, q.1.1.value, q.2.2)) ∧
      (es.foldl (settleOutput S w) s).unmatched =
        (firstFit (fitsItem S w) s.unmatched (es.filterMap (lookedUpItem S w))).2 := by
  induction es generalizing s with
  | nil => exact ⟨(append_nil _).symm, rfl⟩
  | cons e es ih =>
    rw [foldl_cons]
    obtain ⟨htracked, hunmatched⟩ := ih (settleOutput S w s e)
    rw [htracked, hunmatched]
    cases hitem : lookedUpItem S w e with
    | none =>
      obtain ⟨ht, hu⟩ := settleOutput_of_none (s := s) hitem
      rw [filterMap_cons_none hitem, ht, hu]
      exact ⟨rfl, rfl⟩
    | some x =>
      rw [filterMap_cons_some hitem, settleOutput_of_some hitem]
      cases hfind : s.unmatched.find? (paysStub S w · x.1) with
      | none =>
        rw [@firstFit_of_none _ _ (fitsItem S w) _ x _ hfind]
        exact ⟨rfl, rfl⟩
      | some u =>
        rw [@firstFit_of_some _ _ (fitsItem S w) _ x u _ hfind]
        refine ⟨?_, rfl⟩
        rw [filterMap_append, append_assoc]
        rfl

end loop

/-! ### A state's settlement -/

/-- What `onchaind` is told of an HTLC of a symmetric channel, where no HTLC is locked to a point. -/
def stubOf (h : SymHtlc) : HtlcStub := ⟨h.owner, h.cltvExpiry, h.paymentRipemd, false⟩

/-- An asset's version and tag. -/
def assetTag (id : ByteString 32) : ByteString 33 := ⟨1 :: id.bytes, by simp⟩

/-- The outputs of a state: those of one asset, or of each lane.
Source: `common/sym_channel.c`, `sym_channel_state` -/
def symChannelState (S : SpkBuilder) (c : SettleChannel) (view : Side) (htlcs : List (SymHtlc × ℕ)) :
    Except String (List SymOutput) :=
  match c.lanes with
  | [lane] => symSettlement S { laneInput c view htlcs 0 lane with htlcs := htlcs.map Prod.fst }
  | _ => symLanesSettlement S c view htlcs

/-- A symmetric channel, its HTLCs with their lanes, and what `onchaind` knows of them: lanes are in
assets of their own, and each HTLC in one of them. -/
structure SettledChannel where
  channel : SettleChannel
  channelAsset : ByteString 32
  laneAssets : List (ByteString 32)
  htlcs : List (SymHtlc × ℕ)
  assets_eq : channel.lanes.map (·.asset) = none :: laneAssets.map some
  distinct : (channelAsset :: laneAssets).Nodup
  lane_lt : ∀ h ∈ htlcs, h.2 < channel.lanes.length

namespace SettledChannel

variable (S : SpkBuilder) (x : SettledChannel)

def assets : List (ByteString 32) := x.channelAsset :: x.laneAssets

def watched : Watched where
  channelAsset := assetTag x.channelAsset
  lanes := x.laneAssets.map assetTag
  payment := x.channel.payment .LOCAL
  htlc := x.channel.htlc
  stubs := x.htlcs.map fun h => stubOf h.1

/-- An output of the settlement on chain, in the channel's asset if it names none. -/
def toTx (o : SymOutput) : TxOutput := ⟨assetTag (o.asset.getD x.channelAsset), o.amount, o.spk⟩

/-- The script of an HTLC's output. -/
def script (h : SymHtlc × ℕ) : Bytes := (htlcOutput S x.channel.htlc h.1).spk

/-- An output besides those of the settlement, such as the fee, the change or the marker: it pays no
HTLC of the channel in one of its assets. -/
def Extra (o : Option TxOutput) : Prop :=
  ∀ out, o = some out → (∃ id ∈ x.assets, out.asset = assetTag id) → ∀ h ∈ x.htlcs, out.script ≠ x.script S h

/-- A transaction that settles a state. -/
structure Settles (view : Side) (tx : TxParts) : Prop where
  outputs : ∃ outs first last, symChannelState S x.channel view x.htlcs = .ok outs ∧
    tx.outputs = first ++ (outs.map fun o => some (x.toTx o)) ++ last ∧
    (∀ o ∈ first, x.Extra S o) ∧ ∀ o ∈ last, x.Extra S o

/-- An output and an HTLC are of one lane and one whole amount. -/
def SameValue (out : TxOutput) (h : SymHtlc × ℕ) : Prop :=
  (x.assets[h.2]?).map assetTag = some out.asset ∧ satRoundDown h.1.amount = out.value

/-- Each output that pays an HTLC's script is tracked as an HTLC of its lane and amount, and the
unmatched HTLCs are those without an output. -/
structure Exact (tx : TxParts) (r : Settled) : Prop where
  all : ∀ n out, tx.outputs[n]? = some (some out) → (∃ id ∈ x.assets, out.asset = assetTag id) →
    (∃ h ∈ x.htlcs, out.script = x.script S h) → ∃ j, .htlc n out.value j ∈ r.tracked
  matched : ∀ n amt j, .htlc n amt j ∈ r.tracked → ∃ out h, tx.outputs[n]? = some (some out) ∧
    amt = out.value ∧ x.htlcs[j]? = some h ∧ out.script = x.script S h ∧ x.SameValue out h
  missing : List.Perm (r.unmatched.filterMap fun u => x.htlcs[u.2]?)
    (x.htlcs.filter fun h => Trimmed (symDustLimit x.channel) h.1)

/-- The order of the settlement: by lane, then by amount. -/
def value (h : SymHtlc × ℕ) : ℕ ×ₗ ℕ := toLex (h.2, satRoundDown h.1.amount)

/-- Among HTLCs of one script, those with an output come first, in the settlement's order. -/
def InOrder : Prop :=
  x.htlcs.Pairwise fun a b => x.script S a = x.script S b →
    ¬ Trimmed (symDustLimit x.channel) b.1 → ¬ Trimmed (symDustLimit x.channel) a.1 ∧ value a ≤ value b

/-! ### Slots and items -/

/-- The HTLC of a slot, in the settlement's order. -/
def slotValue (u : HtlcStub × ℕ) : ℕ ×ₗ ℕ := (x.htlcs[u.2]?).elim (toLex (0, 0)) value

/-- The script of a slot; one that is locked to a point has none here. -/
def slotKey (u : HtlcStub × ℕ) : Option Bytes :=
  if u.1.hasLockPoint then none else some (stubScript S x.watched u.1)

/-- The lane of an asset. -/
def laneOf (tag : ByteString 33) : ℕ := (x.assets.map assetTag).idxOf tag

def itemKey (i : TxOutput × ℕ) : Option Bytes := some i.1.script

def itemValue (i : TxOutput × ℕ) : ℕ ×ₗ ℕ := toLex (x.laneOf i.1.asset, i.1.value)

/-- A place in the order that has an output. -/
def hasOutput (v : ℕ ×ₗ ℕ) : Bool := symDustLimit x.channel ≤ (ofLex v).2

variable {S x}

lemma fitsItem_eq : fitsItem S x.watched = sameKey (x.slotKey S) itemKey := by
  funext u i
  unfold fitsItem paysStub sameKey slotKey itemKey
  cases u.1.hasLockPoint <;> simp

lemma slots_eq : x.watched.stubs.zipIdx.map (fun u => (x.slotKey S u, x.slotValue u)) =
    x.htlcs.map fun h => (some (x.script S h), value h) := by
  refine ext_getElem? fun i => ?_
  rw [List.getElem?_map, List.getElem?_zipIdx, List.getElem?_map]
  change Option.map _ (Option.map _ ((x.htlcs.map fun h => stubOf h.1)[i]?)) = _
  rw [List.getElem?_map]
  cases hi : x.htlcs[i]? with
  | none => rfl
  | some h =>
    have hvalue : x.slotValue (stubOf h.1, 0 + i) = value h := by
      unfold slotValue
      rw [Nat.zero_add, hi]
      rfl
    simp only [map_some, hvalue]
    rfl

lemma hasOutput_value (h : SymHtlc × ℕ) :
    x.hasOutput (value h) = true ↔ ¬ Trimmed (symDustLimit x.channel) h.1 := by
  unfold hasOutput value Trimmed
  rw [decide_eq_true_eq, not_lt]
  rfl

/-- The slots are in order where the HTLCs are. -/
theorem slots_inOrder_iff :
    (x.watched.stubs.zipIdx.Pairwise fun a b => x.slotKey S a = x.slotKey S b →
      Orderly x.hasOutput (x.slotValue a) (x.slotValue b)) ↔ x.InOrder S := by
  have hmap : (x.watched.stubs.zipIdx.map fun u => (x.slotKey S u, x.slotValue u)).Pairwise
      (fun a b => a.1 = b.1 → Orderly x.hasOutput a.2 b.2) ↔ _ := pairwise_map
  rw [← hmap, slots_eq, pairwise_map]
  unfold InOrder Orderly
  simp only [hasOutput_value, Option.some.injEq]

/-- The slots of a key, by their HTLCs. -/
theorem slots_filter (k : Option Bytes) :
    (x.watched.stubs.zipIdx.filter (x.slotKey S · = k)).map x.slotValue =
      (x.htlcs.filter fun h => some (x.script S h) = k).map value := by
  have hmap := congrArg (fun l => (l.filter fun e => e.1 = k).map Prod.snd) (slots_eq (S := S) (x := x))
  simp only [List.filter_map, List.map_map] at hmap
  exact hmap

/-! ### The outputs of a settlement -/

variable {s : Bytes} {o : SymOutput} {view : Side} {lane : SettleLane} {l : ℕ}

/-- The outputs of one lane. -/
def laneOutputs (S : SpkBuilder) (x : SettledChannel) (view : Side) (p : SettleLane × ℕ) :
    List SymOutput :=
  (asort (settlementOutputs S (laneInput x.channel view x.htlcs p.2 p.1))).map
    fun o => { o with asset := p.1.asset }

lemma asset_of_mem_settlementOutputs {y : SettlementInput} (h : o ∈ settlementOutputs S y) :
    o.asset = none := by
  unfold settlementOutputs htlcOutputs balanceOutput at h
  rcases mem_append.1 h with h | h
  · obtain ⟨_, -, rfl⟩ := List.mem_map.1 h
    rfl
  · rcases mem_append.1 h with h | h <;> split at h <;> simp_all

/-- The outputs of a state are those of its lanes, in order. -/
lemma symChannelState_ok {outs : List SymOutput}
    (h : symChannelState S x.channel view x.htlcs = .ok outs) :
    outs = x.channel.lanes.zipIdx.flatMap (laneOutputs S x view) := by
  unfold symChannelState at h
  split at h
  · next lane hlanes =>
    have hasset : lane.asset = none := by
      have := x.assets_eq
      rw [hlanes] at this
      exact (List.cons.inj this).1
    have hall : x.htlcs.filter (fun h => h.2 = 0) = x.htlcs := by
      refine filter_eq_self.2 fun h hh => decide_eq_true ?_
      have := x.lane_lt h hh
      rw [hlanes] at this
      exact Nat.lt_one_iff.1 this
    have hinput : ({ laneInput x.channel view x.htlcs 0 lane with htlcs := x.htlcs.map Prod.fst } :
        SettlementInput) = laneInput x.channel view x.htlcs 0 lane := by
      unfold laneInput
      rw [hall]
    rw [hinput] at h
    rw [hlanes, symSettlement_ok h]
    change _ = laneOutputs S x view (lane, 0) ++ []
    rw [append_nil]
    unfold laneOutputs
    rw [map_congr_left (g := id), List.map_id]
    intro o ho
    have hnone : o.asset = none :=
      asset_of_mem_settlementOutputs ((perm_insertionSort NotAfter _).subset ho)
    dsimp only
    rw [hasset, ← hnone]
    rfl
  · cases hlanes : laneSettlements S x.channel view x.htlcs 0 x.channel.lanes with
    | error err =>
      unfold symLanesSettlement at h
      rw [hlanes] at h
      cases h
    | ok louts =>
      unfold symLanesSettlement at h
      rw [hlanes] at h
      cases h
      rw [laneSettlements_ok hlanes, flatMap_def]
      rfl

lemma assetTag_injective : Function.Injective assetTag := by
  intro a b h
  have hbytes := congrArg ByteString.bytes h
  exact ByteString.ext (List.cons.inj hbytes).2

/-- The asset that a lane's outputs are in. -/
theorem assets_getElem? (h : x.channel.lanes[l]? = some lane) :
    x.assets[l]? = some (lane.asset.getD x.channelAsset) := by
  have hasset : (none :: x.laneAssets.map some)[l]? = some lane.asset := by
    rw [← x.assets_eq, List.getElem?_map, h]
    rfl
  unfold assets
  cases l with
  | zero =>
    rw [List.getElem?_cons_zero] at hasset ⊢
    rw [← some.inj hasset]
    rfl
  | succ l =>
    rw [List.getElem?_cons_succ, List.getElem?_map] at hasset
    obtain ⟨id, hid, heq⟩ := map_eq_some_iff.1 hasset
    rw [List.getElem?_cons_succ, hid, ← heq]
    rfl

lemma tags_nodup : (x.assets.map assetTag).Nodup := x.distinct.map assetTag_injective

lemma laneOf_eq_iff {tag : ByteString 33} (hmem : tag ∈ x.assets.map assetTag) :
    x.laneOf tag = l ↔ (x.assets[l]?).map assetTag = some tag := by
  rw [← List.getElem?_map]
  unfold laneOf
  constructor
  · rintro rfl
    have hlt := idxOf_lt_length_iff.2 hmem
    rw [List.getElem?_eq_getElem hlt, getElem_idxOf]
  · intro h
    obtain ⟨hl, rfl⟩ := List.getElem?_eq_some_iff.1 h
    exact x.tags_nodup.idxOf_getElem l hl

/-- An output's place in the order of the settlement. -/
def outValue (x : SettledChannel) (o : SymOutput) : ℕ ×ₗ ℕ := x.itemValue (x.toTx o, 0)

lemma mem_laneOutputs (hlane : (lane, l) ∈ x.channel.lanes.zipIdx)
    (ho : o ∈ laneOutputs S x view (lane, l)) :
    (x.toTx o).asset ∈ x.assets.map assetTag ∧ x.laneOf (x.toTx o).asset = l := by
  obtain ⟨o', -, rfl⟩ := List.mem_map.1 ho
  have hget := assets_getElem? (List.mem_zipIdx_iff_getElem?.1 hlane)
  have hmem : assetTag (lane.asset.getD x.channelAsset) ∈ x.assets.map assetTag :=
    List.mem_map_of_mem (mem_of_getElem? hget)
  refine ⟨hmem, (laneOf_eq_iff hmem).2 ?_⟩
  rw [hget]
  rfl

lemma amount_le_of_notAfter {a b : SymOutput} (h : NotAfter a b) : a.amount ≤ b.amount := by
  by_contra hlt
  refine h ?_
  unfold cmpOutput
  rw [Nat.compare_eq_gt.2 (by omega)]
  rfl

lemma outValue_eq (hlane : (lane, l) ∈ x.channel.lanes.zipIdx)
    (ho : o ∈ laneOutputs S x view (lane, l)) : x.outValue o = toLex (l, o.amount) := by
  unfold outValue itemValue
  rw [(mem_laneOutputs hlane ho).2]
  rfl

/-- Outputs of one lane come in order of amount. -/
theorem laneOutputs_sorted (view : Side) (hlane : (lane, l) ∈ x.channel.lanes.zipIdx) :
    (laneOutputs S x view (lane, l)).Pairwise fun a b => x.outValue a ≤ x.outValue b := by
  have hamount : (laneOutputs S x view (lane, l)).Pairwise fun a b => a.amount ≤ b.amount := by
    unfold laneOutputs
    rw [pairwise_map]
    exact (pairwise_insertionSort NotAfter _).imp amount_le_of_notAfter
  refine hamount.imp_of_mem fun {a b} ha hb hle => ?_
  rw [outValue_eq hlane ha, outValue_eq hlane hb, Prod.Lex.toLex_le_toLex]
  exact .inr ⟨rfl, hle⟩

/-- The outputs of a state come in order of lane and amount. -/
theorem outputs_sorted (view : Side) :
    (x.channel.lanes.zipIdx.flatMap (laneOutputs S x view)).Pairwise
      fun a b => x.outValue a ≤ x.outValue b := by
  rw [pairwise_flatMap]
  refine ⟨fun p hp => laneOutputs_sorted view hp, ?_⟩
  have hindex : x.channel.lanes.zipIdx.Pairwise fun p q => p.2 < q.2 := by
    have hrange : (x.channel.lanes.zipIdx.map Prod.snd).Pairwise (· < ·) := by
      rw [zipIdx_map_snd]
      exact pairwise_lt_range'
    exact pairwise_map.1 hrange
  refine hindex.imp_of_mem fun {p q} hp hq hlt a ha b hb => ?_
  rw [outValue_eq hp ha, outValue_eq hq hb, Prod.Lex.toLex_le_toLex]
  exact .inl hlt

/-- The scripts that HTLC outputs have: no other output's. -/
structure HtlcScripts (S : SpkBuilder) : Prop where
  ne_nil : ∀ offerer receiver ripemd expiry, S.htlc offerer receiver ripemd expiry ≠ []
  ne_p2wpkh : ∀ offerer receiver ripemd expiry key,
    S.htlc offerer receiver ripemd expiry ≠ S.p2wpkh key

lemma filter_balanceOutput (hS : HtlcScripts S) (hs : ∃ h : SymHtlc × ℕ, x.script S h = s)
    (payment : Side → Pubkey) (node : Side → ℕ) (side : Side) :
    (balanceOutput S payment node side).filter (·.spk = s) = [] := by
  obtain ⟨h, rfl⟩ := hs
  rw [filter_eq_nil_iff]
  intro o ho heq
  unfold balanceOutput at ho
  split at ho
  · cases ho
  · rw [mem_singleton.1 ho, decide_eq_true_eq] at heq
    exact hS.ne_p2wpkh _ _ _ _ _ heq.symm

/-- The outputs of a lane that have the script of an HTLC, by their HTLCs. -/
theorem laneOutputs_perm (hS : HtlcScripts S) (view : Side)
    (hlane : (lane, l) ∈ x.channel.lanes.zipIdx) (hs : ∃ h : SymHtlc × ℕ, x.script S h = s) :
    List.Perm (((laneOutputs S x view (lane, l)).filter (·.spk = s)).map x.outValue)
      (((x.htlcs.filter fun h => x.script S h = s ∧ ¬ Trimmed (symDustLimit x.channel) h.1).filter
        (·.2 = l)).map value) := by
  have hvalues : ((laneOutputs S x view (lane, l)).filter (·.spk = s)).map x.outValue =
      ((laneOutputs S x view (lane, l)).filter (·.spk = s)).map fun o => toLex (l, o.amount) :=
    map_congr_left fun o ho => outValue_eq hlane (mem_filter.1 ho).1
  have hsorted : ((laneOutputs S x view (lane, l)).filter (·.spk = s)).map (fun o => toLex (l, o.amount)) =
      ((asort (settlementOutputs S (laneInput x.channel view x.htlcs l lane))).filter (·.spk = s)).map
        fun o => toLex (l, o.amount) := by
    unfold laneOutputs
    rw [List.filter_map, List.map_map]
    rfl
  rw [hvalues, hsorted]
  refine (((perm_asort _).filter _).map _).trans (.of_eq ?_)
  unfold settlementOutputs
  rw [filter_append, filter_append, filter_balanceOutput hS hs, filter_balanceOutput hS hs,
    append_nil, append_nil]
  unfold htlcOutputs
  simp only [laneInput, List.filter_map, List.map_map, List.filter_filter]
  have hfilter : ∀ a ∈ x.htlcs, (decide (x.script S a = s) &&
      (decide (¬ Trimmed (symDustLimit x.channel) a.1) && decide (a.2 = l))) =
      (decide (a.2 = l) && decide (x.script S a = s ∧ ¬ Trimmed (symDustLimit x.channel) a.1)) := by
    intro a _
    rw [Bool.decide_and, ← Bool.and_assoc, Bool.and_comm]
  rw [← filter_congr hfilter]
  refine map_congr_left fun a ha => ?_
  have hl : a.2 = l := by
    simp only [mem_filter, Function.comp_apply, Bool.and_eq_true, decide_eq_true_eq] at ha
    exact ha.2.2.2
  unfold value
  rw [hl]
  rfl

/-- Each HTLC is in one lane. -/
theorem perm_flatMap_lane {α β : Type} (lane : α → ℕ) (f : α → β) (as : List α) (n : ℕ) :
    List.Perm ((List.range n).flatMap fun l => (as.filter (lane · = l)).map f)
      ((as.filter (lane · < n)).map f) := by
  induction n with
  | zero => simp
  | succ n ih =>
    rw [range_succ, flatMap_append, flatMap_singleton]
    have hsplit := filter_append_perm (fun a => decide (lane a < n)) (as.filter (lane · < n + 1))
    rw [List.filter_filter, List.filter_filter] at hsplit
    have hlt : as.filter (fun a => decide (lane a < n) && decide (lane a < n + 1)) =
        as.filter (lane · < n) := filter_congr fun a _ => by
      rw [← Bool.decide_and]
      exact decide_eq_decide.2 (by omega)
    have heq : as.filter (fun a => !decide (lane a < n) && decide (lane a < n + 1)) =
        as.filter (lane · = n) := filter_congr fun a _ => by
      rw [← decide_not, ← Bool.decide_and]
      exact decide_eq_decide.2 (by omega)
    rw [hlt, heq] at hsplit
    refine (ih.append_right _).trans ?_
    rw [← map_append]
    exact hsplit.map f

/-- The outputs of a state that have the script of an HTLC, by their HTLCs. -/
theorem outputs_perm (hS : HtlcScripts S) (view : Side) (hs : ∃ h : SymHtlc × ℕ, x.script S h = s) :
    List.Perm (((x.channel.lanes.zipIdx.flatMap (laneOutputs S x view)).filter (·.spk = s)).map x.outValue)
      ((x.htlcs.filter fun h => x.script S h = s ∧ ¬ Trimmed (symDustLimit x.channel) h.1).map value) := by
  rw [filter_flatMap, map_flatMap]
  refine (List.Perm.flatMap_left _ fun p hp => laneOutputs_perm hS view hp hs).trans ?_
  have hrange : (x.channel.lanes.zipIdx.flatMap fun p =>
      ((x.htlcs.filter fun h => x.script S h = s ∧ ¬ Trimmed (symDustLimit x.channel) h.1).filter
        (·.2 = p.2)).map value) = (List.range x.channel.lanes.length).flatMap fun l =>
      ((x.htlcs.filter fun h => x.script S h = s ∧ ¬ Trimmed (symDustLimit x.channel) h.1).filter
        (·.2 = l)).map value := by
    rw [range_eq_range', ← zipIdx_map_snd 0 x.channel.lanes, flatMap_map]
  rw [hrange]
  refine (perm_flatMap_lane Prod.snd value _ _).trans (.of_eq ?_)
  rw [filter_eq_self.2 fun h hh =>
    decide_eq_true (x.lane_lt h (mem_filter.1 hh).1)]

/-! ### The items -/

variable {outputs : List (Option TxOutput × ℕ)} {i : TxOutput × ℕ} {tx : TxParts}

/-- The script is that of an HTLC of the channel. -/
def isHtlc (S : SpkBuilder) (x : SettledChannel) (s : Bytes) : Bool := x.htlcs.any fun h => x.script S h = s

lemma isHtlc_iff : x.isHtlc S s = true ↔ ∃ h ∈ x.htlcs, x.script S h = s := by
  unfold isHtlc
  rw [List.any_eq_true]
  simp only [decide_eq_true_eq]

/-- The outputs that an HTLC is looked up for and that have the script of one. -/
def items (S : SpkBuilder) (x : SettledChannel) (outputs : List (Option TxOutput × ℕ)) :
    List (TxOutput × ℕ) :=
  (outputs.filterMap (lookedUpItem S x.watched)).filter fun i => x.isHtlc S i.1.script

lemma lookedUp_watched {out : TxOutput} :
    lookedUp S x.watched out = true ↔ out.script ≠ [] ∧ out.asset ∈ x.assets.map assetTag ∧
      out.script ≠ S.p2wpkh (x.channel.payment .LOCAL) := by
  unfold lookedUp
  rw [decide_eq_true_eq]
  unfold assets
  rw [map_cons, mem_cons]
  rfl

lemma mem_items :
    i ∈ x.items S outputs ↔ (some i.1, i.2) ∈ outputs ∧ lookedUp S x.watched i.1 = true ∧
      x.isHtlc S i.1.script = true := by
  unfold items lookedUpItem
  rw [mem_filter, mem_filterMap, ← and_assoc]
  refine and_congr_left fun _ => ?_
  constructor
  · rintro ⟨⟨o, n⟩, ho, hi⟩
    obtain ⟨out, hout, rfl⟩ := map_eq_some_iff.1 hi
    obtain ⟨rfl, hyes⟩ := filter_eq_some_iff.1 hout
    exact ⟨ho, hyes⟩
  · rintro ⟨ho, hyes⟩
    exact ⟨_, ho, map_eq_some_iff.2 ⟨i.1, filter_eq_some_iff.2 ⟨rfl, hyes⟩, rfl⟩⟩

/-- An output that is looked up and has the script of an HTLC. -/
def htlcOut (S : SpkBuilder) (x : SettledChannel) (o : Option TxOutput) : Option TxOutput :=
  o.filter fun out => lookedUp S x.watched out && x.isHtlc S out.script

lemma items_map_fst (outputs : List (Option TxOutput)) (n : ℕ) :
    (x.items S (outputs.zipIdx n)).map Prod.fst = outputs.filterMap (x.htlcOut S) := by
  induction outputs generalizing n with
  | nil => rfl
  | cons o outputs ih =>
    unfold items at ih ⊢
    rw [zipIdx_cons, filterMap_cons, filterMap_cons, ← ih (n + 1)]
    obtain _ | out := o
    · rfl
    · unfold lookedUpItem htlcOut
      cases hl : lookedUp S x.watched out with
      | false => simp [Option.filter, hl]
      | true =>
        cases hh : x.isHtlc S out.script with
        | false => simp [Option.filter, hl, hh]
        | true => simp [Option.filter, hl, hh]

lemma htlcOut_extra {o : Option TxOutput} (h : x.Extra S o) : x.htlcOut S o = none := by
  unfold htlcOut
  rw [filter_eq_none_iff]
  rintro out rfl hyes
  obtain ⟨hl, hh⟩ := Bool.and_eq_true_iff.1 hyes
  obtain ⟨-, hasset, -⟩ := lookedUp_watched.1 hl
  obtain ⟨id, hid, htag⟩ := List.mem_map.1 hasset
  obtain ⟨e, he, hscript⟩ := isHtlc_iff.1 hh
  exact h out rfl ⟨id, hid, htag.symm⟩ e he hscript.symm

/-- The items of a settlement are its HTLC outputs. -/
theorem items_of_settles (hS : HtlcScripts S) (htx : x.Settles S view tx) :
    (x.items S tx.outputs.zipIdx).map Prod.fst =
      ((x.channel.lanes.zipIdx.flatMap (laneOutputs S x view)).filter fun o => x.isHtlc S o.spk).map
        x.toTx := by
  obtain ⟨outs, first, last, hstate, houtputs, hfirst, hlast⟩ := htx.outputs
  have hextra : ∀ os : List (Option TxOutput), (∀ o ∈ os, x.Extra S o) → os.filterMap (x.htlcOut S) = [] :=
    fun os hos => filterMap_eq_nil_iff.2 fun o ho => htlcOut_extra (hos o ho)
  rw [items_map_fst, houtputs, filterMap_append, filterMap_append, hextra first hfirst,
    hextra last hlast, append_nil, nil_append, ← symChannelState_ok hstate, filterMap_map,
    ← filterMap_eq_map, filterMap_filter]
  refine filterMap_congr fun o ho => ?_
  rw [symChannelState_ok hstate, mem_flatMap] at ho
  obtain ⟨p, hp, ho⟩ := ho
  unfold htlcOut
  cases hh : x.isHtlc S o.spk with
  | false => simp [Option.filter, toTx, hh]
  | true =>
    obtain ⟨h, -, hscript⟩ := isHtlc_iff.1 hh
    have hl : lookedUp S x.watched (x.toTx o) = true := by
      refine lookedUp_watched.2 ⟨?_, (mem_laneOutputs hp ho).1, ?_⟩
      · change o.spk ≠ []
        rw [← hscript]
        exact hS.ne_nil _ _ _ _
      · change o.spk ≠ _
        rw [← hscript]
        exact hS.ne_p2wpkh _ _ _ _ _
    have hh' : x.isHtlc S (x.toTx o).script = true := hh
    simp [Option.filter, hl, hh']

/-- The items of a key are the outputs of its script. -/
theorem items_filter (hS : HtlcScripts S) (htx : x.Settles S view tx) (hs : x.isHtlc S s = true) :
    ((x.items S tx.outputs.zipIdx).filter (itemKey · = some s)).map x.itemValue =
      ((x.channel.lanes.zipIdx.flatMap (laneOutputs S x view)).filter (·.spk = s)).map x.outValue := by
  have hmap := congrArg (fun l => (l.filter fun out => out.script = s).map
    fun out => toLex (x.laneOf out.asset, out.value)) (items_of_settles hS htx)
  simp only [List.filter_map, List.map_map, List.filter_filter] at hmap
  have hkey : ∀ i ∈ x.items S tx.outputs.zipIdx, decide (itemKey i = some s) = decide (i.1.script = s) :=
    fun i _ => decide_eq_decide.2 some_inj
  have hscript : ∀ o ∈ x.channel.lanes.zipIdx.flatMap (laneOutputs S x view),
      decide (o.spk = s) = (decide (o.spk = s) && x.isHtlc S o.spk) := by
    intro o _
    by_cases ho : o.spk = s
    · rw [ho, hs, Bool.and_true]
    · rw [decide_eq_false ho, Bool.false_and]
  rw [filter_congr hkey, filter_congr hscript]
  exact hmap

lemma items_filter_eq_nil {k : Option Bytes} (hk : ∀ s, x.isHtlc S s = true → k ≠ some s) :
    (x.items S outputs).filter (itemKey · = k) = [] := by
  rw [filter_eq_nil_iff]
  intro i hi hkey
  exact hk _ (mem_items.1 hi).2.2 (of_decide_eq_true hkey).symm

/-- The slots of a key that have an output, by their HTLCs. -/
theorem slots_filter_hasOutput (s : Bytes) :
    ((x.watched.stubs.zipIdx.filter (x.slotKey S · = some s)).map x.slotValue).filter x.hasOutput =
      (x.htlcs.filter fun h => x.script S h = s ∧ ¬ Trimmed (symDustLimit x.channel) h.1).map value := by
  rw [slots_filter, List.filter_map, List.filter_filter]
  refine congrArg _ (filter_congr fun h _ => ?_)
  rw [Function.comp_apply, Bool.decide_and, Bool.and_comm]
  congr 1
  · exact decide_eq_decide.2 some_inj
  · exact Bool.eq_iff_iff.2 (by rw [hasOutput_value, decide_eq_true_eq])

/-- The items and the slots of a settlement, key by key. -/
theorem listed_of_settles (hS : HtlcScripts S) (htx : x.Settles S view tx) :
    Listed (x.slotKey S) itemKey x.slotValue x.itemValue x.hasOutput x.watched.stubs.zipIdx
      (x.items S tx.outputs.zipIdx) := by
  have hcases : ∀ k, (∃ s, k = some s ∧ x.isHtlc S s = true) ∨ ∀ s, x.isHtlc S s = true → k ≠ some s := by
    intro k
    by_cases h : ∃ s, k = some s ∧ x.isHtlc S s = true
    · exact .inl h
    · exact .inr fun s hs hk => h ⟨s, hk, hs⟩
  constructor
  · intro k
    rcases hcases k with ⟨s, rfl, hs⟩ | hk
    · obtain ⟨h, -, hscript⟩ := isHtlc_iff.1 hs
      rw [items_filter hS htx hs, slots_filter_hasOutput]
      exact outputs_perm hS view ⟨h, hscript⟩
    · have hslots : (x.htlcs.filter fun h => some (x.script S h) = k) = [] := by
        rw [filter_eq_nil_iff]
        intro h hh heq
        exact hk _ (isHtlc_iff.2 ⟨h, hh, rfl⟩) (of_decide_eq_true heq).symm
      rw [items_filter_eq_nil hk, slots_filter, hslots]
      exact .nil
  · intro k
    rcases hcases k with ⟨s, rfl, hs⟩ | hk
    · rw [items_filter hS htx hs, pairwise_map]
      exact (outputs_sorted view).filter _
    · rw [items_filter_eq_nil hk]
      exact .nil

/-! ### The outcome -/

variable {u : HtlcStub × ℕ}

lemma mem_slots (h : u ∈ x.watched.stubs.zipIdx) :
    ∃ e, x.htlcs[u.2]? = some e ∧ u.1 = stubOf e.1 := by
  have hget := List.mem_zipIdx_iff_getElem?.1 h
  change (x.htlcs.map fun e => stubOf e.1)[u.2]? = _ at hget
  rw [List.getElem?_map] at hget
  obtain ⟨e, he, hstub⟩ := map_eq_some_iff.1 hget
  exact ⟨e, he, hstub.symm⟩

lemma script_eq_of_fits {e : SymHtlc × ℕ} (hstub : u.1 = stubOf e.1)
    (hfits : fitsItem S x.watched u i = true) : i.1.script = x.script S e := by
  unfold fitsItem paysStub at hfits
  rw [hstub, Bool.and_eq_true, decide_eq_true_eq] at hfits
  exact hfits.2.symm

/-- What the loop leaves of a transaction. -/
def outcome (S : SpkBuilder) (x : SettledChannel) (tx : TxParts) : Settled :=
  tx.outputs.zipIdx.foldl (settleOutput S x.watched) ⟨[], x.watched.stubs.zipIdx⟩

/-- The pairs that the loop finds, and the slots it leaves. -/
def found (S : SpkBuilder) (x : SettledChannel) (tx : TxParts) :
    List ((TxOutput × ℕ) × HtlcStub × ℕ) × List (HtlcStub × ℕ) :=
  firstFit (sameKey (x.slotKey S) itemKey) x.watched.stubs.zipIdx (x.items S tx.outputs.zipIdx)

/-- What is tracked is what was found. -/
lemma outcome_eq (tx : TxParts) :
    (x.outcome S tx).tracked.filterMap Tracked.stub? =
        (x.found S tx).1.map (fun q => (q.1.2, q.1.1.value, q.2.2)) ∧
      (x.outcome S tx).unmatched = (x.found S tx).2 := by
  have hfound : x.found S tx = firstFit (fitsItem S x.watched) x.watched.stubs.zipIdx
      (tx.outputs.zipIdx.filterMap (lookedUpItem S x.watched)) := by
    unfold found items
    rw [← fitsItem_eq]
    refine firstFit_filter fun i _ hno u hu hfits => hno ?_
    obtain ⟨e, he, hstub⟩ := mem_slots hu
    exact isHtlc_iff.2 ⟨e, mem_of_getElem? he, (script_eq_of_fits hstub hfits).symm⟩
  rw [hfound]
  exact foldl_settleOutput tx.outputs.zipIdx ⟨[], x.watched.stubs.zipIdx⟩

lemma mem_tracked_iff {n amt j : ℕ} :
    .htlc n amt j ∈ (x.outcome S tx).tracked ↔
      ∃ q ∈ (x.found S tx).1, (q.1.2, q.1.1.value, q.2.2) = (n, amt, j) := by
  rw [← List.mem_map, ← (outcome_eq tx).1, mem_filterMap]
  constructor
  · intro h
    exact ⟨_, h, rfl⟩
  · rintro ⟨_ | _, h, heq⟩
    · cases heq
    · cases heq
      exact h

/-- A pair is of one lane and amount if it is of one place in the order. -/
theorem sameValue_iff {e : SymHtlc × ℕ} (he : x.htlcs[u.2]? = some e)
    (hasset : i.1.asset ∈ x.assets.map assetTag) :
    x.SameValue i.1 e ↔ x.slotValue u = x.itemValue i := by
  unfold SameValue slotValue itemValue
  rw [he, ← laneOf_eq_iff hasset]
  change _ ↔ toLex (e.2, satRoundDown e.1.amount) = _
  rw [toLex_inj, Prod.mk.injEq, eq_comm (a := e.2)]

/-- The slots without an output, by their HTLCs. -/
theorem slots_trimmed :
    (x.watched.stubs.zipIdx.filter fun u => !x.hasOutput (x.slotValue u)).filterMap
        (fun u => x.htlcs[u.2]?) =
      x.htlcs.filter fun h => Trimmed (symDustLimit x.channel) h.1 := by
  have hslots : x.watched.stubs.zipIdx.map (fun u => x.htlcs[u.2]?) = x.htlcs.map some := by
    refine ext_getElem? fun i => ?_
    rw [List.getElem?_map, List.getElem?_zipIdx, List.getElem?_map]
    change Option.map _ (Option.map _ ((x.htlcs.map fun h => stubOf h.1)[i]?)) = _
    rw [List.getElem?_map]
    cases hi : x.htlcs[i]? with
    | none => rfl
    | some h => simp [hi]
  have hmap := congrArg (fun l => (l.filter fun o : Option (SymHtlc × ℕ) =>
    !x.hasOutput (o.elim (toLex (0, 0)) value)).filterMap id) hslots
  simp only [List.filter_map, filterMap_map] at hmap
  refine (show _ = _ from hmap).trans ?_
  change (x.htlcs.filter fun h => !x.hasOutput (value h)).filterMap some = _
  rw [filterMap_some]
  refine filter_congr fun h _ => Bool.eq_iff_iff.2 ?_
  rw [Bool.not_eq_true', ← Bool.not_eq_true, hasOutput_value, not_not, decide_eq_true_eq]

/-- Each HTLC output of a settlement is tracked as an HTLC of its lane and amount and the missing
HTLCs are the trimmed ones exactly if, among HTLCs of one script, those with an output come first in
`onchaind`'s list, in the order of lane and amount. -/
theorem settled_exact_iff (hS : HtlcScripts S) {view : Side} {tx : TxParts} (htx : x.Settles S view tx)
    {settled : List (ByteString 32)} (hnew : tx.txid ∉ settled) :
    ∃ r, symSettled S x.watched settled tx = some r ∧ (x.Exact S tx r ↔ x.InOrder S) := by
  refine ⟨x.outcome S tx, if_neg hnew, ?_⟩
  have hlisted := listed_of_settles hS htx
  rw [← slots_inOrder_iff]
  constructor
  · intro hexact
    rw [← firstFit_exact_iff hlisted]
    intro q hq
    obtain ⟨hitem, hslot, -⟩ := firstFit_mem hq
    obtain ⟨out, e, hout, -, he, -, hvalue⟩ :=
      hexact.matched q.1.2 q.1.1.value q.2.2 (mem_tracked_iff.2 ⟨q, hq, rfl⟩)
    obtain rfl : out = q.1.1 := by
      have hmem := List.mem_zipIdx_iff_getElem?.1 (mem_items.1 hitem).1
      exact some.inj (some.inj (hout.symm.trans hmem))
    exact (sameValue_iff he (lookedUp_watched.1 (mem_items.1 hitem).2.1).2.1).1 hvalue
  · intro horder
    have hvalues := (firstFit_exact_iff hlisted).2 horder
    constructor
    · intro n out hout ⟨id, hid, hasset⟩ ⟨e, he, hscript⟩
      have hitem : (out, n) ∈ x.items S tx.outputs.zipIdx := by
        refine mem_items.2 ⟨List.mem_zipIdx_iff_getElem?.2 hout, lookedUp_watched.2 ⟨?_, ?_, ?_⟩,
          isHtlc_iff.2 ⟨e, he, hscript.symm⟩⟩
        · rw [hscript]
          exact hS.ne_nil _ _ _ _
        · rw [hasset]
          exact List.mem_map_of_mem hid
        · rw [hscript]
          exact hS.ne_p2wpkh _ _ _ _ _
      rw [← firstFit_items hlisted.length_le] at hitem
      obtain ⟨q, hq, hfst⟩ := List.mem_map.1 hitem
      refine ⟨q.2.2, mem_tracked_iff.2 ⟨q, hq, ?_⟩⟩
      rw [hfst]
    · intro n amt j htracked
      obtain ⟨q, hq, heq⟩ := mem_tracked_iff.1 htracked
      cases heq
      obtain ⟨hitem, hslot, hfits⟩ := firstFit_mem hq
      obtain ⟨e, he, hstub⟩ := mem_slots hslot
      rw [← fitsItem_eq] at hfits
      refine ⟨q.1.1, e, List.mem_zipIdx_iff_getElem?.1 (mem_items.1 hitem).1, rfl, he,
        script_eq_of_fits hstub hfits, ?_⟩
      exact (sameValue_iff he (lookedUp_watched.1 (mem_items.1 hitem).2.1).2.1).2 (hvalues q hq)
    · rw [(outcome_eq tx).2, ← slots_trimmed]
      exact (firstFit_left_perm hlisted horder).filterMap _

end SettledChannel

namespace SettledExample

open SettlementExample SettledChannel

/-- An HTLC of LOCAL of 9000 atoms. -/
def large : SymHtlc := ⟨.LOCAL, 9000000, .replicate 20 0x0a, 500, by decide⟩

/-- One with the same hash and expiry, of 4000 atoms. -/
def other : SymHtlc := ⟨.LOCAL, 4000000, .replicate 20 0x0a, 500, by decide⟩

/-- One with the same hash and expiry, below the dust limit. -/
def small : SymHtlc := ⟨.LOCAL, 100000, .replicate 20 0x0a, 500, by decide⟩

/-- The asset of the channel's own lane, and that of the further one. -/
def asset (lane : Fin 2) : ByteString 32 := .replicate 32 (if lane = 0 then 7 else 8)

lemma million_lt : 1000000 < 2 ^ 64 := by decide

/-- A channel of a million atoms in one lane, 990000 of them LOCAL's, and 50000 in the other, 46000 of
them LOCAL's, with these HTLCs. -/
def lookAlikes (htlcs : List (SymHtlc × Fin 2)) : SettledChannel where
  channel :=
    { opener := .LOCAL
      payment := key
      htlc := key
      dustLimit := fun _ => 546
      lanes :=
        [{ fundingSats := 1000000
           owed := fun _ s => if s = .LOCAL then 990000000 else 0
           asset := none
           fundingSats_lt := million_lt
           owed_lt := by decide },
          { fundingSats := 50000
            owed := fun _ s => if s = .LOCAL then 46000000 else 0
            asset := some (asset 1)
            fundingSats_lt := by decide
            owed_lt := by decide }] }
  channelAsset := asset 0
  laneAssets := [asset 1]
  htlcs := htlcs.map fun h => (h.1, h.2)
  assets_eq := rfl
  distinct := by decide
  lane_lt := by
    intro h hh
    obtain ⟨k, -, rfl⟩ := List.mem_map.1 hh
    exact k.2.is_lt

def fee : Option TxOutput := some ⟨assetTag (asset 0), 300, []⟩

/-- The outputs of the two lanes: for an HTLC, and the rest for LOCAL. -/
def outputs : List SymOutput :=
  [htlcOutput spks key large, ⟨.balance, .LOCAL, 991000, spks.p2wpkh (key .LOCAL), none, 0⟩,
    { htlcOutput spks key other with asset := some (asset 1) },
    ⟨.balance, .LOCAL, 46000, spks.p2wpkh (key .LOCAL), some (asset 1), 0⟩]

/-- The settlement, with a fee. -/
def settlement : TxParts where
  txid := .replicate 32 9
  outputs := (outputs.map fun o => some ((lookAlikes []).toTx o)) ++ [fee]

lemma htlcScripts_spks : HtlcScripts spks where
  ne_nil _ _ _ _ := cons_ne_nil _ _
  ne_p2wpkh _ _ _ _ _ h := absurd (List.cons.inj h).1 (by decide)

/-- The transaction settles a state with these outputs. -/
theorem settles_settlement {htlcs : List (SymHtlc × Fin 2)}
    (h : symChannelState spks (lookAlikes htlcs).channel .LOCAL (lookAlikes htlcs).htlcs =
      .ok outputs) :
    (lookAlikes htlcs).Settles spks .LOCAL settlement where
  outputs := by
    refine ⟨_, [], [fee], h, rfl, by simp, ?_⟩
    rintro o ho out rfl - e -
    cases mem_singleton.1 ho
    exact fun hnil => htlcScripts_spks.ne_nil _ _ _ _ hnil.symm

/-- The HTLCs in the order of lane and amount, and the one without an output last. -/
theorem settled_exact_iff_ordered :
    ∃ r, symSettled spks (lookAlikes [(large, 0), (other, 1), (small, 0)]).watched [] settlement =
        some r ∧
      (lookAlikes [(large, 0), (other, 1), (small, 0)]).InOrder spks ∧
      (lookAlikes [(large, 0), (other, 1), (small, 0)]).Exact spks settlement r := by
  have horder : (lookAlikes [(large, 0), (other, 1), (small, 0)]).InOrder spks := by
    unfold InOrder
    decide +kernel
  have hsettles : (lookAlikes [(large, 0), (other, 1), (small, 0)]).Settles spks .LOCAL settlement :=
    settles_settlement (by decide +kernel)
  obtain ⟨r, hr, hiff⟩ := settled_exact_iff htlcScripts_spks hsettles not_mem_nil
  exact ⟨r, hr, horder, hiff.2 horder⟩

/-- The smallest HTLC, without an output, stands first: the first lane's output is tracked as that
one, the other lane's as the largest, and the HTLC of that lane is missing. -/
theorem settled_look_alike :
    (lookAlikes [(small, 0), (large, 0), (other, 1)]).Settles spks .LOCAL settlement ∧
      ¬ (lookAlikes [(small, 0), (large, 0), (other, 1)]).InOrder spks ∧
      ∃ r, symSettled spks (lookAlikes [(small, 0), (large, 0), (other, 1)]).watched [] settlement =
          some r ∧
        r.tracked = [.htlc 0 9000 0, .toUs 1 991000, .htlc 2 4000 1, .toUs 3 46000] ∧
        r.unmatched = [(stubOf other, 2)] ∧
        ¬ (lookAlikes [(small, 0), (large, 0), (other, 1)]).Exact spks settlement r := by
  refine ⟨settles_settlement (by decide +kernel), by unfold InOrder; decide +kernel, _, rfl,
    by decide +kernel, by decide +kernel, ?_⟩
  intro hexact
  obtain ⟨out, h, hout, -, hh, -, -, hatoms⟩ := hexact.matched 0 9000 0 (by decide +kernel)
  cases hout
  cases hh
  exact absurd hatoms (by decide)

end SettledExample

end SeqLN.Onchaind
