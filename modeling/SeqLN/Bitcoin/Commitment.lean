import SeqLN.Bitcoin.Tx

/-!
# The outputs of a commitment transaction

`channeld/commit_tx.c` and `common/tcov_commit_tx.c` build a commitment from its outputs (`Draft`) the
same way: sorted, with the map that says which is which HTLC's, the obscured number in the locktime and
the sequence, and the rest as the fee. `DraftsOf.soundCommitment_iff` says when nothing is lost and the map is
right, `finishCommitment_perm` that the order of the drafts does not matter.

The tie-breaking expiries of the other outputs are not set: `unset` is what stands there.
-/

namespace SeqLN.Bitcoin

open SeqLN.Sym List BitcoinTx

/-- What the map has for an output while it is sorted: its HTLC, or a mark of its own. -/
inductive Entry (η : Type) where
  | htlc (h : η)
  | toLocal
  | toRemote
  | anchor
  | otherAnchor
  deriving DecidableEq

/-- The HTLC of an entry; the marks are taken out again. -/
def Entry.htlc? {η : Type} : Entry η → Option η
  | .htlc h => some h
  | _ => none

/-- An output to be added: its script, with the witness script it is the hash of, and the expiry
that breaks ties. -/
structure Draft (η : Type) where
  script : Bytes
  wscript : Option Bytes
  amount : ℕ
  cltv : Option ℕ
  entry : Entry η

/-- A commitment transaction with what is returned beside it. -/
structure Commitment (η : Type) where
  tx : BitcoinTx
  htlcmap : List (Option η)
  directOutputs : Side → Option ℕ
  anchorOutnum : Option ℕ

/-- Source: `commit_tx`, `bitcoin_tx_set_locktime` -/
def commitLocktime (obscured : ℕ) : ℕ := 0x20000000 ||| (obscured &&& 0xFFFFFF)

/-- Source: `commit_tx`, `sequence` -/
def commitSequence (obscured : ℕ) : ℕ := 0x80000000 ||| ((obscured >>> 24) &&& 0xFFFFFF)

/-- The obscured number of a commitment transaction.
Source: `onchaind/onchaind.c`, `unmask_commit_number` -/
def obscuredNumber (tx : BitcoinTx) : Option ℕ :=
  tx.inputs.head?.map fun i => (tx.locktime &&& 0xFFFFFF) ||| (i.sequence &&& 0xFFFFFF) <<< 24

section finish

variable {η : Type}

/-- The output of a draft. -/
def Draft.out (asset : Option AssetId) (d : Draft η) : TxOutput := ⟨d.amount, d.script, asset⟩

/-- The outputs in the order they are added. -/
def draftSlots (asset : Option AssetId) (unset : ℕ → ℕ) (drafts : List (Draft η)) :
    List (Slot (Entry η)) :=
  drafts.zipIdx.map fun d => ⟨d.1.out asset, d.1.cltv.getD (unset d.2), d.1.entry⟩

variable (ch : Chain) (asset : Option AssetId) (unset : ℕ → ℕ) (funding : Outpoint)
  (fundingSats : ℕ) (fundingWscript : Bytes) (obscured : ℕ)

/-- The transaction without inputs and outputs. -/
def emptyTx : BitcoinTx := (bitcoinTx ch 0).setOutputAsset asset

/-- The asset of all outputs. -/
def commitAsset : Option AssetId := (emptyTx ch asset).outputAsset

/-- The outputs in order. -/
def sortedSlots (drafts : List (Draft η)) : List (Slot (Entry η)) :=
  permuteOutputs (draftSlots (commitAsset ch asset) unset drafts)

/-- The transaction of sorted outputs before the fee. -/
def unfinishedTx (outs : List TxOutput) : BitcoinTx :=
  { emptyTx ch asset with outputs := outs, locktime := commitLocktime obscured }.addInput funding
    (commitSequence obscured) fundingSats fundingWscript

/-- The map of sorted outputs with the marks taken out, and where they stood. -/
def Commitment.ofSlots [DecidableEq η] (tx : BitcoinTx) (slots : List (Slot (Entry η))) :
    Commitment η where
  tx
  htlcmap := slots.map fun s => s.entry.htlc?
  directOutputs
    | .LOCAL => slots.findIdx? fun s => s.entry = .toLocal
    | .REMOTE => slots.findIdx? fun s => s.entry = .toRemote
  anchorOutnum := slots.findIdx? fun s => s.entry = .otherAnchor

/-- The end of `commit_tx` and `tcov_commit_tx`, from the sorting on. -/
def finishCommitment [DecidableEq η] (drafts : List (Draft η)) : Option (Commitment η) := do
  guard (drafts ≠ [])
  let slots := sortedSlots ch asset unset drafts
  let tx ← (unfinishedTx ch asset funding fundingSats fundingWscript obscured
    (slots.map Slot.out)).finalize
  return .ofSlots tx slots

end finish

/-! ### The number -/

lemma obscured_of_masks (n : ℕ) :
    (commitLocktime n &&& 0xFFFFFF) ||| (commitSequence n &&& 0xFFFFFF) <<< 24 = n % 2 ^ 48 := by
  have hmask : ∀ k x : ℕ, k &&& 0xFFFFFF = 0 → (k ||| (x &&& 0xFFFFFF)) &&& 0xFFFFFF = x % 2 ^ 24 := by
    intro k x hk
    rw [Nat.and_or_distrib_right, hk, Nat.zero_or, Nat.and_assoc, Nat.and_self]
    exact Nat.and_two_pow_sub_one_eq_mod x 24
  rw [commitLocktime, commitSequence, hmask _ _ rfl, hmask _ _ rfl, Nat.or_comm,
    ← Nat.shiftLeft_add_eq_or_of_lt (Nat.mod_lt n (by decide)), Nat.shiftLeft_eq, Nat.shiftRight_eq_div_pow]
  omega

/-! ### What a commitment has -/

section spec

variable {η : Type}

lemma map_out_draftSlots (asset : Option AssetId) (unset : ℕ → ℕ) (drafts : List (Draft η)) :
    (draftSlots asset unset drafts).map Slot.out = drafts.map (Draft.out asset) := by
  unfold draftSlots
  rw [List.map_map]
  conv_rhs => rw [← zipIdx_map_fst 0 drafts, List.map_map]
  rfl

lemma map_entry_draftSlots (asset : Option AssetId) (unset : ℕ → ℕ) (drafts : List (Draft η)) :
    (draftSlots asset unset drafts).map Slot.entry = drafts.map Draft.entry := by
  unfold draftSlots
  rw [List.map_map]
  conv_rhs => rw [← zipIdx_map_fst 0 drafts, List.map_map]
  rfl

/-- A slot is that of a draft. -/
theorem exists_draft_of_mem {asset : Option AssetId} {unset : ℕ → ℕ} {drafts : List (Draft η)}
    {s : Slot (Entry η)} (h : s ∈ draftSlots asset unset drafts) :
    ∃ d ∈ drafts, s.out = d.out asset ∧ s.entry = d.entry ∧ ∀ c ∈ d.cltv, s.cltv = c := by
  obtain ⟨⟨d, n⟩, hd, rfl⟩ := List.mem_map.1 h
  refine ⟨d, (List.mem_zipIdx_iff_getElem?.1 hd |> mem_of_getElem?), rfl, rfl, fun c hc => ?_⟩
  simp [Option.mem_def.1 hc]

/-- What the outputs have together. -/
def draftTotal (drafts : List (Draft η)) : ℕ := (drafts.map Draft.amount).sum

lemma draftTotal_append (a b : List (Draft η)) :
    draftTotal (a ++ b) = draftTotal a + draftTotal b := by
  rw [draftTotal, map_append, List.sum_append]
  rfl

lemma draftTotal_perm {a b : List (Draft η)} (h : a ~ b) : draftTotal a = draftTotal b :=
  (h.map Draft.amount).sum_eq

/-- Drafts of HTLCs, in any order, and of main outputs. -/
structure DraftsOf (draftOf : η → Option (Draft η)) (untrimmed : List η) (main drafts : List (Draft η)) :
    Prop where
  perm : drafts ~ untrimmed.filterMap draftOf ++ main
  htlc : ∀ h ∈ untrimmed, ∃ d, draftOf h = some d ∧ d.entry = .htlc h
  main : ∀ d ∈ main, d.entry.htlc? = none

/-- No value is lost, each HTLC is at one output, which the map names, and the number is read back.
`untrimmed` are the HTLCs with an output, `outOf` these outputs, `main` what else may be paid. -/
structure SoundCommitment (ch : Chain) (asset : Option AssetId) (fundingSats obscured : ℕ)
    (untrimmed : List η) (outOf : η → Option TxOutput) (main : List TxOutput) (r : Commitment η) : Prop where
  conserves : r.tx.paid asset + r.tx.feeIn asset = fundingSats
  htlcs : r.htlcmap.filterMap id ~ untrimmed
  htlc_out : ∀ (i : ℕ) (h : η), r.htlcmap[i]? = some (some h) → r.tx.outputs[i]? = outOf h
  other_out : ∀ i : ℕ, r.htlcmap[i]? = some none → ∃ o ∈ main, r.tx.outputs[i]? = some o
  fee_out : r.tx.outputs.length = r.htlcmap.length + (if ch.isElements then 1 else 0)
  number : obscuredNumber r.tx = some (obscured % 2 ^ 48)

variable {ch : Chain} {asset : Option AssetId} {unset : ℕ → ℕ} {funding : Outpoint}
  {fundingSats : ℕ} {fundingWscript : Bytes} {obscured : ℕ} {drafts drafts' : List (Draft η)}
  {r : Commitment η}

lemma emptyTx_isElements (ch : Chain) (asset : Option AssetId) :
    (emptyTx ch asset).isElements = ch.isElements := by
  simp [emptyTx, bitcoinTx]

@[simp] lemma unfinishedTx_outputs (outs : List TxOutput) :
    (unfinishedTx ch asset funding fundingSats fundingWscript obscured outs).outputs = outs := rfl

@[simp] lemma unfinishedTx_outputAsset (outs : List TxOutput) :
    (unfinishedTx ch asset funding fundingSats fundingWscript obscured outs).outputAsset =
      commitAsset ch asset := rfl

lemma finalize_unfinishedTx {outs : List TxOutput} {tx : BitcoinTx}
    (hmem : ∀ o ∈ outs, o.asset = commitAsset ch asset ∧ o.script ≠ [])
    (h : (unfinishedTx ch asset funding fundingSats fundingWscript obscured outs).finalize = some tx) :
    tx = if ch.isElements then
        (unfinishedTx ch asset funding fundingSats fundingWscript obscured outs).addOutput []
          (fundingSats - (outs.map TxOutput.satoshi).sum)
      else unfinishedTx ch asset funding fundingSats fundingWscript obscured outs := by
  have hfinal := finalize_eq_some h hmem
  have hin : ((unfinishedTx ch asset funding fundingSats fundingWscript obscured outs).inputs.map
      TxInput.amount).sum = fundingSats := by
    simp [unfinishedTx, emptyTx, bitcoinTx]
  have hel : (unfinishedTx ch asset funding fundingSats fundingWscript obscured outs).isElements =
      ch.isElements := emptyTx_isElements ch asset
  rw [hin, hel] at hfinal
  exact hfinal

lemma perm_map_out_sortedSlots (ch : Chain) (asset : Option AssetId) (unset : ℕ → ℕ)
    (drafts : List (Draft η)) : (sortedSlots ch asset unset drafts).map Slot.out ~
      drafts.map (Draft.out (commitAsset ch asset)) := by
  have hperm := (perm_permuteOutputs (draftSlots (commitAsset ch asset) unset drafts)).map Slot.out
  rwa [map_out_draftSlots] at hperm

lemma sum_sortedSlots (ch : Chain) (asset : Option AssetId) (unset : ℕ → ℕ)
    (drafts : List (Draft η)) : (((sortedSlots ch asset unset drafts).map Slot.out).map
      TxOutput.satoshi).sum = draftTotal drafts := by
  rw [((perm_map_out_sortedSlots ch asset unset drafts).map TxOutput.satoshi).sum_eq, List.map_map]
  rfl

lemma mem_sortedSlots {o : TxOutput} (hscripts : ∀ d ∈ drafts, d.script ≠ [])
    (h : o ∈ (sortedSlots ch asset unset drafts).map Slot.out) :
    o.asset = commitAsset ch asset ∧ o.script ≠ [] := by
  obtain ⟨d, hd, rfl⟩ := List.mem_map.1 ((perm_map_out_sortedSlots ch asset unset drafts).subset h)
  exact ⟨rfl, hscripts d hd⟩

/-- The order of the drafts leaves nothing in that of the outputs. -/
theorem map_out_sortedSlots_perm (ch : Chain) (asset : Option AssetId) (unset unset' : ℕ → ℕ)
    {drafts drafts' : List (Draft η)} (h : drafts ~ drafts') :
    (sortedSlots ch asset unset drafts).map Slot.out =
      (sortedSlots ch asset unset' drafts').map Slot.out := by
  have hasset : ∀ (unset : ℕ → ℕ) (drafts : List (Draft η)),
      ∀ s ∈ draftSlots (commitAsset ch asset) unset drafts, s.out.asset = commitAsset ch asset := by
    intro unset drafts s hs
    obtain ⟨d, -, hout, -⟩ := exists_draft_of_mem hs
    rw [hout]
    rfl
  refine permuteOutputs_map_out_eq (hasset unset drafts) (hasset unset' drafts') ?_
  rw [map_out_draftSlots, map_out_draftSlots]
  exact h.map _

/-- Outputs that are alike are both HTLCs' or neither is; HTLCs of one expiry at such outputs are
used alike. -/
def TiesAlike {X : Type} (f : η → X) (drafts : List (Draft η)) : Prop :=
  ∀ d ∈ drafts, ∀ d' ∈ drafts, d.amount = d'.amount → d.script = d'.script →
    d.entry.htlc?.isSome = d'.entry.htlc?.isSome ∧
      (d.cltv = d'.cltv → d.entry.htlc?.map f = d'.entry.htlc?.map f)

/-- The expiry of an HTLC's slot; the others' is not read. -/
def htlcCltv (s : Slot (Entry η)) : ℕ := if s.entry.htlc?.isSome then s.cltv else 0

/-- What orders a draft: its amount, its script, and its expiry if it is an HTLC's. -/
def Draft.tieKey (d : Draft η) : ℕ × Bytes × ℕ :=
  (d.amount, d.script, if d.entry.htlc?.isSome then d.cltv.getD 0 else 0)

/-- The expiries of the HTLCs are set. -/
def CltvsSet (drafts : List (Draft η)) : Prop :=
  ∀ d ∈ drafts, d.entry.htlc?.isSome = true → d.cltv.isSome = true

lemma tieKey_of_slot {s : Slot (Entry η)} {d : Draft η} (hout : s.out = d.out asset)
    (hentry : s.entry = d.entry) (hcltv : ∀ c ∈ d.cltv, s.cltv = c)
    (hset : d.entry.htlc?.isSome = true → d.cltv.isSome = true) :
    s.tieKey htlcCltv = d.tieKey := by
  have hnum : htlcCltv s = if d.entry.htlc?.isSome then d.cltv.getD 0 else 0 := by
    unfold htlcCltv
    rw [hentry]
    split
    · next hsome =>
      obtain ⟨c, hc⟩ := Option.isSome_iff_exists.1 (hset hsome)
      rw [hcltv c hc, hc, Option.getD_some]
    · rfl
  rw [Slot.tieKey, Draft.tieKey, hout, hnum]
  rfl

lemma map_tieKey_draftSlots (asset : Option AssetId) (unset : ℕ → ℕ) (hset : CltvsSet drafts) :
    (draftSlots asset unset drafts).map (Slot.tieKey htlcCltv) = drafts.map Draft.tieKey := by
  unfold draftSlots
  rw [List.map_map]
  conv_rhs => rw [← zipIdx_map_fst 0 drafts, List.map_map]
  refine map_congr_left fun d hd => ?_
  have hmem : d.1 ∈ drafts := mem_of_getElem? (List.mem_zipIdx_iff_getElem?.1 hd)
  exact tieKey_of_slot rfl rfl (fun c hc => by simp [Option.mem_def.1 hc]) (hset d.1 hmem)

lemma tiesBy_draftSlots {X : Type} {f : η → X} (asset : Option AssetId) (unset : ℕ → ℕ)
    (hties : TiesAlike f drafts) : TiesBy htlcCltv (draftSlots asset unset drafts) := by
  intro a ha b hb hamount hscript hle
  obtain ⟨d, hd, hout, hentry, -⟩ := exists_draft_of_mem ha
  obtain ⟨d', hd', hout', hentry', -⟩ := exists_draft_of_mem hb
  rw [hout, hout'] at hamount hscript
  have hsome := (hties d hd d' hd' hamount hscript).1
  unfold htlcCltv
  rw [hentry, hentry', hsome]
  split
  · exact hle
  · exact le_rfl

/-- What the map's HTLCs are used for does not depend on the order of the drafts. -/
theorem map_htlc_sortedSlots_perm {X : Type} {f : η → X} (ch : Chain) (asset : Option AssetId)
    (unset unset' : ℕ → ℕ) (h : drafts ~ drafts') (hset : CltvsSet drafts) (hties : TiesAlike f drafts) :
    (sortedSlots ch asset unset drafts).map (fun s => s.entry.htlc?.map f) =
      (sortedSlots ch asset unset' drafts').map (fun s => s.entry.htlc?.map f) := by
  have hset' : CltvsSet drafts' := fun d hd => hset d (h.symm.subset hd)
  have hties' : TiesAlike f drafts' := fun d hd d' hd' =>
    hties d (h.symm.subset hd) d' (h.symm.subset hd')
  have hkeys := permuteOutputs_map_eq (tiesBy_draftSlots (commitAsset ch asset) unset hties)
    (tiesBy_draftSlots (commitAsset ch asset) unset' hties')
    (by
      rw [map_tieKey_draftSlots _ _ hset, map_tieKey_draftSlots _ _ hset']
      exact h.map _)
  refine map_eq_map_of_key hkeys fun s hs s' hs' hkey => ?_
  have hperm := perm_permuteOutputs (draftSlots (commitAsset ch asset) unset drafts)
  have hperm' := perm_permuteOutputs (draftSlots (commitAsset ch asset) unset' drafts')
  obtain ⟨d, hd, hout, hentry, hcltv⟩ := exists_draft_of_mem (hperm.subset hs)
  obtain ⟨d', hd', hout', hentry', hcltv'⟩ := exists_draft_of_mem (hperm'.subset hs')
  rw [tieKey_of_slot hout hentry hcltv (hset d hd),
    tieKey_of_slot hout' hentry' hcltv' (hset' d' hd')] at hkey
  have hamount : d.amount = d'.amount := congrArg Prod.fst hkey
  have hscript : d.script = d'.script := congrArg (fun k => k.2.1) hkey
  have hnum : (if d.entry.htlc?.isSome then d.cltv.getD 0 else 0) =
      if d'.entry.htlc?.isSome then d'.cltv.getD 0 else 0 := congrArg (fun k => k.2.2) hkey
  obtain ⟨hsome, halike⟩ := hties d hd d' (h.symm.subset hd') hamount hscript
  rw [hentry, hentry']
  cases hx : d.entry.htlc?.isSome with
  | false =>
    have hx' : d'.entry.htlc?.isSome = false := hsome.symm.trans hx
    rw [Option.isSome_eq_false_iff, Option.isNone_iff_eq_none] at hx hx'
    rw [hx, hx']
  | true =>
    have hx' : d'.entry.htlc?.isSome = true := hsome.symm.trans hx
    obtain ⟨c, hc⟩ := Option.isSome_iff_exists.1 (hset d hd hx)
    obtain ⟨c', hc'⟩ := Option.isSome_iff_exists.1 (hset' d' hd' hx')
    rw [hx, hx', if_pos rfl, if_pos rfl, hc, hc'] at hnum
    exact halike (by rw [hc, hc']; exact congrArg some hnum)

variable {draftOf : η → Option (Draft η)} {untrimmed : List η} {main : List (Draft η)}

lemma DraftsOf.filterMap_htlc (hof : DraftsOf draftOf untrimmed main drafts) :
    drafts.filterMap (fun d => d.entry.htlc?) ~ untrimmed := by
  have hmain : main.filterMap (fun d => d.entry.htlc?) = [] :=
    filterMap_eq_nil_iff.2 hof.main
  have hhtlcs : (untrimmed.filterMap draftOf).filterMap (fun d => d.entry.htlc?) =
      untrimmed.filterMap some := by
    rw [filterMap_filterMap]
    refine filterMap_congr fun x hx => ?_
    obtain ⟨d, hd, hentry⟩ := hof.htlc x hx
    rw [hd, Option.bind_some, hentry]
    rfl
  have hperm := hof.perm.filterMap fun d => d.entry.htlc?
  rwa [filterMap_append, hmain, append_nil, hhtlcs, filterMap_some] at hperm

/-- A draft is that of an HTLC or a main one. -/
theorem DraftsOf.mem (hof : DraftsOf draftOf untrimmed main drafts) {d : Draft η}
    (hd : d ∈ drafts) :
    (∃ x ∈ untrimmed, draftOf x = some d ∧ d.entry = .htlc x) ∨ d ∈ main ∧ d.entry.htlc? = none := by
  obtain hd | hd := mem_append.1 (hof.perm.subset hd)
  · obtain ⟨x, hx, hdraft⟩ := mem_filterMap.1 hd
    obtain ⟨d', hdraft', hentry⟩ := hof.htlc x hx
    obtain rfl : d = d' := Option.some.inj (hdraft.symm.trans hdraft')
    exact .inl ⟨x, hx, hdraft, hentry⟩
  · exact .inr ⟨hd, hof.main d hd⟩

/-- The outputs have what the HTLCs have and the main ones. -/
theorem DraftsOf.total (hof : DraftsOf draftOf untrimmed main drafts) {amountOf : η → ℕ}
    (hamount : ∀ x d, draftOf x = some d → d.amount = amountOf x) :
    draftTotal drafts = (untrimmed.map amountOf).sum + draftTotal main := by
  have hhtlcs : (untrimmed.filterMap draftOf).map Draft.amount = untrimmed.map amountOf := by
    rw [map_filterMap, ← filterMap_eq_map]
    refine filterMap_congr fun x hx => ?_
    obtain ⟨d, hd, -⟩ := hof.htlc x hx
    rw [hd, Option.map_some, hamount x d hd]
    rfl
  rw [draftTotal_perm hof.perm, draftTotal_append, draftTotal, hhtlcs]

variable [DecidableEq η]

section finish

variable (hscripts : ∀ d ∈ drafts, d.script ≠ [])
  (h : finishCommitment ch asset unset funding fundingSats fundingWscript obscured drafts = some r)
include hscripts h

/-- The finished transaction: the sorted outputs, and the rest of the funding as the fee. -/
theorem finishCommitment_ok :
    let slots := sortedSlots ch asset unset drafts
    let tx := unfinishedTx ch asset funding fundingSats fundingWscript obscured (slots.map Slot.out)
    r.htlcmap = slots.map (fun s => s.entry.htlc?) ∧
      r.tx = if ch.isElements then tx.addOutput [] (fundingSats - draftTotal drafts) else tx := by
  obtain ⟨_, -, h⟩ := Option.bind_eq_some_iff.1 h
  obtain ⟨tx, htx, h⟩ := Option.bind_eq_some_iff.1 h
  cases h
  have hfinal := finalize_unfinishedTx (fun o ho => mem_sortedSlots hscripts ho) htx
  rw [sum_sortedSlots] at hfinal
  exact ⟨rfl, hfinal⟩

/-- The outputs and the fee are the larger one of the outputs and the funding. -/
theorem paid_add_feeIn :
    r.tx.paid (commitAsset ch asset) + r.tx.feeIn (commitAsset ch asset) =
      draftTotal drafts + (fundingSats - draftTotal drafts) := by
  obtain ⟨-, htx⟩ := finishCommitment_ok hscripts h
  have hel := emptyTx_isElements ch asset
  have hamount : amountIn (commitAsset ch asset)
      ((sortedSlots ch asset unset drafts).map Slot.out) = draftTotal drafts := by
    rw [amountIn_of_asset fun o ho => (mem_sortedSlots hscripts ho).1, if_pos rfl,
      sum_sortedSlots]
  cases helc : ch.isElements with
  | true =>
    rw [helc, if_pos rfl] at htx
    have helt : r.tx.isElements = true := by rw [htx]; exact hel.trans helc
    rw [feeIn, if_pos helt, ← amountIn_outputs, htx]
    simp only [addOutput_outputs, amountIn_append, amountIn_singleton,
      unfinishedTx_outputs, unfinishedTx_outputAsset, hamount, if_true]
  | false =>
    rw [helc, if_neg Bool.false_ne_true] at htx
    have helf : r.tx.isElements = false := by rw [htx]; exact hel.trans helc
    have hpaid : r.tx.paid (commitAsset ch asset) = draftTotal drafts := by
      have hall := amountIn_outputs r.tx (commitAsset ch asset)
      have hnone : r.tx.outputs.filter r.tx.outputIsFee = [] := by
        simp [filter_eq_nil_iff, outputIsFee, helf]
      have hnil : amountIn (commitAsset ch asset) [] = 0 := rfl
      have houts : r.tx.outputs = (sortedSlots ch asset unset drafts).map Slot.out := by rw [htx]; rfl
      rw [hnone, hnil, houts, hamount] at hall
      omega
    have hspent : r.tx.spent (commitAsset ch asset) = fundingSats := by
      rw [htx]
      simp [unfinishedTx, spent, emptyTx, bitcoinTx, commitAsset]
    have houts : r.tx.outputs = (sortedSlots ch asset unset drafts).map Slot.out := by rw [htx]; rfl
    rw [feeIn, helf, if_neg Bool.false_ne_true, hpaid, hspent, houts, hamount]

lemma obscuredNumber_of_finish : obscuredNumber r.tx = some (obscured % 2 ^ 48) := by
  obtain ⟨-, htx⟩ := finishCommitment_ok hscripts h
  have hunfinished : obscuredNumber (unfinishedTx ch asset funding fundingSats fundingWscript obscured
      ((sortedSlots ch asset unset drafts).map Slot.out)) = some (obscured % 2 ^ 48) := by
    simp [obscuredNumber, unfinishedTx, emptyTx, bitcoinTx, obscured_of_masks,
      addInput]
  rw [htx]
  split
  · exact hunfinished
  · exact hunfinished

/-- A commitment is sound exactly if its outputs do not exceed the funding. -/
theorem DraftsOf.soundCommitment_iff (hof : DraftsOf draftOf untrimmed main drafts) :
    SoundCommitment ch (commitAsset ch asset) fundingSats obscured untrimmed
      (fun x => (draftOf x).map (Draft.out (commitAsset ch asset)))
      (main.map (Draft.out (commitAsset ch asset))) r ↔ draftTotal drafts ≤ fundingSats := by
  have hsum := paid_add_feeIn hscripts h
  obtain ⟨hmap, htx⟩ := finishCommitment_ok hscripts h
  constructor
  · intro hsound
    have := hsound.conserves
    omega
  intro hle
  have hperm := perm_permuteOutputs (draftSlots (commitAsset ch asset) unset drafts)
  -- each place of the map is that of the output, which comes from one draft
  have hplace : ∀ (i : ℕ) (e : Option η), r.htlcmap[i]? = some e → ∃ d ∈ drafts,
      d.entry.htlc? = e ∧ r.tx.outputs[i]? = some (d.out (commitAsset ch asset)) := by
    intro i e hi
    rw [hmap, List.getElem?_map] at hi
    obtain ⟨s, hs, rfl⟩ := Option.map_eq_some_iff.1 hi
    obtain ⟨d, hd, hout, hentry, -⟩ := exists_draft_of_mem (hperm.subset (mem_of_getElem? hs))
    refine ⟨d, hd, by rw [hentry], ?_⟩
    have houts : ((sortedSlots ch asset unset drafts).map Slot.out)[i]? =
        some (d.out (commitAsset ch asset)) := by
      rw [List.getElem?_map, hs, Option.map_some, hout]
    rw [htx]
    split
    · simp only [addOutput_outputs, unfinishedTx_outputs]
      have hlt := (List.getElem?_eq_some_iff.1 houts).1
      rw [List.getElem?_append_left hlt, houts]
    · exact houts
  refine ⟨by omega, ?_, fun i x hi => ?_, fun i hi => ?_, ?_, obscuredNumber_of_finish hscripts h⟩
  · rw [hmap, filterMap_map]
    have hentries := (hperm.filterMap fun s => s.entry.htlc?)
    refine hentries.trans (Perm.trans (.of_eq ?_) hof.filterMap_htlc)
    have hmarks := congrArg (List.filterMap Entry.htlc?)
      (map_entry_draftSlots (commitAsset ch asset) unset drafts)
    rwa [filterMap_map, filterMap_map] at hmarks
  · obtain ⟨d, hd, hx, hout⟩ := hplace i _ hi
    obtain ⟨y, -, hdraft, hentry⟩ | ⟨-, hnone⟩ := hof.mem hd
    · rw [hentry] at hx
      cases hx
      rw [hout, hdraft, Option.map_some]
    · rw [hnone] at hx
      cases hx
  · obtain ⟨d, hd, hnone, hout⟩ := hplace i _ hi
    obtain ⟨y, -, -, hentry⟩ | ⟨hmem, -⟩ := hof.mem hd
    · rw [hentry] at hnone
      cases hnone
    · exact ⟨_, List.mem_map_of_mem hmem, hout⟩
  · rw [hmap, htx]
    split <;> simp

end finish

/-- The transaction depends neither on the order of the drafts nor on what stands where no expiry
was set. -/
theorem finishCommitment_perm (unset' : ℕ → ℕ) (h : drafts ~ drafts')
    (hr : finishCommitment ch asset unset funding fundingSats fundingWscript obscured drafts = some r) :
    ∃ r', finishCommitment ch asset unset' funding fundingSats fundingWscript obscured drafts' = some r' ∧
      r'.tx = r.tx ∧
      r'.htlcmap = (sortedSlots ch asset unset' drafts').map (fun s => s.entry.htlc?) := by
  obtain ⟨_, hne, hrest⟩ := Option.bind_eq_some_iff.1 hr
  obtain ⟨tx, htx, hlast⟩ := Option.bind_eq_some_iff.1 hrest
  have hne' : drafts' ≠ [] := fun hnil => guard_eq_some.1 hne (by
    rw [hnil] at h
    exact h.eq_nil)
  rw [map_out_sortedSlots_perm ch asset unset unset' h] at htx
  cases hlast
  refine ⟨.ofSlots tx (sortedSlots ch asset unset' drafts'), ?_, rfl, rfl⟩
  simp only [finishCommitment, hne', ne_eq, not_false_eq_true, guard_true, htx, Option.bind_eq_bind,
    Option.bind_some, Option.pure_def]

end spec

end SeqLN.Bitcoin
