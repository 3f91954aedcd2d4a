import SeqLN.Lib.StagedLog
import SeqLN.Channeld.Ledger

/-!
# A channel as two logs of updates

A channel object is a summary of what its two sides have said: each side's updates, in order, each at
the stage it has reached. `Tracks` says so of a channel, with what it has forgotten, and `Tracks.view`
that a view is determined by the updates at its stages (`ViewIs`). Two channels whose views are given
by the same updates, seen from either side, agree (`ViewIs.agree`).

A swap that its owner has not yet committed to is in no log: the peer first hears of it in the
commitment.
-/

namespace SeqLN.Channeld

open HtlcState Lib List

/-- What a commitment says of the swap it carries. -/
structure SwapTerms where
  id : ℕ
  giveLane : ℕ
  takeLane : ℕ
  give : ℕ
  take : ℕ
  deriving DecidableEq

def SymSwap.terms (s : SymSwap) : SwapTerms := ⟨s.id, s.giveLane, s.takeLane, s.give, s.take⟩

/-- What a side can say. A removal names an HTLC of the other side. -/
inductive Update where
  | add (a : AddArgs)
  | remove (a : AddArgs) (fulfilled : Bool)
  | fee (feerate : ℕ)
  | swap (t : SwapTerms)

namespace Update

def added : Update → Option AddArgs
  | add a => some a
  | _ => none

def removed : Update → Option (AddArgs × Bool)
  | remove a fulfilled => some (a, fulfilled)
  | _ => none

def swapped : Update → Option SwapTerms
  | swap t => some t
  | _ => none

/-- The feerate after some updates. -/
def feeAfter (feerate : ℕ) (us : List Update) : ℕ :=
  us.foldl (fun f u => match u with | fee f' => f' | _ => f) feerate

/-- What an addition by `o` does to a balance. -/
def addedMove (o : Side) (lane : ℕ) (side : Side) (a : AddArgs) : ℤ :=
  if a.lane = lane ∧ o = side then -a.amount else 0

/-- What a removal by `o` does to a balance: `o` is paid if it showed the preimage. -/
def removedMove (o : Side) (lane : ℕ) (side : Side) (a : AddArgs × Bool) : ℤ :=
  if a.1.lane = lane ∧ (if a.2 then o else o.other) = side then a.1.amount else 0

/-- What a swap of `o` does to a balance. -/
def swappedMove (o : Side) (lane : ℕ) (side : Side) (t : SwapTerms) : ℤ :=
  (if t.giveLane = lane then (if o = side then -(t.give : ℤ) else t.give) else 0) +
    (if t.takeLane = lane then (if o = side then (t.take : ℤ) else -t.take) else 0)

/-- What an update by `o` does to a balance. -/
def move (o : Side) (lane : ℕ) (side : Side) : Update → ℤ
  | add a => addedMove o lane side a
  | remove a fulfilled => removedMove o lane side (a, fulfilled)
  | fee _ => 0
  | swap t => swappedMove o lane side t

/-- What the updates of both sides do to a balance. -/
def moved (us : Side → List Update) (lane : ℕ) (side : Side) : ℤ :=
  ((us .LOCAL).map (move .LOCAL lane side)).sum + ((us .REMOTE).map (move .REMOTE lane side)).sum

lemma sum_move (o : Side) (lane : ℕ) (side : Side) (us : List Update) :
    (us.map (move o lane side)).sum =
      ((us.filterMap added).map (addedMove o lane side)).sum +
        ((us.filterMap removed).map (removedMove o lane side)).sum +
        ((us.filterMap swapped).map (swappedMove o lane side)).sum := by
  induction us with
  | nil => rfl
  | cons u us ih =>
    cases u <;> simp only [map_cons, List.sum_cons, filterMap_cons, added, removed,
      swapped, move, ih] <;> ring

/-- Seen from the other end, the same update moves the same balance. -/
theorem move_other (o : Side) (lane : ℕ) (side : Side) (u : Update) :
    move o.other lane side.other u = move o lane side u := by
  cases u with
  | fee f => rfl
  | add a => simp only [move, addedMove, Side.other_inj]
  | swap t => simp only [move, swappedMove, Side.other_inj]
  | remove a f => cases f <;> cases o <;> cases side <;> simp [move, removedMove]

lemma moved_other (us : Side → List Update) (lane : ℕ) (side : Side) :
    moved (fun o => us o.other) lane side.other = moved us lane side := by
  have h : ∀ o : Side, move o lane side.other = move o.other lane side := by
    intro o
    funext u
    rw [← move_other o.other, Side.other_other]
  unfold moved
  rw [h, h]
  exact add_comm _ _

end Update

/-! ### What a channel says of the updates of a side -/

/-- What `o` added, at stage `k`. -/
def addedBy (o : Side) (k : ℕ) (hs : List Htlc) : List AddArgs :=
  (hs.filter fun h => decide (h.owner = o) && h.state.addedAt k).map Htlc.addArgs

/-- What `o` removed, at stage `k`. -/
def removedBy (o : Side) (k : ℕ) (hs : List Htlc) : List (AddArgs × Bool) :=
  (hs.filter fun h => decide (h.owner = o.other) && h.state.removedAt k).map
    fun h => (h.addArgs, h.r.isSome)

/-- The swaps of `o`, at stage `k`. -/
def swappedBy (o : Side) (k : ℕ) (ss : List SymSwap) : List SwapTerms :=
  (ss.filter fun s => decide (s.owner = o) && s.state.addedAt k).map SymSwap.terms

/-- All HTLCs a channel ever had. -/
def Channel.allHtlcs (past : Past) (c : Channel) : List Htlc := past.htlcs ++ c.htlcs

/-- All swaps a channel ever had. -/
def Channel.allSwaps (past : Past) (c : Channel) : List SymSwap := past.swaps ++ c.symSwap.toList

/-- A channel is the summary of a log for each side. -/
structure Tracks (feerate : ℕ) (past : Past) (c : Channel) (log : Side → StagedLog Update) :
    Prop where
  added : ∀ o, ∀ k ≤ 4,
    (addedBy o k (c.allHtlcs past)).Perm (((log o).upTo k).filterMap Update.added)
  removed : ∀ o, ∀ k ≤ 4,
    (removedBy o k (c.allHtlcs past)).Perm (((log o).upTo k).filterMap Update.removed)
  swapped : ∀ o, ∀ k ≤ 4,
    (swappedBy o (max k 1) (c.allSwaps past)).Perm (((log o).upTo k).filterMap Update.swapped)
  fees : ∀ k ≤ 4, valueFrom c.feeStates c.setup.opener k =
    some (Update.feeAfter feerate ((log c.setup.opener).upTo k))
  unset : ∀ h ∈ c.htlcs, h.state.phase ≤ 4 → h.r = none

/-- The logs once `o` has said something more. -/
def say (log : Side → StagedLog Update) (o : Side) (us : List Update) : Side → StagedLog Update :=
  Function.update log o ((log o).append us)

lemma upTo_say (log : Side → StagedLog Update) (o p : Side) (us : List Update) (k : ℕ) :
    (say log o us p).upTo k = (log p).upTo k ++ if p = o ∧ k = 0 then us else [] := by
  unfold say
  by_cases hp : p = o
  · subst hp
    rw [Function.update_self, StagedLog.upTo_append]
    simp
  · rw [Function.update_of_ne hp, if_neg fun h => hp h.1, append_nil]

/-- What is said leaves the updates of another kind. -/
theorem filterMap_upTo_say {β : Type} {f : Update → Option β} {us : List Update}
    (hf : us.filterMap f = []) (log : Side → StagedLog Update) (o p : Side) (k : ℕ) :
    ((say log o us p).upTo k).filterMap f = ((log p).upTo k).filterMap f := by
  rw [upTo_say, filterMap_append]
  split
  · rw [hf, append_nil]
  · rw [filterMap_nil, append_nil]

lemma feeAfter_append (feerate : ℕ) (us vs : List Update) :
    Update.feeAfter feerate (us ++ vs) = Update.feeAfter (Update.feeAfter feerate us) vs :=
  foldl_append

/-! ### The operations -/

section lists

variable {hs hs' : List Htlc} (o : Side) (k : ℕ)

lemma addedBy_perm (h : hs.Perm hs') : (addedBy o k hs).Perm (addedBy o k hs') :=
  (h.filter _).map _

lemma removedBy_perm (h : hs.Perm hs') : (removedBy o k hs).Perm (removedBy o k hs') :=
  (h.filter _).map _

lemma addedBy_cons (h : Htlc) : addedBy o k (h :: hs) =
    if h.owner = o ∧ h.state.addedAt k = true then h.addArgs :: addedBy o k hs
    else addedBy o k hs := by
  unfold addedBy
  rw [filter_cons]
  simp only [Bool.and_eq_true, decide_eq_true_eq]
  split_ifs <;> rfl

lemma removedBy_cons (h : Htlc) : removedBy o k (h :: hs) =
    if h.owner = o.other ∧ h.state.removedAt k = true then
      (h.addArgs, h.r.isSome) :: removedBy o k hs
    else removedBy o k hs := by
  unfold removedBy
  rw [filter_cons]
  simp only [Bool.and_eq_true, decide_eq_true_eq]
  split_ifs <;> rfl

variable {k} (hk : k ≤ 4) (st : CommitStep)

include hk

lemma addedBy_advance :
    addedBy o k (hs.map st.advanceHtlc) = addedBy o (st.pre o k) hs := by
  unfold addedBy
  rw [List.filter_map, List.map_map]
  have hf : hs.filter ((fun h : Htlc => decide (h.owner = o) && h.state.addedAt k) ∘
      st.advanceHtlc) =
      hs.filter fun h => decide (h.owner = o) && h.state.addedAt (st.pre o k) := by
    apply filter_congr
    intro h _
    simp only [Function.comp_apply, st.owner_advanceHtlc]
    by_cases ho : h.owner = o
    · subst ho
      exact congrArg _ (st.addedAt_advance h.state k hk)
    · simp only [ho, decide_false, Bool.false_and]
  rw [hf]
  rfl

/-- A step moves the removals to their next stage. -/
lemma removedBy_advance :
    removedBy o k (hs.map st.advanceHtlc) = removedBy o (st.pre o k) hs := by
  unfold removedBy
  rw [List.filter_map, List.map_map]
  have hf : hs.filter ((fun h : Htlc => decide (h.owner = o.other) && h.state.removedAt k) ∘
      st.advanceHtlc) =
      hs.filter fun h => decide (h.owner = o.other) && h.state.removedAt (st.pre o k) := by
    apply filter_congr
    intro h _
    simp only [Function.comp_apply, st.owner_advanceHtlc]
    by_cases ho : h.owner = o.other
    · have hrem := st.removedAt_advance h.state k hk
      rw [show htlcStateOwner h.state = o.other from ho, Side.other_other] at hrem
      exact congrArg _ hrem
    · simp only [ho, decide_false, Bool.false_and]
  rw [hf]
  rfl

lemma swappedBy_advance {ss : List SymSwap} :
    swappedBy o k (ss.map st.advanceSwap) = swappedBy o (st.pre o k) ss := by
  unfold swappedBy
  rw [List.filter_map, List.map_map]
  have hf : ss.filter ((fun s : SymSwap => decide (s.owner = o) && s.state.addedAt k) ∘
      st.advanceSwap) =
      ss.filter fun s => decide (s.owner = o) && s.state.addedAt (st.pre o k) := by
    apply filter_congr
    intro s _
    simp only [Function.comp_apply, st.owner_advanceSwap]
    by_cases ho : s.owner = o
    · subst ho
      exact congrArg _ (st.addedAt_advance s.state k hk)
    · simp only [ho, decide_false, Bool.false_and]
  rw [hf]
  rfl

end lists

section ops

variable {feerate : ℕ} {past : Past} {c c' : Channel} {log : Side → StagedLog Update}

/-- An operation that touches neither HTLCs nor swaps nor the feerate leaves the logs. -/
theorem Tracks.congr {past' : Past} (ht : Tracks feerate past c log)
    (hh : c'.htlcs = c.htlcs) (hp : past'.htlcs = past.htlcs)
    (hs : c'.allSwaps past' = c.allSwaps past) (hf : c'.feeStates = c.feeStates)
    (hsetup : c'.setup = c.setup) : Tracks feerate past' c' log where
  added := by
    intro o k hk
    rw [Channel.allHtlcs, hh, hp]
    exact ht.added o k hk
  removed := by
    intro o k hk
    rw [Channel.allHtlcs, hh, hp]
    exact ht.removed o k hk
  swapped := by
    intro o k hk
    rw [hs]
    exact ht.swapped o k hk
  fees := by
    intro k hk
    rw [hf, hsetup]
    exact ht.fees k hk
  unset := by
    rw [hh]
    exact ht.unset

/-- An HTLC that is offered is in its owner's log. -/
theorem Tracks.add (ht : Tracks feerate past c log) {h : Htlc} (hp : h.state.phase = 0)
    (hr : h.r = none) :
    Tracks feerate past { c with htlcs := h :: c.htlcs } (say log h.owner [.add h.addArgs]) where
  added := by
    intro o k hk
    have hperm : (addedBy o k (past.htlcs ++ h :: c.htlcs)).Perm
        (addedBy o k (h :: (past.htlcs ++ c.htlcs))) := addedBy_perm o k perm_middle
    refine hperm.trans ?_
    rw [addedBy_cons, upTo_say, filterMap_append]
    have hat : h.state.addedAt k = true ↔ k = 0 := by
      simp only [HtlcState.addedAt, hp, decide_eq_true_eq, Nat.le_zero]
    simp only [hat, eq_comm (a := h.owner)]
    split
    · exact ((ht.added o k hk).cons _).trans (perm_append_singleton _ _).symm
    · rw [filterMap_nil, append_nil]
      exact ht.added o k hk
  removed := by
    intro o k hk
    have hperm : (removedBy o k (past.htlcs ++ h :: c.htlcs)).Perm
        (removedBy o k (h :: (past.htlcs ++ c.htlcs))) := removedBy_perm o k perm_middle
    refine hperm.trans ?_
    have hat : h.state.removedAt k = false := by
      simp only [HtlcState.removedAt, hp, decide_eq_false_iff_not]
      omega
    rw [removedBy_cons, if_neg (by simp [hat]), filterMap_upTo_say rfl]
    exact ht.removed o k hk
  swapped := by
    intro o k hk
    rw [filterMap_upTo_say rfl]
    exact ht.swapped o k hk
  fees := by
    intro k hk
    rw [upTo_say, feeAfter_append, ht.fees k hk]
    split <;> rfl
  unset := by
    intro g hg
    rcases mem_cons.1 hg with rfl | hg
    · exact fun _ => hr
    · exact ht.unset g hg

/-- A removal is said by the side that did not offer the HTLC. -/
theorem Tracks.remove (ht : Tracks feerate past c log) {g h : Htlc} (hg : g ∈ c.htlcs)
    (hs : removeState g.state = some h.state) (hargs : h.addArgs = g.addArgs) :
    Tracks feerate past (c.replace g h) (say log g.owner.other [.remove g.addArgs h.r.isSome]) := by
  obtain ⟨hp, hp', howner, -⟩ := removeState_spec hs
  have howner : h.owner = g.owner := howner
  have hold : (c.allHtlcs past).Perm (g :: (past.htlcs ++ c.htlcs.erase g)) :=
    ((perm_cons_erase hg).append_left _).trans perm_middle
  have hnew : ((c.replace g h).allHtlcs past).Perm (h :: (past.htlcs ++ c.htlcs.erase g)) :=
    perm_middle
  have hat : ∀ k ≤ 4, g.state.addedAt k = true ∧ h.state.addedAt k = true ∧
      g.state.removedAt k = false ∧ (h.state.removedAt k = true ↔ k = 0) := by
    intro k hk
    simp only [HtlcState.addedAt, HtlcState.removedAt, hp, hp', decide_eq_true_eq,
      decide_eq_false_iff_not]
    omega
  constructor
  case added =>
    intro o k hk
    have hsame : addedBy o k (h :: (past.htlcs ++ c.htlcs.erase g)) =
        addedBy o k (g :: (past.htlcs ++ c.htlcs.erase g)) := by
      rw [addedBy_cons, addedBy_cons, howner, hargs, (hat k hk).1, (hat k hk).2.1]
    rw [filterMap_upTo_say rfl]
    refine (addedBy_perm o k hnew).trans ?_
    rw [hsame]
    exact (addedBy_perm o k hold).symm.trans (ht.added o k hk)
  case removed =>
    intro o k hk
    have hrest : (removedBy o k (past.htlcs ++ c.htlcs.erase g)).Perm
        (((log o).upTo k).filterMap Update.removed) := by
      have := removedBy_perm o k hold
      rw [removedBy_cons, if_neg (by simp [(hat k hk).2.2.1])] at this
      exact this.symm.trans (ht.removed o k hk)
    refine (removedBy_perm o k hnew).trans ?_
    rw [removedBy_cons, upTo_say, filterMap_append, howner, hargs]
    have hside : g.owner = o.other ↔ o = g.owner.other := by
      rw [← Side.other_inj, Side.other_other, eq_comm]
    simp only [hside, (hat k hk).2.2.2]
    split
    · exact (hrest.cons _).trans (perm_append_singleton _ _).symm
    · rw [filterMap_nil, append_nil]
      exact hrest
  case swapped =>
    intro o k hk
    rw [filterMap_upTo_say rfl]
    exact ht.swapped o k hk
  case fees =>
    intro k hk
    rw [upTo_say, feeAfter_append]
    refine (ht.fees k hk).trans ?_
    split <;> rfl
  case unset =>
    intro e he hphase
    rcases mem_cons.1 he with rfl | he
    · omega
    · exact ht.unset e (mem_of_mem_erase he) hphase

/-- A feerate that is offered is in the opener's log. -/
theorem Tracks.fee (ht : Tracks feerate past c log) (value : ℕ) :
    Tracks feerate past
      { c with feeStates := startFeeUpdate c.feeStates c.setup.opener value }
      (say log c.setup.opener [.fee value]) where
  added := by
    intro o k hk
    rw [filterMap_upTo_say rfl]
    exact ht.added o k hk
  removed := by
    intro o k hk
    rw [filterMap_upTo_say rfl]
    exact ht.removed o k hk
  swapped := by
    intro o k hk
    rw [filterMap_upTo_say rfl]
    exact ht.swapped o k hk
  fees := by
    intro k hk
    rw [upTo_say, feeAfter_append]
    rcases Nat.eq_zero_or_pos k with rfl | hpos
    · rw [valueFrom_startFeeUpdate_zero, if_pos ⟨rfl, rfl⟩]
      rfl
    · rw [valueFrom_startFeeUpdate _ _ _ hpos hk, if_neg fun h => hpos.ne' h.2, ht.fees k hk]
      rfl
  unset := ht.unset

/-- The swap that a commitment of `o` is the first to carry. -/
def carried (c : Channel) (st : CommitStep) (o : Side) : List Update :=
  if st.target o = 1 then
    (c.symSwap.toList.filter fun s => decide (s.owner = o) && decide (s.state.phase = 0)).map
      fun s => .swap s.terms
  else []

/-- The logs after a call that commits or revokes. -/
def advanceLog (log : Side → StagedLog Update) (c : Channel) (st : CommitStep) :
    Side → StagedLog Update :=
  fun o => ((log o).append (carried c st o)).advance (st.target o - 1)

lemma upTo_advanceLog (log : Side → StagedLog Update) (c : Channel) (st : CommitStep) (o : Side)
    (k : ℕ) :
    (advanceLog log c st o).upTo k =
      (log o).upTo (st.pre o k) ++ if st.pre o k = 0 then carried c st o else [] := by
  have hpre : (if k = st.target o - 1 + 1 then st.target o - 1 else k) = st.pre o k := by
    have := (st.target_le o).1
    unfold CommitStep.pre
    split_ifs <;> omega
  rw [advanceLog, StagedLog.upTo_advance, hpre, StagedLog.upTo_append]

lemma filterMap_upTo_advanceLog {β : Type} {f : Update → Option β} (hf : ∀ t, f (.swap t) = none)
    (log : Side → StagedLog Update) (c : Channel) (st : CommitStep) (o : Side) (k : ℕ) :
    ((advanceLog log c st o).upTo k).filterMap f = ((log o).upTo (st.pre o k)).filterMap f := by
  have hnone : (carried c st o).filterMap f = [] := by
    rw [filterMap_eq_nil_iff]
    intro u hu
    unfold carried at hu
    split at hu
    · obtain ⟨s, -, rfl⟩ := List.mem_map.1 hu
      exact hf _
    · cases hu
  rw [upTo_advanceLog, filterMap_append]
  split
  · rw [hnone, append_nil]
  · rw [filterMap_nil, append_nil]

lemma feeAfter_carried (value : ℕ) (c : Channel) (st : CommitStep) (o : Side) :
    Update.feeAfter value (carried c st o) = value := by
  unfold carried
  split
  · generalize c.symSwap.toList.filter _ = ss
    induction ss with
    | nil => rfl
    | cons s ss ih => exact ih
  · rfl

lemma phase_le_of_advance (st : CommitStep) {s : HtlcState} (h : (st.advance s).phase ≤ 4) :
    s.phase ≤ 4 := by
  revert st s
  decide

/-- The swaps of a side are those it has committed to and the one it is about to. -/
theorem swappedBy_zero (hsort : Sorted past c) (st : CommitStep) {o : Side}
    (ho : st.target o = 1) :
    (swappedBy o 0 (c.allSwaps past)).Perm
      (swappedBy o 1 (c.allSwaps past) ++ (carried c st o).filterMap Update.swapped) := by
  have hpast : past.swaps.filter (fun s => decide (s.owner = o) && decide (s.state.phase = 0)) =
      [] := by
    apply filter_eq_nil_iff.2
    intro s hs
    simp [hsort.past_done s hs]
  have hcarried : (carried c st o).filterMap Update.swapped =
      ((c.allSwaps past).filter fun s =>
        decide (s.owner = o) && decide (s.state.phase = 0)).map SymSwap.terms := by
    rw [carried, if_pos ho, Channel.allSwaps, filter_append, hpast, nil_append,
      filterMap_map]
    exact congrFun (filterMap_eq_map (f := SymSwap.terms)) _
  rw [hcarried, swappedBy, swappedBy, ← map_append]
  apply List.Perm.map
  -- the swaps of `o`, parted by whether they are at stage one
  have hpart := filter_append_perm (fun s : SymSwap => s.state.addedAt 1)
    ((c.allSwaps past).filter fun s => decide (s.owner = o) && s.state.addedAt 0)
  refine hpart.symm.trans (List.Perm.of_eq ?_)
  rw [List.filter_filter, List.filter_filter]
  congr 1
  · apply filter_congr
    intro s _
    simp [HtlcState.addedAt, Bool.and_comm]
  · apply filter_congr
    intro s _
    have hphase : (!decide (1 ≤ s.state.phase)) = decide (s.state.phase = 0) := by
      rw [← decide_not, decide_eq_decide]
      omega
    simp [HtlcState.addedAt, Bool.and_comm, hphase]

/-- A call that commits or revokes moves every update of the log that is at its stage. -/
theorem Tracks.change (ht : Tracks feerate past c log) (hsort : Sorted past c) {st : CommitStep}
    {flags : ℕ} (h : changeHtlcs c st = some (c', flags)) :
    Tracks feerate (past.advance st c) c' (advanceLog log c st) := by
  obtain ⟨-, -, hsetup, -, -, -, hfees, -⟩ := changeHtlcs_spec h
  have hperm := changeHtlcs_perm hsort h
  constructor
  case added =>
    intro o k hk
    rw [filterMap_upTo_advanceLog fun _ => rfl]
    refine (addedBy_perm o k hperm).trans ?_
    rw [addedBy_advance o hk]
    exact ht.added o _ ((st.pre_le o k).trans hk)
  case removed =>
    intro o k hk
    rw [filterMap_upTo_advanceLog fun _ => rfl]
    refine (removedBy_perm o k hperm).trans ?_
    rw [removedBy_advance o hk]
    exact ht.removed o _ ((st.pre_le o k).trans hk)
  case swapped =>
    intro o k hk
    have htarget := (st.target_le o).1
    have hold := ht.swapped o (st.pre o k) ((st.pre_le o k).trans hk)
    rw [Channel.allSwaps, changeHtlcs_swaps hsort h, swappedBy_advance o (by omega : max k 1 ≤ 4),
      upTo_advanceLog, filterMap_append]
    by_cases hz : st.pre o k = 0
    · by_cases hone : st.target o = 1
      · -- the commitment that is the first to carry the swap
        have hpre : st.pre o (max k 1) = 0 := by
          unfold CommitStep.pre at hz ⊢
          rw [hone] at hz ⊢
          split_ifs at hz ⊢ <;> omega
        rw [if_pos hz, hpre]
        rw [hz] at hold ⊢
        exact (swappedBy_zero hsort st hone).trans (hold.append_right _)
      · have hk0 : k = 0 := by
          unfold CommitStep.pre at hz
          split_ifs at hz <;> omega
        have hpre : st.pre o (max k 1) = max (st.pre o k) 1 := by
          subst hk0
          unfold CommitStep.pre
          split_ifs <;> omega
        rw [if_pos hz, hpre, carried, if_neg hone, filterMap_nil, append_nil]
        exact hold
    · have hpre : st.pre o (max k 1) = max (st.pre o k) 1 := by
        unfold CommitStep.pre at hz ⊢
        split_ifs at hz ⊢ <;> omega
      rw [if_neg hz, hpre, filterMap_nil, append_nil]
      exact hold
  case fees =>
    intro k hk
    rw [hsetup, hfees, valueFrom_feeIncstates st _ _ hk, upTo_advanceLog, feeAfter_append]
    refine (ht.fees _ ((st.pre_le _ k).trans hk)).trans ?_
    split
    · rw [feeAfter_carried]
    · rfl
  case unset =>
    intro g hg hphase
    rw [changeHtlcs_htlcs hsort h] at hg
    obtain ⟨e, he, rfl⟩ := List.mem_map.1 (mem_filter.1 hg).1
    exact ht.unset e he (phase_le_of_advance st hphase)

end ops

/-! ### What the logs say of a view -/

/-- The HTLCs of a side that are committed to a view. -/
def committedBy (c : Channel) (v o : Side) : List AddArgs :=
  ((gather c.htlcs v).committed.filter fun h => decide (h.owner = o)).map Htlc.addArgs

/-- A view is what some updates of each side lead to, from what the channel started with. -/
structure ViewIs (init : ℕ → Side → ℤ) (feerate : ℕ) (c : Channel) (v : Side)
    (us : Side → List Update) : Prop where
  htlcs : ∀ o, (committedBy c v o ++ ((us o.other).filterMap Update.removed).map Prod.fst).Perm
    ((us o).filterMap Update.added)
  owed_modEq : ∀ l < symNumLanes c.setup, ∀ s,
    (c.owed v l s : ℤ) ≡ init l s + Update.moved us l s [ZMOD 2 ^ 64]
  owed_lt : ∀ l < symNumLanes c.setup, ∀ s, c.owed v l s < 2 ^ 64
  fee : channelFeerate c v = some (Update.feeAfter feerate (us c.setup.opener))

/-- What was added is committed or was removed. -/
theorem committedBy_append_removedBy {past : Past} {c : Channel} (hsort : Sorted past c)
    (v o : Side) :
    (committedBy c v o ++
        (removedBy o.other (viewStage v o.other) (c.allHtlcs past)).map Prod.fst).Perm
      (addedBy o (viewStage v o) (c.allHtlcs past)) := by
  have hpast : past.htlcs.filter (fun h => decide (h.owner = o) && isCommitted v h) = [] := by
    apply filter_eq_nil_iff.2
    intro h hh
    have hrem := HtlcState.removedAt_of_isDead (hsort.past_dead h hh)
      (viewStage_le v (htlcStateOwner h.state).other)
    rw [isCommitted, Htlc.has, committed_eq, hrem]
    simp
  have hcommitted : committedBy c v o = ((c.allHtlcs past).filter fun h =>
      decide (h.owner = o) && isCommitted v h).map Htlc.addArgs := by
    rw [Channel.allHtlcs, filter_append, hpast, nil_append, committedBy, gather,
      List.filter_filter]
  rw [hcommitted, removedBy, List.map_map, addedBy, Side.other_other]
  change (_ ++ List.map Htlc.addArgs _).Perm _
  rw [← map_append]
  apply List.Perm.map
  have hpart := filter_append_perm
    (fun h : Htlc => !h.state.removedAt (viewStage v o.other))
    ((c.allHtlcs past).filter fun h => decide (h.owner = o) && h.state.addedAt (viewStage v o))
  refine (List.Perm.of_eq ?_).trans hpart
  rw [List.filter_filter, List.filter_filter]
  congr 1
  · apply filter_congr
    intro h _
    by_cases ho : h.owner = o
    · have hc := committed_eq h.state v
      rw [show htlcStateOwner h.state = o from ho] at hc
      simp only [ho, isCommitted, Htlc.has, hc, decide_true, Bool.true_and, Bool.and_comm]
    · simp [ho]
  · apply filter_congr
    intro h _
    have hadd := HtlcState.addedAt_of_removedAt (s := h.state) (j := viewStage v o.other)
      (k := viewStage v o) ((viewStage_le v o).trans (by omega))
    cases hr : h.state.removedAt (viewStage v o.other)
    · simp
    · simp [hadd hr]

/-- What an HTLC has done at a cut, as the two updates it is made of. -/
theorem cutMove_eq (a : Cut) (h : Htlc) (lane : ℕ) (side : Side) :
    cutMove a h lane side =
      (if h.state.addedAt (a h.owner) then Update.addedMove h.owner lane side h.addArgs else 0) +
        (if h.state.removedAt (a h.owner.other) then
          Update.removedMove h.owner.other lane side (h.addArgs, h.r.isSome) else 0) := by
  have hpaid : (if h.r.isSome = true then h.owner.other else h.owner.other.other) = h.paidTo := by
    rw [Htlc.paidTo, Side.other_other]
  unfold cutMove Update.addedMove Update.removedMove addMove removeMove
  rw [hpaid]
  by_cases hl : h.lane = lane
  · simp only [Htlc.addArgs, hl, true_and, if_true]
  · simp only [Htlc.addArgs, hl, false_and, if_false, ite_self, add_zero]

lemma cutSwap_eq (a : Cut) (s : SymSwap) (lane : ℕ) (side : Side) :
    cutSwap a s lane side =
      if s.state.addedAt (a s.owner) then Update.swappedMove s.owner lane side s.terms else 0 := rfl

lemma sum_addedBy_cons (o : Side) (k : ℕ) (h : Htlc) (hs : List Htlc) (f : AddArgs → ℤ) :
    ((addedBy o k (h :: hs)).map f).sum =
      (if h.owner = o ∧ h.state.addedAt k = true then f h.addArgs else 0) +
        ((addedBy o k hs).map f).sum := by
  rw [addedBy_cons]
  split_ifs
  · rw [map_cons, List.sum_cons]
  · rw [zero_add]

lemma sum_removedBy_cons (o : Side) (k : ℕ) (h : Htlc) (hs : List Htlc)
    (f : AddArgs × Bool → ℤ) :
    ((removedBy o k (h :: hs)).map f).sum =
      (if h.owner = o.other ∧ h.state.removedAt k = true then f (h.addArgs, h.r.isSome) else 0) +
        ((removedBy o k hs).map f).sum := by
  rw [removedBy_cons]
  split_ifs
  · rw [map_cons, List.sum_cons]
  · rw [zero_add]

lemma sum_swappedBy_cons (o : Side) (k : ℕ) (s : SymSwap) (ss : List SymSwap)
    (f : SwapTerms → ℤ) :
    ((swappedBy o k (s :: ss)).map f).sum =
      (if s.owner = o ∧ s.state.addedAt k = true then f s.terms else 0) +
        ((swappedBy o k ss).map f).sum := by
  rw [swappedBy, filter_cons]
  simp only [Bool.and_eq_true, decide_eq_true_eq]
  split_ifs
  · rw [map_cons, map_cons, List.sum_cons]
    rfl
  · rw [zero_add]
    rfl

/-- The moves of HTLCs, side by side, are those of the updates. -/
lemma sum_cutMove (a : Cut) (hs : List Htlc) (lane : ℕ) (side : Side) :
    (hs.map (cutMove a · lane side)).sum =
      (((addedBy .LOCAL (a .LOCAL) hs).map (Update.addedMove .LOCAL lane side)).sum +
          ((removedBy .LOCAL (a .LOCAL) hs).map (Update.removedMove .LOCAL lane side)).sum) +
        (((addedBy .REMOTE (a .REMOTE) hs).map (Update.addedMove .REMOTE lane side)).sum +
          ((removedBy .REMOTE (a .REMOTE) hs).map (Update.removedMove .REMOTE lane side)).sum) := by
  induction hs with
  | nil => rfl
  | cons h hs ih =>
    rw [map_cons, List.sum_cons, ih, cutMove_eq]
    simp only [sum_addedBy_cons, sum_removedBy_cons]
    rcases h.owner.eq_or_eq_other .LOCAL with hw | hw <;>
      simp only [hw, reduceCtorEq, Side.other_LOCAL, Side.other_REMOTE, true_and, false_and,
        if_false] <;>
      ring

lemma sum_cutSwap (a : Cut) (ss : List SymSwap) (lane : ℕ) (side : Side) :
    (ss.map (cutSwap a · lane side)).sum =
      ((swappedBy .LOCAL (a .LOCAL) ss).map (Update.swappedMove .LOCAL lane side)).sum +
        ((swappedBy .REMOTE (a .REMOTE) ss).map (Update.swappedMove .REMOTE lane side)).sum := by
  induction ss with
  | nil => rfl
  | cons s ss ih =>
    rw [map_cons, List.sum_cons, ih, cutSwap_eq]
    simp only [sum_swappedBy_cons]
    rcases s.owner.eq_or_eq_other .LOCAL with hw | hw <;>
      simp only [hw, reduceCtorEq, Side.other_LOCAL, true_and, false_and, if_false] <;> ring

section view

variable {init : ℕ → Side → ℤ} {feerate : ℕ} {past : Past} {c : Channel}
  {log : Side → StagedLog Update}

/-- The balances of a view are moved by the updates that have reached it. -/
theorem Tracks.cutTotal_eq (ht : Tracks feerate past c log) (v : Side) (lane : ℕ) (side : Side) :
    cutTotal (viewStage v) past c lane side =
      Update.moved (fun o => (log o).upTo (viewStage v o)) lane side := by
  have hadd := fun o => ((ht.added o _ (viewStage_le v o)).map
    (Update.addedMove o lane side)).sum_eq
  have hrem := fun o => ((ht.removed o _ (viewStage_le v o)).map
    (Update.removedMove o lane side)).sum_eq
  have hswap := fun o => ((ht.swapped o _ (viewStage_le v o)).map
    (Update.swappedMove o lane side)).sum_eq
  have hmax : ∀ o, max (viewStage v o) 1 = viewStage v o := by
    intro o
    have := viewStage_ne_zero v o
    omega
  simp only [hmax] at hswap
  rw [cutTotal, htlcTotal, swapTotal, sum_cutMove, sum_cutSwap]
  change ((_ + _) + (_ + _)) + (_ + _) = _
  simp only [Channel.allHtlcs, Channel.allSwaps] at hadd hrem hswap
  rw [hadd, hadd, hrem, hrem, hswap, hswap]
  simp only [Update.moved, Update.sum_move]
  ring

/-- A view is what the updates at its stages lead to. -/
theorem Tracks.view (ht : Tracks feerate past c log) (hl : Ledger init past c) (v : Side) :
    ViewIs init feerate c v fun o => (log o).upTo (viewStage v o) where
  htlcs := by
    intro o
    have hrem := (ht.removed o.other _ (viewStage_le v o.other)).map Prod.fst
    refine (List.Perm.append_left _ hrem.symm).trans ?_
    exact (committedBy_append_removedBy hl.toSorted v o).trans (ht.added o _ (viewStage_le v o))
  owed_modEq := by
    intro l hlane s
    rw [← ht.cutTotal_eq]
    exact hl.owed_modEq v l hlane s
  owed_lt := hl.owed_lt v
  fee := by
    rw [channelFeerate, getFeerate_eq]
    exact ht.fees _ (viewStage_le v c.setup.opener)

end view

/-! ### Two views of the same updates -/

/-- The sender's view of the receiver, when it commits, is what the receiver has in its own: the
HTLCs of either side, both balances of every lane, and the feerate. -/
structure ViewsAgree (sent received : Channel) : Prop where
  htlcs : ∀ o, (committedBy sent .REMOTE o).Perm (committedBy received .LOCAL o.other)
  owed : ∀ l < symNumLanes received.setup, ∀ s,
    sent.owed .REMOTE l s = received.owed .LOCAL l s.other
  feerate : (channelFeerate sent .REMOTE).isSome = true ∧
    channelFeerate sent .REMOTE = channelFeerate received .LOCAL

/-- One view of the same updates agrees at the two peers. -/
theorem ViewIs.agree {init init' : ℕ → Side → ℤ} {feerate : ℕ} {sent received : Channel}
    {us : Side → List Update} (hs : ViewIs init feerate sent .REMOTE us)
    (hr : ViewIs init' feerate received .LOCAL fun o => us o.other)
    (hinit : ∀ l < symNumLanes received.setup, ∀ s, init' l s.other = init l s)
    (hlanes : symNumLanes sent.setup = symNumLanes received.setup)
    (hopener : received.setup.opener = sent.setup.opener.other) : ViewsAgree sent received where
  htlcs := by
    intro o
    have h₁ := hs.htlcs o
    have h₂ := hr.htlcs o.other
    simp only [Side.other_other] at h₂
    exact (perm_append_right_iff _).1 (h₁.trans h₂.symm)
  owed := by
    intro l hl s
    have h₁ := hs.owed_modEq l (hlanes ▸ hl) s
    have h₂ := hr.owed_modEq l hl s.other
    rw [Update.moved_other, hinit l hl] at h₂
    have hlt₁ := hs.owed_lt l (hlanes ▸ hl) s
    have hlt₂ := hr.owed_lt l hl s.other
    have heq := h₁.trans h₂.symm
    unfold Int.ModEq at heq
    omega
  feerate := by
    rw [hs.fee, hr.fee, hopener, Side.other_other]
    exact ⟨rfl, rfl⟩

end SeqLN.Channeld
