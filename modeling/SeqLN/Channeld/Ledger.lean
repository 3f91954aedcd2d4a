import SeqLN.Channeld.Steps

/-!
# The ledger behind the balances

At every point of every run, a view owes a side what the channel started with, plus what each HTLC and
swap the channel ever had does at the stages that view has reached.

A `Cut` gives, for each side, the stage its updates must have reached; `cutMove` and `cutSwap` are
what an HTLC and a swap do at a cut, and `viewStage v` is the cut of view `v`. A call that commits or
revokes moves the cuts, and `changedOwed_eq` says that the loops of `change_htlcs` compute just that,
up to wrapping. `Ledger` is the invariant, and `Ledger.step` keeps it.
-/

namespace SeqLN.Channeld

open HtlcState List

/-! ### Cuts -/

/-- For each side, the stage its updates must have reached. -/
abbrev Cut := Side → ℕ

/-- What is pending for a view is one stage short of it. -/
def nextCut (view : Side) : Cut := fun o => viewStage view o - 1

/-- The cut before a call that a cut after it comes from. -/
def CommitStep.preCut (st : CommitStep) (a : Cut) : Cut := fun o => st.pre o (a o)

/-- What an HTLC has done to a balance at a cut. -/
def cutMove (a : Cut) (h : Htlc) (lane : ℕ) (side : Side) : ℤ :=
  if h.lane = lane then
    (if h.state.addedAt (a h.owner) then addMove h side else 0) +
      (if h.state.removedAt (a h.owner.other) then removeMove h side else 0)
  else 0

/-- What a swap has done to a balance at a cut. -/
def cutSwap (a : Cut) (s : SymSwap) (lane : ℕ) (side : Side) : ℤ :=
  if s.state.addedAt (a s.owner) then swapMove s lane side else 0

namespace CommitStep

/-- What a call makes of an HTLC. -/
def advanceHtlc (st : CommitStep) (h : Htlc) : Htlc := { h with state := st.advance h.state }

/-- What a call makes of a swap. -/
def advanceSwap (st : CommitStep) (s : SymSwap) : SymSwap := { s with state := st.advance s.state }

variable (st : CommitStep)

@[simp] lemma owner_advanceHtlc (h : Htlc) : (st.advanceHtlc h).owner = h.owner :=
  st.htlcStateOwner_advance h.state

@[simp] lemma owner_advanceSwap (s : SymSwap) : (st.advanceSwap s).owner = s.owner :=
  st.htlcStateOwner_advance s.state

lemma addMove_advanceHtlc (h : Htlc) (side : Side) :
    addMove (st.advanceHtlc h) side = addMove h side := by
  rw [addMove, addMove, owner_advanceHtlc]
  rfl

lemma removeMove_advanceHtlc (h : Htlc) (side : Side) :
    removeMove (st.advanceHtlc h) side = removeMove h side := by
  rw [removeMove, removeMove, Htlc.paidTo, Htlc.paidTo, owner_advanceHtlc]
  rfl

lemma swapMove_advanceSwap (s : SymSwap) (lane : ℕ) (side : Side) :
    swapMove (st.advanceSwap s) lane side = swapMove s lane side := by
  rw [swapMove, swapMove, owner_advanceSwap]
  rfl

/-- A view that the call does not change keeps its cut. -/
theorem preCut_viewStage_of_ne {view : Side} (h : view ≠ st.sidechanged) :
    st.preCut (viewStage view) = viewStage view := by
  funext o
  revert st view o
  decide

end CommitStep

section cuts

variable {a : Cut} (ha : ∀ o, a o ≤ 4) (st : CommitStep)

include ha

lemma cutMove_advance (h : Htlc) (lane : ℕ) (side : Side) :
    cutMove a (st.advanceHtlc h) lane side = cutMove (st.preCut a) h lane side := by
  have hadd := st.addedAt_advance h.state (a h.owner) (ha h.owner)
  have hrem := st.removedAt_advance h.state (a h.owner.other) (ha h.owner.other)
  unfold cutMove
  rw [st.owner_advanceHtlc, st.addMove_advanceHtlc, st.removeMove_advanceHtlc]
  change (if h.lane = lane then
    (if (st.advance h.state).addedAt (a h.owner) then addMove h side else 0) +
      (if (st.advance h.state).removedAt (a h.owner.other) then removeMove h side else 0) else 0) = _
  rw [hadd, hrem]
  rfl

lemma cutSwap_advance (s : SymSwap) (lane : ℕ) (side : Side) :
    cutSwap a (st.advanceSwap s) lane side = cutSwap (st.preCut a) s lane side := by
  have hadd := st.addedAt_advance s.state (a s.owner) (ha s.owner)
  unfold cutSwap
  rw [st.owner_advanceSwap, st.swapMove_advanceSwap]
  change (if (st.advance s.state).addedAt (a s.owner) then swapMove s lane side else 0) = _
  rw [hadd]
  rfl

end cuts

lemma viewStage_le (view o : Side) : viewStage view o ≤ 4 := by
  revert view o
  decide

lemma nextCut_le (view o : Side) : nextCut view o ≤ 4 := by
  revert view o
  decide

/-! ### What the loops compute -/

variable {st : CommitStep} {s : HtlcState} {h : Htlc} {a : Cut} {owed : Owed} {side : Side} {x : ℤ}
  {lane : ℕ} {c : Channel}

/-- An HTLC enters the changed view when its addition reaches the view's stage, and leaves when its
removal does. -/
theorem enters_leaves (st : CommitStep) (s : HtlcState) (hs : s ∈ st.htlcStates) :
    (!s.has (HTLC_FLAG st.sidechanged HTLC_F_COMMITTED) &&
        s.succ.has (HTLC_FLAG st.sidechanged HTLC_F_COMMITTED)) =
      (!s.addedAt (viewStage st.sidechanged (htlcStateOwner s)) &&
        s.addedAt (st.preCut (viewStage st.sidechanged) (htlcStateOwner s))) ∧
    (s.has (HTLC_FLAG st.sidechanged HTLC_F_COMMITTED) &&
        !s.succ.has (HTLC_FLAG st.sidechanged HTLC_F_COMMITTED)) =
      (!s.removedAt (viewStage st.sidechanged (htlcStateOwner s).other) &&
        s.removedAt (st.preCut (viewStage st.sidechanged) (htlcStateOwner s).other)) := by
  revert st s
  decide

/-- What a call moves of a balance for one HTLC. -/
def incMove (st : CommitStep) (h : Htlc) (lane : ℕ) (side : Side) : ℤ :=
  cutMove (st.preCut (viewStage st.sidechanged)) h lane side -
    cutMove (viewStage st.sidechanged) h lane side

/-- What a call moves of a balance for one swap. -/
def incSwap (st : CommitStep) (s : SymSwap) (lane : ℕ) (side : Side) : ℤ :=
  cutSwap (st.preCut (viewStage st.sidechanged)) s lane side -
    cutSwap (viewStage st.sidechanged) s lane side

lemma advance_of_not_mem (hs : s ∉ st.htlcStates) :
    st.advance s = s := if_neg hs

lemma advance_of_mem (hs : s ∈ st.htlcStates) :
    st.advance s = s.succ := if_pos hs

lemma incMove_of_not_mem (hs : h.state ∉ st.htlcStates) (lane : ℕ) (side : Side) :
    incMove st h lane side = 0 := by
  rw [incMove, ← cutMove_advance (viewStage_le _), CommitStep.advanceHtlc, advance_of_not_mem hs,
    sub_self]

lemma incSwap_of_not_mem {s : SymSwap} (hs : s.state ∉ st.htlcStates) (lane : ℕ) (side : Side) :
    incSwap st s lane side = 0 := by
  rw [incSwap, ← cutSwap_advance (viewStage_le _), CommitStep.advanceSwap, advance_of_not_mem hs,
    sub_self]

/-- A stage that has been reached was reached before a cut moves up. -/
theorem addedAt_preCut (st : CommitStep) {o : Side} (h : s.addedAt (a o) = true) :
    s.addedAt (st.preCut a o) = true :=
  HtlcState.addedAt_mono (st.pre_le o (a o)) h

lemma removedAt_preCut (st : CommitStep) {o : Side} (h : s.removedAt (a o) = true) :
    s.removedAt (st.preCut a o) = true :=
  HtlcState.removedAt_mono (st.pre_le o (a o)) h

/-- The addition of an HTLC reaches the stage of the changed view in this call. -/
def enters (st : CommitStep) (h : Htlc) : Bool :=
  !h.state.addedAt (viewStage st.sidechanged h.owner) &&
    h.state.addedAt (st.preCut (viewStage st.sidechanged) h.owner)

/-- The removal of an HTLC reaches the stage of the changed view in this call. -/
def leaves (st : CommitStep) (h : Htlc) : Bool :=
  !h.state.removedAt (viewStage st.sidechanged h.owner.other) &&
    h.state.removedAt (st.preCut (viewStage st.sidechanged) h.owner.other)

/-- A call moves a balance for an HTLC that enters the view or leaves it. -/
theorem incMove_eq (st : CommitStep) (h : Htlc) (side : Side) :
    incMove st h h.lane side =
      (if enters st h then addMove h side else 0) +
        (if leaves st h then removeMove h side else 0) := by
  have hadd := addedAt_preCut st (a := viewStage st.sidechanged) (o := h.owner) (s := h.state)
  have hrem := removedAt_preCut st (a := viewStage st.sidechanged) (o := h.owner.other)
    (s := h.state)
  unfold incMove cutMove enters leaves
  cases h1 : h.state.addedAt (viewStage st.sidechanged h.owner) <;>
    cases h2 : h.state.removedAt (viewStage st.sidechanged h.owner.other) <;>
    simp_all

lemma onLane_eq_wrapS64 {l : ℕ} {d : ℤ} {f : ℤ → Side → ℤ} (lane : ℕ)
    (hw : owed l side = wrapS64 x) (hf : f (wrapS64 x) side = wrapS64 (x + d)) :
    owed.onLane lane f l side = wrapS64 (x + if l = lane then d else 0) := by
  unfold Owed.onLane
  split
  · rw [hw, hf]
  · rw [hw, add_zero]

lemma cutMove_of_ne (hl : h.lane ≠ lane) (side : Side) :
    cutMove a h lane side = 0 := if_neg hl

lemma incMove_of_ne (hl : h.lane ≠ lane) (side : Side) : incMove st h lane side = 0 := by
  rw [incMove, cutMove_of_ne hl, cutMove_of_ne hl, sub_self]

lemma leaves_of_enters (he : enters st h = true) : leaves st h = false := by
  by_contra hl
  rw [Bool.not_eq_false, leaves, Bool.and_eq_true] at hl
  rw [enters, Bool.and_eq_true, Bool.not_eq_true'] at he
  have := HtlcState.addedAt_of_removedAt (k := viewStage st.sidechanged h.owner)
    (le_trans (viewStage_le _ _) (by omega)) hl.2
  exact absurd (he.1.symm.trans this) (by decide)

lemma htlcIncstate_eq (hs : h.state ∈ st.htlcStates) (owed : Owed) :
    htlcIncstate st.sidechanged owed h =
      (st.advanceHtlc h,
        if enters st h then owed.onLane h.lane fun b s => balanceAddHtlc b (st.advanceHtlc h) s
        else if leaves st h then
          owed.onLane h.lane fun b s => balanceRemoveHtlc b (st.advanceHtlc h) s
        else owed) := by
  have hadv : st.advanceHtlc h = { h with state := h.state.succ } := by
    rw [CommitStep.advanceHtlc, advance_of_mem hs]
  obtain ⟨henter, hleave⟩ := enters_leaves st h.state hs
  rw [hadv]
  simp only [htlcIncstate, Htlc.has, henter, hleave]
  rfl

/-- A change of state moves what the HTLC moves, modulo wrapping. -/
lemma htlcIncstate_owed (hs : h.state ∈ st.htlcStates) (hw : owed lane side = wrapS64 x) :
    (htlcIncstate st.sidechanged owed h).2 lane side = wrapS64 (x + incMove st h lane side) := by
  have hA := onLane_eq_wrapS64 (f := fun b s => balanceAddHtlc b (st.advanceHtlc h) s) h.lane hw
    (balanceAddHtlc_wrapS64 x (st.advanceHtlc h) side)
  have hR := onLane_eq_wrapS64 (f := fun b s => balanceRemoveHtlc b (st.advanceHtlc h) s) h.lane hw
    (balanceRemoveHtlc_wrapS64 x (st.advanceHtlc h) side)
  rw [st.addMove_advanceHtlc] at hA
  rw [st.removeMove_advanceHtlc] at hR
  rw [htlcIncstate_eq hs]
  by_cases hl : lane = h.lane
  · subst hl
    rw [if_pos rfl] at hA hR
    rw [incMove_eq]
    cases he : enters st h
    · cases hv : leaves st h
      · simpa using hw
      · simpa using hR
    · simpa [leaves_of_enters he] using hA
  · rw [if_neg hl, add_zero] at hA hR
    rw [incMove_of_ne (Ne.symm hl), add_zero]
    dsimp only
    split_ifs
    exacts [hA, hR, hw]

lemma changeLoop_owed (st : CommitStep) (htlcs : List Htlc) (hw : owed lane side = wrapS64 x) :
    (changeLoop st htlcs owed).2.1 lane side =
      wrapS64 (x + (htlcs.map (incMove st · lane side)).sum) := by
  induction htlcs generalizing owed x with
  | nil => simpa [changeLoop] using hw
  | cons h htlcs ih =>
    rw [map_cons, List.sum_cons]
    by_cases hs : h.state ∈ st.htlcStates
    · simp only [changeLoop, hs, if_true]
      rw [ih (htlcIncstate_owed hs hw), add_assoc]
    · simp only [changeLoop, hs, if_false]
      rw [ih hw, incMove_of_not_mem hs, zero_add]

/-- What remains: every HTLC advances, and those that are then dead are deleted. -/
theorem changeLoop_htlcs (st : CommitStep) {htlcs : List Htlc}
    (hlive : ∀ h ∈ htlcs, h.state.isDead = false) (owed : Owed) :
    (changeLoop st htlcs owed).1 =
      (htlcs.map st.advanceHtlc).filter fun h => !h.state.isDead := by
  induction htlcs generalizing owed with
  | nil => rfl
  | cons h htlcs ih =>
    have ih := ih fun g hg => hlive g (mem_cons_of_mem h hg)
    rw [map_cons, filter_cons]
    by_cases hs : h.state ∈ st.htlcStates
    · have hadv : (htlcIncstate st.sidechanged owed h).1 = st.advanceHtlc h := by
        rw [CommitStep.advanceHtlc, advance_of_mem hs]
        rfl
      simp only [changeLoop, hs, if_true, ih, hadv]
      cases (st.advanceHtlc h).state.isDead <;> rfl
    · have hadv : st.advanceHtlc h = h := by rw [CommitStep.advanceHtlc, advance_of_not_mem hs]
      simp only [changeLoop, hs, if_false, ih, hadv, hlive h mem_cons_self, Bool.not_false,
        if_true]

lemma changeSwap_fst (st : CommitStep) (swap : Option SymSwap) (owed : Owed) :
    (changeSwap st swap owed).1 = swap.map st.advanceSwap := by
  rcases swap with _ | s
  · rfl
  · by_cases hs : s.state ∈ st.htlcStates
    · simp [changeSwap, hs, CommitStep.advanceSwap, advance_of_mem hs]
    · simp [changeSwap, hs, CommitStep.advanceSwap, advance_of_not_mem hs]

/-- A swap reaches the stage of the changed view in this call. -/
def swapEnters (st : CommitStep) (s : SymSwap) : Bool :=
  !s.state.addedAt (viewStage st.sidechanged s.owner) &&
    s.state.addedAt (st.preCut (viewStage st.sidechanged) s.owner)

/-- A call moves both legs of a swap that enters the view, and neither of any other. -/
theorem incSwap_eq (st : CommitStep) (s : SymSwap) (lane : ℕ) (side : Side) :
    incSwap st s lane side = if swapEnters st s then swapMove s lane side else 0 := by
  have hadd := addedAt_preCut st (a := viewStage st.sidechanged) (o := s.owner) (s := s.state)
  unfold incSwap cutSwap swapEnters
  cases h1 : s.state.addedAt (viewStage st.sidechanged s.owner) <;> simp_all

lemma changeSwap_some {s : SymSwap} (hs : s.state ∈ st.htlcStates) (owed : Owed) :
    (changeSwap st (some s) owed).2.1 =
      if swapEnters st s then balanceSwap owed (st.advanceSwap s) else owed := by
  have hadv : st.advanceSwap s = { s with state := s.state.succ } := by
    rw [CommitStep.advanceSwap, advance_of_mem hs]
  rw [hadv]
  simp only [changeSwap, hs, if_true, (enters_leaves st s.state hs).1]
  rfl

lemma changeSwap_owed (st : CommitStep) (swap : Option SymSwap)
    (hw : owed lane side = wrapS64 x) :
    (changeSwap st swap owed).2.1 lane side =
      wrapS64 (x + (swap.toList.map (incSwap st · lane side)).sum) := by
  rcases swap with _ | s
  · simpa [changeSwap] using hw
  · by_cases hs : s.state ∈ st.htlcStates
    · rw [changeSwap_some hs, Option.toList_some, map_singleton, sum_singleton,
        incSwap_eq]
      split
      · rw [balanceSwap_eq_wrapS64 hw, st.swapMove_advanceSwap]
      · rw [hw, add_zero]
    · simp [changeSwap, hs, incSwap_of_not_mem hs, hw]

/-- What the changed view would owe, before the word is checked for its sign. -/
theorem changedOwed_eq (hfit : BalancesFit c st.sidechanged) (hlane : lane < symNumLanes c.setup)
    (side : Side) :
    changedOwed c st lane side =
      wrapS64 (c.owed st.sidechanged lane side + (c.htlcs.map (incMove st · lane side)).sum +
        (c.symSwap.toList.map (incSwap st · lane side)).sum) := by
  have hstart : ((c.owed st.sidechanged lane side : ℕ) : ℤ) =
      wrapS64 (c.owed st.sidechanged lane side) := by
    rw [wrapS64_of_isS64]
    have := hfit lane hlane side
    constructor <;> omega
  unfold changedOwed
  rw [changeSwap_owed st c.symSwap (changeLoop_owed st c.htlcs hstart)]

/-! ### Everything the channel ever had -/

/-- The HTLCs and swaps that a channel has forgotten. -/
structure Past where
  htlcs : List Htlc
  swaps : List SymSwap

/-- What all HTLCs have done to a balance at a cut. -/
def htlcTotal (a : Cut) (past : Past) (c : Channel) (lane : ℕ) (side : Side) : ℤ :=
  ((past.htlcs ++ c.htlcs).map (cutMove a · lane side)).sum

/-- What all swaps have done to a balance at a cut. -/
def swapTotal (a : Cut) (past : Past) (c : Channel) (lane : ℕ) (side : Side) : ℤ :=
  ((past.swaps ++ c.symSwap.toList).map (cutSwap a · lane side)).sum

/-- What all HTLCs and swaps have done to a balance at a cut. -/
def cutTotal (a : Cut) (past : Past) (c : Channel) (lane : ℕ) (side : Side) : ℤ :=
  htlcTotal a past c lane side + swapTotal a past c lane side

/-- The forgotten HTLCs are dead, the forgotten swaps are done, and one in flight is not being
removed. -/
structure Sorted (past : Past) (c : Channel) : Prop where
  past_dead : ∀ h ∈ past.htlcs, h.state.isDead = true
  live : ∀ h ∈ c.htlcs, h.state.isDead = false
  past_done : ∀ s ∈ past.swaps, s.state.phase = 4
  swap_phase : ∀ s ∈ c.symSwap, s.state.phase ≤ 4

/-- What a call makes of the forgotten: the HTLCs that die are added. -/
def Past.advance (past : Past) (st : CommitStep) (c : Channel) : Past where
  htlcs := past.htlcs ++ (c.htlcs.map st.advanceHtlc).filter fun h => h.state.isDead
  swaps := past.swaps

lemma advance_of_isDead (st : CommitStep) (h : s.isDead = true) : st.advance s = s := by
  revert st s
  decide

lemma advance_of_phase (st : CommitStep) (h : s.phase = 4) : st.advance s = s := by
  revert st s
  decide

lemma phase_advance_le (st : CommitStep) (h : s.phase ≤ 4) : (st.advance s).phase ≤ 4 := by
  revert st s
  decide

section change

variable {past : Past} {c c' : Channel} {st : CommitStep} {flags : ℕ}

/-- What an accepted commitment step changes. -/
lemma changeHtlcs_spec (h : changeHtlcs c st = some (c', flags)) :
    BalancesFit c st.sidechanged ∧ NoUnderflow c st ∧ c'.setup = c.setup ∧
      c'.htlcs = (changeLoop st c.htlcs fun l s => c.owed st.sidechanged l s).1 ∧
      c'.symSwap = c.symSwap.map st.advanceSwap ∧ c'.symSwapReq = c.symSwapReq ∧
      c'.feeStates = (feeIncstates st.htlcStates c.feeStates).1 ∧
      ∀ v l s, c'.owed v l s =
        if v = st.sidechanged ∧ l < symNumLanes c.setup then (changedOwed c st l s).toNat
        else c.owed v l s := by
  unfold changeHtlcs at h
  split at h
  · next hok =>
    obtain ⟨rfl, -⟩ := Prod.mk.inj (Option.some.inj h)
    exact ⟨hok.1, hok.2, rfl, rfl, changeSwap_fst st _ _, rfl, rfl, fun _ _ _ => rfl⟩
  · cases h

lemma changeHtlcs_htlcs (hsort : Sorted past c) (h : changeHtlcs c st = some (c', flags)) :
    c'.htlcs = (c.htlcs.map st.advanceHtlc).filter fun h => !h.state.isDead := by
  obtain ⟨-, -, -, hh, -⟩ := changeHtlcs_spec h
  rw [hh, changeLoop_htlcs st hsort.live]

/-- Everything the channel ever had advances. -/
theorem changeHtlcs_perm (hsort : Sorted past c) (h : changeHtlcs c st = some (c', flags)) :
    ((past.advance st c).htlcs ++ c'.htlcs).Perm ((past.htlcs ++ c.htlcs).map st.advanceHtlc) := by
  have hpast : past.htlcs.map st.advanceHtlc = past.htlcs := by
    conv_rhs => rw [← List.map_id past.htlcs]
    apply map_congr_left
    intro g hg
    rw [CommitStep.advanceHtlc, advance_of_isDead st (hsort.past_dead g hg), id]
  rw [changeHtlcs_htlcs hsort h, Past.advance, append_assoc, map_append, hpast]
  exact (filter_append_perm _ _).append_left _

lemma changeHtlcs_swaps (hsort : Sorted past c) (h : changeHtlcs c st = some (c', flags)) :
    (past.advance st c).swaps ++ c'.symSwap.toList =
      (past.swaps ++ c.symSwap.toList).map st.advanceSwap := by
  obtain ⟨-, -, -, -, hs, -⟩ := changeHtlcs_spec h
  have hpast : past.swaps.map st.advanceSwap = past.swaps := by
    conv_rhs => rw [← List.map_id past.swaps]
    apply map_congr_left
    intro s hs
    rw [CommitStep.advanceSwap, advance_of_phase st (hsort.past_done s hs), id]
  rw [hs, map_append, hpast, Past.advance]
  cases c.symSwap <;> rfl

lemma htlcTotal_change (hsort : Sorted past c) (h : changeHtlcs c st = some (c', flags))
    (ha : ∀ o, a o ≤ 4) (lane : ℕ) (side : Side) :
    htlcTotal a (past.advance st c) c' lane side = htlcTotal (st.preCut a) past c lane side := by
  rw [htlcTotal, ((changeHtlcs_perm hsort h).map _).sum_eq, List.map_map, htlcTotal]
  exact congrArg List.sum (map_congr_left fun g _ => cutMove_advance ha st g lane side)

lemma swapTotal_change (hsort : Sorted past c) (h : changeHtlcs c st = some (c', flags))
    (ha : ∀ o, a o ≤ 4) (lane : ℕ) (side : Side) :
    swapTotal a (past.advance st c) c' lane side = swapTotal (st.preCut a) past c lane side := by
  rw [swapTotal, changeHtlcs_swaps hsort h, List.map_map, swapTotal]
  exact congrArg List.sum (map_congr_left fun g _ => cutSwap_advance ha st g lane side)

/-- A call that commits or revokes moves the cuts. -/
theorem cutTotal_change (hsort : Sorted past c) (h : changeHtlcs c st = some (c', flags))
    (ha : ∀ o, a o ≤ 4) (lane : ℕ) (side : Side) :
    cutTotal a (past.advance st c) c' lane side = cutTotal (st.preCut a) past c lane side := by
  rw [cutTotal, htlcTotal_change hsort h ha, swapTotal_change hsort h ha, cutTotal]

lemma Sorted.change (hsort : Sorted past c) (h : changeHtlcs c st = some (c', flags)) :
    Sorted (past.advance st c) c' where
  past_dead := by
    intro g hg
    rcases mem_append.1 hg with hg | hg
    · exact hsort.past_dead g hg
    · exact (mem_filter.1 hg).2
  live := by
    rw [changeHtlcs_htlcs hsort h]
    intro g hg
    simpa using (mem_filter.1 hg).2
  past_done := hsort.past_done
  swap_phase := by
    obtain ⟨-, -, -, -, hs, -⟩ := changeHtlcs_spec h
    rw [hs]
    intro s hs
    obtain ⟨s₀, hs₀, rfl⟩ := Option.map_eq_some_iff.1 hs
    exact phase_advance_le st (hsort.swap_phase s₀ hs₀)

end change

/-! ### The other operations -/

section other

variable (past : Past) (c : Channel) (a : Cut) (lane : ℕ) (side : Side)

lemma htlcTotal_add (h : Htlc) :
    htlcTotal a past { c with htlcs := h :: c.htlcs } lane side =
      htlcTotal a past c lane side + cutMove a h lane side := by
  simp only [htlcTotal, map_append, map_cons, List.sum_append, List.sum_cons]
  ring

lemma htlcTotal_replace {g : Htlc} (hg : g ∈ c.htlcs) (h : Htlc) :
    htlcTotal a past (c.replace g h) lane side =
      htlcTotal a past c lane side - cutMove a g lane side + cutMove a h lane side := by
  have hperm := ((perm_cons_erase hg).map (cutMove a · lane side)).sum_eq
  simp only [htlcTotal, Channel.replace, map_append, map_cons, List.sum_append,
    List.sum_cons] at hperm ⊢
  rw [hperm]
  ring

lemma swapTotal_swapAdd (hidle : c.symSwap = none) (s : SymSwap) :
    swapTotal a past { c with symSwap := some s } lane side =
      swapTotal a past c lane side + cutSwap a s lane side := by
  simp [swapTotal, hidle]

lemma swapTotal_swapDone {s : SymSwap} (hswap : c.symSwap = some s) :
    swapTotal a { past with swaps := past.swaps ++ [s] } { c with symSwap := none } lane side =
      swapTotal a past c lane side := by
  simp [swapTotal, hswap]

end other

/-- A removal starts: the HTLC is added on both sides, and no view has removed it. -/
theorem removeState_spec {s' : HtlcState} (h : removeState s = some s') :
    s.phase = 4 ∧ s'.phase = 5 ∧ htlcStateOwner s' = htlcStateOwner s ∧ s'.isDead = false := by
  revert s s'
  decide

lemma phase_addState (sender : Side) : (addState sender).phase = 0 := by
  cases sender <;> rfl

lemma htlcStateOwner_addState (sender : Side) : htlcStateOwner (addState sender) = sender := by
  cases sender <;> rfl

/-- A new HTLC counts where its sender's updates count from the start. -/
theorem cutMove_new (hp : h.state.phase = 0) (a : Cut) (lane : ℕ) (side : Side) :
    cutMove a h lane side = if h.lane = lane ∧ a h.owner = 0 then addMove h side else 0 := by
  have hadd : h.state.addedAt (a h.owner) = decide (a h.owner = 0) := by
    simp [HtlcState.addedAt, hp]
  have hrem : h.state.removedAt (a h.owner.other) = false := by
    simp [HtlcState.removedAt, hp]
  unfold cutMove
  by_cases hl : h.lane = lane <;> simp [hadd, hrem, hl]

lemma cutSwap_new {s : SymSwap} (hp : s.state.phase = 0) (a : Cut) (lane : ℕ) (side : Side) :
    cutSwap a s lane side = if a s.owner = 0 then swapMove s lane side else 0 := by
  unfold cutSwap
  simp [HtlcState.addedAt, hp]

/-- A removal that starts counts where the updates of the side that removes count from the
start. -/
theorem cutMove_remove (h' : Htlc) (hs : removeState h.state = some h'.state)
    (hl : h'.lane = h.lane) (hamt : h'.amount = h.amount) (ha : ∀ o, a o ≤ 4) (lane : ℕ)
    (side : Side) :
    cutMove a h' lane side = cutMove a h lane side +
      if h.lane = lane ∧ a h.owner.other = 0 then removeMove h' side else 0 := by
  obtain ⟨hp, hp', howner, -⟩ := removeState_spec hs
  have howner : h'.owner = h.owner := howner
  have hadd : ∀ o, h.state.addedAt (a o) = true ∧ h'.state.addedAt (a o) = true := by
    intro o
    have := ha o
    simp only [HtlcState.addedAt, hp, hp', decide_eq_true_eq]
    omega
  have hrem : ∀ o, h.state.removedAt (a o) = false ∧ h'.state.removedAt (a o) = decide (a o = 0) := by
    intro o
    simp [HtlcState.removedAt, hp, hp']
  have hmove : addMove h' side = addMove h side := by rw [addMove, addMove, howner, hamt]
  unfold cutMove
  rw [howner, hl, hmove, (hadd _).1, (hadd _).2, (hrem _).1, (hrem _).2]
  by_cases hlane : h.lane = lane <;> simp [hlane]

lemma mem_of_htlcGet {htlcs : List Htlc} {id : ℕ} {owner : Side}
    (hget : htlcGet htlcs id owner = some h) : h ∈ htlcs := List.mem_of_find?_eq_some hget

/-! ### The invariant -/

variable {past : Past} {init : ℕ → Side → ℤ}

/-- What a channel has forgotten after an operation. -/
def Past.next (past : Past) (c : Channel) : Op → Past
  | .commitStep st => past.advance st c
  | .symSwapDone =>
    match c.symSwap with
    | some s =>
      if s.Done then { past with swaps := past.swaps ++ [s] } else past
    | none => past
  | _ => past

/-- Each view owes each side what the channel started with and what the HTLCs and swaps have done at
its cut, modulo `2 ^ 64`. -/
structure Ledger (init : ℕ → Side → ℤ) (past : Past) (c : Channel) : Prop extends
    Sorted past c where
  owed_modEq : ∀ v : Side, ∀ l < symNumLanes c.setup, ∀ s : Side,
    (c.owed v l s : ℤ) ≡ init l s + cutTotal (viewStage v) past c l s [ZMOD 2 ^ 64]
  owed_lt : ∀ v : Side, ∀ l < symNumLanes c.setup, ∀ s : Side, c.owed v l s < 2 ^ 64

lemma phase_of_done {s : SymSwap} (h : s.Done) : s.state.phase = 4 := by
  rcases h with h | h <;> rw [h] <;> rfl

lemma Past.next_quiet {op : Op} (h : op.isQuiet = true) : past.next c op = past := by
  cases op <;> first | rfl | cases h

lemma Past.next_swapDone {s : SymSwap} (hswap : c.symSwap = some s) (hdone : s.Done) :
    past.next c .symSwapDone = { past with swaps := past.swaps ++ [s] } := by
  simp only [Past.next, hswap, if_pos hdone]

lemma Past.next_swapWaits (hwait : ∀ s, c.symSwap = some s → ¬ s.Done) :
    past.next c .symSwapDone = past := by
  rcases hs : c.symSwap with _ | s
  · simp only [Past.next, hs]
  · simp only [Past.next, hs, if_neg (hwait s hs)]

lemma Effect.setup {cp : ChainParams} {lk : Locks} {c' : Channel} {op : Op}
    (h : Effect cp lk c op c') : c'.setup = c.setup := by
  cases h with
  | commitStep st c' flags hc => exact (changeHtlcs_spec hc).2.2.1
  | _ => rfl

/-- An operation other than a call that commits or revokes leaves what the views owe. -/
theorem Ledger.of_owed {past' : Past} {c' : Channel} (hl : Ledger init past c)
    (hsort : Sorted past' c') (hsetup : c'.setup = c.setup) (howed : c'.owed = c.owed)
    (htotal : ∀ v l s, cutTotal (viewStage v) past' c' l s = cutTotal (viewStage v) past c l s) :
    Ledger init past' c' where
  toSorted := hsort
  owed_modEq := by
    intro v l hlane s
    rw [hsetup] at hlane
    rw [howed, htotal]
    exact hl.owed_modEq v l hlane s
  owed_lt := by
    intro v l hlane s
    rw [hsetup] at hlane
    rw [howed]
    exact hl.owed_lt v l hlane s

lemma viewStage_ne_zero (view o : Side) : viewStage view o ≠ 0 := by
  revert view o
  decide

/-- What the loops move is what the cut of the changed view gains. -/
theorem cutTotal_preCut (hsort : Sorted past c) (st : CommitStep) (lane : ℕ) (side : Side) :
    cutTotal (st.preCut (viewStage st.sidechanged)) past c lane side =
      cutTotal (viewStage st.sidechanged) past c lane side +
        (c.htlcs.map (incMove st · lane side)).sum +
        (c.symSwap.toList.map (incSwap st · lane side)).sum := by
  have hpast : past.htlcs.map (cutMove (st.preCut (viewStage st.sidechanged)) · lane side) =
      past.htlcs.map (cutMove (viewStage st.sidechanged) · lane side) := by
    apply map_congr_left
    intro h hh
    rw [← cutMove_advance (viewStage_le _), CommitStep.advanceHtlc,
      advance_of_isDead st (hsort.past_dead h hh)]
  have hswaps : past.swaps.map (cutSwap (st.preCut (viewStage st.sidechanged)) · lane side) =
      past.swaps.map (cutSwap (viewStage st.sidechanged) · lane side) := by
    apply map_congr_left
    intro s hs
    rw [← cutSwap_advance (viewStage_le _), CommitStep.advanceSwap,
      advance_of_phase st (hsort.past_done s hs)]
  have hinc : (c.htlcs.map (cutMove (st.preCut (viewStage st.sidechanged)) · lane side)).sum =
      (c.htlcs.map (cutMove (viewStage st.sidechanged) · lane side)).sum +
        (c.htlcs.map (incMove st · lane side)).sum := by
    rw [← sum_map_add]
    simp [incMove]
  have hincs : (c.symSwap.toList.map
        (cutSwap (st.preCut (viewStage st.sidechanged)) · lane side)).sum =
      (c.symSwap.toList.map (cutSwap (viewStage st.sidechanged) · lane side)).sum +
        (c.symSwap.toList.map (incSwap st · lane side)).sum := by
    rw [← sum_map_add]
    simp [incSwap]
  simp only [cutTotal, htlcTotal, swapTotal, map_append, List.sum_append, hpast, hswaps, hinc, hincs]
  ring

/-- A call that commits or revokes moves the balances of the changed view with its cut. -/
theorem Ledger.change {c' : Channel} {flags : ℕ} (hl : Ledger init past c)
    (h : changeHtlcs c st = some (c', flags)) :
    Ledger init (past.advance st c) c' where
  toSorted := hl.toSorted.change h
  owed_modEq := by
    obtain ⟨hfit, hno, hsetup, -, -, -, -, howed⟩ := changeHtlcs_spec h
    intro v l hlane s
    rw [hsetup] at hlane
    rw [howed, cutTotal_change hl.toSorted h (viewStage_le v)]
    by_cases hv : v = st.sidechanged
    · subst hv
      rw [if_pos ⟨rfl, hlane⟩, Int.toNat_of_nonneg (hno l hlane s), changedOwed_eq hfit hlane]
      refine (wrapS64_modEq _).trans ?_
      rw [cutTotal_preCut hl.toSorted, ← add_assoc, ← add_assoc]
      exact ((hl.owed_modEq st.sidechanged l hlane s).add_right _).add_right _
    · rw [if_neg fun hc => hv hc.1, st.preCut_viewStage_of_ne hv]
      exact hl.owed_modEq v l hlane s
  owed_lt := by
    obtain ⟨hfit, hno, hsetup, -, -, -, -, howed⟩ := changeHtlcs_spec h
    intro v l hlane s
    rw [hsetup] at hlane
    rw [howed]
    split
    · rw [changedOwed_eq hfit hlane]
      have := isS64_wrapS64 (c.owed st.sidechanged l s + (c.htlcs.map (incMove st · l s)).sum +
        (c.symSwap.toList.map (incSwap st · l s)).sum)
      unfold IsS64 at this
      omega
    · exact hl.owed_lt v l hlane s

lemma Sorted.add (hsort : Sorted past c) (hlive : h.state.isDead = false) :
    Sorted past { c with htlcs := h :: c.htlcs } where
  past_dead := hsort.past_dead
  live := by
    intro g hg
    rcases mem_cons.1 hg with rfl | hg
    · exact hlive
    · exact hsort.live g hg
  past_done := hsort.past_done
  swap_phase := hsort.swap_phase

lemma Sorted.replace (hsort : Sorted past c) (g : Htlc) (hlive : h.state.isDead = false) :
    Sorted past (c.replace g h) where
  past_dead := hsort.past_dead
  live := by
    intro k hk
    rcases mem_cons.1 hk with rfl | hk
    · exact hlive
    · exact hsort.live k (mem_of_mem_erase hk)
  past_done := hsort.past_done
  swap_phase := hsort.swap_phase

/-- The start of a removal leaves what the views owe. -/
theorem Ledger.replace (hl : Ledger init past c) {g : Htlc} (hg : g ∈ c.htlcs)
    (hnext : removeState g.state = some h.state) (hlane : h.lane = g.lane)
    (hamt : h.amount = g.amount) : Ledger init past (c.replace g h) := by
  apply hl.of_owed (hl.toSorted.replace g (removeState_spec hnext).2.2.2) rfl rfl
  intro v l s
  change htlcTotal _ past _ l s + swapTotal _ past c l s = _
  rw [htlcTotal_replace past c _ _ _ hg, cutMove_remove h hnext hlane hamt (viewStage_le v),
    if_neg fun hc => viewStage_ne_zero _ _ hc.2, add_zero, sub_add_cancel, cutTotal]

/-- Every accepted operation keeps the ledger. -/
theorem Ledger.step {cp : ChainParams} {lk : Locks} {c' : Channel} {op : Op}
    (hl : Ledger init past c) (h : Effect cp lk c op c') : Ledger init (past.next c op) c' := by
  have hsort := hl.toSorted
  cases h with
  | add sender a imm fi basic room =>
    have hp : ({ newHtlc (addState sender) a with failImmediate := fi } : Htlc).state.phase = 0 :=
      phase_addState sender
    apply hl.of_owed (hsort.add (by cases sender <;> rfl)) rfl rfl
    intro v l s
    change htlcTotal _ past _ l s + swapTotal _ past c l s = _
    rw [htlcTotal_add, cutMove_new hp, if_neg fun hc => viewStage_ne_zero _ _ hc.2, add_zero,
      cutTotal]
  | fulfill owner id preimage g state get unset opens next =>
    exact hl.replace (mem_of_htlcGet get) next rfl rfl
  | fail owner id g state get next => exact hl.replace (mem_of_htlcGet get) next rfl rfl
  | quiet op feeStates heights req hq fees asked =>
    rw [Past.next_quiet hq]
    exact hl.of_owed ⟨hsort.past_dead, hsort.live, hsort.past_done, hsort.swap_phase⟩ rfl rfl
      fun _ _ _ => rfl
  | swapAdd s check idle fresh =>
    have hp : s.state.phase = 0 := by rcases fresh with h | h <;> rw [h] <;> rfl
    refine hl.of_owed ⟨hsort.past_dead, hsort.live, hsort.past_done, ?_⟩ rfl rfl ?_
    · intro t ht
      rw [← Option.some.inj ht, hp]
      omega
    · intro v l p
      change htlcTotal _ past c l p + swapTotal _ past _ l p = _
      rw [swapTotal_swapAdd past c _ _ _ idle, cutSwap_new hp, if_neg (viewStage_ne_zero _ _),
        add_zero, cutTotal]
  | swapDone s swap done =>
    rw [Past.next_swapDone swap done]
    refine hl.of_owed ⟨hsort.past_dead, hsort.live, ?_, ?_⟩ rfl rfl fun v l p =>
      congrArg (htlcTotal _ past c l p + ·) (swapTotal_swapDone past c _ _ _ swap)
    · intro t ht
      rcases mem_append.1 ht with ht | ht
      · exact hsort.past_done t ht
      · rw [mem_singleton.1 ht, phase_of_done done]
    · intro t ht
      cases ht
  | swapWaits wait =>
    rw [Past.next_swapWaits wait]
    exact hl
  | commitStep st c' flags hc => exact hl.change hc

end SeqLN.Channeld
