import SeqLN.Channeld.Ledger

/-!
# No side is promised more than it has

A check of a new HTLC or swap is made against one view at one moment, and the amount is deducted
later, in both views. `Solvent` carries the check to the deduction: at the cut of each view, and at the
cut it will have once what is pending is applied, every side has what it needs, where a swap's debit
counts from the start and its credit only once the cut has reached it. The peer's updates never take
from a side (`htlcTotal_mono`), so the four calls keep it.

The checks are computed in a 64-bit word. `ChecksFit`: the exact value of a check is not below the
range of the word, so that a check that passes has really been passed.
-/

namespace SeqLN.Channeld

open HtlcState List Option

/-! ### The exact value of a check -/

variable {amount : ℕ}

variable {c : Channel} {lane : ℕ} {payer : Side}

section exactValues

variable (c : Channel)

/-- The exact value of the sum that `roomBalance` computes. -/
def roomExact (view : Side) (lane : ℕ) (adding removing : List Htlc) (side : Side) (owed : ℕ) : ℤ :=
  owed + (removing.map (removeMove · side)).sum + (adding.map (addMove · side)).sum -
    (swapPromised c view lane side).getD 0

/-- The exact value of the sum that `swapBalance` computes. -/
def swapExact (view payer : Side) (lane amount : ℕ) : ℤ :=
  c.owed view lane payer +
    ((gatherLaneHtlcs c.htlcs view (some lane)).pendingAddition.map (addMove · payer)).sum -
    (swapPromised c view lane payer).getD 0 - amount

/-- The room of a new HTLC's sender, exactly, is not below the range of the word. -/
def AddFits (h : Htlc) : Prop :=
  -2 ^ 63 ≤ roomExact c h.owner.other h.lane (addPending c h).adding (addPending c h).removing
    h.owner (spendable c h.owner.other h.lane h.owner)

/-- What the payers of a swap's legs have left, exactly, is not below the range of the word. -/
def SwapFits (s : SymSwap) : Prop :=
  ∀ view : Side, -2 ^ 63 ≤ swapExact c view s.owner s.giveLane s.give ∧
    -2 ^ 63 ≤ swapExact c view s.owner.other s.takeLane s.take

/-- The check of an operation does not wrap around. -/
def ChecksFit : Op → Prop
  | .addHtlc sender a _ => AddFits c (newHtlc (addState sender) a)
  | .symSwapAdd s => SwapFits c s
  | _ => True

instance (h : Htlc) : Decidable (AddFits c h) := inferInstanceAs (Decidable (_ ≤ _))

instance (s : SymSwap) : Decidable (SwapFits c s) := inferInstanceAs (Decidable (∀ _ : Side, _ ∧ _))

instance : (op : Op) → Decidable (ChecksFit c op)
  | .addHtlc sender a _ => inferInstanceAs (Decidable (AddFits c (newHtlc (addState sender) a)))
  | .symSwapAdd s => inferInstanceAs (Decidable (SwapFits c s))
  | .fulfillHtlc .. | .failHtlc .. | .updateFeerate _ | .updateBlockheight _ | .symSwapRequest _
  | .symSwapCancel _ | .symSwapDone | .commitStep _ => .isTrue trivial

end exactValues

/-- A loop over HTLCs wraps around as the sum of what each moves does. -/
theorem foldl_wrapS64 {step : ℤ → Htlc → ℤ} {move : Htlc → ℤ}
    (hstep : ∀ x h, step (wrapS64 x) h = wrapS64 (x + move h)) (htlcs : List Htlc) (x : ℤ) :
    htlcs.foldl step (wrapS64 x) = wrapS64 (x + (htlcs.map move).sum) := by
  induction htlcs generalizing x with
  | nil => simp
  | cons h htlcs ih => rw [foldl_cons, hstep, ih, map_cons, List.sum_cons, add_assoc]

/-- `balanceHtlcs` wraps around as its exact value does. -/
theorem balanceHtlcs_wrapS64 (adding removing : List Htlc) (side : Side) (x : ℤ) :
    balanceHtlcs adding removing side (wrapS64 x) =
      wrapS64 (x + (removing.map (removeMove · side)).sum + (adding.map (addMove · side)).sum) := by
  rw [balanceHtlcs, foldl_wrapS64 fun x h => balanceRemoveHtlc_wrapS64 x h side,
    foldl_wrapS64 fun x h => balanceAddHtlc_wrapS64 x h side]

lemma toBalance_eq_some {msat : ℕ} {b : ℤ} (h : toBalance msat = some b) :
    msat < 2 ^ 63 ∧ b = wrapS64 msat := by
  unfold toBalance at h
  split at h
  · next hlt =>
    refine ⟨hlt, ?_⟩
    rw [← some.inj h, wrapS64_of_isS64]
    constructor <;> omega
  · cases h

lemma roomBalance_eq {view : Side} {adding removing : List Htlc} {side : Side} {owed : ℕ} {b : ℤ}
    (h : roomBalance c view lane adding removing side owed = some b) :
    (∃ promised, swapPromised c view lane side = some promised) ∧
      b = wrapS64 (roomExact c view lane adding removing side owed) := by
  simp only [roomBalance, bind_eq_bind, bind_eq_some_iff] at h
  obtain ⟨start, hstart, promised, hpromised, h⟩ := h
  refine ⟨⟨promised, hpromised⟩, ?_⟩
  rw [← some.inj h, (toBalance_eq_some hstart).2, balanceHtlcs_wrapS64, wrapS64_wrapS64_sub,
    roomExact, hpromised]
  rfl

lemma swapBalance_eq {view : Side} {b : ℤ} (h : swapBalance c view payer lane amount = some b) :
    (∃ promised, swapPromised c view lane payer = some promised) ∧
      b = wrapS64 (swapExact c view payer lane amount) := by
  simp only [swapBalance, bind_eq_bind, bind_eq_some_iff] at h
  obtain ⟨start, hstart, promised, hpromised, h⟩ := h
  refine ⟨⟨promised, hpromised⟩, ?_⟩
  rw [← some.inj h, (toBalance_eq_some hstart).2, balanceHtlcs_wrapS64,
    wrapS64_wrapS64_sub, sub_sub, wrapS64_wrapS64_sub, swapExact, hpromised]
  simp [sub_sub]

/-- A value not below the range of the word, and not negative in it, has not wrapped around. -/
theorem wrapS64_eq_of_nonneg {x : ℤ} (h : 0 ≤ wrapS64 x) (hlow : -2 ^ 63 ≤ x) (hhigh : x < 2 ^ 64) :
    wrapS64 x = x := by
  unfold wrapS64 at h ⊢
  omega

/-! ### What is pending -/

variable {past : Past}

lemma sum_map_filter {α : Type} (l : List α) (p : α → Bool) (f : α → ℤ) :
    ((l.filter p).map f).sum = (l.map fun x => if p x then f x else 0).sum := by
  induction l with
  | nil => rfl
  | cons x l ih =>
    rw [filter_cons, map_cons, List.sum_cons]
    split
    · rw [map_cons, List.sum_cons, ih]
    · rw [ih, zero_add]

lemma addedAt_nextCut {s : HtlcState} {v o : Side} (h : s.addedAt (viewStage v o) = true) :
    s.addedAt (nextCut v o) = true :=
  HtlcState.addedAt_mono (Nat.sub_le _ _) h

lemma removedAt_nextCut {s : HtlcState} {v o : Side} (h : s.removedAt (viewStage v o) = true) :
    s.removedAt (nextCut v o) = true :=
  HtlcState.removedAt_mono (Nat.sub_le _ _) h

lemma isCommitted_eq (v : Side) (h : Htlc) :
    isCommitted v h = (h.state.addedAt (viewStage v h.owner) &&
      !h.state.removedAt (viewStage v h.owner.other)) := committed_eq h.state v

lemma isPending_eq (v : Side) (h : Htlc) :
    isPending v h =
      (h.state.addedAt (nextCut v h.owner) && !h.state.addedAt (viewStage v h.owner) ||
        h.state.removedAt (nextCut v h.owner.other) &&
          !h.state.removedAt (viewStage v h.owner.other)) := pending_eq h.state v

/-- What an HTLC will do to a balance once what is pending for the view is applied. -/
theorem cutMove_nextCut (v : Side) (h : Htlc) (lane : ℕ) (side : Side) :
    cutMove (nextCut v) h lane side = cutMove (viewStage v) h lane side +
      (if (lane == h.lane && (isCommitted v h && isPending v h)) = true then removeMove h side
        else 0) +
      (if (lane == h.lane && (!isCommitted v h && isPending v h)) = true then addMove h side
        else 0) := by
  have h1 := addedAt_nextCut (s := h.state) (v := v) (o := h.owner)
  have h2 := removedAt_nextCut (s := h.state) (v := v) (o := h.owner.other)
  have h3 : h.state.removedAt (nextCut v h.owner.other) = true →
      h.state.addedAt (viewStage v h.owner) = true :=
    HtlcState.addedAt_of_removedAt (le_trans (viewStage_le _ _) (by omega))
  unfold cutMove
  rw [isCommitted_eq, isPending_eq]
  by_cases hl : h.lane = lane
  · cases ha : h.state.addedAt (viewStage v h.owner) <;>
      cases ha' : h.state.addedAt (nextCut v h.owner) <;>
      cases hr : h.state.removedAt (viewStage v h.owner.other) <;>
      cases hr' : h.state.removedAt (nextCut v h.owner.other) <;>
      simp_all
  · simp [hl, Ne.symm hl]

lemma isPending_of_isDead {h : Htlc} (hd : h.state.isDead = true) (v : Side) :
    isPending v h = false := by
  have : ∀ s : HtlcState, s.isDead = true → ∀ v, s.has (HTLC_FLAG v HTLC_F_PENDING) = false := by
    decide
  exact this h.state hd v

/-- Once what is pending for a view is applied, its balances have moved by just that. -/
theorem htlcTotal_nextCut (hsort : Sorted past c) (v : Side) (lane : ℕ) (side : Side) :
    htlcTotal (nextCut v) past c lane side = htlcTotal (viewStage v) past c lane side +
      ((gatherLaneHtlcs c.htlcs v (some lane)).pendingRemoval.map (removeMove · side)).sum +
      ((gatherLaneHtlcs c.htlcs v (some lane)).pendingAddition.map (addMove · side)).sum := by
  have hpast : past.htlcs.map (cutMove (nextCut v) · lane side) =
      past.htlcs.map (cutMove (viewStage v) · lane side) := by
    apply map_congr_left
    intro h hh
    rw [cutMove_nextCut, isPending_of_isDead (hsort.past_dead h hh)]
    simp
  have hlive : (c.htlcs.map (cutMove (nextCut v) · lane side)).sum =
      (c.htlcs.map (cutMove (viewStage v) · lane side)).sum +
      ((gatherLaneHtlcs c.htlcs v (some lane)).pendingRemoval.map (removeMove · side)).sum +
      ((gatherLaneHtlcs c.htlcs v (some lane)).pendingAddition.map (addMove · side)).sum := by
    simp only [gatherLaneHtlcs, gather, List.filter_filter, sum_map_filter, all_some]
    rw [← sum_map_add, ← sum_map_add]
    congr 1
    apply map_congr_left
    intro h _
    rw [cutMove_nextCut, Bool.and_comm (isCommitted v h && isPending v h),
      Bool.and_comm (!isCommitted v h && isPending v h)]
  rw [htlcTotal, htlcTotal, map_append, map_append, List.sum_append, List.sum_append,
    hpast, hlive]
  ring

/-! ### Swaps, with their credit only where it is due -/

variable {b : Cut}

variable {a : Cut}

/-- What a swap can be counted on to have done at a cut: its debit in any case, its credit once
reached. -/
def safeSwap (a : Cut) (s : SymSwap) (lane : ℕ) (side : Side) : ℤ :=
  if s.state.addedAt (a s.owner) then swapMove s lane side else min (swapMove s lane side) 0

/-- The same for all swaps. -/
def swapSafe (a : Cut) (past : Past) (c : Channel) (lane : ℕ) (side : Side) : ℤ :=
  ((past.swaps ++ c.symSwap.toList).map (safeSwap a · lane side)).sum

lemma safeSwap_le_cutSwap (a : Cut) (s : SymSwap) (lane : ℕ) (side : Side) :
    safeSwap a s lane side ≤ cutSwap a s lane side := by
  unfold safeSwap cutSwap
  split
  · exact le_rfl
  · exact min_le_right _ _

lemma safeSwap_mono (hab : ∀ o, a o ≤ b o) (s : SymSwap) (lane : ℕ) (side : Side) :
    safeSwap b s lane side ≤ safeSwap a s lane side := by
  unfold safeSwap
  by_cases hb : s.state.addedAt (b s.owner) = true
  · rw [if_pos hb, if_pos (HtlcState.addedAt_mono (hab s.owner) hb)]
  · rw [if_neg hb]
    split
    · exact min_le_left _ _
    · exact le_rfl

/-- A removal never takes. -/
theorem removeMove_nonneg (h : Htlc) (side : Side) : 0 ≤ removeMove h side := by
  unfold removeMove
  split
  · exact Int.natCast_nonneg _
  · exact le_rfl

section totals

variable (past : Past) (c : Channel) (lane : ℕ) (side : Side)

lemma swapSafe_le_swapTotal (a : Cut) :
    swapSafe a past c lane side ≤ swapTotal a past c lane side :=
  sum_le_sum fun s _ => safeSwap_le_cutSwap a s lane side

lemma swapSafe_mono (hab : ∀ o, a o ≤ b o) :
    swapSafe b past c lane side ≤ swapSafe a past c lane side :=
  sum_le_sum fun s _ => safeSwap_mono hab s lane side

/-- The updates of the other side never take from a balance. -/
theorem cutMove_mono (hown : a side = b side) (hother : a side.other ≤ b side.other) (h : Htlc) :
    cutMove b h lane side ≤ cutMove a h lane side := by
  unfold cutMove
  split
  · rcases h.owner.eq_or_eq_other side with ho | ho
    · rw [ho, hown]
      have := HtlcState.removedAt_mono (s := h.state) hother
      by_cases hb : h.state.removedAt (b side.other) = true
      · rw [if_pos hb, if_pos (this hb)]
      · rw [if_neg hb]
        apply add_le_add_right
        split
        · exact removeMove_nonneg h side
        · exact le_rfl
    · have hzero : addMove h side = 0 := if_neg (by rw [ho]; exact side.other_ne)
      rw [hzero, ho, Side.other_other, hown]
      simp
  · exact le_rfl

lemma htlcTotal_mono (hown : a side = b side) (hother : a side.other ≤ b side.other) :
    htlcTotal b past c lane side ≤ htlcTotal a past c lane side :=
  sum_le_sum fun h _ => cutMove_mono lane side hown hother h

end totals

/-! ### The invariant -/

variable {c' : Channel}

variable {init : ℕ → Side → ℤ}

/-- Every side has what it needs at the cut of each view, at the one it will have, and, in the
recipient's view, before the credit of a swap that is pending there. -/
structure Solvent (init : ℕ → Side → ℤ) (past : Past) (c : Channel) : Prop where
  view : ∀ v : Side, ∀ l < symNumLanes c.setup, ∀ p : Side,
    0 ≤ init l p + htlcTotal (viewStage v) past c l p + swapSafe (viewStage v) past c l p
  next : ∀ v : Side, ∀ l < symNumLanes c.setup, ∀ p : Side,
    0 ≤ init l p + htlcTotal (nextCut v) past c l p + swapSafe (nextCut v) past c l p
  room : ∀ v : Side, ∀ l < symNumLanes c.setup,
    0 ≤ init l v.other + htlcTotal (nextCut v) past c l v.other +
      swapSafe (viewStage v) past c l v.other

/-- A commitment step keeps what the swaps leave safe, one stage on. -/
lemma swapSafe_change {st : CommitStep} {flags : ℕ} (hsort : Sorted past c)
    (h : changeHtlcs c st = some (c', flags)) (ha : ∀ o, a o ≤ 4) (lane : ℕ) (side : Side) :
    swapSafe a (past.advance st c) c' lane side = swapSafe (st.preCut a) past c lane side := by
  rw [swapSafe, changeHtlcs_swaps hsort h, List.map_map, swapSafe]
  refine congrArg List.sum (map_congr_left fun s _ => ?_)
  have hadd := st.addedAt_advance s.state (a s.owner) (ha s.owner)
  change safeSwap a (st.advanceSwap s) lane side = safeSwap (st.preCut a) s lane side
  unfold safeSwap
  rw [st.owner_advanceSwap, st.swapMove_advanceSwap]
  change (if (st.advance s.state).addedAt (a s.owner) then _ else _) = _
  rw [hadd]
  rfl

/-- The cut a view had before a call: its own, or the one with what was pending. -/
theorem preCut_viewStage (st : CommitStep) (v : Side) :
    st.preCut (viewStage v) = viewStage v ∨ st.preCut (viewStage v) = nextCut v := by
  have : ∀ (st : CommitStep) (v : Side), (∀ o, st.preCut (viewStage v) o = viewStage v o) ∨
      ∀ o, st.preCut (viewStage v) o = nextCut v o := by
    decide
  rcases this st v with h | h
  · exact Or.inl (funext h)
  · exact Or.inr (funext h)

/-- The pending cut before a call: the view's owner's updates may move, the other side's stay. -/
theorem preCut_nextCut (st : CommitStep) (v : Side) :
    st.preCut (nextCut v) v.other = nextCut v v.other ∧
      (st.preCut (nextCut v) v = nextCut v v ∨
        st.preCut (nextCut v) v = viewStage v.other v ∧ nextCut v v.other = 0) := by
  revert st v
  decide

/-- A commitment step keeps every side solvent. -/
theorem Solvent.change {st : CommitStep} {flags : ℕ} (hs : Solvent init past c)
    (hsort : Sorted past c) (h : changeHtlcs c st = some (c', flags)) :
    Solvent init (past.advance st c) c' := by
  have hsetup : c'.setup = c.setup := (changeHtlcs_spec h).2.2.1
  refine ⟨?_, ?_, ?_⟩
  · intro v l hl p
    rw [hsetup] at hl
    rw [htlcTotal_change hsort h (viewStage_le v), swapSafe_change hsort h (viewStage_le v)]
    rcases preCut_viewStage st v with hc | hc <;> rw [hc]
    · exact hs.view v l hl p
    · exact hs.next v l hl p
  · intro v l hl p
    rw [hsetup] at hl
    rw [htlcTotal_change hsort h (nextCut_le v), swapSafe_change hsort h (nextCut_le v)]
    obtain ⟨hother, hcase⟩ := preCut_nextCut st v
    -- the pending cut stays, or takes in the updates that the other view already holds
    have hle : ∀ o, st.preCut (nextCut v) o ≤ nextCut v o := fun o => st.pre_le o _
    rcases p.eq_or_eq_other v with rfl | rfl
    · rcases hcase with hown | ⟨hown, hzero⟩
      · have hcut : st.preCut (nextCut p) = nextCut p := by
          funext o
          rcases o.eq_or_eq_other p with rfl | rfl
          · exact hown
          · exact hother
        rw [hcut]
        exact hs.next p l hl p
      · have hcut : ∀ o, st.preCut (nextCut p) o ≤ viewStage p.other o := by
          intro o
          rcases o.eq_or_eq_other p with rfl | rfl
          · exact hown.le
          · rw [hother, hzero]
            exact Nat.zero_le _
        have h1 := htlcTotal_mono past c l p hown (hcut p.other)
        have h2 := swapSafe_mono past c l p hcut
        linarith [hs.view p.other l hl p]
    · have h1 := htlcTotal_mono past c l v.other hother (by rw [Side.other_other]; exact hle v)
      have h2 := swapSafe_mono past c l v.other hle
      linarith [hs.next v l hl v.other]
  · intro v l hl
    rw [hsetup] at hl
    rw [htlcTotal_change hsort h (nextCut_le v), swapSafe_change hsort h (viewStage_le v)]
    have h1 := htlcTotal_mono past c l v.other (preCut_nextCut st v).1
      (by rw [Side.other_other]; exact st.pre_le v _)
    have h2 := swapSafe_mono past c l v.other (a := st.preCut (viewStage v)) (b := viewStage v)
      fun o => st.pre_le o _
    linarith [hs.room v l hl]

/-! ### Balances are exact -/

/-- What the two sides and the HTLCs of a lane hold together at a cut does not change. -/
theorem cutMove_add (a : Cut) (ha : ∀ o, a o ≤ 4) (h : Htlc) (lane : ℕ) :
    cutMove a h lane .LOCAL + cutMove a h lane .REMOTE =
      -if h.lane = lane ∧ (h.state.addedAt (a h.owner) && !h.state.removedAt (a h.owner.other)) =
        true then (h.amount : ℤ) else 0 := by
  have himp : h.state.removedAt (a h.owner.other) = true → h.state.addedAt (a h.owner) = true :=
    HtlcState.addedAt_of_removedAt (le_trans (ha _) (by omega))
  have hadd : addMove h .LOCAL + addMove h .REMOTE = -(h.amount : ℤ) := by
    unfold addMove
    cases h.owner <;> simp
  have hrem : removeMove h .LOCAL + removeMove h .REMOTE = (h.amount : ℤ) := by
    unfold removeMove
    cases h.paidTo <;> simp
  unfold cutMove
  by_cases hl : h.lane = lane
  · cases h1 : h.state.addedAt (a h.owner) <;>
      cases h2 : h.state.removedAt (a h.owner.other) <;> grind
  · simp [hl]

lemma swapMove_add (s : SymSwap) (lane : ℕ) :
    swapMove s lane .LOCAL + swapMove s lane .REMOTE = 0 := by
  unfold swapMove
  cases s.owner <;> by_cases h1 : s.giveLane = lane <;> by_cases h2 : s.takeLane = lane <;>
    simp [h1, h2] <;> ring

/-- The HTLCs of a lane committed to a view. -/
def committedMsat (c : Channel) (v : Side) (lane : ℕ) : ℕ :=
  ((gatherLaneHtlcs c.htlcs v (some lane)).committed.map (·.amount)).sum

section sides

variable {init : ℕ → Side → ℤ} {past : Past} {c : Channel}

/-- Both sides together lack what the view has committed in HTLCs. -/
lemma htlcTotal_sides (hsort : Sorted past c) (v : Side) (lane : ℕ) :
    htlcTotal (viewStage v) past c lane .LOCAL + htlcTotal (viewStage v) past c lane .REMOTE =
      -(committedMsat c v lane : ℤ) := by
  have hpast : (past.htlcs.map fun h => cutMove (viewStage v) h lane .LOCAL +
      cutMove (viewStage v) h lane .REMOTE).sum = 0 := by
    apply sum_eq_zero
    intro x hx
    obtain ⟨h, hh, rfl⟩ := List.mem_map.1 hx
    have hd := HtlcState.removedAt_of_isDead (hsort.past_dead h hh) (viewStage_le v h.owner.other)
    rw [cutMove_add _ (viewStage_le v), hd]
    simp
  have hlive : (c.htlcs.map fun h => cutMove (viewStage v) h lane .LOCAL +
      cutMove (viewStage v) h lane .REMOTE).sum = -(committedMsat c v lane : ℤ) := by
    simp only [committedMsat, gatherLaneHtlcs, gather, List.filter_filter, Nat.cast_list_sum,
      List.map_map, sum_map_filter, all_some]
    rw [eq_neg_iff_add_eq_zero, ← sum_map_add]
    apply sum_eq_zero
    intro x hx
    obtain ⟨h, -, rfl⟩ := List.mem_map.1 hx
    rw [cutMove_add _ (viewStage_le v), ← isCommitted_eq]
    by_cases hl : h.lane = lane <;> cases isCommitted v h <;> simp [hl, eq_comm (a := lane)]
  simp only [htlcTotal, map_append, List.sum_append]
  rw [sum_map_add] at hpast hlive
  linarith

lemma swapTotal_sides (past : Past) (c : Channel) (a : Cut) (lane : ℕ) :
    swapTotal a past c lane .LOCAL + swapTotal a past c lane .REMOTE = 0 := by
  rw [swapTotal, swapTotal, ← sum_map_add]
  apply sum_eq_zero
  intro x hx
  obtain ⟨s, -, rfl⟩ := List.mem_map.1 hx
  unfold cutSwap
  split
  · exact swapMove_add s lane
  · exact add_zero 0

/-- What the two sides and the HTLCs of a view hold together is what the lane was funded with. -/
theorem cutTotal_sides (hsort : Sorted past c) (v : Side) (lane : ℕ) :
    cutTotal (viewStage v) past c lane .LOCAL + cutTotal (viewStage v) past c lane .REMOTE =
      -(committedMsat c v lane : ℤ) := by
  have h1 := htlcTotal_sides hsort v lane
  have h2 := swapTotal_sides past c (viewStage v) lane
  unfold cutTotal
  linarith

/-- At any cut the HTLCs hold what the two sides do not. -/
theorem cutTotal_add_nonpos (past : Past) (c : Channel) (ha : ∀ o, a o ≤ 4) (lane : ℕ) :
    cutTotal a past c lane .LOCAL + cutTotal a past c lane .REMOTE ≤ 0 := by
  have hswap := swapTotal_sides past c a lane
  have hhtlc : htlcTotal a past c lane .LOCAL + htlcTotal a past c lane .REMOTE ≤ 0 := by
    have hle := sum_le_sum (l := past.htlcs ++ c.htlcs) (g := fun _ => (0 : ℤ))
      (f := fun h => cutMove a h lane .LOCAL + cutMove a h lane .REMOTE) (by
        intro h _
        rw [cutMove_add a ha]
        split
        · exact neg_nonpos.2 (Int.natCast_nonneg h.amount)
        · exact (neg_zero).le)
    rw [htlcTotal, htlcTotal, ← sum_map_add]
    simpa using hle
  unfold cutTotal
  linarith

variable (hl : Ledger init past c) (hs : Solvent init past c) {lane : ℕ}
  (hlane : lane < symNumLanes c.setup) (hT : init lane .LOCAL + init lane .REMOTE < 2 ^ 64)

include hl hs hlane hT

/-- Where no check has wrapped around, no balance has. -/
theorem owed_eq (v side : Side) :
    (c.owed v lane side : ℤ) = init lane side + cutTotal (viewStage v) past c lane side := by
  have hnonneg : ∀ p, 0 ≤ init lane p + cutTotal (viewStage v) past c lane p := by
    intro p
    have := swapSafe_le_swapTotal past c lane p (viewStage v)
    unfold cutTotal
    linarith [hs.view v lane hlane p]
  have hsum := cutTotal_sides hl.toSorted v lane
  have hcom : (0 : ℤ) ≤ committedMsat c v lane := Int.natCast_nonneg _
  have hlt : init lane side + cutTotal (viewStage v) past c lane side < 2 ^ 64 := by
    have hL := hnonneg .LOCAL
    have hR := hnonneg .REMOTE
    cases side <;> linarith
  have hmod := hl.owed_modEq v lane hlane side
  have howed := hl.owed_lt v lane hlane side
  have h0 := hnonneg side
  rw [Int.ModEq, Int.emod_eq_of_lt (Int.natCast_nonneg _) (by exact_mod_cast howed),
    Int.emod_eq_of_lt h0 hlt] at hmod
  exact hmod

lemma owed_sides (v : Side) :
    (c.owed v lane .LOCAL : ℤ) + c.owed v lane .REMOTE + committedMsat c v lane =
      init lane .LOCAL + init lane .REMOTE := by
  rw [owed_eq hl hs hlane hT, owed_eq hl hs hlane hT]
  linarith [cutTotal_sides hl.toSorted v lane]

lemma owed_add_committed_le (v side : Side) :
    (c.owed v lane side : ℤ) + committedMsat c v lane ≤ init lane .LOCAL + init lane .REMOTE := by
  have hsides := owed_sides hl hs hlane hT v
  have hL : (0 : ℤ) ≤ c.owed v lane .LOCAL := Int.natCast_nonneg _
  have hR : (0 : ℤ) ≤ c.owed v lane .REMOTE := Int.natCast_nonneg _
  cases side <;> linarith

end sides

/-! ### Accepted HTLCs -/

variable {s : SymSwap}

lemma nextCut_eq_zero_iff (v o : Side) : nextCut v o = 0 ↔ v = o.other := by
  revert v o
  decide

lemma addMove_nonpos (h : Htlc) (side : Side) : addMove h side ≤ 0 := by
  unfold addMove
  split
  · have := Int.natCast_nonneg h.amount
    omega
  · exact le_rfl

lemma removeMove_le (h : Htlc) (side : Side) : removeMove h side ≤ h.amount := by
  unfold removeMove
  split
  · exact le_rfl
  · exact Int.natCast_nonneg _

lemma sum_addMove_nonpos (htlcs : List Htlc) (side : Side) :
    (htlcs.map (addMove · side)).sum ≤ 0 := by
  induction htlcs with
  | nil => exact le_rfl
  | cons h htlcs ih =>
    rw [map_cons, List.sum_cons]
    linarith [addMove_nonpos h side]

lemma sum_removeMove_nonneg (htlcs : List Htlc) (side : Side) :
    0 ≤ (htlcs.map (removeMove · side)).sum := by
  induction htlcs with
  | nil => exact le_rfl
  | cons h htlcs ih =>
    rw [map_cons, List.sum_cons]
    linarith [removeMove_nonneg h side]

/-- What is pending removal is committed. -/
theorem sum_pendingRemoval_le (c : Channel) (v : Side) (lane : ℕ) (side : Side) :
    ((gatherLaneHtlcs c.htlcs v (some lane)).pendingRemoval.map (removeMove · side)).sum ≤
      committedMsat c v lane := by
  simp only [committedMsat, gatherLaneHtlcs, gather, List.filter_filter, Nat.cast_list_sum,
    List.map_map, sum_map_filter, all_some]
  apply sum_le_sum
  intro h _
  have h1 := removeMove_le h side
  have h2 : (0 : ℤ) ≤ h.amount := Int.natCast_nonneg _
  cases isCommitted v h <;> cases isPending v h <;> by_cases hl : lane = h.lane <;> simp [hl, h1, h2]

/-- A swap is never removed, so a view that it has reached holds it. -/
theorem committed_eq_addedAt (v : Side) (hp : s.state.phase ≤ 4) :
    s.state.has (HTLC_FLAG v HTLC_F_COMMITTED) = s.state.addedAt (viewStage v s.owner) := by
  have hrem : s.state.removedAt (viewStage v s.owner.other) = false := by
    simp only [HtlcState.removedAt, decide_eq_false_iff_not]
    omega
  have := committed_eq s.state v
  rw [show htlcStateOwner s.state = s.owner from rfl, hrem] at this
  simpa using this

/-- The debit of a swap that a view has not committed is promised. -/
theorem cutSwap_sub_promisedBy_le (v : Side) (s : SymSwap) (hp : s.state.phase ≤ 4) (lane : ℕ)
    (side : Side) :
    cutSwap (viewStage v) s lane side - promisedBy v lane side s ≤
      safeSwap (viewStage v) s lane side := by
  have hcom := committed_eq_addedAt v hp
  unfold cutSwap safeSwap promisedBy
  rw [hcom]
  split
  · simp
  · unfold swapMove
    split_ifs <;> grind

lemma swapTotal_sub_promised_le (hsort : Sorted past c) (v : Side) (lane : ℕ) (side : Side)
    {promised : ℕ} (h : swapPromised c v lane side = some promised) :
    swapTotal (viewStage v) past c lane side - promised ≤
      swapSafe (viewStage v) past c lane side := by
  have hge : (c.symSwap.map (promisedBy v lane side)).getD 0 ≤ promised := by
    have := (amountAdd_eq_some.1 h).2
    omega
  have hpast : past.swaps.map (cutSwap (viewStage v) · lane side) =
      past.swaps.map (safeSwap (viewStage v) · lane side) := by
    apply map_congr_left
    intro s hs
    have hadd : s.state.addedAt (viewStage v s.owner) = true := by
      have := viewStage_le v s.owner
      simp only [HtlcState.addedAt, hsort.past_done s hs, decide_eq_true_eq]
      omega
    rw [cutSwap, safeSwap, if_pos hadd, if_pos hadd]
  rw [swapTotal, swapSafe, map_append, map_append, List.sum_append, List.sum_append, hpast]
  rcases hswap : c.symSwap with _ | s
  · simp
  · rw [hswap, map_some, getD_some] at hge
    have := cutSwap_sub_promisedBy_le v s (hsort.swap_phase s hswap) lane side
    simp only [toList_some, map_singleton, sum_singleton]
    have : (promisedBy v lane side s : ℤ) ≤ promised := by exact_mod_cast hge
    linarith

lemma addPending_adding (c : Channel) (h : Htlc) :
    (addPending c h).adding =
      (gatherLaneHtlcs c.htlcs h.owner.other (some h.lane)).pendingAddition ++ [h] := rfl

lemma addPending_removing (c : Channel) (h : Htlc) :
    (addPending c h).removing =
      (gatherLaneHtlcs c.htlcs h.owner.other (some h.lane)).pendingRemoval := rfl

section adding

variable {init : ℕ → Side → ℤ} {past : Past} {c : Channel} (hl : Ledger init past c)
  (hs : Solvent init past c) {h : Htlc} (hlane : h.lane < symNumLanes c.setup)
  (hT : init h.lane .LOCAL + init h.lane .REMOTE < 2 ^ 64)

include hl hs hlane hT

/-- The room an HTLC was checked for is there once it is added. -/
theorem room_of_hasRoom (hroom : HasRoom c h) (hfit : AddFits c h) :
    0 ≤ init h.lane h.owner + htlcTotal (nextCut h.owner.other) past c h.lane h.owner +
      swapSafe (viewStage h.owner.other) past c h.lane h.owner - h.amount := by
  obtain ⟨balance, hbal, hnonneg, -⟩ := hroom
  obtain ⟨⟨promised, hpromised⟩, hwrap⟩ := roomBalance_eq hbal
  have hexact : roomExact c h.owner.other h.lane (addPending c h).adding (addPending c h).removing
        h.owner (spendable c h.owner.other h.lane h.owner) =
      spendable c h.owner.other h.lane h.owner +
        ((gatherLaneHtlcs c.htlcs h.owner.other (some h.lane)).pendingRemoval.map
          (removeMove · h.owner)).sum +
        ((gatherLaneHtlcs c.htlcs h.owner.other (some h.lane)).pendingAddition.map
          (addMove · h.owner)).sum - h.amount - promised := by
    have hown : addMove h h.owner = -(h.amount : ℤ) := if_pos rfl
    rw [roomExact, addPending_adding, addPending_removing, hpromised, map_append,
      List.sum_append, map_singleton, sum_singleton, hown, getD_some]
    ring
  have hspend : (spendable c h.owner.other h.lane h.owner : ℤ) ≤
      c.owed h.owner.other h.lane h.owner := by
    exact_mod_cast Nat.sub_le _ _
  have hadd := sum_addMove_nonpos
    (gatherLaneHtlcs c.htlcs h.owner.other (some h.lane)).pendingAddition h.owner
  have hrem := sum_pendingRemoval_le c h.owner.other h.lane h.owner
  have hreal : 0 ≤ roomExact c h.owner.other h.lane (addPending c h).adding
      (addPending c h).removing h.owner (spendable c h.owner.other h.lane h.owner) := by
    have hwrapped := hwrap ▸ hnonneg
    refine hwrapped.trans_eq (wrapS64_eq_of_nonneg hwrapped hfit ?_)
    have howed := owed_add_committed_le hl hs hlane hT h.owner.other h.owner
    rw [hexact]
    linarith [Int.natCast_nonneg h.amount, Int.natCast_nonneg promised]
  have howed := owed_eq hl hs hlane hT h.owner.other h.owner
  have hnext := htlcTotal_nextCut hl.toSorted h.owner.other h.lane h.owner
  have hsafe := swapTotal_sub_promised_le hl.toSorted h.owner.other h.lane h.owner hpromised
  rw [hexact] at hreal
  rw [hnext]
  unfold cutTotal at howed
  linarith

end adding

/-- An HTLC that really has room keeps every side solvent. -/
theorem Solvent.add (hs : Solvent init past c)
    {h : Htlc} (hp : h.state.phase = 0)
    (hroom : 0 ≤ init h.lane h.owner + htlcTotal (nextCut h.owner.other) past c h.lane h.owner +
      swapSafe (viewStage h.owner.other) past c h.lane h.owner - h.amount) :
    Solvent init past { c with htlcs := h :: c.htlcs } := by
  have hown : addMove h h.owner = -(h.amount : ℤ) := if_pos rfl
  have hothers : ∀ p, p ≠ h.owner → addMove h p = 0 := fun p hp => if_neg (Ne.symm hp)
  refine ⟨?_, ?_, ?_⟩
  · intro v l hlt p
    rw [htlcTotal_add, cutMove_new hp, if_neg fun hc => viewStage_ne_zero _ _ hc.2, add_zero]
    exact hs.view v l hlt p
  · intro v l hlt p
    rw [htlcTotal_add, cutMove_new hp]
    change 0 ≤ _ + _ + swapSafe (nextCut v) past c l p
    have hold := hs.next v l hlt p
    split
    · next hc =>
      obtain ⟨rfl, hv⟩ := hc
      obtain rfl := (nextCut_eq_zero_iff _ _).1 hv
      by_cases hpo : p = h.owner
      · subst hpo
        have := swapSafe_mono past c h.lane h.owner (a := nextCut h.owner.other)
          (b := viewStage h.owner.other) fun o => Nat.sub_le _ _
        rw [hown]
        linarith
      · rw [hothers p hpo, add_zero]
        exact hold
    · rw [add_zero]
      exact hold
  · intro v l hlt
    rw [htlcTotal_add, cutMove_new hp]
    change 0 ≤ _ + _ + swapSafe (viewStage v) past c l v.other
    split
    · next hc =>
      obtain ⟨rfl, hv⟩ := hc
      obtain rfl := (nextCut_eq_zero_iff _ _).1 hv
      rw [Side.other_other, hown]
      linarith
    · rw [add_zero]
      exact hs.room v l hlt

/-! ### Removals and swaps -/

/-- A removal only gives to a side. -/
theorem Solvent.replace (hs : Solvent init past c) {g h : Htlc} (hg : g ∈ c.htlcs)
    (hnext : removeState g.state = some h.state) (hlane : h.lane = g.lane)
    (hamt : h.amount = g.amount) : Solvent init past (c.replace g h) := by
  have hge : ∀ a : Cut, (∀ o, a o ≤ 4) → ∀ l p,
      htlcTotal a past c l p ≤ htlcTotal a past (c.replace g h) l p := by
    intro a ha l p
    rw [htlcTotal_replace past c a l p hg, cutMove_remove h hnext hlane hamt ha]
    have := removeMove_nonneg h p
    split <;> linarith
  refine ⟨?_, ?_, ?_⟩
  · intro v l hlt p
    exact le_trans (hs.view v l hlt p)
      (add_le_add_left (add_le_add_right (hge _ (viewStage_le v) l p) _) _)
  · intro v l hlt p
    exact le_trans (hs.next v l hlt p)
      (add_le_add_left (add_le_add_right (hge _ (nextCut_le v) l p) _) _)
  · intro v l hlt
    exact le_trans (hs.room v l hlt)
      (add_le_add_left (add_le_add_right (hge _ (nextCut_le v) l v.other) _) _)

lemma swapAffordable_spec (h : swapAffordable c payer lane amount = true) (v : Side) :
    ∃ b, swapBalance c v payer lane amount = some b ∧ 0 ≤ b := by
  rw [swapAffordable, Bool.and_eq_true] at h
  have hv : (swapAffordableIn c payer lane amount v).isSome = true := by
    cases v
    · exact h.1
    · exact h.2
  obtain ⟨u, hu⟩ := isSome_iff_exists.1 hv
  simp only [swapAffordableIn, bind_eq_bind, bind_eq_some_iff] at hu
  obtain ⟨b, hb, m, hm, -⟩ := hu
  exact ⟨b, hb, (balanceOk_eq_some.1 hm).1⟩

lemma channelSymSwapCheck_spec (h : channelSymSwapCheck c s = true) :
    s.giveLane ≠ s.takeLane ∧ s.giveLane < symNumLanes c.setup ∧
      s.takeLane < symNumLanes c.setup ∧ swapAffordable c s.owner s.giveLane s.give = true ∧
      swapAffordable c s.owner.other s.takeLane s.take = true := by
  simp only [channelSymSwapCheck, Bool.and_eq_true, bne_iff_ne, decide_eq_true_eq] at h
  obtain ⟨⟨⟨⟨⟨⟨⟨⟨-, -⟩, h1⟩, h2⟩, h3⟩, -⟩, -⟩, h4⟩, h5⟩ := h
  exact ⟨h1, h2, h3, h4, h5⟩

/-- A forgotten swap counts in full at every cut of a view. -/
theorem safeSwap_of_done (ha : ∀ o, a o ≤ 4) (hs : s.state.phase = 4) (lane : ℕ) (side : Side) :
    safeSwap a s lane side = swapMove s lane side ∧ cutSwap a s lane side = swapMove s lane side := by
  have hadd : s.state.addedAt (a s.owner) = true := by
    simpa only [HtlcState.addedAt, hs, decide_eq_true_eq] using ha s.owner
  exact ⟨if_pos hadd, if_pos hadd⟩

/-- While no swap is in flight, every cut has the same swaps. -/
theorem swapSafe_of_idle (hsort : Sorted past c) (hidle : c.symSwap = none) (ha : ∀ o, a o ≤ 4)
    (lane : ℕ) (side : Side) :
    swapSafe a past c lane side = (past.swaps.map (swapMove · lane side)).sum ∧
      swapTotal a past c lane side = (past.swaps.map (swapMove · lane side)).sum := by
  rw [swapSafe, swapTotal, hidle, toList_none, append_nil]
  constructor
  · exact congrArg List.sum (map_congr_left fun s hs =>
      (safeSwap_of_done ha (hsort.past_done s hs) lane side).1)
  · exact congrArg List.sum (map_congr_left fun s hs =>
      (safeSwap_of_done ha (hsort.past_done s hs) lane side).2)

lemma swapSafe_swapAdd (a : Cut) (past : Past) (hidle : c.symSwap = none) (s : SymSwap) (lane : ℕ)
    (side : Side) :
    swapSafe a past { c with symSwap := some s } lane side =
      swapSafe a past c lane side + safeSwap a s lane side := by
  simp [swapSafe, hidle]

lemma min_swapMove_le_safeSwap (a : Cut) (s : SymSwap) (lane : ℕ) (side : Side) :
    min (swapMove s lane side) 0 ≤ safeSwap a s lane side := by
  unfold safeSwap
  split
  · exact min_le_left _ _
  · exact le_rfl

/-- A swap takes from a side only in the lane of its leg, and just that leg. -/
theorem swapMove_neg (hne : s.giveLane ≠ s.takeLane) {side : Side} (h : swapMove s lane side < 0) :
    side = s.owner ∧ lane = s.giveLane ∧ swapMove s lane side = -(s.give : ℤ) ∨
      side = s.owner.other ∧ lane = s.takeLane ∧ swapMove s lane side = -(s.take : ℤ) := by
  unfold swapMove at h ⊢
  rcases side.eq_or_eq_other s.owner with rfl | rfl
  · left
    by_cases hg : s.giveLane = lane
    · have ht : s.takeLane ≠ lane := fun h => hne (hg.trans h.symm)
      simp [hg, ht]
    · exfalso
      simp only [hg, if_false, if_true, zero_add] at h
      split at h <;> omega
  · right
    by_cases ht : s.takeLane = lane
    · have hg : s.giveLane ≠ lane := fun h => hne (h.trans ht.symm)
      simp [hg, ht]
    · exfalso
      simp only [ht, if_false, add_zero, Side.ne_other] at h
      split at h <;> omega

section swapAdding

variable {init : ℕ → Side → ℤ} {past : Past} {c : Channel} (hl : Ledger init past c)
  (hs : Solvent init past c) {lane : ℕ} (hlane : lane < symNumLanes c.setup)
  (hT : init lane .LOCAL + init lane .REMOTE < 2 ^ 64)

include hl hs hlane hT

/-- What a leg of a swap was checked for is there. -/
theorem room_of_swapAffordable (hidle : c.symSwap = none)
    (hok : swapAffordable c payer lane amount = true) (v : Side)
    (hfit : -2 ^ 63 ≤ swapExact c v payer lane amount) :
    0 ≤ init lane payer + htlcTotal (viewStage v) past c lane payer +
        ((gatherLaneHtlcs c.htlcs v (some lane)).pendingAddition.map (addMove · payer)).sum +
        (past.swaps.map (swapMove · lane payer)).sum - amount := by
  obtain ⟨b, hb, hnonneg⟩ := swapAffordable_spec hok v
  obtain ⟨⟨promised, hpromised⟩, hwrap⟩ := swapBalance_eq hb
  have hadd := sum_addMove_nonpos (gatherLaneHtlcs c.htlcs v (some lane)).pendingAddition payer
  have hreal : 0 ≤ swapExact c v payer lane amount := by
    have hwrapped := hwrap ▸ hnonneg
    refine hwrapped.trans_eq (wrapS64_eq_of_nonneg hwrapped hfit ?_)
    have howed := owed_add_committed_le hl hs hlane hT v payer
    rw [swapExact, hpromised, getD_some]
    linarith [Int.natCast_nonneg amount, Int.natCast_nonneg promised,
      Int.natCast_nonneg (committedMsat c v lane)]
  have howed := owed_eq hl hs hlane hT v payer
  rw [cutTotal, (swapSafe_of_idle hl.toSorted hidle (viewStage_le v) lane payer).2] at howed
  rw [swapExact, hpromised, getD_some] at hreal
  linarith [Int.natCast_nonneg promised]

end swapAdding

/-- What a swap takes from a side is there in both views, beside what the side is adding. -/
theorem swapLeg_room (hl : Ledger init past c) (hs : Solvent init past c)
    (hT : ∀ l < symNumLanes c.setup, init l .LOCAL + init l .REMOTE < 2 ^ 64)
    (hcheck : channelSymSwapCheck c s = true) (hidle : c.symSwap = none) (hfit : SwapFits c s)
    (v : Side) {l : ℕ} {p : Side} (hneg : swapMove s l p < 0) :
    0 ≤ init l p + htlcTotal (viewStage v) past c l p +
        ((gatherLaneHtlcs c.htlcs v (some l)).pendingAddition.map (addMove · p)).sum +
        (past.swaps.map (swapMove · l p)).sum + swapMove s l p := by
  obtain ⟨hne, hgive, htake, hpayer, hother⟩ := channelSymSwapCheck_spec hcheck
  rcases swapMove_neg hne hneg with ⟨rfl, rfl, hm⟩ | ⟨rfl, rfl, hm⟩
  · have := room_of_swapAffordable hl hs hgive (hT _ hgive) hidle hpayer v (hfit v).1
    rw [hm]
    linarith
  · have := room_of_swapAffordable hl hs htake (hT _ htake) hidle hother v (hfit v).2
    rw [hm]
    linarith

section swapLeg

variable {init : ℕ → Side → ℤ} {past : Past} {c : Channel} (hl : Ledger init past c)
  (hs : Solvent init past c)
  (hT : ∀ l < symNumLanes c.setup, init l .LOCAL + init l .REMOTE < 2 ^ 64) {s : SymSwap}
  (hcheck : channelSymSwapCheck c s = true) (hidle : c.symSwap = none) (hfit : SwapFits c s)

include hl hs hT hcheck hidle hfit

lemma swapLeg_view (v : Side) {l : ℕ} {p : Side} (hneg : swapMove s l p < 0) :
    0 ≤ init l p + htlcTotal (viewStage v) past c l p + (past.swaps.map (swapMove · l p)).sum +
      swapMove s l p := by
  have := sum_addMove_nonpos (gatherLaneHtlcs c.htlcs v (some l)).pendingAddition p
  linarith [swapLeg_room hl hs hT hcheck hidle hfit v hneg]

lemma swapLeg_next (v : Side) {l : ℕ} {p : Side} (hneg : swapMove s l p < 0) :
    0 ≤ init l p + htlcTotal (nextCut v) past c l p + (past.swaps.map (swapMove · l p)).sum +
      swapMove s l p := by
  have := sum_removeMove_nonneg (gatherLaneHtlcs c.htlcs v (some l)).pendingRemoval p
  rw [htlcTotal_nextCut hl.toSorted]
  linarith [swapLeg_room hl hs hT hcheck hidle hfit v hneg]

end swapLeg

/-- A swap that both payers can really afford keeps every side solvent. -/
theorem Solvent.swapAdd (hl : Ledger init past c) (hs : Solvent init past c)
    (hT : ∀ l < symNumLanes c.setup, init l .LOCAL + init l .REMOTE < 2 ^ 64)
    (hcheck : channelSymSwapCheck c s = true) (hidle : c.symSwap = none) (hfit : SwapFits c s) :
    Solvent init past { c with symSwap := some s } := by
  -- a balance that the swap adds to only grows
  have hkeep : ∀ (a b : Cut) (l : ℕ) (p : Side), (∀ o, b o ≤ 4) →
      0 ≤ init l p + htlcTotal a past c l p + swapSafe b past c l p →
      (swapMove s l p < 0 → 0 ≤ init l p + htlcTotal a past c l p +
          (past.swaps.map (swapMove · l p)).sum + swapMove s l p) →
      0 ≤ init l p + htlcTotal a past c l p +
        swapSafe b past { c with symSwap := some s } l p := by
    intro a b l p hb hold hnew
    have hge := min_swapMove_le_safeSwap b s l p
    rw [swapSafe_swapAdd b past hidle]
    rw [(swapSafe_of_idle hl.toSorted hidle hb l p).1] at hold ⊢
    rcases lt_or_ge (swapMove s l p) 0 with hneg | hpos
    · rw [min_eq_left hneg.le] at hge
      linarith [hnew hneg]
    · rw [min_eq_right hpos] at hge
      linarith
  refine ⟨?_, ?_, ?_⟩
  · intro v l hlt p
    exact hkeep _ _ l p (viewStage_le v) (hs.view v l hlt p)
      (swapLeg_view hl hs hT hcheck hidle hfit v)
  · intro v l hlt p
    exact hkeep _ _ l p (nextCut_le v) (hs.next v l hlt p)
      (swapLeg_next hl hs hT hcheck hidle hfit v)
  · intro v l hlt
    exact hkeep _ _ l v.other (viewStage_le v) (hs.room v l hlt)
      (swapLeg_next hl hs hT hcheck hidle hfit v)

/-- A swap that is forgotten still counts. -/
theorem Solvent.swapDone (hs : Solvent init past c) (hswap : c.symSwap = some s) :
    Solvent init { past with swaps := past.swaps ++ [s] } { c with symSwap := none } := by
  have hsafe : ∀ a l p, swapSafe a { past with swaps := past.swaps ++ [s] }
      { c with symSwap := none } l p = swapSafe a past c l p := by
    intro a l p
    simp [swapSafe, hswap]
  refine ⟨?_, ?_, ?_⟩
  · intro v l hlt p
    rw [hsafe]
    exact hs.view v l hlt p
  · intro v l hlt p
    rw [hsafe]
    exact hs.next v l hlt p
  · intro v l hlt
    rw [hsafe]
    exact hs.room v l hlt

/-! ### Runs -/

/-- Every accepted operation whose check does not wrap around keeps every side solvent. -/
theorem Solvent.step {cp : ChainParams} {lk : Locks} {op : Op} (hl : Ledger init past c)
    (hs : Solvent init past c)
    (hT : ∀ l < symNumLanes c.setup, init l .LOCAL + init l .REMOTE < 2 ^ 64)
    (hfit : ChecksFit c op) (h : Effect cp lk c op c') : Solvent init (past.next c op) c' := by
  cases h with
  | add sender a imm fi basic room =>
    have hroom := room_of_hasRoom hl hs basic.lane_lt (hT _ basic.lane_lt) room hfit
    exact hs.add (h := { newHtlc (addState sender) a with failImmediate := fi })
      (phase_addState sender) hroom
  | fulfill owner id preimage g state get unset opens next =>
    exact hs.replace (mem_of_htlcGet get) next rfl rfl
  | fail owner id g state get next => exact hs.replace (mem_of_htlcGet get) next rfl rfl
  | quiet op feeStates heights req hq fees asked =>
    rw [Past.next_quiet hq]
    exact ⟨hs.view, hs.next, hs.room⟩
  | swapAdd s check idle fresh => exact hs.swapAdd hl hT check idle hfit
  | swapDone s swap done =>
    rw [Past.next_swapDone swap done]
    exact hs.swapDone swap
  | swapWaits wait =>
    rw [Past.next_swapWaits wait]
    exact hs
  | commitStep st c' flags hc => exact hs.change hl.toSorted hc

end SeqLN.Channeld
