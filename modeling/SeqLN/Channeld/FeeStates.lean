import SeqLN.Channeld.HtlcState

/-!
# Feerates and block heights in flight

`common/fee_states.c` and `common/blockheight_states.c`: an `update_fee` or `update_blockheight` passes
through the five adding states as an HTLC does, but a newer one replaces an older one. `valueFrom` is
the newest value that has reached a stage; `getFeerate_eq`: a view's feerate is the newest one at its
stage.
-/

namespace SeqLN.Channeld

open HtlcState

/-- The values in flight, one for each state.
Source: `struct fee_states`, `struct height_states` -/
abbrev StateTable := HtlcState → Option ℕ

/-- The adding states of the opener, newest first: from `first_fee_state` to `last_fee_state`. -/
def addStates : Side → List HtlcState
  | .LOCAL => [SENT_ADD_HTLC, SENT_ADD_COMMIT, RCVD_ADD_REVOCATION, RCVD_ADD_ACK_COMMIT,
      SENT_ADD_ACK_REVOCATION]
  | .REMOTE => [RCVD_ADD_HTLC, RCVD_ADD_COMMIT, SENT_ADD_REVOCATION, SENT_ADD_ACK_COMMIT,
      RCVD_ADD_ACK_REVOCATION]

/-- Source: `first_fee_state` -/
def firstFeeState : Side → HtlcState
  | .LOCAL => SENT_ADD_HTLC
  | .REMOTE => RCVD_ADD_HTLC

/-- Source: `last_fee_state` -/
def lastFeeState : Side → HtlcState
  | .LOCAL => SENT_ADD_ACK_REVOCATION
  | .REMOTE => RCVD_ADD_ACK_REVOCATION

/-- Source: `new_fee_states`, `new_height_states` -/
def newFeeStates (opener : Side) (value : ℕ) : StateTable :=
  Function.update (fun _ => none) (lastFeeState opener) (some value)

/-- The first value committed to a side; `none` is the call of `abort`.
Source: `get_feerate`, `get_blockheight` -/
def getFeerate (t : StateTable) (opener side : Side) : Option ℕ :=
  (addStates opener).findSome? fun i =>
    if i.has (HTLC_FLAG side HTLC_F_COMMITTED) then t i else none

/-- Source: `start_fee_update`, `start_height_update` -/
def startFeeUpdate (t : StateTable) (opener : Side) (value : ℕ) : StateTable :=
  Function.update t (firstFeeState opener) (some value)

/-- Moves the value of a state to the next one, over what was there.
Source: `inc_fee_state`, `inc_height_state` -/
def incFeeState (t : StateTable) (hstate : HtlcState) : StateTable :=
  match t hstate with
  | none => t
  | some value => Function.update (Function.update t hstate.succ (some value)) hstate none

/-- Only adding states advance. Source: `channeld/full_channel.c`, `fee_incstate` -/
def feeIncstate (t : StateTable) (hstate : HtlcState) : StateTable :=
  if hstate.has HTLC_ADDING then incFeeState t hstate else t

/-- Whether `fee_incstate` changes the table. -/
def feeMoves (t : StateTable) (hstate : HtlcState) : Bool :=
  hstate.has HTLC_ADDING && (t hstate).isSome

/-- The loop of `change_htlcs` over the states, from the last one on, with the flags it changes. -/
def feeIncstates (states : List HtlcState) (t : StateTable) : StateTable × ℕ :=
  states.foldr (fun h (acc : StateTable × ℕ) =>
    (feeIncstate acc.1 h,
      if feeMoves acc.1 h then acc.2 ||| (htlcStateFlags h ^^^ htlcStateFlags h.succ) else acc.2))
    (t, 0)

/-! ### The newest value at a stage -/

variable {k : ℕ}

/-- The newest value that has reached stage `k`. -/
def valueFrom (t : StateTable) (opener : Side) (k : ℕ) : Option ℕ :=
  ((addStates opener).drop k).findSome? t

lemma getFeerate_eq (t : StateTable) (opener side : Side) :
    getFeerate t opener side = valueFrom t opener (viewStage side opener) := by
  cases opener <;> cases side <;> rfl

/-- A value that has reached a stage has reached those before it. -/
theorem valueFrom_isSome {t : StateTable} {opener : Side} {j : ℕ} (hjk : j ≤ k)
    (h : (valueFrom t opener k).isSome = true) : (valueFrom t opener j).isSome = true := by
  unfold valueFrom at h ⊢
  rw [List.findSome?_isSome_iff] at h ⊢
  obtain ⟨i, hi, hsome⟩ := h
  exact ⟨i, (List.drop_sublist_drop_left _ hjk).mem hi, hsome⟩

lemma valueFrom_startFeeUpdate_zero (t : StateTable) (opener : Side) (value : ℕ) :
    valueFrom (startFeeUpdate t opener value) opener 0 = some value := by
  cases opener <;> rfl

lemma valueFrom_startFeeUpdate (t : StateTable) (opener : Side) (value : ℕ) (hk : 1 ≤ k)
    (hk4 : k ≤ 4) : valueFrom (startFeeUpdate t opener value) opener k = valueFrom t opener k := by
  cases opener <;> interval_cases k <;> rfl

lemma valueFrom_newFeeStates (opener : Side) (value : ℕ) (hk : k ≤ 4) :
    valueFrom (newFeeStates opener value) opener k = some value := by
  cases opener <;> interval_cases k <;> rfl

/-- The adding state of `side` that a call advances. -/
def CommitStep.adding (st : CommitStep) (side : Side) : HtlcState :=
  (addStates side).getD (st.target side - 1) (lastFeeState side)

lemma feeIncstates_eq (st : CommitStep) (t : StateTable) :
    (feeIncstates st.htlcStates t).1 =
      incFeeState (incFeeState t (st.adding .REMOTE)) (st.adding .LOCAL) := by
  cases st <;> rfl

lemma valueFrom_congr {t t' : StateTable} {opener : Side}
    (h : ∀ i ∈ addStates opener, t' i = t i) (k : ℕ) :
    valueFrom t' opener k = valueFrom t opener k := by
  have hd : ∀ i ∈ (addStates opener).drop k, t' i = t i := fun i hi => h i (List.mem_of_mem_drop hi)
  unfold valueFrom
  generalize (addStates opener).drop k = states at hd
  induction states with
  | nil => rfl
  | cons a l ih =>
    rw [List.findSome?_cons, List.findSome?_cons, hd a List.mem_cons_self,
      ih fun i hi => hd i (List.mem_cons_of_mem a hi)]

/-- A value that moves to the next state of the other side is not seen. -/
theorem valueFrom_incFeeState_other (st : CommitStep) (t : StateTable) (opener : Side) (k : ℕ) :
    valueFrom (incFeeState t (st.adding opener.other)) opener k = valueFrom t opener k := by
  apply valueFrom_congr
  intro i hi
  have hne : i ≠ st.adding opener.other ∧ i ≠ (st.adding opener.other).succ := by
    revert st opener i
    decide
  rcases hv : t (st.adding opener.other) with _ | value
  · simp only [incFeeState, hv]
  · simp only [incFeeState, hv]
    rw [Function.update_of_ne hne.1, Function.update_of_ne hne.2]

/-- A value that moves from one stage of the opener to the next is the newest there. -/
theorem valueFrom_incFeeState (st : CommitStep) (t : StateTable) (opener : Side) (hk : k ≤ 4) :
    valueFrom (incFeeState t (st.adding opener)) opener k = valueFrom t opener (st.pre opener k) := by
  unfold incFeeState
  split
  · next h =>
    revert h
    cases st <;> cases opener <;> interval_cases k <;> intro h <;>
      simp [CommitStep.adding, addStates, CommitStep.target] at h <;>
      simp [valueFrom, addStates, CommitStep.pre, CommitStep.target, List.findSome?_cons, h]
  · next value h =>
    revert h
    cases st <;> cases opener <;> interval_cases k <;> intro h <;>
      simp [CommitStep.adding, addStates, CommitStep.target] at h <;>
      simp [valueFrom, addStates, CommitStep.pre, CommitStep.target, CommitStep.adding, succ, h,
        List.findSome?_cons]

/-- The four calls move the newest values as they move every update. -/
theorem valueFrom_feeIncstates (st : CommitStep) (t : StateTable) (opener : Side) (hk : k ≤ 4) :
    valueFrom (feeIncstates st.htlcStates t).1 opener k = valueFrom t opener (st.pre opener k) := by
  rw [feeIncstates_eq]
  cases opener
  · rw [valueFrom_incFeeState st _ .LOCAL hk]
    exact valueFrom_incFeeState_other st t .LOCAL _
  · exact (valueFrom_incFeeState_other st _ .REMOTE k).trans (valueFrom_incFeeState st t .REMOTE hk)

end SeqLN.Channeld
