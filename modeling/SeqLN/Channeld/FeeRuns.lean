import SeqLN.Lib.Cursor
import SeqLN.Channeld.Conservation

/-!
# Feerates over a run

A run of one side of a channel, as far as its feerates go, is a log of the opener's updates and of the
four steps (`FeeLog`); the table of `common/fee_states.c` is read off it (`feeTable`). `InOrder` is the
order of the protocol: a side commits again once its last commitment is revoked.

* `Quiet` — the stages between a commitment and its revocation are empty unless that commitment is
  unrevoked. It leaves two entries that a step can overwrite: the last one, and one that the other side
  has revoked for and that is not yet in the opener's own commitment (`clash_cases`).
* `Answered` — the order of messages in which only the last entry is overwritten (`clash_last`).
* `feerates_of_run` — the table and its reading back from the wire, for every run.
-/

namespace SeqLN.Channeld

open HtlcState Lib Lib.Fromwire List Function

/-- What moves the feerates of a channel. -/
inductive FeeEvent where
  | updateFee (feerate : ℕ)
  | step (st : CommitStep)
  deriving DecidableEq

/-- A run, the newest event first. -/
abbrev FeeLog := List FeeEvent

/-- The feerates after a run that starts with one. -/
def feeTable (opener : Side) (first : ℕ) : FeeLog → StateTable
  | [] => newFeeStates opener first
  | .updateFee v :: log => startFeeUpdate (feeTable opener first log) opener v
  | .step st :: log => (feeIncstates st.htlcStates (feeTable opener first log)).1

/-! ### The last update before a commitment -/

/-- The last update of a run, or the feerate it starts with. -/
def lastFee (first : ℕ) : FeeLog → ℕ
  | [] => first
  | .updateFee v :: _ => v
  | .step _ :: log => lastFee first log

/-- The run before the last of its steps that brings the opener's updates to a stage. -/
def beforeStage (opener : Side) (k : ℕ) : FeeLog → FeeLog
  | [] => []
  | .updateFee _ :: log => beforeStage opener k log
  | .step st :: log => if st.target opener = k then log else beforeStage opener k log

/-- The part of a run whose updates have reached a stage: what was before the step to it, and so on
back. -/
def seen (opener : Side) : ℕ → FeeLog → FeeLog
  | 0, log => log
  | k + 1, log => seen opener k (beforeStage opener (k + 1) log)

lemma seen_nil (opener : Side) (k : ℕ) : seen opener k [] = [] := by
  induction k with
  | zero => rfl
  | succ k ih => exact ih

lemma lastFee_seen_updateFee (opener : Side) (first v : ℕ) (log : FeeLog) {k : ℕ} (hk : 1 ≤ k) :
    lastFee first (seen opener k (.updateFee v :: log)) = lastFee first (seen opener k log) := by
  obtain ⟨k, rfl⟩ := Nat.exists_eq_add_of_le' hk
  rfl

lemma lastFee_seen_step (opener : Side) (first : ℕ) (st : CommitStep) (log : FeeLog) (k : ℕ) :
    lastFee first (seen opener k (.step st :: log)) =
      lastFee first (seen opener (st.pre opener k) log) := by
  cases k with
  | zero =>
    have hpre : st.pre opener 0 = 0 := Nat.le_zero.1 (st.pre_le opener 0)
    rw [hpre]
    rfl
  | succ k =>
    unfold CommitStep.pre
    by_cases hk : st.target opener = k + 1
    · rw [if_pos hk.symm, seen, beforeStage, if_pos hk]
      rfl
    · rw [if_neg (Ne.symm hk), seen, beforeStage, if_neg hk]
      rfl

/-- The newest update at a stage is the last one of the part of the run that has reached it. -/
theorem valueFrom_feeTable (opener : Side) (first : ℕ) (log : FeeLog) {k : ℕ} (hk : k ≤ 4) :
    valueFrom (feeTable opener first log) opener k = some (lastFee first (seen opener k log)) := by
  induction log generalizing k with
  | nil => rw [feeTable, valueFrom_newFeeStates opener first hk, seen_nil, lastFee]
  | cons e log ih =>
    cases e with
    | updateFee v =>
      rcases Nat.eq_zero_or_pos k with rfl | hpos
      · rw [feeTable, valueFrom_startFeeUpdate_zero]
        rfl
      · rw [feeTable, valueFrom_startFeeUpdate _ _ _ hpos hk, lastFee_seen_updateFee _ _ _ _ hpos]
        exact ih hk
    | step st =>
      rw [feeTable, valueFrom_feeIncstates st _ _ hk, lastFee_seen_step]
      exact ih ((st.pre_le opener k).trans hk)

/-! ### The protocol's order -/

/-- Our last commitment for the other side is not revoked. -/
def awaitsRevocation : FeeLog → Bool
  | [] => false
  | .step .sendingCommit :: _ => true
  | .step .rcvdRevokeAndAck :: _ => false
  | _ :: log => awaitsRevocation log

/-- The other side's last commitment for us is not revoked. -/
def owesRevocation : FeeLog → Bool
  | [] => false
  | .step .rcvdCommit :: _ => true
  | .step .sendingRevokeAndAck :: _ => false
  | _ :: log => owesRevocation log

/-- Whether a step may follow a run: one unrevoked commitment each way. -/
def mayFollow (log : FeeLog) : CommitStep → Bool
  | .sendingCommit => !awaitsRevocation log
  | .rcvdRevokeAndAck => awaitsRevocation log
  | .rcvdCommit => !owesRevocation log
  | .sendingRevokeAndAck => owesRevocation log

/-- A run in the protocol's order. -/
def InOrder : FeeLog → Prop
  | [] => True
  | .updateFee _ :: log => InOrder log
  | .step st :: log => mayFollow log st = true ∧ InOrder log

instance instDecidableInOrder : DecidablePred InOrder
  | [] => inferInstanceAs (Decidable True)
  | .updateFee _ :: log => instDecidableInOrder log
  | .step _ :: log => @instDecidableAnd _ _ _ (instDecidableInOrder log)

/-- A side's last commitment is not revoked. -/
def hasUnrevoked (log : FeeLog) : Side → Bool
  | .LOCAL => owesRevocation log
  | .REMOTE => awaitsRevocation log

/-- The opener has sent an update since it last signed a commitment for the other side. -/
def freshUpdate (opener : Side) : FeeLog → Bool
  | [] => false
  | .updateFee _ :: _ => true
  | .step st :: log => if st.target opener = 1 then false else freshUpdate opener log

/-- The commitment that the other side has not yet revoked took in an update. -/
def takesIn (opener : Side) : FeeLog → Bool
  | [] => false
  | .updateFee _ :: log => takesIn opener log
  | .step st :: log =>
    if st.target opener = 1 then freshUpdate opener log
    else if st.target opener = 2 then false else takesIn opener log

/-- The other side has revoked for a commitment with an update, and has signed none for the opener
since. -/
def unsigned (opener : Side) : FeeLog → Bool
  | [] => false
  | .updateFee _ :: log => unsigned opener log
  | .step st :: log =>
    if st.target opener = 2 then takesIn opener log || unsigned opener log
    else if st.target opener = 3 then false else unsigned opener log

/-- The other side signs a commitment between any two of its revocations that each take in an
update. -/
def Answered (opener : Side) : FeeLog → Prop
  | [] => True
  | .updateFee _ :: log => Answered opener log
  | .step st :: log =>
    (st.target opener = 2 → takesIn opener log = true → unsigned opener log = false) ∧
      Answered opener log

instance instDecidableAnswered (opener : Side) : DecidablePred (Answered opener)
  | [] => inferInstanceAs (Decidable True)
  | .updateFee _ :: log => instDecidableAnswered opener log
  | .step _ :: log => @instDecidableAnd _ _ _ (instDecidableAnswered opener log)

/-! ### Entries that are overwritten -/

variable {opener : Side} {log : FeeLog} {t : StateTable} {h i : HtlcState} {st : CommitStep}

/-- The entry an update moves to, where it is set. -/
def clashAt (t : StateTable) (hstate : HtlcState) : List HtlcState :=
  if feeMoves t hstate && (t hstate.succ).isSome then [hstate.succ] else []

/-- The set entries that the loop of `change_htlcs` over the states overwrites. -/
def feeClashes (states : List HtlcState) (t : StateTable) : List HtlcState :=
  (states.foldr (fun h (acc : StateTable × List HtlcState) =>
    (feeIncstate acc.1 h, clashAt acc.1 h ++ acc.2)) (t, [])).2

lemma feeClashes_eq (st : CommitStep) (t : StateTable) :
    feeClashes st.htlcStates t =
      clashAt (incFeeState t (st.adding .REMOTE)) (st.adding .LOCAL) ++ clashAt t (st.adding .REMOTE) := by
  cases st <;> exact congrArg (_ ++ ·) (append_nil _)

/-- The opener's state at a stage. -/
def feeStage (opener : Side) (k : ℕ) : HtlcState := (addStates opener).getD k (lastFeeState opener)

lemma succ_adding (st : CommitStep) (opener : Side) :
    (st.adding opener).succ = feeStage opener (st.target opener) := by
  revert st opener
  decide

lemma adding_not_mem (st : CommitStep) (opener : Side) : st.adding opener.other ∉ addStates opener := by
  revert st opener
  decide

/-- The other side has no feerate in flight, the last is set, and an update between a commitment and
its revocation is an unrevoked commitment's. -/
structure Quiet (opener : Side) (log : FeeLog) (t : StateTable) : Prop where
  foreign : ∀ i, i ∉ addStates opener → t i = none
  last : (t (lastFeeState opener)).isSome = true
  other : (t (feeStage opener 1)).isSome = true → hasUnrevoked log opener.other = true
  own : (t (feeStage opener 3)).isSome = true → hasUnrevoked log opener = true

lemma Quiet.start (opener : Side) (first : ℕ) : Quiet opener [] (newFeeStates opener first) := by
  constructor
  · intro i hi
    have hne : i ≠ lastFeeState opener := by
      rintro rfl
      revert hi
      cases opener <;> decide
    exact update_of_ne hne _ _
  · cases opener <;> rfl
  · cases opener <;> exact fun h => by cases h
  · cases opener <;> exact fun h => by cases h

lemma hasUnrevoked_updateFee (log : FeeLog) (v : ℕ) (s : Side) :
    hasUnrevoked (.updateFee v :: log) s = hasUnrevoked log s := by
  cases s <;> rfl

lemma Quiet.updateFee (h : Quiet opener log t) (v : ℕ) :
    Quiet opener (.updateFee v :: log) (startFeeUpdate t opener v) := by
  have hne : ∀ i, i ≠ firstFeeState opener → startFeeUpdate t opener v i = t i :=
    fun i hi => update_of_ne hi _ _
  constructor
  · intro i hi
    rw [hne i, h.foreign i hi]
    rintro rfl
    revert hi
    cases opener <;> decide
  · rw [hne _ (by cases opener <;> decide)]
    exact h.last
  · rw [hne _ (by cases opener <;> decide), hasUnrevoked_updateFee]
    exact h.other
  · rw [hne _ (by cases opener <;> decide), hasUnrevoked_updateFee]
    exact h.own

lemma incFeeState_of_ne (hi : i ≠ h) (hs : i ≠ h.succ) : incFeeState t h i = t i := by
  unfold incFeeState
  cases t h with
  | none => rfl
  | some v => simp only [update_of_ne hi, update_of_ne hs]

lemma incFeeState_of_none (hn : t h = none) : incFeeState t h = t := by
  rw [incFeeState, hn]

lemma adding_ne (st : CommitStep) : st.adding .LOCAL ≠ st.adding .REMOTE ∧
    st.adding .LOCAL ≠ (st.adding .REMOTE).succ := by
  revert st
  decide

/-- Without updates of the other side in flight, a step moves the opener's. -/
theorem Quiet.feeIncstates_eq (h : Quiet opener log t) (st : CommitStep) :
    (feeIncstates st.htlcStates t).1 = incFeeState t (st.adding opener) := by
  have hnone := h.foreign _ (adding_not_mem st opener)
  rw [Channeld.feeIncstates_eq]
  cases opener with
  | LOCAL => exact congrArg (incFeeState · (st.adding .LOCAL)) (incFeeState_of_none hnone)
  | REMOTE =>
    apply incFeeState_of_none
    rw [incFeeState_of_ne (adding_ne st).1 (adding_ne st).2]
    exact hnone

/-- Nor does it overwrite an entry of the other side. -/
theorem Quiet.mem_feeClashes (h : Quiet opener log t) (hi : i ∈ feeClashes st.htlcStates t) :
    i = feeStage opener (st.target opener) ∧ (t i).isSome = true ∧
      (t (st.adding opener)).isSome = true := by
  have hclash : ∀ {t' : StateTable} {g : HtlcState}, i ∈ clashAt t' g →
      i = g.succ ∧ (t' g).isSome = true ∧ (t' i).isSome = true := by
    intro t' g hg
    unfold clashAt feeMoves at hg
    split at hg
    · next hc =>
      obtain rfl := mem_singleton.1 hg
      simp only [Bool.and_eq_true] at hc
      exact ⟨rfl, hc.1.2, hc.2⟩
    · cases hg
  have hnone := h.foreign _ (adding_not_mem st opener)
  rw [feeClashes_eq, mem_append] at hi
  cases opener with
  | LOCAL =>
    have hsame : incFeeState t (st.adding .REMOTE) = t := incFeeState_of_none hnone
    rw [hsame] at hi
    rcases hi with hi | hi
    · obtain ⟨rfl, hfrom, hset⟩ := hclash hi
      exact ⟨succ_adding st .LOCAL, hset, hfrom⟩
    · obtain ⟨-, hset, -⟩ := hclash hi
      exact absurd hset (by rw [show t (st.adding .REMOTE) = none from hnone]; decide)
  | REMOTE =>
    rcases hi with hi | hi
    · obtain ⟨-, hset, -⟩ := hclash hi
      rw [incFeeState_of_ne (adding_ne st).1 (adding_ne st).2] at hset
      exact absurd hset (by rw [show t (st.adding .LOCAL) = none from hnone]; decide)
    · obtain ⟨rfl, hfrom, hset⟩ := hclash hi
      exact ⟨succ_adding st .REMOTE, hset, hfrom⟩

lemma incFeeState_self : incFeeState t h h = none := by
  unfold incFeeState
  cases hv : t h with
  | none => exact hv
  | some v => exact update_self _ _ _

lemma incFeeState_isSome (hi : i ≠ h) (hset : (t i).isSome = true) :
    (incFeeState t h i).isSome = true := by
  unfold incFeeState
  cases hv : t h with
  | none => exact hset
  | some v =>
    change (update (update t h.succ (some v)) h none i).isSome = true
    rw [update_of_ne hi]
    by_cases hs : i = h.succ
    · rw [hs, update_self]
      rfl
    · rw [update_of_ne hs]
      exact hset

/-- A step commits one side or revokes it: the other side's move the opener's updates to the first
and second stage, its own to the third and fourth. -/
theorem hasUnrevoked_step (st : CommitStep) (log : FeeLog) (opener : Side) :
    hasUnrevoked (.step st :: log) opener.other =
        (if st.target opener = 1 then true else if st.target opener = 2 then false
          else hasUnrevoked log opener.other) ∧
    hasUnrevoked (.step st :: log) opener =
        (if st.target opener = 3 then true else if st.target opener = 4 then false
          else hasUnrevoked log opener) := by
  cases st <;> cases opener <;> exact ⟨rfl, rfl⟩

lemma mayFollow_target (h : mayFollow log st = true) :
    (st.target opener = 1 → hasUnrevoked log opener.other = false) ∧
    (st.target opener = 3 → hasUnrevoked log opener = false) := by
  cases st <;> cases opener <;>
    simp_all [mayFollow, CommitStep.target, hasUnrevoked]

/-- The entry a step leaves, and the one it moves to, are the opener's at two stages. -/
theorem adding_eq_feeStage (st : CommitStep) (opener : Side) :
    st.adding opener = feeStage opener (st.target opener - 1) := rfl

lemma feeStage_inj {j k : ℕ} (hj : j ≤ 4) (hk : k ≤ 4)
    (h : feeStage opener j = feeStage opener k) : j = k := by
  revert h
  cases opener <;> interval_cases j <;> interval_cases k <;> decide

lemma feeStage_mem (opener : Side) (k : ℕ) : feeStage opener k ∈ addStates opener := by
  by_cases hk : k < (addStates opener).length
  · rw [feeStage, getD_eq_getElem _ _ hk]
    exact getElem_mem hk
  · rw [feeStage, getD_eq_default _ _ (not_lt.1 hk)]
    cases opener <;> decide

/-- One step keeps the invariant. -/
theorem Quiet.step (h : Quiet opener log t) (st : CommitStep) :
    Quiet opener (.step st :: log) (feeIncstates st.htlcStates t).1 := by
  obtain ⟨hpos, hle⟩ := st.target_le opener
  obtain ⟨hother, hown⟩ := hasUnrevoked_step st log opener
  rw [h.feeIncstates_eq st, adding_eq_feeStage]
  have hsucc : (feeStage opener (st.target opener - 1)).succ = feeStage opener (st.target opener) :=
    succ_adding st opener
  -- an entry that the step neither leaves nor moves to
  have hkeep : ∀ k ≤ 4, k ≠ st.target opener - 1 → k ≠ st.target opener →
      incFeeState t (feeStage opener (st.target opener - 1)) (feeStage opener k) =
        t (feeStage opener k) := by
    intro k hk h1 h2
    apply incFeeState_of_ne
    · exact fun heq => h1 (feeStage_inj hk (by omega) heq)
    · rw [hsucc]
      exact fun heq => h2 (feeStage_inj hk hle heq)
  constructor
  · intro i hi
    rw [incFeeState_of_ne, h.foreign i hi]
    · exact fun heq => hi (heq ▸ feeStage_mem _ _)
    · rw [hsucc]
      exact fun heq => hi (heq ▸ feeStage_mem _ _)
  · have hlast : lastFeeState opener = feeStage opener 4 := by cases opener <;> rfl
    rw [hlast]
    refine incFeeState_isSome (fun heq => ?_) (hlast ▸ h.last)
    have := feeStage_inj le_rfl (by omega) heq
    omega
  · intro hset
    rw [hother]
    by_cases h1 : st.target opener = 1
    · rw [if_pos h1]
    rw [if_neg h1]
    by_cases h2 : st.target opener = 2
    · rw [h2, incFeeState_self] at hset
      exact absurd hset (by decide)
    rw [if_neg h2]
    rw [hkeep 1 (by omega) (by omega) (by omega)] at hset
    exact h.other hset
  · intro hset
    rw [hown]
    by_cases h3 : st.target opener = 3
    · rw [if_pos h3]
    rw [if_neg h3]
    by_cases h4 : st.target opener = 4
    · rw [h4, incFeeState_self] at hset
      exact absurd hset (by decide)
    rw [if_neg h4]
    rw [hkeep 3 (by omega) (by omega) (by omega)] at hset
    exact h.own hset

/-- Every run keeps it. -/
theorem quiet_feeTable (opener : Side) (first : ℕ) (log : FeeLog) :
    Quiet opener log (feeTable opener first log) := by
  induction log with
  | nil => exact Quiet.start opener first
  | cons e log ih =>
    cases e with
    | updateFee v => exact ih.updateFee v
    | step st => exact ih.step st

/-- In order, a step overwrites a set entry at the last stage or at the second, of an update revoked
by the other side and not in the opener's commitment. -/
theorem clash_cases {first : ℕ} (hnext : mayFollow log st = true)
    (hi : i ∈ feeClashes st.htlcStates (feeTable opener first log)) :
    i = feeStage opener 2 ∨ i = lastFeeState opener := by
  have hq := quiet_feeTable opener first log
  obtain ⟨rfl, hset, -⟩ := hq.mem_feeClashes hi
  obtain ⟨hpos, hle⟩ := st.target_le opener
  have htarget : (st.target opener = 1 → hasUnrevoked log opener.other = false) ∧
      (st.target opener = 3 → hasUnrevoked log opener = false) := mayFollow_target hnext
  obtain ⟨hother, hown⟩ := htarget
  have h1 : st.target opener ≠ 1 := fun h1 => by
    rw [h1] at hset
    exact absurd (hq.other hset) (by rw [hother h1]; decide)
  have h3 : st.target opener ≠ 3 := fun h3 => by
    rw [h3] at hset
    exact absurd (hq.own hset) (by rw [hown h3]; decide)
  obtain h2 | h4 : st.target opener = 2 ∨ st.target opener = 4 := by omega
  · exact .inl (by rw [h2])
  · refine .inr ?_
    rw [h4]
    cases opener <;> rfl

/-- A step moves the entry before its stage to it, and changes no other. -/
theorem Quiet.isSome_step (h : Quiet opener log t) (st : CommitStep) {j : ℕ} (hj : j ≤ 4) :
    ((feeIncstates st.htlcStates t).1 (feeStage opener j)).isSome =
      if j = st.target opener - 1 then false
      else if j = st.target opener then
        (t (feeStage opener (st.target opener - 1))).isSome || (t (feeStage opener j)).isSome
      else (t (feeStage opener j)).isSome := by
  obtain ⟨hpos, hle⟩ := st.target_le opener
  have hsucc : (feeStage opener (st.target opener - 1)).succ = feeStage opener (st.target opener) :=
    succ_adding st opener
  rw [h.feeIncstates_eq st, adding_eq_feeStage]
  split_ifs with hfrom hto
  · rw [hfrom, incFeeState_self]
    rfl
  · have hne : feeStage opener j ≠ feeStage opener (st.target opener - 1) :=
      fun heq => hfrom (feeStage_inj hj (by omega) heq)
    unfold incFeeState
    rw [hsucc, ← hto]
    rw [← hto] at hne
    cases t (feeStage opener (j - 1)) with
    | none => rfl
    | some v => simp [update_of_ne hne]
  · rw [incFeeState_of_ne (fun heq => hfrom (feeStage_inj hj (by omega) heq))]
    rw [hsucc]
    exact fun heq => hto (feeStage_inj hj hle heq)

/-- The first three entries are set as the order of the messages says. -/
structure Waiting (opener : Side) (log : FeeLog) (t : StateTable) : Prop where
  first : (t (feeStage opener 0)).isSome = freshUpdate opener log
  second : (t (feeStage opener 1)).isSome = takesIn opener log
  third : (t (feeStage opener 2)).isSome = unsigned opener log

lemma Waiting.updateFee (h : Waiting opener log t) (v : ℕ) :
    Waiting opener (.updateFee v :: log) (startFeeUpdate t opener v) := by
  have hne : ∀ k, 1 ≤ k → k ≤ 2 →
      startFeeUpdate t opener v (feeStage opener k) = t (feeStage opener k) := by
    intro k h1 h2
    apply update_of_ne
    cases opener <;> interval_cases k <;> decide
  refine ⟨?_, ?_, ?_⟩
  · cases opener <;> rfl
  · rw [hne 1 le_rfl (by decide)]
    exact h.second
  · rw [hne 2 (by decide) le_rfl]
    exact h.third

/-- One step keeps them so; at a commitment the entry it moves to is empty. -/
theorem Waiting.step (h : Waiting opener log t) (hq : Quiet opener log t)
    (hnext : mayFollow log st = true) :
    Waiting opener (.step st :: log) (feeIncstates st.htlcStates t).1 := by
  have hempty : st.target opener = 1 → (t (feeStage opener 1)).isSome = false := by
    intro h1
    rw [← Bool.not_eq_true]
    intro hset
    have hun := hq.other hset
    rw [(mayFollow_target hnext).1 h1] at hun
    cases hun
  obtain ⟨hpos, hle⟩ := st.target_le opener
  refine ⟨?_, ?_, ?_⟩
  · rw [hq.isSome_step st (by decide), h.first, freshUpdate]
    generalize st.target opener = k at hpos hle
    interval_cases k <;> simp
  · rw [hq.isSome_step st (by decide), takesIn]
    generalize st.target opener = k at hpos hle hempty ⊢
    interval_cases k <;> simp [h.first, h.second]
    exact fun hset => absurd (h.second.trans hset) (by simp [hempty rfl])
  · rw [hq.isSome_step st (by decide), h.third, unsigned]
    generalize st.target opener = k at hpos hle
    interval_cases k <;> simp [h.second]

/-- Every run in the protocol's order keeps them so. -/
theorem waiting_feeTable (opener : Side) (first : ℕ) (horder : InOrder log) :
    Waiting opener log (feeTable opener first log) := by
  induction log with
  | nil => constructor <;> cases opener <;> rfl
  | cons e log ih =>
    cases e with
    | updateFee v => exact (ih horder).updateFee v
    | step st => exact (ih horder.2).step (quiet_feeTable opener first log) horder.1

/-- Where the other side signs between two such revocations, the last entry alone is overwritten. -/
theorem clash_last {first : ℕ} (horder : InOrder (.step st :: log))
    (hanswered : Answered opener (.step st :: log))
    (hi : i ∈ feeClashes st.htlcStates (feeTable opener first log)) : i = lastFeeState opener := by
  obtain h2 | hlast := clash_cases horder.1 hi
  · obtain ⟨hstage, hset, hfrom⟩ := (quiet_feeTable opener first log).mem_feeClashes hi
    have htarget : st.target opener = 2 :=
      feeStage_inj (st.target_le opener).2 (by decide) (hstage.symm.trans h2)
    have hp := waiting_feeTable opener first horder.2
    rw [h2, hp.third] at hset
    rw [adding_eq_feeStage, htarget, hp.second] at hfrom
    rw [hanswered.1 htarget hfrom] at hset
    cases hset
  · exact hlast

/-! ### On the wire -/

/-- A state in which an update is in a commitment. -/
def isOnWire (i : HtlcState) : Bool :=
  i.has (HTLC_FLAG .REMOTE HTLC_F_COMMITTED ||| HTLC_FLAG .LOCAL HTLC_F_COMMITTED)

/-- What is written of a table: uncommitted updates are not. -/
def wired (t : StateTable) : StateTable := fun i => if isOnWire i then t i else none

/-- Source: `towire_fee_states` -/
def towireFeeStates (t : StateTable) : Bytes :=
  allHtlcStates.flatMap fun i => flaggedBytes (beBytes 4) (wired t i)

/-- One entry. Source: `fromwire_fee_states` -/
def fromwireFee : Fromwire (Option ℕ) := flagged do
  let v ← be 4
  return some v

/-- Source: `fromwire_fee_states` -/
def fromwireFeeStates : Fromwire (Option StateTable) := do
  let values ← times allHtlcStates.length fromwireFee
  orNone fun i => values.getD (allHtlcStates.idxOf i) none

instance : Sticky fromwireFee := inferInstanceAs (Sticky (flagged _))

lemma mem_allHtlcStates (i : HtlcState) : i ∈ allHtlcStates := by cases i <;> decide

lemma getD_idxOf_map (t : StateTable) (i : HtlcState) :
    (allHtlcStates.map t).getD (allHtlcStates.idxOf i) none = t i := by
  have hlt : allHtlcStates.idxOf i < allHtlcStates.length := idxOf_lt_length_iff.2 (mem_allHtlcStates i)
  rw [getD_eq_getElem _ _ (by rwa [length_map]), getElem_map, getElem_idxOf hlt]

/-- A table of 32-bit words is read back as it was written. -/
theorem fromwire_towire_feeStates (h : ∀ i, ∀ v ∈ t i, v < 2 ^ 32) :
    Takes fromwireFeeStates (towireFeeStates t) (some (wired t)) := by
  have hentry : ∀ o ∈ allHtlcStates.map (wired t),
      Takes fromwireFee (flaggedBytes (beBytes 4) o) o := by
    intro o ho
    obtain ⟨i, -, rfl⟩ := List.mem_map.1 ho
    refine .flagged fun v hv => ?_
    have hlt : v < 256 ^ 4 := by
      unfold wired at hv
      split at hv
      · exact h i v hv
      · cases hv
    exact (Takes.be hlt).map
  have htimes : Takes (times allHtlcStates.length fromwireFee) (towireFeeStates t)
      (allHtlcStates.map (wired t)) := by
    have ht := Takes.times hentry
    rwa [length_map, flatMap_map] at ht
  have hlast : Takes (orNone fun i => (allHtlcStates.map (wired t)).getD (allHtlcStates.idxOf i) none)
      [] (some (wired t)) := by
    rw [show (fun i => (allHtlcStates.map (wired t)).getD (allHtlcStates.idxOf i) none) = wired t from
      funext (getD_idxOf_map (wired t))]
    exact .orNone _
  exact htimes.bind_nil hlast

/-- Both sides keep their feerates. -/
theorem getFeerate_wired (t : StateTable) (opener side : Side) :
    getFeerate (wired t) opener side = getFeerate t opener side := by
  have hkeep : ∀ i, i.has (HTLC_FLAG side HTLC_F_COMMITTED) = true → isOnWire i = true := by
    revert side
    decide
  unfold getFeerate
  congr 1
  funext i
  split
  · next hi => exact if_pos (hkeep i hi)
  · rfl

/-- Only the opener's uncommitted update is dropped. -/
theorem Quiet.wired_eq (h : Quiet opener log t) (hi : i ≠ firstFeeState opener) :
    wired t i = t i := by
  unfold wired
  split
  · rfl
  · next hoff =>
    refine (h.foreign i fun hmem => hoff ?_).symm
    revert hi hmem
    cases opener <;> cases i <;> decide

/-- Every entry of a table is below a bound. -/
def FeesBelow (b : ℕ) (t : StateTable) : Prop := ∀ i, ∀ v ∈ t i, v < b

lemma FeesBelow.update {b : ℕ} (h : FeesBelow b t) {o : Option ℕ} (ho : ∀ v ∈ o, v < b) :
    FeesBelow b (update t i o) := by
  intro j v hv
  by_cases hj : j = i
  · rw [hj, update_self] at hv
    exact ho v hv
  · rw [update_of_ne hj] at hv
    exact h j v hv

lemma FeesBelow.incFeeState {b : ℕ} (h : FeesBelow b t) (i : HtlcState) :
    FeesBelow b (incFeeState t i) := by
  unfold Channeld.incFeeState
  cases hv : t i with
  | none => exact h
  | some v =>
    have hlt : ∀ w ∈ some v, w < b := fun w hw => h i w (hv ▸ hw)
    exact (h.update hlt).update fun _ hw => by cases hw

lemma feesBelow_feeTable {first b : ℕ} (hfirst : first < b)
    (hlog : ∀ v, .updateFee v ∈ log → v < b) : FeesBelow b (feeTable opener first log) := by
  have hword : ∀ {w : ℕ}, w < b → ∀ v ∈ some w, v < b := by
    rintro w hw v ⟨⟩
    exact hw
  induction log with
  | nil =>
    have hempty : FeesBelow b fun _ => none := fun _ _ hv => by cases hv
    exact hempty.update (hword hfirst)
  | cons e log ih =>
    have hrest := ih fun v hv => hlog v (mem_cons_of_mem _ hv)
    cases e with
    | updateFee v => exact hrest.update (hword (hlog v mem_cons_self))
    | step st =>
      rw [feeTable, feeIncstates_eq]
      exact (hrest.incFeeState _).incFeeState _

/-! ### Runs of a channel -/

/-- What an operation does to the feerates. -/
def Op.feeEvent : Op → Option FeeEvent
  | .updateFeerate v => some (.updateFee v)
  | .commitStep st => some (.step st)
  | _ => none

/-- The log of a run, the newest event first. -/
def feeLog (ops : List Op) : FeeLog := (ops.filterMap Op.feeEvent).reverse

section runs

variable {cp : ChainParams} {lk : Locks}

/-- The feerates after one event. -/
def moveFees (opener : Side) (t : StateTable) : Option FeeEvent → StateTable
  | none => t
  | some (.updateFee v) => startFeeUpdate t opener v
  | some (.step st) => (feeIncstates st.htlcStates t).1

/-- The feerates of an accepted operation move by its kind. -/
lemma apply_feeStates {c c' : Channel} {op : Op} (h : c.apply cp lk op = some c') :
    c'.setup = c.setup ∧ c'.feeStates = moveFees c.setup.opener c.feeStates op.feeEvent := by
  cases op with
  | updateFeerate feerate =>
    simp only [Channel.apply, channelUpdateFeerate, Option.bind_eq_bind,
      Option.bind_eq_some_iff] at h
    obtain ⟨-, -, -, -, -, -, h⟩ := h
    cases h
    exact ⟨rfl, rfl⟩
  | commitStep st =>
    obtain ⟨⟨d, flags⟩, hok, rfl⟩ := Option.map_eq_some_iff.1 h
    unfold changeHtlcs at hok
    split at hok
    · cases hok
      exact ⟨rfl, rfl⟩
    · cases hok
  | addHtlc _ _ _ | fulfillHtlc _ _ _ | failHtlc _ _ | updateBlockheight _ | symSwapAdd _
  | symSwapRequest _ | symSwapCancel _ | symSwapDone =>
    -- the feerates are not touched by what these do
    cases apply_effect h with
    | quiet _ _ _ _ _ fees _ =>
      obtain hsame | ⟨_, hop, -⟩ := fees
      · exact ⟨rfl, hsame⟩
      · cases hop
    | _ => exact ⟨rfl, rfl⟩

/-- The feerates of a channel are those of the log of its run. -/
theorem runWhile_feeStates {ok : Channel → Op → Prop} [∀ c op, Decidable (ok c op)] {first : ℕ}
    {c c' : Channel} {ops : List Op} (hrun : c.runWhile cp lk ok ops = some c')
    (hc : c.feeStates = feeTable c.setup.opener first log) :
    c'.setup = c.setup ∧ c'.feeStates = feeTable c.setup.opener first (feeLog ops ++ log) := by
  induction ops generalizing c log with
  | nil =>
    cases hrun
    exact ⟨rfl, hc⟩
  | cons op ops ih =>
    obtain ⟨-, d, hd, hrun⟩ := Lib.runWhile_cons hrun
    obtain ⟨hsetup, hfees⟩ := apply_feeStates hd
    have hlog : feeLog (op :: ops) ++ log = feeLog ops ++ (op.feeEvent.toList ++ log) := by
      cases he : op.feeEvent <;> simp [feeLog, he]
    have hd' : d.feeStates = feeTable d.setup.opener first (op.feeEvent.toList ++ log) := by
      rw [hfees, hc, hsetup]
      cases op.feeEvent with
      | none => rfl
      | some e => cases e <;> rfl
    obtain ⟨hsetup', hfees'⟩ := ih hrun hd'
    rw [hsetup] at hsetup' hfees'
    exact ⟨hsetup', by rw [hlog, hfees']⟩

/-- The part of a run that a side's commitment has: the other side's, up to the last commitment
signed for it; the opener's, up to the last one for the other side that it had revoked when it
signed. -/
def coveredBy (opener side : Side) : FeeLog → FeeLog := seen opener (viewStage side opener)

/-- Over every run: a step in order overwrites a set entry only in the last state or in that of an
update revoked by the other side and not in the opener's commitment, and only in the last where the
other side signs between two of its revocations that each take in an update; the last state is set;
each side's feerate is the last `update_fee` of the part of the run that its commitment has; what is
written and read back keeps both and drops only an uncommitted update. -/
theorem feerates_of_run {setup : ChannelSetup} {first : ℕ} {heights : StateTable} {msat : ℕ → ℕ}
    {c₀ c : Channel} {ops : List Op}
    (hnew : newFullChannel setup (newFeeStates setup.opener first) heights msat = some c₀)
    (hrun : c₀.runWhile cp lk (fun _ _ => True) ops = some c) (hfirst : first < 2 ^ 32)
    (hword : ∀ v, .updateFeerate v ∈ ops → v < 2 ^ 32) :
    (∀ st, InOrder (.step st :: feeLog ops) → ∀ i ∈ feeClashes st.htlcStates c.feeStates,
      (i = feeStage setup.opener 2 ∨ i = lastFeeState setup.opener) ∧
      (Answered setup.opener (.step st :: feeLog ops) → i = lastFeeState setup.opener)) ∧
    (c.feeStates (lastFeeState setup.opener)).isSome = true ∧
    (∀ side, channelFeerate c side =
      some (lastFee first (coveredBy setup.opener side (feeLog ops)))) ∧
    ∃ t, fromwireFeeStates (some (towireFeeStates c.feeStates)) = (some t, some []) ∧
      (∀ side, getFeerate t setup.opener side = channelFeerate c side) ∧
      ∀ i, i ≠ firstFeeState setup.opener → t i = c.feeStates i := by
  obtain ⟨hopener, hstart⟩ : c₀.setup.opener = setup.opener ∧
      c₀.feeStates = feeTable c₀.setup.opener first [] := by
    unfold newFullChannel at hnew
    split at hnew
    · cases hnew
      exact ⟨rfl, rfl⟩
    · cases hnew
  obtain ⟨hsetup, hfees⟩ := runWhile_feeStates hrun hstart
  rw [append_nil, hopener] at hfees
  have hopener' : c.setup.opener = setup.opener := by rw [hsetup, hopener]
  have hrate : ∀ side, channelFeerate c side =
      some (lastFee first (coveredBy setup.opener side (feeLog ops))) := by
    intro side
    rw [channelFeerate, hopener', hfees, getFeerate_eq]
    exact valueFrom_feeTable _ _ _ (viewStage_le side setup.opener)
  have hquiet := quiet_feeTable setup.opener first (feeLog ops)
  have hlog : ∀ v, .updateFee v ∈ feeLog ops → v < 2 ^ 32 := by
    intro v hv
    obtain ⟨op, hop, hev⟩ := mem_filterMap.1 (mem_reverse.1 hv)
    cases op <;> cases hev
    exact hword v hop
  have hbelow : FeesBelow (2 ^ 32) (feeTable setup.opener first (feeLog ops)) :=
    feesBelow_feeTable hfirst hlog
  refine ⟨fun st hst i hi => ?_, ?_, hrate, wired c.feeStates, ?_, fun side => ?_, fun i hi => ?_⟩
  · rw [hfees] at hi
    exact ⟨clash_cases hst.1 hi, fun hanswered => clash_last hst hanswered hi⟩
  · rw [hfees]
    exact hquiet.last
  · rw [hfees]
    exact (fromwire_towire_feeStates hbelow).run
  · rw [getFeerate_wired, channelFeerate, hopener']
  · rw [hfees]
    exact hquiet.wired_eq hi

end runs

namespace Example

/-- We raise the feerate twice and commit each time; the peer revokes and does not commit. -/
def raiseTwice : List Op :=
  [.updateFeerate 2000, .commitStep .sendingCommit, .commitStep .rcvdRevokeAndAck,
    .updateFeerate 3000, .commitStep .sendingCommit]

/-- We raise the feerate and commit; the peer revokes and commits; and we do so again. -/
def raiseAnswered : List Op :=
  [.updateFeerate 2000, .commitStep .sendingCommit, .commitStep .rcvdRevokeAndAck,
    .commitStep .rcvdCommit, .commitStep .sendingRevokeAndAck, .updateFeerate 3000,
    .commitStep .sendingCommit]

/-- The peer's commitment has the second feerate and ours the first; its next revocation overwrites
nothing but the last state. -/
theorem feerates_raiseAnswered : ∃ c,
    openChannel.runWhile params locks (fun _ _ => True) raiseAnswered = some c ∧
      channelFeerate c .REMOTE = some 3000 ∧ channelFeerate c .LOCAL = some 2000 ∧
      ∀ i ∈ feeClashes CommitStep.rcvdRevokeAndAck.htlcStates c.feeStates,
        i = lastFeeState .LOCAL := by
  have hrun : (openChannel.runWhile params locks (fun _ _ => True) raiseAnswered).isSome = true := by
    decide +kernel
  obtain ⟨c, hc⟩ := Option.isSome_iff_exists.1 hrun
  have hword : ∀ v, Op.updateFeerate v ∈ raiseAnswered → v < 2 ^ 32 := by
    intro v hv
    simp only [raiseAnswered, mem_cons, Op.updateFeerate.injEq, reduceCtorEq, not_mem_nil,
      or_false, false_or] at hv
    omega
  obtain ⟨hclash, -, hrate, -⟩ := feerates_of_run newChannel_open hc (by decide) hword
  exact ⟨c, hc, hrate .REMOTE, hrate .LOCAL,
    fun i hi => (hclash .rcvdRevokeAndAck (by decide) i hi).2 (by decide)⟩

/-- The peer's second revocation is in order, and overwrites the first update. -/
theorem revocation_overwrites_update : ∃ c,
    openChannel.runWhile params locks (fun _ _ => True) raiseTwice = some c ∧
      InOrder (.step .rcvdRevokeAndAck :: feeLog raiseTwice) ∧
      RCVD_ADD_REVOCATION ∈ feeClashes CommitStep.rcvdRevokeAndAck.htlcStates c.feeStates ∧
      c.feeStates RCVD_ADD_REVOCATION = some 2000 ∧ lastFeeState .LOCAL ≠ RCVD_ADD_REVOCATION := by
  have hrun : ((openChannel.runWhile params locks (fun _ _ => True) raiseTwice).any fun c =>
      RCVD_ADD_REVOCATION ∈ feeClashes CommitStep.rcvdRevokeAndAck.htlcStates c.feeStates ∧
      c.feeStates RCVD_ADD_REVOCATION = some 2000) = true := by
    decide +kernel
  obtain ⟨c, hc, hclash⟩ := (Option.any_eq_true _ _).1 hrun
  obtain ⟨hmem, hold⟩ := of_decide_eq_true hclash
  exact ⟨c, hc, by decide, hmem, hold, by decide⟩

end Example

end SeqLN.Channeld
