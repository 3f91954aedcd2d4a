import Mathlib

/-!
# Amounts over a sliding window

A limit holds for every window of one period. Whoever enforces it keeps a list of charges that may
forget those that have left the window and join two into the later one; `Covers` says that such a list
never counts less than what was spent, and `Enforced` is the invariant of one who checks each amount
against it first.
-/

namespace SeqLN.Lib

/-- An amount, and when it was spent. -/
structure Charge where
  time : ℕ
  amount : ℕ
  deriving DecidableEq

namespace Window

/-- A time is less than a period old; one ahead of the clock counts as well. -/
def within (time now period : ℕ) : Bool := now - time < period

variable {period now : ℕ} {kept spent : List Charge}

/-- What the window that ends at `now` holds. -/
def sum (period now : ℕ) (cs : List Charge) : ℕ :=
  ((cs.filter fun c => within c.time now period).map Charge.amount).sum

/-- What the charges of the half-open window that starts at `start` amount to. -/
def held (period start : ℕ) (cs : List Charge) : ℕ :=
  ((cs.filter fun c => start ≤ c.time ∧ c.time < start + period).map Charge.amount).sum

/-- No charges. -/
@[simp] theorem sum_nil : sum period now [] = 0 := rfl

/-- One charge more. -/
theorem sum_cons (c : Charge) (cs : List Charge) :
    sum period now (c :: cs) = (if within c.time now period then c.amount else 0) +
      sum period now cs := by
  unfold sum
  by_cases h : within c.time now period = true <;> simp [h]

/-- The charges of two lists. -/
theorem sum_append (cs ds : List Charge) :
    sum period now (cs ++ ds) = sum period now cs + sum period now ds := by
  simp [sum, List.filter_append]

/-- The order of the charges is not looked at. -/
theorem sum_perm {cs ds : List Charge} (h : cs.Perm ds) :
    sum period now cs = sum period now ds :=
  ((h.filter _).map _).sum_eq

/-- What is in a window was in every earlier one. -/
theorem within_mono {time t u : ℕ} (htu : t ≤ u) (h : within time u period = true) :
    within time t period = true := by
  unfold within at *
  simp only [decide_eq_true_eq] at *
  omega

/-- A later time is in a window for longer. -/
theorem within_later {s t u : ℕ} (hst : s ≤ t) (h : within s u period = true) :
    within t u period = true := by
  unfold within at *
  simp only [decide_eq_true_eq] at *
  omega

/-- A window that ends later holds no more of the same charges. -/
theorem sum_antitone {t u : ℕ} (htu : t ≤ u) (cs : List Charge) :
    sum period u cs ≤ sum period t cs := by
  refine List.Sublist.sum_le_sum (List.Sublist.map _ ?_) fun _ _ => Nat.zero_le _
  exact List.monotone_filter_right cs fun c hc => within_mono htu hc

/-- Dropping what has left the window changes no later window. -/
theorem sum_filter_within {t u : ℕ} (htu : t ≤ u) (cs : List Charge) :
    sum period u (cs.filter fun c => within c.time t period) = sum period u cs := by
  unfold sum
  rw [List.filter_filter]
  congr 2
  apply List.filter_congr
  intro c _
  by_cases h : within c.time u period = true
  · simp [h, within_mono htu h]
  · simp [h]

/-- Two charges joined at the later time count for at least as long. -/
theorem sum_join (c d : Charge) (h : c.time ≤ d.time) (cs : List Charge) :
    sum period now (c :: d :: cs) ≤ sum period now (⟨d.time, d.amount + c.amount⟩ :: cs) := by
  simp only [sum_cons]
  by_cases hc : within c.time now period = true
  · rw [if_pos hc, if_pos (within_later h hc), if_pos (within_later h hc)]
    omega
  · rw [if_neg hc]
    split <;> omega

/-! ### Lists that count no less than what was spent -/

/-- From `now` on, the kept charges count no less than what was spent. -/
def Covers (period now : ℕ) (kept spent : List Charge) : Prop :=
  ∀ t, now ≤ t → sum period t spent ≤ sum period t kept

/-- Nothing covers nothing. -/
theorem Covers.nil : Covers period now [] [] := fun _ _ => le_rfl

/-- What covers now covers later. -/
theorem Covers.later {now' : ℕ} (h : Covers period now kept spent) (hle : now ≤ now') :
    Covers period now' kept spent := fun t ht => h t (hle.trans ht)

/-- What counts no less covers too. -/
theorem Covers.weaken {kept' : List Charge} (h : Covers period now kept spent)
    (hle : ∀ t, now ≤ t → sum period t kept ≤ sum period t kept') :
    Covers period now kept' spent := fun t ht => (h t ht).trans (hle t ht)

/-- A charge that is kept. -/
theorem Covers.charge (h : Covers period now kept spent) (c : Charge) :
    Covers period now (kept ++ [c]) (spent ++ [c]) := by
  intro t ht
  rw [sum_append, sum_append]
  have := h t ht
  omega

/-! ### The bound -/

/-- The charges of two lists. -/
theorem held_append (start : ℕ) (cs ds : List Charge) :
    held period start (cs ++ ds) = held period start cs + held period start ds := by
  simp [held, List.filter_append]

/-- What a window holds of the past is in the window that ends now. -/
theorem held_le_sum {start : ℕ} (hstart : now < start + period) (cs : List Charge) :
    held period start cs ≤ sum period now cs := by
  unfold held sum
  refine List.Sublist.sum_le_sum (List.Sublist.map _ ?_) fun _ _ => Nat.zero_le _
  apply List.monotone_filter_right
  intro c hc
  simp only [decide_eq_true_eq] at hc
  simp only [within, decide_eq_true_eq]
  omega

/-- A charge that fits in what the kept ones leave keeps every window within the limit. -/
theorem Covers.bounded {limit amount : ℕ} (h : Covers period now kept spent)
    (hold : ∀ start, held period start spent ≤ limit)
    (hfit : sum period now kept + amount ≤ limit) (start : ℕ) :
    held period start (spent ++ [⟨now, amount⟩]) ≤ limit := by
  rw [held_append]
  by_cases hin : start ≤ now ∧ now < start + period
  · have hpast := (held_le_sum hin.2 spent).trans (h now le_rfl)
    have hnew : held period start [⟨now, amount⟩] = amount := by
      simp [held, hin]
    omega
  · have hnew : held period start [⟨now, amount⟩] = 0 := by
      simp only [held, List.filter_cons, hin, decide_false, Bool.false_eq_true, if_false,
        List.filter_nil, List.map_nil, List.sum_nil]
    rw [hnew]
    exact hold start

/-- The kept charges cover what was spent and fit in the limit themselves, and no window holds more
than the limit. -/
structure Enforced (period limit now : ℕ) (kept spent : List Charge) : Prop where
  covers : Covers period now kept spent
  fits : sum period now kept ≤ limit
  bounded : ∀ start, held period start spent ≤ limit

namespace Enforced

variable {limit : ℕ}

/-- Nothing was spent. -/
theorem nil : Enforced period limit now [] [] := by
  exact ⟨Covers.nil, Nat.zero_le _, fun _ => Nat.zero_le _⟩

/-- Time goes by. -/
theorem later {now' : ℕ} (h : Enforced period limit now kept spent) (hle : now ≤ now') :
    Enforced period limit now' kept spent :=
  ⟨h.covers.later hle, (sum_antitone hle kept).trans h.fits, h.bounded⟩

/-- The kept charges may be exchanged for others that count no less later and the same now. -/
theorem replace {kept' : List Charge} (h : Enforced period limit now kept spent)
    (hle : ∀ t, now ≤ t → sum period t kept ≤ sum period t kept')
    (hnow : sum period now kept' = sum period now kept) :
    Enforced period limit now kept' spent :=
  ⟨h.covers.weaken hle, hnow.trans_le h.fits, h.bounded⟩

/-- What has left the window may be forgotten. -/
theorem prune (h : Enforced period limit now kept spent) :
    Enforced period limit now (kept.filter fun c => within c.time now period) spent :=
  h.replace (fun _ ht => (sum_filter_within ht kept).ge) (sum_filter_within le_rfl kept)

/-- A charge that fits. -/
theorem charge {amount : ℕ} (h : Enforced period limit now kept spent)
    (hfit : sum period now kept + amount ≤ limit) :
    Enforced period limit now (kept ++ [⟨now, amount⟩]) (spent ++ [⟨now, amount⟩]) := by
  refine ⟨h.covers.charge _, ?_, h.covers.bounded h.bounded hfit⟩
  have hone : sum period now [⟨now, amount⟩] ≤ amount := by
    rw [sum_cons, sum_nil, Nat.add_zero]
    split
    · exact le_rfl
    · exact Nat.zero_le _
  rw [sum_append]
  omega

/-- Spending nothing keeps what is kept. -/
theorem charge_zero (h : Enforced period limit now kept spent) :
    Enforced period limit now kept (spent ++ [⟨now, 0⟩]) := by
  refine ⟨fun t ht => ?_, h.fits, h.covers.bounded h.bounded h.fits⟩
  have hnone : sum period t [⟨now, 0⟩] = 0 := by
    rw [sum_cons, sum_nil]
    split <;> rfl
  rw [sum_append, hnone]
  exact h.covers t ht

end Enforced

/-- A window of no length holds nothing. -/
theorem held_zero (start : ℕ) (cs : List Charge) : held 0 start cs = 0 := by
  have hnone : (cs.filter fun c => start ≤ c.time ∧ c.time < start + 0) = [] := by
    apply List.filter_eq_nil_iff.2
    intro c _
    simp only [decide_eq_true_eq]
    omega
  rw [held, hnone]
  rfl

end Window

end SeqLN.Lib
