import Mathlib

/-!
# Sides and amounts

The two ends of a channel as one of them sees it, and the checked arithmetic of `common/amount.c` on
unsigned 64-bit words. Millisatoshi and satoshi amounts are both natural numbers; the names say which
is meant.
-/

namespace SeqLN

/-- The two ends of a channel.
Source: `common/htlc.h`, `enum side` -/
inductive Side where
  | LOCAL
  | REMOTE
  deriving DecidableEq, Repr

namespace Side

instance : Fintype Side := ⟨{LOCAL, REMOTE}, fun s => by cases s <;> simp⟩

/-- The other side. -/
def other : Side → Side
  | LOCAL => REMOTE
  | REMOTE => LOCAL

/-- The other side of the local one. -/
@[simp] theorem other_LOCAL : other LOCAL = REMOTE := rfl

/-- The other side of the remote one. -/
@[simp] theorem other_REMOTE : other REMOTE = LOCAL := rfl

/-- The other side of the other side. -/
@[simp] theorem other_other (s : Side) : s.other.other = s := by cases s <;> rfl

/-- A side is not its other side. -/
@[simp] theorem other_ne (s : Side) : s.other ≠ s := by cases s <;> decide

/-- A side is not its other side. -/
@[simp] theorem ne_other (s : Side) : s ≠ s.other := by cases s <;> decide

/-- There are two sides. -/
theorem eq_or_eq_other (s t : Side) : s = t ∨ s = t.other := by
  cases s <;> cases t <;> simp

/-- Sides are told apart by their other sides. -/
theorem other_inj {s t : Side} : s.other = t.other ↔ s = t := by
  cases s <;> cases t <;> simp

end Side

/-- A sum of two amounts, where it fits.
Source: `amount_sat_add`, `amount_msat_add`, `amount_msat_accumulate` -/
def amountAdd (a b : ℕ) : Option ℕ := if a + b < 2 ^ 64 then some (a + b) else none

/-- A difference of two amounts, where it is not negative.
Source: `amount_sat_sub`, `amount_msat_sub` -/
def amountSub (a b : ℕ) : Option ℕ := if b ≤ a then some (a - b) else none

/-- The whole satoshis of a millisatoshi amount.
Source: `amount_msat_to_sat_round_down` -/
def satRoundDown (msat : ℕ) : ℕ := msat / 1000

/-- A sum that fits. -/
theorem amountAdd_of_lt {a b : ℕ} (h : a + b < 2 ^ 64) : amountAdd a b = some (a + b) := if_pos h

/-- A sum that does not fit. -/
theorem amountAdd_of_not_lt {a b : ℕ} (h : ¬ a + b < 2 ^ 64) : amountAdd a b = none := if_neg h

/-- A difference that is not negative. -/
theorem amountSub_of_le {a b : ℕ} (h : b ≤ a) : amountSub a b = some (a - b) := if_pos h

/-- A difference below zero. -/
theorem amountSub_of_not_le {a b : ℕ} (h : ¬ b ≤ a) : amountSub a b = none := if_neg h

/-- What a sum that was given says. -/
theorem amountAdd_eq_some {a b c : ℕ} :
    amountAdd a b = some c ↔ a + b < 2 ^ 64 ∧ c = a + b := by
  unfold amountAdd
  split
  · next h => exact ⟨fun hc => ⟨h, (Option.some.inj hc).symm⟩, fun hc => hc.2 ▸ rfl⟩
  · next h => exact ⟨fun hc => absurd hc (by simp), fun hc => absurd hc.1 h⟩

/-- What a difference that was given says. -/
theorem amountSub_eq_some {a b c : ℕ} : amountSub a b = some c ↔ b ≤ a ∧ c = a - b := by
  unfold amountSub
  split
  · next h => exact ⟨fun hc => ⟨h, (Option.some.inj hc).symm⟩, fun hc => hc.2 ▸ rfl⟩
  · next h => exact ⟨fun hc => absurd hc (by simp), fun hc => absurd hc.1 h⟩

/-- A guard that was passed. -/
theorem guard_eq_some {p : Prop} [Decidable p] {u : Unit} :
    (guard p : Option Unit) = some u ↔ p := by
  by_cases h : p <;> simp [guard, h]

end SeqLN
