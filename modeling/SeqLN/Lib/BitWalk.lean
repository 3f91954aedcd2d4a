import Mathlib

/-!
# Walks along the bits of a number

A number below `2 ^ n` names a leaf of a binary tree of height `n`, and its set bits, the highest
first, the turns on the way there. `bitWalk` takes a step at each turn. The walk to `x + r`, where
`r` is below the lowest set bit of `x`, is the walk to `x` and then the one to `r`
(`bitWalk_add`); and `x + r` differs from `x` in just the bits of `r` (`xor_add_of_lt`).
-/

namespace SeqLN.Lib

variable {α : Type} (step : ℕ → α → α)

/-- A step at each set bit of `r` below `n`, the highest first. -/
def bitWalk : ℕ → ℕ → α → α
  | 0, _, a => a
  | n + 1, r, a => bitWalk n r (if r.testBit n then step n a else a)

/-- The walk looks at the bits below its height only. -/
theorem bitWalk_congr {n r r' : ℕ} (h : ∀ i < n, r.testBit i = r'.testBit i) (a : α) :
    bitWalk step n r a = bitWalk step n r' a := by
  induction n generalizing a with
  | zero => rfl
  | succ n ih =>
    rw [bitWalk, bitWalk, h n (Nat.lt_succ_self n)]
    exact ih (fun i hi => h i (hi.trans (Nat.lt_succ_self n))) _

/-- Bits that are clear are no turns. -/
theorem bitWalk_of_lt {n m r : ℕ} (hr : r < 2 ^ n) (hm : n ≤ m) (a : α) :
    bitWalk step m r a = bitWalk step n r a := by
  induction m, hm using Nat.le_induction with
  | base => rfl
  | succ m hm ih =>
    have hclear : r.testBit m = false :=
      Nat.testBit_lt_two_pow (hr.trans_le (Nat.pow_le_pow_right Nat.two_pos hm))
    rw [bitWalk, hclear]
    exact ih

/-- No turns. -/
theorem bitWalk_zero (n : ℕ) (a : α) : bitWalk step n 0 a = a :=
  bitWalk_of_lt step (n := 0) Nat.one_pos (Nat.zero_le n) a

/-- The way to `x + r` goes through `x`. -/
theorem bitWalk_add {p m x r : ℕ} (hx : 2 ^ p ∣ x) (hr : r < 2 ^ p) (hp : p ≤ m) (a : α) :
    bitWalk step m (x + r) a = bitWalk step p r (bitWalk step m x a) := by
  obtain ⟨q, rfl⟩ := hx
  induction m, hp using Nat.le_induction generalizing a with
  | base =>
    have hlow : bitWalk step p (2 ^ p * q) a = a := by
      refine (bitWalk_congr step ?_ a).trans (bitWalk_zero step p a)
      intro i hi
      simp [Nat.testBit_two_pow_mul, Nat.not_le.2 hi]
    rw [hlow]
    apply bitWalk_congr
    intro i hi
    rw [Nat.testBit_two_pow_mul_add q hr, if_pos hi]
  | succ m hm ih =>
    have hhigh : (2 ^ p * q + r).testBit m = (2 ^ p * q).testBit m := by
      rw [Nat.testBit_two_pow_mul_add q hr, if_neg (Nat.not_lt.2 hm), Nat.testBit_two_pow_mul]
      simp [hm]
    rw [bitWalk, bitWalk, hhigh]
    exact ih _

/-- Below the lowest set bit, adding is setting bits. -/
theorem xor_add_of_lt {p x r : ℕ} (hx : 2 ^ p ∣ x) (hr : r < 2 ^ p) : x ^^^ (x + r) = r := by
  obtain ⟨q, rfl⟩ := hx
  apply Nat.eq_of_testBit_eq
  intro i
  rw [Nat.testBit_xor, Nat.testBit_two_pow_mul_add q hr, Nat.testBit_two_pow_mul]
  by_cases hi : i < p
  · simp [hi, Nat.not_le.2 hi]
  · have hclear : r.testBit i = false :=
      Nat.testBit_lt_two_pow (hr.trans_le (Nat.pow_le_pow_right Nat.two_pos (Nat.not_lt.1 hi)))
    simp [hi, Nat.not_lt.1 hi, hclear]

end SeqLN.Lib
