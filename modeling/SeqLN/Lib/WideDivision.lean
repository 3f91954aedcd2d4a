import Mathlib

/-!
# Wide products and their division, by words and by bits

`wideHi_mul_add_wideLo`: a product of two numbers of two halves each, from four partial products, is
its high and its low word. `divLoop_eq`: restoring division, which takes the low word of the dividend a
bit at a time from its top, gives the quotient and the remainder.
-/

namespace SeqLN.WideDivision

/-! ### The product -/

section product

variable (B a b : ℕ)

/-- The middle column: what the low product carries, and the low halves of the two cross products. -/
def mid : ℕ := (a % B) * (b % B) / B + (a % B) * (b / B) % B + (a / B) * (b % B) % B

/-- The low word of the product. -/
def wideLo : ℕ := (a % B) * (b % B) % B + mid B a b % B * B

/-- The high word of the product. -/
def wideHi : ℕ := (a / B) * (b / B) + (a % B) * (b / B) / B + (a / B) * (b % B) / B + mid B a b / B

variable {B}

/-- The low word is a word. -/
theorem wideLo_lt (hB : 0 < B) : wideLo B a b < B * B := by
  have hlow := Nat.mod_lt ((a % B) * (b % B)) hB
  have hmid : (mid B a b % B + 1) * B ≤ B * B := Nat.mul_le_mul_right B (Nat.mod_lt _ hB)
  rw [Nat.add_mul, Nat.one_mul] at hmid
  unfold wideLo
  omega

/-- The two words are the product. -/
theorem wideHi_mul_add_wideLo : wideHi B a b * (B * B) + wideLo B a b = a * b := by
  have ha := Nat.div_add_mod a B
  have hb := Nat.div_add_mod b B
  have hll := Nat.div_add_mod ((a % B) * (b % B)) B
  have hlh := Nat.div_add_mod ((a % B) * (b / B)) B
  have hhl := Nat.div_add_mod ((a / B) * (b % B)) B
  have hmid := Nat.div_add_mod (mid B a b) B
  -- the columns, each with what it carries
  calc wideHi B a b * (B * B) + wideLo B a b
      = (a / B) * (b / B) * (B * B) +
          ((a % B) * (b / B) / B + (a / B) * (b % B) / B) * (B * B) +
          (B * (mid B a b / B) + mid B a b % B) * B + (a % B) * (b % B) % B := by
        unfold wideHi wideLo
        ring
    _ = (a / B) * (b / B) * (B * B) +
          (B * ((a % B) * (b / B) / B) + (a % B) * (b / B) % B) * B +
          (B * ((a / B) * (b % B) / B) + (a / B) * (b % B) % B) * B +
          (B * ((a % B) * (b % B) / B) + (a % B) * (b % B) % B) := by
        rw [hmid, mid]
        ring
    _ = (B * (a / B) + a % B) * (B * (b / B) + b % B) := by
        rw [hll, hlh, hhl]
        ring
    _ = a * b := by rw [ha, hb]

end product

/-! ### The division -/

/-- The quotient so far, at its final place, and the remainder. -/
structure DivState where
  q : ℕ
  r : ℕ
  deriving DecidableEq

/-- One bit of the dividend is brought down, and the divisor taken off where it goes. -/
def divStep (lo div i : ℕ) (s : DivState) : DivState :=
  if div ≤ 2 * s.r + lo / 2 ^ i % 2 then ⟨s.q + 2 ^ i, 2 * s.r + lo / 2 ^ i % 2 - div⟩
  else ⟨s.q, 2 * s.r + lo / 2 ^ i % 2⟩

/-- The bits below `n`, from the top. -/
def divLoop (lo div : ℕ) : ℕ → DivState → DivState
  | 0, s => s
  | i + 1, s => divLoop lo div i (divStep lo div i s)

/-- The dividend is what was taken off, what remains, and the bits to come; the quotient so far has
no bits at the places to come. -/
structure DivInv (dividend lo div i : ℕ) (s : DivState) : Prop where
  eq : dividend = s.q * div + s.r * 2 ^ i + lo % 2 ^ i
  lt : s.r < div
  dvd : 2 ^ i ∣ s.q

section division

variable {dividend lo div i n : ℕ} {s : DivState}

/-- One bit keeps the invariant. -/
theorem DivInv.step (h : DivInv dividend lo div (i + 1) s) :
    DivInv dividend lo div i (divStep lo div i s) := by
  have hbits : lo % 2 ^ (i + 1) = lo % 2 ^ i + 2 ^ i * (lo / 2 ^ i % 2) := Nat.mod_pow_succ
  have heq := h.eq
  have hbit : lo / 2 ^ i % 2 < 2 := Nat.mod_lt _ (by decide)
  have hlt := h.lt
  have hdvd : 2 ^ i ∣ s.q := (Nat.pow_dvd_pow 2 (Nat.le_succ i)).trans h.dvd
  have hdown : dividend = s.q * div + (2 * s.r + lo / 2 ^ i % 2) * 2 ^ i + lo % 2 ^ i := by
    rw [heq, hbits, pow_succ]
    ring
  unfold divStep
  split
  · next hle =>
    refine ⟨?_, by simp only; omega, hdvd.add (dvd_refl _)⟩
    calc dividend
        = s.q * div + (div + (2 * s.r + lo / 2 ^ i % 2 - div)) * 2 ^ i + lo % 2 ^ i := by
          rw [Nat.add_sub_cancel' hle]
          exact hdown
      _ = (s.q + 2 ^ i) * div + (2 * s.r + lo / 2 ^ i % 2 - div) * 2 ^ i + lo % 2 ^ i := by ring
  · next hgt => exact ⟨hdown, not_le.1 hgt, hdvd⟩

/-- All bits keep it. -/
theorem DivInv.loop (h : DivInv dividend lo div n s) :
    DivInv dividend lo div 0 (divLoop lo div n s) := by
  induction n generalizing s with
  | zero => exact h
  | succ i ih => exact ih h.step

/-- It holds at the start. -/
theorem divInv_init {hi : ℕ} (hhi : hi < div) :
    DivInv (hi * 2 ^ n + lo % 2 ^ n) lo div n ⟨0, hi⟩ where
  eq := by rw [Nat.zero_mul, Nat.zero_add]
  lt := hhi
  dvd := dvd_zero _

/-- Restoring division is division. -/
theorem divLoop_eq {hi : ℕ} (hhi : hi < div) :
    (divLoop lo div n ⟨0, hi⟩).q = (hi * 2 ^ n + lo % 2 ^ n) / div := by
  have hend : DivInv (hi * 2 ^ n + lo % 2 ^ n) lo div 0 (divLoop lo div n ⟨0, hi⟩) :=
    (divInv_init hhi).loop
  have heq := hend.eq
  rw [pow_zero, Nat.mul_one, Nat.mod_one, Nat.add_zero] at heq
  rw [heq, Nat.mul_comm, Nat.mul_add_div (Nat.zero_lt_of_lt hhi), Nat.div_eq_of_lt hend.lt,
    Nat.add_zero]

end division

end SeqLN.WideDivision
