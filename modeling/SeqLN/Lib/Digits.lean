import SeqLN.Lib.Bytes

/-!
# Numbers written in digits

* `digitsVal b l` — the number that digits in a base stand for, most significant first.
* `decimal n` — the decimal numeral of a number in ASCII, `decimalVal` its reading, and
  `decimalVal_decimal` the round trip.
-/

namespace SeqLN

open List

/-! ### Digits -/

/-- The number of digits in base `b`, most significant first. -/
def digitsVal (b : ℕ) (l : List ℕ) : ℕ := l.foldl (fun a d => a * b + d) 0

/-- No digits. -/
@[simp] theorem digitsVal_nil (b : ℕ) : digitsVal b [] = 0 := rfl

/-- One digit more. -/
theorem digitsVal_append_singleton (b : ℕ) (l : List ℕ) (d : ℕ) :
    digitsVal b (l ++ [d]) = digitsVal b l * b + d := by
  simp [digitsVal]

/-- The value is Mathlib's, which reads from the other end. -/
theorem digitsVal_eq_ofDigits (b : ℕ) (l : List ℕ) : digitsVal b l = Nat.ofDigits b l.reverse := by
  induction l using reverseRecOn with
  | nil => rfl
  | append_singleton l d ih =>
    rw [digitsVal_append_singleton, ih, reverse_append, reverse_singleton,
      singleton_append, Nat.ofDigits_cons]
    ring

/-- Digits followed by digits. -/
theorem digitsVal_append (b : ℕ) (l l' : List ℕ) :
    digitsVal b (l ++ l') = digitsVal b l * b ^ l'.length + digitsVal b l' := by
  rw [digitsVal_eq_ofDigits, digitsVal_eq_ofDigits, digitsVal_eq_ofDigits, reverse_append,
    Nat.ofDigits_append, length_reverse]
  ring

/-! ### Decimal numerals -/

/-- An ASCII digit. -/
def isAsciiDigit (b : UInt8) : Bool := 48 ≤ b && b ≤ 57

/-- The number of a decimal numeral. -/
def decimalVal (l : Bytes) : ℕ := digitsVal 10 (l.map fun b => b.toNat - 48)

/-- A numeral followed by a numeral. -/
theorem decimalVal_append (l l' : Bytes) :
    decimalVal (l ++ l') = decimalVal l * 10 ^ l'.length + decimalVal l' := by
  rw [decimalVal, map_append, digitsVal_append, length_map]
  rfl

/-- Zeros stand for zero. -/
theorem decimalVal_replicate_zero (n : ℕ) : decimalVal (replicate n 48) = 0 := by
  induction n with
  | zero => rfl
  | succ n ih =>
    rw [replicate_succ', decimalVal_append, ih]
    rfl

/-- The decimal numeral of a number, without leading zeros. -/
def decimal (n : ℕ) : Bytes := (Nat.toDigits 10 n).map fun c => UInt8.ofNat c.toNat

/-- The length of a numeral bounds the number. -/
theorem length_decimal_le_iff {n k : ℕ} (hk : 0 < k) : (decimal n).length ≤ k ↔ n < 10 ^ k := by
  rw [decimal, length_map]
  exact Nat.length_toDigits_le_iff (by decide) hk

/-- A numeral has a digit. -/
theorem decimal_ne_nil (n : ℕ) : decimal n ≠ [] := by
  simp [decimal, Nat.toDigits_ne_nil]

/-- The characters of a numeral are those of its digits. -/
theorem digit_toNat {n : ℕ} {c : Char} (h : c ∈ Nat.toDigits 10 n) :
    48 ≤ c.toNat ∧ c.toNat ≤ 57 := by
  have hdigit := Nat.isDigit_of_mem_toDigits (by decide) (by decide) h
  simp only [Char.isDigit, Bool.and_eq_true, decide_eq_true_eq, ge_iff_le, UInt32.le_iff_toNat_le]
    at hdigit
  exact hdigit

/-- A numeral is made of digits. -/
theorem isAsciiDigit_of_mem_decimal {n : ℕ} {b : UInt8} (h : b ∈ decimal n) : isAsciiDigit b = true := by
  obtain ⟨c, hc, rfl⟩ := mem_map.1 h
  have hdigit := digit_toNat hc
  simp only [isAsciiDigit, Bool.and_eq_true, decide_eq_true_eq, UInt8.le_iff_toNat_le,
    UInt8.toNat_ofNat']
  have hmod : c.toNat % 2 ^ 8 = c.toNat := Nat.mod_eq_of_lt (by omega)
  rw [hmod]
  exact hdigit

/-- A numeral is read back. -/
theorem decimalVal_decimal (n : ℕ) : decimalVal (decimal n) = n := by
  have hread := Nat.ofDigitChars_ten_toDigits (n := n)
  rw [Nat.ofDigitChars_eq_foldl] at hread
  have hmap : ((decimal n).map fun b => b.toNat - 48) =
      (Nat.toDigits 10 n).map fun c => c.toNat - 48 := by
    rw [decimal, map_map]
    refine map_congr_left fun c hc => ?_
    have hmod : c.toNat % 2 ^ 8 = c.toNat := Nat.mod_eq_of_lt (by have := digit_toNat hc; omega)
    simp only [Function.comp_apply, UInt8.toNat_ofNat', hmod]
  conv_rhs => rw [← hread]
  rw [decimalVal, hmap, digitsVal, foldl_map]
  simp only [Nat.mul_comm 10]
  rfl

end SeqLN
