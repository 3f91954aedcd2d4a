import SeqLN.Lib.Digits

/-!
# Decimal numbers in a context of limited precision

The arithmetic of Python's `decimal`: a finite decimal is a coefficient and an exponent, and a context
has a precision and bounds for the exponent. `Context.normalize` rounds into the context, half to even,
and strips trailing zeros (`normalize_exact_iff`: when that is exact); `formatFixed` writes without an
exponent, and `Reader.valueOf_formatFixed` reads it back.
-/

namespace SeqLN

open List

/-- A finite decimal. -/
structure Dec where
  negative : Bool
  coefficient : ℕ
  exponent : ℤ
  deriving DecidableEq

namespace Dec

/-- The number without its sign. -/
def magnitude (d : Dec) : ℚ := d.coefficient * 10 ^ d.exponent

def value (d : Dec) : ℚ := if d.negative then -d.magnitude else d.magnitude

/-- A zero is one by its coefficient. -/
theorem magnitude_eq_zero_iff {d : Dec} : d.magnitude = 0 ↔ d.coefficient = 0 := by
  have hten : (10 : ℚ) ^ d.exponent ≠ 0 := zpow_ne_zero _ (by norm_num)
  unfold magnitude
  rw [mul_eq_zero, or_iff_left hten, Nat.cast_eq_zero]

/-- Numbers of one sign are told apart by their magnitudes. -/
theorem value_eq_iff {d d' : Dec} (h : d.negative = d'.negative) :
    d.value = d'.value ↔ d.magnitude = d'.magnitude := by
  unfold value
  rw [h]
  split
  · exact neg_inj
  · exact Iff.rfl

end Dec

/-! ### Contexts -/

/-- The precision of a context, and the bounds of the exponents of its numbers. -/
structure DecimalContext where
  prec : ℕ
  emin : ℤ
  emax : ℤ
  prec_pos : 0 < prec

namespace DecimalContext

variable (ctx : DecimalContext)

/-- The least exponent of a coefficient. -/
def etiny : ℤ := ctx.emin - ctx.prec + 1

/-- The greatest exponent of a coefficient with all its digits. -/
def etop : ℤ := ctx.emax - ctx.prec + 1

end DecimalContext

/-- The digits of a coefficient. -/
def numDigits (c : ℕ) : ℕ := (decimal c).length

/-- A quotient rounded to the nearest, half to even. -/
def divHalfEven (c p : ℕ) : ℕ :=
  if 2 * (c % p) < p then c / p
  else if p < 2 * (c % p) then c / p + 1
  else if c / p % 2 = 0 then c / p
  else c / p + 1

namespace DecimalContext

variable (ctx : DecimalContext)

/-- The exponent that a number is rounded to: that of the last digit within the precision, or the
least one. -/
def expMin (d : Dec) : ℤ := max (numDigits d.coefficient + d.exponent - ctx.prec) ctx.etiny

/-- A rounded coefficient and its exponent; one that rounding up has given another digit drops its last,
a zero. -/
def carryDigit (coeff : ℕ) (e : ℤ) : ℕ × ℤ :=
  if ctx.prec < numDigits coeff then (coeff / 10, e + 1) else (coeff, e)

/-- A nonzero number rounded into the context; `none` is the overflow. -/
def fix (d : Dec) : Option Dec :=
  if ctx.etop < numDigits d.coefficient + d.exponent - ctx.prec then none
  else if d.exponent < ctx.expMin d then
    let rounded := ctx.carryDigit
      (divHalfEven d.coefficient (10 ^ (ctx.expMin d - d.exponent).toNat)) (ctx.expMin d)
    if ctx.etop < rounded.2 then none else some ⟨d.negative, rounded.1, rounded.2⟩
  else some d

/-- Trailing zeros are taken off, as far as the exponent may grow. -/
def stripZeros : ℕ → Dec → Dec
  | 0, d => d
  | fuel + 1, d =>
    if d.coefficient % 10 = 0 ∧ d.exponent < ctx.emax then
      stripZeros fuel ⟨d.negative, d.coefficient / 10, d.exponent + 1⟩
    else d

/-- A number rounded into the context, without trailing zeros; `none` is the overflow. -/
def normalize (d : Dec) : Option Dec :=
  if d.coefficient = 0 then some ⟨d.negative, 0, 0⟩
  else (ctx.fix d).map fun f =>
    if f.coefficient = 0 then ⟨f.negative, 0, 0⟩ else ctx.stripZeros (numDigits f.coefficient) f

/-- The number is one of the context: a coefficient within the precision at an exponent that is not below the
least. -/
def Keeps (d : Dec) : Prop :=
  ∃ (c : ℕ) (e : ℤ), d.magnitude = c * 10 ^ e ∧ c < 10 ^ ctx.prec ∧ ctx.etiny ≤ e

end DecimalContext

/-! ### Rounding -/

/-- The digits of a coefficient bound it. -/
theorem numDigits_le_iff {c k : ℕ} (hk : 0 < k) : numDigits c ≤ k ↔ c < 10 ^ k :=
  length_decimal_le_iff hk

/-- Zero has a digit too. -/
theorem numDigits_pos (c : ℕ) : 0 < numDigits c := length_pos_of_ne_nil (decimal_ne_nil c)

/-- A coefficient is below the power of its digits. -/
theorem lt_pow_numDigits (c : ℕ) : c < 10 ^ numDigits c := (numDigits_le_iff (numDigits_pos c)).1 le_rfl

/-- A coefficient has no leading zero. -/
theorem pow_pred_numDigits_le {c : ℕ} (hc : c ≠ 0) : 10 ^ (numDigits c - 1) ≤ c := by
  by_contra hlt
  rcases Nat.eq_zero_or_pos (numDigits c - 1) with hzero | hpos
  · rw [hzero, pow_zero] at hlt
    omega
  · have hle := (numDigits_le_iff hpos).2 (not_le.1 hlt)
    have := numDigits_pos c
    omega

/-- Rounding adds at most one. -/
theorem divHalfEven_le (c p : ℕ) : divHalfEven c p ≤ c / p + 1 := by
  unfold divHalfEven
  split_ifs <;> omega

/-- Rounding is exact exactly where there is nothing to round. -/
theorem divHalfEven_mul_eq_iff {c p : ℕ} (hp : 0 < p) : divHalfEven c p * p = c ↔ p ∣ c := by
  constructor
  · intro h
    exact ⟨divHalfEven c p, by rw [Nat.mul_comm]; exact h.symm⟩
  · rintro ⟨k, rfl⟩
    have hmod : p * k % p = 0 := Nat.mul_mod_right p k
    have hdiv : p * k / p = k := Nat.mul_div_cancel_left k hp
    unfold divHalfEven
    rw [hmod, hdiv, if_pos (by omega), Nat.mul_comm]

namespace DecimalContext

variable {ctx : DecimalContext} {d f : Dec}

/-- The number of a coefficient moved to a lower exponent. -/
theorem mul_zpow_of_le {c : ℕ} {e m : ℤ} (h : e ≤ m) :
    (c : ℚ) * 10 ^ m = ((c * 10 ^ (m - e).toNat : ℕ) : ℚ) * 10 ^ e := by
  have hsplit : (10 : ℚ) ^ m = 10 ^ (m - e).toNat * 10 ^ e := by
    rw [← zpow_natCast, ← zpow_add₀ (by norm_num), Int.toNat_of_nonneg (by omega)]
    congr 1
    omega
  rw [hsplit]
  push_cast
  ring

/-- A carried coefficient is a power of ten: the number is the same, and within the precision. -/
theorem carryDigit_spec {coeff : ℕ} {e : ℤ} (h : coeff ≤ 10 ^ ctx.prec) :
    ((ctx.carryDigit coeff e).1 : ℚ) * 10 ^ (ctx.carryDigit coeff e).2 = coeff * 10 ^ e ∧
      (ctx.carryDigit coeff e).1 < 10 ^ ctx.prec ∧ e ≤ (ctx.carryDigit coeff e).2 := by
  unfold carryDigit
  split
  · next hlt =>
    have hge : 10 ^ ctx.prec ≤ coeff := by
      rw [← not_lt, ← numDigits_le_iff ctx.prec_pos]
      exact not_le.2 hlt
    obtain rfl := le_antisymm h hge
    obtain ⟨k, hk⟩ : ∃ k, ctx.prec = k + 1 := ⟨ctx.prec - 1, (Nat.succ_pred_eq_of_pos ctx.prec_pos).symm⟩
    have hdiv : 10 ^ ctx.prec / 10 = 10 ^ k := by
      rw [hk, pow_succ, Nat.mul_div_cancel _ (by decide)]
    refine ⟨?_, ?_, by simp only; omega⟩
    · simp only [hdiv]
      rw [zpow_add_one₀ (by norm_num), hk]
      push_cast
      ring
    · simp only [hdiv]
      rw [hk]
      exact Nat.pow_lt_pow_right (by decide) (Nat.lt_succ_self k)
  · next hle => exact ⟨rfl, (numDigits_le_iff ctx.prec_pos).1 (not_lt.1 hle), le_rfl⟩

/-- The rounded coefficient is at most the least that does not fit. -/
theorem divHalfEven_le_pow (ctx : DecimalContext) (d : Dec) :
    divHalfEven d.coefficient (10 ^ (ctx.expMin d - d.exponent).toNat) ≤ 10 ^ ctx.prec := by
  have hmin : (numDigits d.coefficient : ℤ) + d.exponent - ctx.prec ≤ ctx.expMin d := le_max_left _ _
  have hquot : d.coefficient / 10 ^ (ctx.expMin d - d.exponent).toNat < 10 ^ ctx.prec := by
    rw [Nat.div_lt_iff_lt_mul (Nat.pow_pos (by decide)), ← pow_add]
    exact lt_of_lt_of_le (lt_pow_numDigits _) (Nat.pow_le_pow_right (by decide) (by omega))
  exact le_trans (divHalfEven_le _ _) hquot

/-- What the context rounds to is a number of it, and it is the same number exactly where the power of ten
divides. -/
theorem fix_spec (h : ctx.fix d = some f) :
    f.negative = d.negative ∧ f.coefficient < 10 ^ ctx.prec ∧ ctx.etiny ≤ f.exponent ∧
      (f.magnitude = d.magnitude ↔
        (d.exponent < ctx.expMin d → 10 ^ (ctx.expMin d - d.exponent).toNat ∣ d.coefficient)) := by
  have htiny : ctx.etiny ≤ ctx.expMin d := le_max_right _ _
  unfold fix at h
  split at h
  · cases h
  · split at h
    · next hround =>
      obtain ⟨hvalue, hfits, hexp⟩ :=
        carryDigit_spec (e := ctx.expMin d) (divHalfEven_le_pow ctx d)
      simp only at h
      split at h
      · cases h
      · obtain rfl := Option.some.inj h
        refine ⟨rfl, hfits, le_trans htiny hexp, ?_⟩
        have hmag : Dec.magnitude ⟨d.negative, _, _⟩ = _ := hvalue
        rw [hmag, mul_zpow_of_le hround.le, Dec.magnitude,
          mul_left_inj' (zpow_ne_zero _ (by norm_num : (10 : ℚ) ≠ 0)), Nat.cast_inj,
          divHalfEven_mul_eq_iff (Nat.pow_pos (by decide))]
        exact ⟨fun hdvd _ => hdvd, fun hdvd => hdvd hround⟩
    · next hkeep =>
      obtain rfl := Option.some.inj h
      have hmin : (numDigits d.coefficient : ℤ) + d.exponent - ctx.prec ≤ ctx.expMin d := le_max_left _ _
      exact ⟨rfl, (numDigits_le_iff ctx.prec_pos).1 (by omega), le_trans htiny (not_lt.1 hkeep),
        iff_of_true rfl fun hlt => absurd hlt hkeep⟩

/-- A number of the context is a multiple of the power of ten it is rounded to. -/
theorem dvd_of_keeps (hd : d.coefficient ≠ 0) (hkeeps : ctx.Keeps d) (hlt : d.exponent < ctx.expMin d) :
    10 ^ (ctx.expMin d - d.exponent).toNat ∣ d.coefficient := by
  obtain ⟨c, e, hmag, hc, he⟩ := hkeeps
  have hten : (1 : ℚ) < 10 := by norm_num
  -- its leading digit is at most that of the coefficient of the context
  have hlead : (numDigits d.coefficient : ℤ) + d.exponent - ctx.prec ≤ e := by
    have hlow : (10 : ℚ) ^ ((numDigits d.coefficient : ℤ) - 1 + d.exponent) ≤ d.magnitude := by
      have hpow : ((10 ^ (numDigits d.coefficient - 1) : ℕ) : ℚ) ≤ d.coefficient :=
        Nat.cast_le.2 (pow_pred_numDigits_le hd)
      have hdigits := numDigits_pos d.coefficient
      rw [zpow_add₀ (by norm_num), show (numDigits d.coefficient : ℤ) - 1 =
        ((numDigits d.coefficient - 1 : ℕ) : ℤ) by omega, zpow_natCast]
      push_cast at hpow
      exact mul_le_mul_of_nonneg_right hpow (zpow_nonneg (by norm_num) _)
    have hhigh : d.magnitude < (10 : ℚ) ^ ((ctx.prec : ℤ) + e) := by
      rw [hmag, zpow_add₀ (by norm_num), zpow_natCast]
      exact mul_lt_mul_of_pos_right (by exact_mod_cast hc) (zpow_pos (by norm_num) _)
    have hexp := (zpow_lt_zpow_iff_right₀ hten).1 (lt_of_le_of_lt hlow hhigh)
    omega
  have hmin : ctx.expMin d ≤ e := max_le hlead he
  have hcoeff : d.coefficient = c * 10 ^ (e - d.exponent).toNat := by
    have hle : d.exponent ≤ e := le_trans hlt.le hmin
    rw [mul_zpow_of_le hle, Dec.magnitude,
      mul_left_inj' (zpow_ne_zero _ (by norm_num : (10 : ℚ) ≠ 0)), Nat.cast_inj] at hmag
    exact hmag
  rw [hcoeff]
  exact (Nat.pow_dvd_pow 10 (by omega)).trans (Dvd.intro_left c rfl)

/-- Taking zeros off changes neither the number nor the sign. -/
theorem magnitude_stripZeros (fuel : ℕ) (d : Dec) :
    (ctx.stripZeros fuel d).magnitude = d.magnitude ∧
      (ctx.stripZeros fuel d).negative = d.negative := by
  induction fuel generalizing d with
  | zero => exact ⟨rfl, rfl⟩
  | succ fuel ih =>
    unfold stripZeros
    split
    · next h =>
      obtain ⟨hmag, hneg⟩ := ih ⟨d.negative, d.coefficient / 10, d.exponent + 1⟩
      refine ⟨hmag.trans ?_, hneg⟩
      have hten : d.coefficient / 10 * 10 = d.coefficient := Nat.div_mul_cancel (Nat.dvd_of_mod_eq_zero h.1)
      unfold Dec.magnitude
      rw [zpow_add_one₀ (by norm_num), mul_comm ((10 : ℚ) ^ d.exponent), ← mul_assoc]
      congr 1
      exact_mod_cast hten
    · exact ⟨rfl, rfl⟩

/-- Normalizing keeps the sign, and the number exactly where it is one of the context. -/
theorem normalize_exact_iff {n : Dec} (h : ctx.normalize d = some n) :
    n.negative = d.negative ∧ (n.magnitude = d.magnitude ↔ ctx.Keeps d) := by
  unfold normalize at h
  split at h
  · next hzero =>
    obtain rfl := Option.some.inj h
    have hmag : d.magnitude = 0 := Dec.magnitude_eq_zero_iff.2 hzero
    refine ⟨rfl, iff_of_true ?_ ⟨0, ctx.etiny, by rw [hmag]; simp, Nat.pow_pos (by decide), le_rfl⟩⟩
    rw [hmag]
    exact Dec.magnitude_eq_zero_iff.2 rfl
  · next hne =>
    obtain ⟨f, hfix, hn⟩ := Option.map_eq_some_iff.1 h
    obtain ⟨hneg, hfits, hexp, hexact⟩ := fix_spec hfix
    -- stripping zeros does not change the number
    have hstrip : n.magnitude = f.magnitude ∧ n.negative = f.negative := by
      split at hn
      · next hzero =>
        subst hn
        exact ⟨(Dec.magnitude_eq_zero_iff.2 rfl).trans (Dec.magnitude_eq_zero_iff.2 hzero).symm, rfl⟩
      · subst hn
        exact magnitude_stripZeros _ f
    refine ⟨hstrip.2.trans hneg, ?_⟩
    rw [hstrip.1]
    constructor
    · intro heq
      exact ⟨f.coefficient, f.exponent, heq.symm, hfits, hexp⟩
    · intro hkeeps
      exact hexact.2 (dvd_of_keeps hne hkeeps)

end DecimalContext

/-! ### Decimals as text -/

/-- A numeral without an exponent. -/
def plainNumeral (negative : Bool) (intpart fracpart : Bytes) : Bytes :=
  (if negative then [45] else []) ++ intpart ++ (if fracpart = [] then [] else 46 :: fracpart)

/-- The digits before and after the point. -/
def fixedParts (d : Dec) : Bytes × Bytes :=
  let digits := decimal d.coefficient
  let dotplace := d.exponent + digits.length
  if dotplace < 0 then ([48], List.replicate (-dotplace).toNat 48 ++ digits)
  else if (digits.length : ℤ) < dotplace then
    (digits ++ List.replicate (dotplace - digits.length).toNat 48, [])
  else
    (if dotplace = 0 then [48] else digits.take dotplace.toNat, digits.drop dotplace.toNat)

/-- A decimal written out without an exponent; zero has no zeros before the point. -/
def formatFixed (d : Dec) : Bytes :=
  let parts := fixedParts (if d.coefficient = 0 ∧ 0 < d.exponent then ⟨d.negative, 0, 0⟩ else d)
  plainNumeral d.negative parts.1 parts.2

/-- A decimal, or an infinity or not a number. -/
inductive PyDecimal where
  | finite (d : Dec)
  | special
  deriving DecidableEq

/-- How decimals are read from text; `none` is a text that is none. Plain numerals are read as they
stand; what else a reader takes (exponents, blanks, other digits) is left open. -/
structure DecimalReader where
  read : Bytes → Option PyDecimal
  read_plain : ∀ negative intpart fracpart, intpart ≠ [] →
    (∀ b ∈ intpart ++ fracpart, isAsciiDigit b = true) →
      read (plainNumeral negative intpart fracpart) =
        some (.finite ⟨negative, decimalVal (intpart ++ fracpart), -(fracpart.length : ℤ)⟩)

/-- The number of a text. -/
def DecimalReader.valueOf (py : DecimalReader) (text : Bytes) : Option ℚ :=
  match py.read text with
  | some (.finite d) => some d.value
  | _ => none

/-- The digits before and after the point are digits, some before it, and they stand for the number. -/
theorem fixedParts_spec (d : Dec) :
    (fixedParts d).1 ≠ [] ∧
      (∀ b ∈ (fixedParts d).1 ++ (fixedParts d).2, isAsciiDigit b = true) ∧
      (decimalVal ((fixedParts d).1 ++ (fixedParts d).2) : ℚ) * 10 ^ (-((fixedParts d).2.length : ℤ)) =
        d.magnitude := by
  have hdigits : ∀ b ∈ decimal d.coefficient, isAsciiDigit b = true :=
    fun b hb => isAsciiDigit_of_mem_decimal hb
  have hzeros : ∀ (n : ℕ) (b : UInt8), b ∈ List.replicate n (48 : UInt8) → isAsciiDigit b = true :=
    fun n b hb => by rw [eq_of_mem_replicate hb]; rfl
  have hval := decimalVal_decimal d.coefficient
  have hne := decimal_ne_nil d.coefficient
  unfold fixedParts Dec.magnitude
  generalize decimal d.coefficient = digits at hdigits hval hne
  simp only
  split
  · next hneg =>
    -- all digits are after the point, with zeros before them
    refine ⟨by simp, ?_, ?_⟩
    · intro b hb
      simp only [mem_append, mem_singleton] at hb
      rcases hb with rfl | hb | hb
      · rfl
      · exact hzeros _ b hb
      · exact hdigits b hb
    · have hlen : ((List.replicate (-(d.exponent + digits.length)).toNat (48 : UInt8) ++ digits).length : ℤ) =
          -d.exponent := by
        rw [length_append, length_replicate]
        omega
      rw [hlen, neg_neg, decimalVal_append, decimalVal_append, decimalVal_replicate_zero, hval]
      simp [decimalVal, digitsVal]
  · next hnonneg =>
    split
    · next hlt =>
      -- zeros up to the point
      refine ⟨by simp [hne], ?_, ?_⟩
      · intro b hb
        rw [append_nil, mem_append] at hb
        exact hb.elim (hdigits b) (hzeros _ b)
      · have hexp : ((d.exponent + digits.length - digits.length).toNat : ℤ) = d.exponent := by omega
        rw [append_nil, decimalVal_append, decimalVal_replicate_zero, hval, length_replicate]
        push_cast
        rw [← zpow_natCast, hexp]
        simp
    · next hle =>
      -- the point among the digits
      have hlen : ((digits.drop (d.exponent + digits.length).toNat).length : ℤ) = -d.exponent := by
        rw [length_drop]
        omega
      rw [hlen, neg_neg]
      split
      · next hzero =>
        have hdrop : digits.drop (d.exponent + digits.length).toNat = digits := by
          rw [hzero]
          rfl
        rw [hdrop]
        refine ⟨by simp, ?_, ?_⟩
        · intro b hb
          rcases mem_append.1 hb with hb | hb
          · rw [mem_singleton.1 hb]
            rfl
          · exact hdigits b hb
        · rw [decimalVal_append, hval]
          simp [decimalVal, digitsVal]
      · next hpos =>
        rw [take_append_drop, hval]
        refine ⟨?_, hdigits, rfl⟩
        rw [Ne, take_eq_nil_iff, not_or]
        exact ⟨by omega, hne⟩

/-- What is written is read back as the number. -/
theorem DecimalReader.valueOf_formatFixed (py : DecimalReader) (d : Dec) :
    py.valueOf (formatFixed d) = some d.value := by
  unfold formatFixed
  generalize hd' : (if d.coefficient = 0 ∧ 0 < d.exponent then (⟨d.negative, 0, 0⟩ : Dec) else d) = d'
  have hsame : d'.negative = d.negative ∧ d'.magnitude = d.magnitude := by
    subst hd'
    split
    · next h => exact ⟨rfl, (Dec.magnitude_eq_zero_iff.2 rfl).trans (Dec.magnitude_eq_zero_iff.2 h.1).symm⟩
    · exact ⟨rfl, rfl⟩
  obtain ⟨hne, hdigits, hval⟩ := fixedParts_spec d'
  have hread := py.read_plain d.negative _ _ hne hdigits
  unfold DecimalReader.valueOf
  rw [hread]
  refine congrArg some ((Dec.value_eq_iff ?_).2 (hval.trans hsame.2))
  rfl

end SeqLN
