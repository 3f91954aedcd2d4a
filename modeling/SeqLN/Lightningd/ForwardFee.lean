import SeqLN.Lightningd.Forward

/-!
# The fee of a forward, and its inverse

`common/amount.c`: `amount_msat_fee` is the fee for forwarding an amount, and `amount_msat_sub_fee` the
amount to forward of one that comes in, fee included. The product by the quotient can leave 64 bits:
the fee wraps around, and a forward of a huge amount is accepted for next to nothing. The inverse adds
a million to the millionths in 32 bits. `forward_fees_exact_iff` says where each is right.
-/

namespace SeqLN.Forward

/-! ### What the functions compute -/

/-- The millionths of an amount, rounded down. `none` where the division by zero stops the process;
the inner `none` where the function refuses. Source: `amount_msat_mul_div`, `mul_overflows_u64` -/
def amountMsatMulDiv (msat mul div : ℕ) : Option (Option ℕ) :=
  if 2 ^ 64 ≤ mul * div then some none
  else if div = 0 then none
  else some (some ((mul * (msat / div) + mul * (msat % div) % 2 ^ 64 / div) % 2 ^ 64))

/-- Source: `amount_msat_add_fee` -/
def amountMsatAddFee (amt base ppm : ℕ) : Option ℕ :=
  match amountMsatFee amt base ppm with
  | none => none
  | some fee => amountAdd amt fee

/-- Does this input give enough to provide fee for output? Source: `within_fee` -/
def withinFee (inn out base ppm : ℕ) : Bool :=
  match amountMsatAddFee out base ppm with
  | none => false
  | some withFee => withFee ≤ inn

/-- The amount to forward of one that comes in. `none` where the process stops: a division by zero,
or the assertion on the result. Source: `amount_msat_sub_fee` -/
def amountMsatSubFee (inn base ppm : ℕ) : Option ℕ :=
  match amountSub inn base with
  | none => some 0
  | some rest =>
    -- the divisor is a sum of 32-bit words
    match amountMsatMulDiv rest 1000000 ((1000000 + ppm) % 2 ^ 32) with
    | none => none
    | some none => some 0
    | some (some out) =>
      if withinFee inn out base ppm = false then none
      else if (amountAdd out 1).any (fun outPlusOne => withinFee inn outPlusOne base ppm) then
        some (out + 1)
      else some out

/-! ### What they should compute -/

/-- The fee that BOLT 7 asks for. -/
def exactFee (amt base ppm : ℕ) : ℕ := base + amt * ppm / 1000000

/-- The fee is exact, or refused where it does not fit. -/
def FeeExact (amt base ppm : ℕ) : Prop :=
  amountMsatFee amt base ppm =
    if exactFee amt base ppm < 2 ^ 64 then some (exactFee amt base ppm) else none

/-- The amounts that one that comes in pays for. -/
def Payable (inn base ppm : ℕ) : Set ℕ := {amt | amt + exactFee amt base ppm ≤ inn}

/-- The inverse returns, and the largest amount that is paid for, or 0 where there is none. -/
def SubFeeRight (inn base ppm : ℕ) : Prop :=
  ∃ out, amountMsatSubFee inn base ppm = some out ∧
    (IsGreatest (Payable inn base ppm) out ∨ Payable inn base ppm = ∅ ∧ out = 0)

/-- The millionths of the amount fit, or the fee is refused in spite of having wrapped. -/
def FeeFits (amt base ppm : ℕ) : Prop :=
  amt * ppm / 1000000 < 2 ^ 64 ∨ 2 ^ 64 ≤ base + amt * ppm / 1000000 % 2 ^ 64

/-- The divisor of the inverse fits, or is not reached (nothing is left after the base), or divides
zero and is not zero. -/
def SubFeeFits (inn base ppm : ℕ) : Prop :=
  inn < base ∨ 1000000 + ppm < 2 ^ 32 ∨ inn = base ∧ 1000000 + ppm ≠ 2 ^ 32

/-- The fee of the quotient by the divisor as it is in 32 bits fits. -/
def QuotientFits (inn base ppm : ℕ) : Prop :=
  1000000 * (inn - base) / ((1000000 + ppm) % 2 ^ 32) * ppm / 1000000 < 2 ^ 64

section fee

variable {amt inn base ppm : ℕ}

/-- A product divided by parts: by the quotient and by the remainder. -/
theorem mul_div_add_mul_mod_div (m x d : ℕ) (hd : 0 < d) :
    m * (x / d) + m * (x % d) / d = m * x / d := by
  calc m * (x / d) + m * (x % d) / d
      = (m * (x % d) + d * (m * (x / d))) / d := by
        rw [Nat.add_mul_div_left _ _ hd, Nat.add_comm]
    _ = m * (x % d + d * (x / d)) / d := by rw [Nat.mul_add, Nat.mul_left_comm d]
    _ = m * x / d := by rw [Nat.mod_add_div]

lemma amountMsatFee_eq (amt base ppm : ℕ) :
    amountMsatFee amt base ppm = amountAdd base (amt * ppm / 1000000 % 2 ^ 64) := by
  unfold amountMsatFee
  rw [mul_div_add_mul_mod_div ppm amt 1000000 (by decide), Nat.mul_comm ppm]

lemma amountMsatMulDiv_eq {msat mul div : ℕ} (hdiv : 0 < div) (hmul : mul * div < 2 ^ 64) :
    amountMsatMulDiv msat mul div = some (some (mul * msat / div % 2 ^ 64)) := by
  have hsmall : mul * (msat % div) < 2 ^ 64 :=
    lt_of_le_of_lt (Nat.mul_le_mul_left mul (Nat.mod_lt msat hdiv).le) hmul
  unfold amountMsatMulDiv
  rw [if_neg (not_le.2 hmul), if_neg hdiv.ne', Nat.mod_eq_of_lt hsmall,
    mul_div_add_mul_mod_div mul msat div hdiv]

lemma feeExact_iff : FeeExact amt base ppm ↔ FeeFits amt base ppm := by
  unfold FeeExact FeeFits exactFee
  rw [amountMsatFee_eq]
  generalize amt * ppm / 1000000 = prop
  by_cases hprop : prop < 2 ^ 64
  · rw [Nat.mod_eq_of_lt hprop]
    exact iff_of_true rfl (Or.inl hprop)
  · rw [if_neg (by omega)]
    unfold amountAdd
    constructor
    · intro h
      split at h
      · cases h
      · next hge => exact Or.inr (not_lt.1 hge)
    · intro h
      exact if_neg (not_lt.2 (h.resolve_left hprop))

/-- A forward is accepted exactly where it pays for itself, given an exact fee. -/
theorem checkFwdAmount_iff (hfee : FeeExact amt base ppm) (hin : inn < 2 ^ 64) :
    checkFwdAmount amt inn base ppm = true ↔ amt + exactFee amt base ppm ≤ inn := by
  unfold checkFwdAmount
  rw [hfee]
  split
  · next hnone =>
    have hge : ¬ exactFee amt base ppm < 2 ^ 64 := fun h => by rw [if_pos h] at hnone; cases hnone
    simp only [Bool.false_eq_true, false_iff]
    omega
  · next fee hsome =>
    have hval : exactFee amt base ppm = fee := by
      split at hsome
      · exact Option.some.inj hsome
      · cases hsome
    rw [hval]
    by_cases hle : fee ≤ inn
    · rw [amountSub_of_le hle]
      simp only [decide_eq_true_eq]
      omega
    · rw [amountSub_of_not_le hle]
      simp only [Bool.false_eq_true, false_iff]
      omega

/-- The check takes the amounts that are payable. -/
lemma withinFee_iff (hprop : amt * ppm / 1000000 < 2 ^ 64) (hin : inn < 2 ^ 64) :
    withinFee inn amt base ppm = true ↔ amt ∈ Payable inn base ppm := by
  have hfee : FeeExact amt base ppm := feeExact_iff.2 (Or.inl hprop)
  unfold withinFee amountMsatAddFee Payable
  rw [hfee, Set.mem_ofPred_eq]
  by_cases hfits : exactFee amt base ppm < 2 ^ 64
  · rw [if_pos hfits]
    simp only
    by_cases hsum : amt + exactFee amt base ppm < 2 ^ 64
    · rw [amountAdd_of_lt hsum]
      exact decide_eq_true_iff
    · rw [amountAdd_of_not_lt hsum]
      simp only [Bool.false_eq_true, false_iff]
      omega
  · rw [if_neg hfits]
    simp only [Bool.false_eq_true, false_iff]
    omega

/-- With its fee an amount is itself and its millionths. -/
theorem mem_payable_iff :
    amt ∈ Payable inn base ppm ↔ base + amt * (1000000 + ppm) / 1000000 ≤ inn := by
  have hsum : amt * (1000000 + ppm) / 1000000 = amt + amt * ppm / 1000000 := by
    rw [Nat.mul_add, Nat.mul_comm amt 1000000, Nat.mul_add_div (by decide)]
  unfold Payable exactFee
  rw [hsum, Set.mem_ofPred_eq]
  omega

/-! ### The inverse -/

/-- The amount that solves the equation without rounding the fee. -/
def closedForm (rest ppm : ℕ) : ℕ := 1000000 * rest / (1000000 + ppm)

lemma closedForm_mul_le (rest ppm : ℕ) : closedForm rest ppm * (1000000 + ppm) ≤ 1000000 * rest :=
  Nat.div_mul_le_self _ _

lemma lt_closedForm_succ_mul (rest ppm : ℕ) :
    1000000 * rest < (closedForm rest ppm + 1) * (1000000 + ppm) := by
  have h := Nat.lt_mul_div_succ (1000000 * rest) (show 0 < 1000000 + ppm by omega)
  rwa [Nat.mul_comm (1000000 + ppm)] at h

lemma closedForm_le (rest ppm : ℕ) : closedForm rest ppm ≤ rest := by
  have h := closedForm_mul_le rest ppm
  nlinarith

/-- It is paid for. -/
theorem closedForm_payable (hbase : base ≤ inn) :
    closedForm (inn - base) ppm ∈ Payable inn base ppm := by
  have h := closedForm_mul_le (inn - base) ppm
  rw [mem_payable_iff]
  have hdiv := Nat.div_le_div_right (c := 1000000) h
  rw [Nat.mul_div_cancel_left _ (by decide)] at hdiv
  omega

/-- What is paid for is at most one more. -/
theorem le_closedForm_succ (h : amt ∈ Payable inn base ppm) :
    base ≤ inn ∧ amt ≤ closedForm (inn - base) ppm + 1 := by
  rw [mem_payable_iff] at h
  refine ⟨by omega, ?_⟩
  by_contra hlt
  have hnext := lt_closedForm_succ_mul (inn - base) ppm
  -- one step more is worth at least a million more
  have hstep : (closedForm (inn - base) ppm + 1) * (1000000 + ppm) + 1000000 ≤
      amt * (1000000 + ppm) := by
    have hmul := Nat.mul_le_mul_right (1000000 + ppm)
      (show closedForm (inn - base) ppm + 1 + 1 ≤ amt by omega)
    rw [Nat.add_mul _ 1] at hmul
    omega
  have hdiv : inn - base + 1 ≤ amt * (1000000 + ppm) / 1000000 := by
    rw [Nat.le_div_iff_mul_le (by decide)]
    omega
  omega

/-- The millionths of the next amount fit too: where it is large, they leave room for the amount. -/
theorem closedForm_succ_prop_lt {rest : ℕ} (hrest : rest < 2 ^ 64) (hppm : 1000000 + ppm < 2 ^ 32) :
    (closedForm rest ppm + 1) * ppm / 1000000 < 2 ^ 64 := by
  have h := closedForm_mul_le rest ppm
  rw [Nat.div_lt_iff_lt_mul (by decide)]
  rw [Nat.mul_add] at h
  rw [Nat.add_mul, Nat.one_mul]
  by_cases hlarge : 4295 ≤ closedForm rest ppm
  · omega
  · have hsmall : closedForm rest ppm * ppm ≤ 4295 * ppm :=
      Nat.mul_le_mul_right ppm (not_le.1 hlarge).le
    omega

/-- Where the division gives the closed form and the next amount's millionths fit, the inverse is
right. -/
theorem subFeeRight_of_mulDiv (hin : inn < 2 ^ 64)
    (hmulDiv : base ≤ inn → amountMsatMulDiv (inn - base) 1000000 ((1000000 + ppm) % 2 ^ 32) =
      some (some (closedForm (inn - base) ppm)))
    (hnext : base ≤ inn → (closedForm (inn - base) ppm + 1) * ppm / 1000000 < 2 ^ 64) :
    SubFeeRight inn base ppm := by
  unfold SubFeeRight amountMsatSubFee
  by_cases hbase : base ≤ inn
  · specialize hnext hbase
    have hprop : closedForm (inn - base) ppm * ppm / 1000000 < 2 ^ 64 :=
      lt_of_le_of_lt (Nat.div_le_div_right (Nat.mul_le_mul_right ppm (Nat.le_succ _))) hnext
    have hwithin := (withinFee_iff hprop hin).2 (closedForm_payable hbase)
    rw [amountSub_of_le hbase]
    simp only [hmulDiv hbase, hwithin, Bool.true_eq_false, if_false]
    by_cases hsucc : closedForm (inn - base) ppm + 1 ∈ Payable inn base ppm
    · have hadd : closedForm (inn - base) ppm + 1 < 2 ^ 64 := by
        have hle : closedForm (inn - base) ppm + 1 +
          exactFee (closedForm (inn - base) ppm + 1) base ppm ≤ inn := hsucc
        omega
      have hany : (amountAdd (closedForm (inn - base) ppm) 1).any
          (fun outPlusOne => withinFee inn outPlusOne base ppm) = true := by
        rw [amountAdd_of_lt hadd]
        exact (withinFee_iff hnext hin).2 hsucc
      rw [if_pos hany]
      exact ⟨_, rfl, Or.inl ⟨hsucc, fun amt hamt => (le_closedForm_succ hamt).2⟩⟩
    · have hany : ¬ (amountAdd (closedForm (inn - base) ppm) 1).any
          (fun outPlusOne => withinFee inn outPlusOne base ppm) = true := by
        rw [Option.any_eq_true]
        rintro ⟨outPlusOne, hadd, hw⟩
        obtain ⟨-, rfl⟩ := amountAdd_eq_some.1 hadd
        exact hsucc ((withinFee_iff hnext hin).1 hw)
      rw [if_neg hany]
      refine ⟨_, rfl, Or.inl ⟨closedForm_payable hbase, fun amt hamt => ?_⟩⟩
      rcases Nat.lt_or_eq_of_le (le_closedForm_succ hamt).2 with hlt | rfl
      · exact Nat.lt_succ_iff.1 hlt
      · exact absurd hamt hsucc
  · rw [amountSub_of_not_le hbase]
    exact ⟨0, rfl, Or.inr ⟨Set.eq_empty_of_forall_notMem fun amt hamt =>
      hbase (le_closedForm_succ hamt).1, rfl⟩⟩

/-- The inverse is right for each amount, base and millionths where its divisor does no harm. -/
theorem subFeeRight_of_fits (hin : inn < 2 ^ 64) (hppm : ppm < 2 ^ 32)
    (hfits : SubFeeFits inn base ppm) : SubFeeRight inn base ppm := by
  rcases hfits with hlt | hsum | ⟨rfl, hne⟩
  · exact subFeeRight_of_mulDiv hin (fun h => absurd h (not_le.2 hlt))
      fun h => absurd h (not_le.2 hlt)
  · have hrest : inn - base < 2 ^ 64 := lt_of_le_of_lt (Nat.sub_le inn base) hin
    have hout : closedForm (inn - base) ppm < 2 ^ 64 := lt_of_le_of_lt (closedForm_le _ _) hrest
    refine subFeeRight_of_mulDiv hin (fun _ => ?_) fun _ => closedForm_succ_prop_lt hrest hsum
    rw [Nat.mod_eq_of_lt hsum, amountMsatMulDiv_eq (by omega) (by omega)]
    exact congrArg (fun out => some (some out)) (Nat.mod_eq_of_lt hout)
  · -- nothing is left after the base, and both quotients are 0
    have hzero : closedForm (inn - inn) ppm = 0 := by simp [closedForm]
    refine subFeeRight_of_mulDiv hin (fun _ => ?_) fun _ => ?_
    · rw [hzero, amountMsatMulDiv_eq (by omega) (by omega), Nat.sub_self]
      simp
    · rw [hzero]
      omega

/-- With a divisor that has wrapped and an amount above the base the process stops. -/
theorem amountMsatSubFee_wrapped (hbase : base < inn) (hin : inn < 2 ^ 64) (hppm : ppm < 2 ^ 32)
    (hwrap : 2 ^ 32 ≤ 1000000 + ppm) (hquot : QuotientFits inn base ppm) :
    amountMsatSubFee inn base ppm = none := by
  unfold QuotientFits at hquot
  have hdivisor : (1000000 + ppm) % 2 ^ 32 < 1000000 := by omega
  generalize hdiv : (1000000 + ppm) % 2 ^ 32 = div at hdivisor hquot
  unfold amountMsatSubFee
  rw [amountSub_of_le hbase.le]
  simp only [hdiv]
  rcases Nat.eq_zero_or_pos div with rfl | hpos
  · rfl
  · -- the quotient is at least what is left, and with its fee more than twice as much
    have hquotient : inn - base ≤ 1000000 * (inn - base) / div := by
      rw [Nat.le_div_iff_mul_le hpos, Nat.mul_comm]
      exact Nat.mul_le_mul_right _ hdivisor.le
    generalize hout : 1000000 * (inn - base) / div = out at hquot hquotient
    have hsmall : out < 2 ^ 64 := by
      refine lt_of_le_of_lt ?_ hquot
      rw [Nat.le_div_iff_mul_le (by decide)]
      exact Nat.mul_le_mul_left out (by omega)
    have hwithin : withinFee inn out base ppm = false := by
      rw [← Bool.not_eq_true, withinFee_iff hquot hin, mem_payable_iff, not_le]
      have htwice : 2 * (inn - base) ≤ out * (1000000 + ppm) / 1000000 := by
        rw [Nat.le_div_iff_mul_le (by decide)]
        calc 2 * (inn - base) * 1000000 = (inn - base) * 2000000 := by ring
          _ ≤ out * (1000000 + ppm) := Nat.mul_le_mul hquotient (by omega)
      omega
    rw [amountMsatMulDiv_eq hpos (by omega), hout, Nat.mod_eq_of_lt hsmall]
    simp only [hwithin, if_true]

/-- Where its quotient's fee fits, the inverse is right only where its divisor does no harm. -/
theorem fits_of_subFeeRight (hin : inn < 2 ^ 64) (hppm : ppm < 2 ^ 32)
    (hquot : QuotientFits inn base ppm) (hright : SubFeeRight inn base ppm) :
    SubFeeFits inn base ppm := by
  obtain ⟨out, hout, -⟩ := hright
  by_contra hnot
  simp only [SubFeeFits, not_or, not_lt, not_and, not_not] at hnot
  obtain ⟨hbase, hwrap, hne⟩ := hnot
  rcases Nat.lt_or_eq_of_le hbase with hlt | rfl
  · rw [amountMsatSubFee_wrapped hlt hin hppm hwrap hquot] at hout
    cases hout
  · -- the divisor is zero
    rw [amountMsatSubFee, amountSub_of_le le_rfl, hne rfl] at hout
    cases hout

end fee

/-- For each amount, base and millionths: the fee is exact, and a forward accepted exactly where it
is paid, exactly where the millionths of the amount fit (or the fee is refused after all). The
inverse returns the largest amount that is paid for where a million and the millionths fit in 32
bits, or the amount does not exceed the base (and the divisor is not zero where it is the base); and
only there, as long as the fee of its quotient stays in 64 bits. -/
theorem forward_fees_exact_iff (amt inn : UInt64) (base ppm : UInt32) :
    (FeeExact amt.toNat base.toNat ppm.toNat ∧
        (∀ inn : UInt64, checkFwdAmount amt.toNat inn.toNat base.toNat ppm.toNat = true ↔
          amt.toNat + exactFee amt.toNat base.toNat ppm.toNat ≤ inn.toNat) ↔
      FeeFits amt.toNat base.toNat ppm.toNat) ∧
    (SubFeeFits inn.toNat base.toNat ppm.toNat → SubFeeRight inn.toNat base.toNat ppm.toNat) ∧
    (QuotientFits inn.toNat base.toNat ppm.toNat → SubFeeRight inn.toNat base.toNat ppm.toNat →
      SubFeeFits inn.toNat base.toNat ppm.toNat) := by
  refine ⟨⟨fun h => feeExact_iff.1 h.1, fun h => ?_⟩, subFeeRight_of_fits inn.toNat_lt ppm.toNat_lt,
    fits_of_subFeeRight inn.toNat_lt ppm.toNat_lt⟩
  have hexact := feeExact_iff.2 h
  exact ⟨hexact, fun inn => checkFwdAmount_iff hexact inn.toNat_lt⟩

namespace FeeExample

/-- The inverse is right at usual fees, and below the base fee whatever the millionths. -/
theorem forward_fees_exact_below_base :
    SubFeeRight 1001000 1000 10 ∧ SubFeeRight 999 1000 4294967295 ∧
      ¬ SubFeeRight 1001 1000 4294967295 :=
  ⟨(forward_fees_exact_iff 0 1001000 1000 10).2.1 (.inr (.inl (by decide))),
    (forward_fees_exact_iff 0 999 1000 4294967295).2.1 (.inl (by decide)),
    fun h => absurd ((forward_fees_exact_iff 0 1001 1000 4294967295).2.2
      (by unfold QuotientFits; decide) h) (by unfold SubFeeFits; decide)⟩

/-- At the highest millionths the fee of an amount leaves 64 bits, and a forward of it is accepted
for 4293 millisatoshis. At a million below `2 ^ 32` the inverse divides by zero. -/
theorem fee_wraps :
    exactFee 4294967297000001 0 4294967295 = 18446744073709555909 ∧
      amountMsatFee 4294967297000001 0 4294967295 = some 4293 ∧
      checkFwdAmount 4294967297000001 4294967297004294 0 4294967295 = true ∧
      amountMsatSubFee 1 0 4293967296 = none := by
  decide

end FeeExample

end SeqLN.Forward
