import SeqLN.Channeld.AddHtlc
import SeqLN.Lib.WideDivision

/-!
# Fees in an asset

A fee in reference atoms is converted by the exchange rate `R` of the asset: an atom is worth
`R / EXCHANGE_RATE_SCALE` reference atoms. A channel converts its feerate and sizes the fee with that
(`feerate_in_asset`, `amount_tx_fee`); the wallet sizes the fee and converts it (`asset_tx_fee`). Both
round up at each step. Where the compiler has no product of 128 bits, it is by words
(`u64MulAddDivPortable_eq`).
-/

namespace SeqLN.Wallet

open SeqLN.Channeld SeqLN.WideDivision

/-! ### The arithmetic -/

/-- With a 128-bit word. Source: `common/amount.c`, `u64_mul_add_div` -/
def u64MulAddDiv (a b add div : UInt64) : UInt64 :=
  let v := (a.toBitVec.setWidth 128 * b.toBitVec.setWidth 128 + add.toBitVec.setWidth 128) /
    div.toBitVec.setWidth 128
  if v.toNat > 2 ^ 64 - 1 then UInt64.ofNat (2 ^ 64 - 1) else UInt64.ofNat v.toNat

/-- One turn of the division: the quotient and the remainder.
Source: `u64_mul_add_div_portable`, the loop -/
def portableStep (lo div : UInt64) (i : ℕ) : UInt64 × UInt64 → UInt64 × UInt64
  | (q, r) =>
    let carry := r >>> 63 ≠ 0
    let r := (r <<< 1) ||| ((lo >>> UInt64.ofNat i) &&& 1)
    if carry ∨ r ≥ div then (q ||| (1 <<< UInt64.ofNat i), r - div) else (q, r)

/-- The turns from `n - 1` down to 0. -/
def portableLoop (lo div : UInt64) : ℕ → UInt64 × UInt64 → UInt64 × UInt64
  | 0, s => s
  | i + 1, s => portableLoop lo div i (portableStep lo div i s)

/-- The low half of a word. -/
def lowHalf (x : UInt64) : UInt64 := x &&& 0xFFFFFFFF

/-- The high half of a word. -/
def highHalf (x : UInt64) : UInt64 := x >>> 32

/-- Source: `u64_mul_add_div_portable`, `mid` -/
def portableMid (ll lh hl : UInt64) : UInt64 := highHalf ll + lowHalf lh + lowHalf hl

/-- The high and the low word of a product, from 32-bit partial products.
Source: `u64_mul_add_div_portable` -/
def portableMul (a b : UInt64) : UInt64 × UInt64 :=
  let ll := lowHalf a * lowHalf b
  let lh := lowHalf a * highHalf b
  let hl := highHalf a * lowHalf b
  let hh := highHalf a * highHalf b
  let mid := portableMid ll lh hl
  (hh + highHalf lh + highHalf hl + highHalf mid, lowHalf ll ||| (mid <<< 32))

/-- Source: `u64_mul_add_div_portable` -/
def u64MulAddDivPortable (a b add div : UInt64) : UInt64 :=
  let (hi, lo) := portableMul a b
  let hi := if lo + add < lo then hi + 1 else hi
  let lo := lo + add
  if hi ≥ div then UInt64.ofNat (2 ^ 64 - 1)
  else (portableLoop lo div 64 (0, hi)).1

/-! ### The fees -/

/-- Source: `common/amount.h`, `EXCHANGE_RATE_SCALE` -/
def exchangeRateScale : UInt64 := 100000000

/-- Source: `feerate_in_asset` -/
def feerateInAsset (feeratePerKw : UInt32) (rate : UInt64) : UInt32 :=
  if rate = 0 ∨ rate = exchangeRateScale then feeratePerKw
  else
    let v := u64MulAddDiv feeratePerKw.toUInt64 exchangeRateScale (rate - 1) rate
    if v.toNat > 2 ^ 32 - 1 then UInt32.ofNat (2 ^ 32 - 1) else v.toUInt32

/-- Source: `wallet/reservation.c`, `asset_tx_fee` -/
def assetTxFee (cp : ChainParams) (feeratePerKw : UInt32) (weight : ℕ) (rate : UInt64) : UInt64 :=
  let pol := UInt64.ofNat (amountTxFee cp feeratePerKw.toNat weight)
  if rate = exchangeRateScale then pol
  else u64MulAddDiv pol exchangeRateScale (rate - 1) rate

/-- The fee that a channel sizes by the converted feerate. -/
def channelFee (cp : ChainParams) (feeratePerKw : UInt32) (weight : ℕ) (rate : UInt64) : ℕ :=
  amountTxFee cp (feerateInAsset feeratePerKw rate).toNat weight

/-- What a number of atoms is worth, in reference atoms. -/
def atomsValue (atoms : ℕ) (rate : UInt64) : ℚ := atoms * rate.toNat / exchangeRateScale.toNat

/-- A number of reference atoms in atoms, rounded up. -/
def ceilInAsset (ref : ℕ) (rate : UInt64) : ℕ :=
  (ref * exchangeRateScale.toNat + (rate.toNat - 1)) / rate.toNat

/-! ### The portable arithmetic is that of 128 bits -/

section portable

variable {a b add div lo : UInt64} {i n : ℕ}

/-- The quotient, or the largest word. -/
lemma u64MulAddDiv_toNat (a b add div : UInt64) :
    (u64MulAddDiv a b add div).toNat =
      min ((a.toNat * b.toNat + add.toNat) / div.toNat) (2 ^ 64 - 1) := by
  have hprod : a.toNat * b.toNat ≤ (2 ^ 64 - 1) * (2 ^ 64 - 1) :=
    Nat.mul_le_mul (Nat.le_pred_of_lt a.toNat_lt) (Nat.le_pred_of_lt b.toNat_lt)
  have hadd := add.toNat_lt
  have hv : ((a.toBitVec.setWidth 128 * b.toBitVec.setWidth 128 + add.toBitVec.setWidth 128) /
      div.toBitVec.setWidth 128).toNat = (a.toNat * b.toNat + add.toNat) / div.toNat := by
    have hwide : ∀ x : UInt64, (x.toBitVec.setWidth 128).toNat = x.toNat := fun x => by
      rw [BitVec.toNat_setWidth]
      exact Nat.mod_eq_of_lt (lt_trans x.toNat_lt (by decide))
    rw [BitVec.toNat_udiv, BitVec.toNat_add, BitVec.toNat_mul, hwide, hwide, hwide, hwide,
      Nat.mod_add_mod, Nat.mod_eq_of_lt (by omega)]
  unfold u64MulAddDiv
  simp only [hv]
  split
  · next h =>
    rw [min_eq_right h.le]
    rfl
  · next h =>
    rw [min_eq_left (not_lt.1 h), UInt64.toNat_ofNat']
    exact Nat.mod_eq_of_lt (by omega)

lemma toNat_lowHalf (x : UInt64) : (lowHalf x).toNat = x.toNat % 2 ^ 32 := by
  unfold lowHalf
  rw [UInt64.toNat_and]
  exact Nat.and_two_pow_sub_one_eq_mod x.toNat 32

lemma toNat_highHalf (x : UInt64) : (highHalf x).toNat = x.toNat / 2 ^ 32 := by
  unfold highHalf
  rw [UInt64.toNat_shiftRight]
  exact Nat.shiftRight_eq_div_pow x.toNat 32

lemma lowHalf_lt (x : UInt64) : (lowHalf x).toNat < 2 ^ 32 := by
  rw [toNat_lowHalf]
  exact Nat.mod_lt _ (by decide)

lemma highHalf_lt (x : UInt64) : (highHalf x).toNat < 2 ^ 32 := by
  have := x.toNat_lt
  rw [toNat_highHalf]
  omega

lemma toNat_mul_of_half {x y : UInt64} (hx : x.toNat < 2 ^ 32) (hy : y.toNat < 2 ^ 32) :
    (x * y).toNat = x.toNat * y.toNat := by
  rw [UInt64.toNat_mul]
  exact Nat.mod_eq_of_lt (lt_of_lt_of_eq (Nat.mul_lt_mul'' hx hy) (by decide))

/-- The middle sum of the half-word products does not wrap around. -/
lemma toNat_portableMid (a b : UInt64) :
    (portableMid (lowHalf a * lowHalf b) (lowHalf a * highHalf b) (highHalf a * lowHalf b)).toNat =
      mid (2 ^ 32) a.toNat b.toNat := by
  have hll := highHalf_lt (lowHalf a * lowHalf b)
  have hlh := lowHalf_lt (lowHalf a * highHalf b)
  have hhl := lowHalf_lt (highHalf a * lowHalf b)
  unfold portableMid mid
  rw [UInt64.toNat_add, UInt64.toNat_add, Nat.mod_add_mod, Nat.mod_eq_of_lt (by omega)]
  rw [toNat_highHalf, toNat_lowHalf, toNat_lowHalf, toNat_mul_of_half (lowHalf_lt a) (lowHalf_lt b),
    toNat_mul_of_half (lowHalf_lt a) (highHalf_lt b), toNat_mul_of_half (highHalf_lt a) (lowHalf_lt b),
    toNat_lowHalf, toNat_lowHalf, toNat_highHalf, toNat_highHalf]

/-- The words are those of the product. -/
theorem portableMul_toNat (a b : UInt64) :
    (portableMul a b).1.toNat = wideHi (2 ^ 32) a.toNat b.toNat ∧
      (portableMul a b).2.toNat = wideLo (2 ^ 32) a.toNat b.toNat := by
  have hwide := wideHi_mul_add_wideLo (B := 2 ^ 32) a.toNat b.toNat
  have hlt : a.toNat * b.toNat < 2 ^ 64 * 2 ^ 64 := Nat.mul_lt_mul'' a.toNat_lt b.toNat_lt
  have hmid := toNat_portableMid a b
  unfold portableMul
  constructor
  · have hval : (highHalf a * highHalf b).toNat + (highHalf (lowHalf a * highHalf b)).toNat +
        (highHalf (highHalf a * lowHalf b)).toNat +
        (highHalf (portableMid (lowHalf a * lowHalf b) (lowHalf a * highHalf b)
          (highHalf a * lowHalf b))).toNat = wideHi (2 ^ 32) a.toNat b.toNat := by
      rw [toNat_highHalf, toNat_highHalf, toNat_highHalf, hmid,
        toNat_mul_of_half (highHalf_lt a) (highHalf_lt b),
        toNat_mul_of_half (lowHalf_lt a) (highHalf_lt b),
        toNat_mul_of_half (highHalf_lt a) (lowHalf_lt b),
        toNat_lowHalf, toNat_lowHalf, toNat_highHalf, toNat_highHalf]
      rfl
    simp only [UInt64.toNat_add, Nat.mod_add_mod]
    rw [hval]
    exact Nat.mod_eq_of_lt (by omega)
  · have hshift : ∀ x : UInt64, (x <<< 32).toNat = 2 ^ 32 * (x.toNat % 2 ^ 32) := by
      intro x
      rw [UInt64.toNat_shiftLeft, Nat.shiftLeft_eq]
      show x.toNat * 2 ^ 32 % 2 ^ 64 = _
      omega
    simp only [UInt64.toNat_or, hshift, hmid]
    rw [Nat.or_comm, ← Nat.two_pow_add_eq_or_of_lt (lowHalf_lt _), toNat_lowHalf,
      toNat_mul_of_half (lowHalf_lt a) (lowHalf_lt b), toNat_lowHalf, toNat_lowHalf]
    unfold wideLo
    omega

/-- The state of the division, as numbers. -/
def divStateOf (s : UInt64 × UInt64) : DivState := ⟨s.1.toNat, s.2.toNat⟩

lemma toNat_bit (lo : UInt64) (hi : i < 64) :
    ((lo >>> UInt64.ofNat i) &&& 1).toNat = lo.toNat / 2 ^ i % 2 := by
  have hplace : (UInt64.ofNat i).toNat % 64 = i := by
    rw [UInt64.toNat_ofNat']
    omega
  rw [UInt64.toNat_and, UInt64.toNat_shiftRight, hplace, Nat.shiftRight_eq_div_pow]
  exact Nat.and_two_pow_sub_one_eq_mod _ 1

lemma toNat_one_shiftLeft (hi : i < 64) : ((1 : UInt64) <<< UInt64.ofNat i).toNat = 2 ^ i := by
  have hplace : (UInt64.ofNat i).toNat % 64 = i := by
    rw [UInt64.toNat_ofNat']
    omega
  rw [UInt64.toNat_shiftLeft, hplace, Nat.shiftLeft_eq]
  exact (congrArg (· % 2 ^ 64) (Nat.one_mul _)).trans
    (Nat.mod_eq_of_lt (Nat.pow_lt_pow_right (by decide) hi))

/-- The bit brought down, in 64 bits. -/
theorem toNat_bringDown (lo r : UInt64) (hi : i < 64) :
    ((r <<< 1) ||| ((lo >>> UInt64.ofNat i) &&& 1)).toNat =
      (2 * r.toNat + lo.toNat / 2 ^ i % 2) % 2 ^ 64 := by
  have hbit : lo.toNat / 2 ^ i % 2 < 2 ^ 1 := Nat.mod_lt _ (by decide)
  have hshift : (r <<< 1).toNat = 2 ^ 1 * (r.toNat % 2 ^ 63) := by
    rw [UInt64.toNat_shiftLeft, Nat.shiftLeft_eq]
    show r.toNat * 2 ^ 1 % 2 ^ 64 = _
    omega
  rw [UInt64.toNat_or, toNat_bit lo hi, hshift, ← Nat.two_pow_add_eq_or_of_lt hbit]
  omega

lemma carry_iff (r : UInt64) : r >>> 63 ≠ 0 ↔ 2 ^ 63 ≤ r.toNat := by
  have hlt := r.toNat_lt
  have hval : (r >>> 63).toNat = r.toNat / 2 ^ 63 := by
    rw [UInt64.toNat_shiftRight]
    exact Nat.shiftRight_eq_div_pow r.toNat 63
  rw [Ne, ← UInt64.toNat_inj, hval, UInt64.toNat_zero]
  omega

/-- A turn in 64 bits, where the bit that leaves the word is the carry. -/
theorem divStateOf_portableStep (lo q : UInt64) {r : UInt64} (hi : i < 64) (hr : r.toNat < div.toNat)
    (hq : 2 ^ (i + 1) ∣ q.toNat) :
    divStateOf (portableStep lo div i (q, r)) =
      divStep lo.toNat div.toNat i ⟨q.toNat, r.toNat⟩ := by
  have hdown := toNat_bringDown lo r hi
  have hbit : lo.toNat / 2 ^ i % 2 < 2 := Nat.mod_lt _ (by decide)
  have hdiv := div.toNat_lt
  -- the test is that of the number of 65 bits
  have htest : (r >>> 63 ≠ 0 ∨ (r <<< 1) ||| ((lo >>> UInt64.ofNat i) &&& 1) ≥ div) ↔
      div.toNat ≤ 2 * r.toNat + lo.toNat / 2 ^ i % 2 := by
    rw [carry_iff, ge_iff_le, UInt64.le_iff_toNat_le, hdown]
    omega
  unfold portableStep divStep
  simp only [htest]
  split
  · next hle =>
    have hquot : (q ||| (1 <<< UInt64.ofNat i)).toNat = q.toNat + 2 ^ i := by
      obtain ⟨k, hk⟩ := hq
      rw [UInt64.toNat_or, toNat_one_shiftLeft hi, hk]
      exact (Nat.two_pow_add_eq_or_of_lt (Nat.pow_lt_pow_right (by decide) (Nat.lt_succ_self i)) k).symm
    have hrem : (((r <<< 1) ||| ((lo >>> UInt64.ofNat i) &&& 1)) - div).toNat =
        2 * r.toNat + lo.toNat / 2 ^ i % 2 - div.toNat := by
      rw [UInt64.toNat_sub, hdown]
      omega
    unfold divStateOf
    rw [hquot, hrem]
  · next hgt =>
    unfold divStateOf
    rw [hdown, Nat.mod_eq_of_lt (by omega)]

lemma divStateOf_portableLoop {dividend : ℕ} {s : UInt64 × UInt64} (hn : n ≤ 64)
    (h : DivInv dividend lo.toNat div.toNat n (divStateOf s)) :
    divStateOf (portableLoop lo div n s) = divLoop lo.toNat div.toNat n (divStateOf s) := by
  induction n generalizing s with
  | zero => rfl
  | succ i ih =>
    have hstep := divStateOf_portableStep lo s.1 hn h.lt h.dvd
    show divStateOf (portableLoop lo div i (portableStep lo div i s)) = _
    rw [ih (Nat.le_of_succ_le hn) (by rw [hstep]; exact h.step), hstep]
    rfl

/-- Dividing by words gives the quotient of 128 bits. -/
lemma u64MulAddDivPortable_eq (hdiv : div ≠ 0) :
    u64MulAddDivPortable a b add div = u64MulAddDiv a b add div := by
  have hpos : 0 < div.toNat := Nat.pos_of_ne_zero fun h => hdiv (UInt64.toNat_inj.1 h)
  obtain ⟨hhi, hlo⟩ := portableMul_toNat a b
  have hwide := wideHi_mul_add_wideLo (B := 2 ^ 32) a.toNat b.toNat
  have hlolt := wideLo_lt (B := 2 ^ 32) a.toNat b.toNat (by decide)
  have hprod : a.toNat * b.toNat ≤ (2 ^ 64 - 1) * (2 ^ 64 - 1) :=
    Nat.mul_le_mul (Nat.le_pred_of_lt a.toNat_lt) (Nat.le_pred_of_lt b.toNat_lt)
  have hadd := add.toNat_lt
  unfold u64MulAddDivPortable
  generalize portableMul a b = p at hhi hlo
  obtain ⟨hi, lo⟩ := p
  simp only at hhi hlo ⊢
  -- the words of the sum
  have hcarry : lo + add < lo ↔ 2 ^ 64 ≤ lo.toNat + add.toNat := by
    rw [UInt64.lt_iff_toNat_lt, UInt64.toNat_add]
    have := lo.toNat_lt
    omega
  have hsumLo : (lo + add).toNat = (lo.toNat + add.toNat) % 2 ^ 64 := UInt64.toNat_add lo add
  have hsumHi : (if lo + add < lo then hi + 1 else hi).toNat =
      hi.toNat + (lo.toNat + add.toNat) / 2 ^ 64 := by
    simp only [hcarry]
    split
    · rw [UInt64.toNat_add, show (1 : UInt64).toNat = 1 from rfl]
      omega
    · omega
  have hsum : (if lo + add < lo then hi + 1 else hi).toNat * 2 ^ 64 + (lo + add).toNat % 2 ^ 64 =
      a.toNat * b.toNat + add.toNat := by
    rw [hsumHi, hsumLo, Nat.mod_mod, Nat.add_mul, Nat.add_assoc, Nat.div_add_mod', ← Nat.add_assoc,
      hhi, hlo, ← hwide, show (2 : ℕ) ^ 64 = 2 ^ 32 * 2 ^ 32 by decide]
  generalize (if lo + add < lo then hi + 1 else hi) = hi' at hsum ⊢
  generalize lo + add = lo' at hsum ⊢
  apply UInt64.toNat_inj.1
  rw [u64MulAddDiv_toNat, ← hsum]
  by_cases hge : hi' ≥ div
  · rw [if_pos hge]
    have hle : 2 ^ 64 ≤ (hi'.toNat * 2 ^ 64 + lo'.toNat % 2 ^ 64) / div.toNat := by
      rw [Nat.le_div_iff_mul_le hpos, Nat.mul_comm]
      exact le_trans (Nat.mul_le_mul_right _ (UInt64.le_iff_toNat_le.1 hge)) (Nat.le_add_right _ _)
    rw [min_eq_right (by omega)]
    rfl
  · rw [if_neg hge]
    have hlt : hi'.toNat < div.toNat := by
      rw [ge_iff_le, UInt64.le_iff_toNat_le] at hge
      exact not_le.1 hge
    have hinit : DivInv (hi'.toNat * 2 ^ 64 + lo'.toNat % 2 ^ 64) lo'.toNat div.toNat 64
        (divStateOf (0, hi')) := divInv_init hlt
    have hq := congrArg DivState.q (divStateOf_portableLoop le_rfl hinit)
    have hquot : (portableLoop lo' div 64 (0, hi')).1.toNat =
        (hi'.toNat * 2 ^ 64 + lo'.toNat % 2 ^ 64) / div.toNat := hq.trans (divLoop_eq hlt)
    have hword := (portableLoop lo' div 64 (0, hi')).1.toNat_lt
    rw [← hquot, min_eq_left (by omega)]

end portable

/-! ### The fees keep their value -/

section value

variable {cp : ChainParams} {rate : UInt64} {f g : UInt32} {ref n w v : ℕ}

lemma toNat_pos_of_pos (hrate : 0 < rate) : 0 < rate.toNat := UInt64.lt_iff_toNat_lt.1 hrate

lemma ceilInAsset_le_iff (hrate : 0 < rate) :
    ceilInAsset ref rate ≤ n ↔ ref * exchangeRateScale.toNat ≤ n * rate.toNat := by
  have hpos := toNat_pos_of_pos hrate
  unfold ceilInAsset
  rw [Nat.div_le_iff_le_mul_add_pred hpos, Nat.mul_comm rate.toNat]
  omega

lemma ceilInAsset_mono (hrate : 0 < rate) {ref' : ℕ} (h : ref ≤ ref') :
    ceilInAsset ref rate ≤ ceilInAsset ref' rate :=
  (ceilInAsset_le_iff hrate).2 (le_trans (Nat.mul_le_mul_right _ h) ((ceilInAsset_le_iff hrate).1 le_rfl))

/-- At par nothing is converted. -/
theorem ceilInAsset_par (ref : ℕ) : ceilInAsset ref exchangeRateScale = ref := by
  have hscale : exchangeRateScale.toNat = 100000000 := rfl
  unfold ceilInAsset
  rw [hscale]
  omega

lemma u64MulAddDiv_rate (hrate : 0 < rate) (a : UInt64) :
    (u64MulAddDiv a exchangeRateScale (rate - 1) rate).toNat =
      min (ceilInAsset a.toNat rate) (2 ^ 64 - 1) := by
  have hpos := toNat_pos_of_pos hrate
  have hle : (1 : UInt64) ≤ rate := UInt64.le_iff_toNat_le.2 hpos
  rw [u64MulAddDiv_toNat, UInt64.toNat_sub_of_le rate 1 hle]
  rfl

lemma feerateInAsset_toNat (hrate : 0 < rate) (f : UInt32) :
    (feerateInAsset f rate).toNat = min (ceilInAsset f.toNat rate) (2 ^ 32 - 1) := by
  have hne : rate ≠ 0 := (UInt64.pos_iff_ne_zero.1 hrate)
  have hf := f.toNat_lt
  unfold feerateInAsset
  by_cases hpar : rate = exchangeRateScale
  · rw [if_pos (Or.inr hpar), hpar, ceilInAsset_par]
    omega
  · rw [if_neg (by rintro (h | h); exacts [hne h, hpar h])]
    have hv := u64MulAddDiv_rate hrate f.toUInt64
    rw [UInt32.toNat_toUInt64] at hv
    simp only
    split
    · next h =>
      rw [min_eq_right (by omega)]
      rfl
    · next h =>
      rw [UInt64.toNat_toUInt32, hv]
      omega

lemma amountTxFee_lt (hw : w < 2 ^ 32) (f : UInt32) : amountTxFee cp f.toNat w < 2 ^ 64 := by
  have hmul : f.toNat * w < 2 ^ 32 * 2 ^ 32 := Nat.mul_lt_mul'' f.toNat_lt hw
  unfold amountTxFee
  split <;> omega

lemma assetTxFee_toNat (hrate : 0 < rate) (hw : w < 2 ^ 32) (f : UInt32) :
    (assetTxFee cp f w rate).toNat =
      min (ceilInAsset (amountTxFee cp f.toNat w) rate) (2 ^ 64 - 1) := by
  have hpol : (UInt64.ofNat (amountTxFee cp f.toNat w)).toNat = amountTxFee cp f.toNat w := by
    rw [UInt64.toNat_ofNat']
    exact Nat.mod_eq_of_lt (amountTxFee_lt hw f)
  unfold assetTxFee
  by_cases hpar : rate = exchangeRateScale
  · rw [if_pos hpar, hpol, hpar, ceilInAsset_par]
    have hlt : amountTxFee cp f.toNat w < 2 ^ 64 := amountTxFee_lt hw f
    omega
  · rw [if_neg hpar, u64MulAddDiv_rate hrate, hpol]

lemma le_atomsValue_iff {x : ℚ} : x ≤ atomsValue n rate ↔
    x * exchangeRateScale.toNat ≤ n * rate.toNat := by
  have hscale : (0 : ℚ) < exchangeRateScale.toNat := by
    show (0 : ℚ) < (100000000 : ℕ)
    norm_num
  unfold atomsValue
  rw [le_div_iff₀ hscale]

/-- The atoms that a number of reference atoms converts to are the least that are worth as much. -/
theorem isLeast_ceilInAsset (hrate : 0 < rate) (ref : ℕ) :
    IsLeast {n : ℕ | (ref : ℚ) ≤ atomsValue n rate} (ceilInAsset ref rate) := by
  have hiff : ∀ n : ℕ, (ref : ℚ) ≤ atomsValue n rate ↔ ceilInAsset ref rate ≤ n := by
    intro n
    rw [le_atomsValue_iff, ceilInAsset_le_iff hrate]
    norm_cast
  exact ⟨(hiff _).2 le_rfl, fun n hn => (hiff n).1 hn⟩

/-- The converted feerate is worth the feerate, and so is the fee that it is rounded up to. -/
theorem channelFee_value (hcp : cp.hasAnchorHeader = true) (hrate : 0 < rate)
    (hsat : ceilInAsset f.toNat rate < 2 ^ 32) :
    (f.toNat * w : ℚ) / 1000 ≤ atomsValue (channelFee cp f w rate) rate := by
  have hfeerate : (feerateInAsset f rate).toNat = ceilInAsset f.toNat rate := by
    rw [feerateInAsset_toNat hrate]
    exact min_eq_left (by omega)
  have hworth : f.toNat * exchangeRateScale.toNat ≤ ceilInAsset f.toNat rate * rate.toNat :=
    (ceilInAsset_le_iff hrate).1 le_rfl
  have hround : ceilInAsset f.toNat rate * w ≤ 1000 * channelFee cp f w rate := by
    unfold channelFee amountTxFee
    rw [if_pos hcp, hfeerate]
    omega
  have hnat : f.toNat * w * exchangeRateScale.toNat ≤ 1000 * channelFee cp f w rate * rate.toNat := by
    calc f.toNat * w * exchangeRateScale.toNat
        = f.toNat * exchangeRateScale.toNat * w := Nat.mul_right_comm _ _ _
      _ ≤ ceilInAsset f.toNat rate * rate.toNat * w := Nat.mul_le_mul_right w hworth
      _ = ceilInAsset f.toNat rate * w * rate.toNat := Nat.mul_right_comm _ _ _
      _ ≤ 1000 * channelFee cp f w rate * rate.toNat := Nat.mul_le_mul_right _ hround
  rw [le_atomsValue_iff, div_mul_eq_mul_div, div_le_iff₀ (by norm_num)]
  have hcast : ((f.toNat * w * exchangeRateScale.toNat : ℕ) : ℚ) ≤
      ((1000 * channelFee cp f w rate * rate.toNat : ℕ) : ℚ) := Nat.cast_le.2 hnat
  push_cast at hcast
  linarith

lemma channelFee_mono (hrate : 0 < rate) (hf : f ≤ g) (hw : w ≤ v) :
    channelFee cp f w rate ≤ channelFee cp g v rate := by
  apply amountTxFee_mono cp _ hw
  rw [feerateInAsset_toNat hrate, feerateInAsset_toNat hrate]
  exact min_le_min_right _ (ceilInAsset_mono hrate (UInt32.le_iff_toNat_le.1 hf))

lemma assetTxFee_mono (hrate : 0 < rate) (hf : f ≤ g) (hw : w ≤ v) (hv : v < 2 ^ 32) :
    assetTxFee cp f w rate ≤ assetTxFee cp g v rate := by
  rw [UInt64.le_iff_toNat_le, assetTxFee_toNat hrate (lt_of_le_of_lt hw hv), assetTxFee_toNat hrate hv]
  apply min_le_min_right
  exact ceilInAsset_mono hrate (amountTxFee_mono cp (UInt32.le_iff_toNat_le.1 hf) hw)

end value

/-- On a network with anchor headers, for every rate: a channel's fee is worth its feerate and weight; the
wallet's is the least that is worth the reference fee; both where nothing saturates. Both grow with the
feerate and the weight, and the division by words is that of 128 bits. -/
theorem asset_fees_keep_value (cp : ChainParams) (hcp : cp.hasAnchorHeader = true) (rate : UInt64)
    (hrate : 0 < rate) :
    (∀ (f : UInt32) (w : ℕ), w < 2 ^ 32 → ceilInAsset f.toNat rate < 2 ^ 32 →
      (f.toNat * w : ℚ) / 1000 ≤ atomsValue (channelFee cp f w rate) rate) ∧
    (∀ (f : UInt32) (w : ℕ), w < 2 ^ 32 → ceilInAsset (amountTxFee cp f.toNat w) rate < 2 ^ 64 →
      IsLeast {n : ℕ | (amountTxFee cp f.toNat w : ℚ) ≤ atomsValue n rate}
        (assetTxFee cp f w rate).toNat) ∧
    (∀ (f g : UInt32) (w v : ℕ), f ≤ g → w ≤ v → v < 2 ^ 32 →
      channelFee cp f w rate ≤ channelFee cp g v rate ∧
        assetTxFee cp f w rate ≤ assetTxFee cp g v rate) ∧
    ∀ a b add div : UInt64, div ≠ 0 →
      u64MulAddDivPortable a b add div = u64MulAddDiv a b add div := by
  refine ⟨fun f w _ hsat => channelFee_value hcp hrate hsat, fun f w hw hsat => ?_,
    fun f g w v hf hw hv => ⟨channelFee_mono hrate hf hw, assetTxFee_mono hrate hf hw hv⟩,
    fun a b add div hdiv => u64MulAddDivPortable_eq hdiv⟩
  rw [assetTxFee_toNat hrate hw, min_eq_left (by omega)]
  exact isLeast_ceilInAsset hrate _

namespace AssetFeeExample

def sequentia : ChainParams := ⟨4294967295, true, true, fun feerate => feerate⟩

/-- An asset of which an atom is worth twice a reference atom: a transaction of 724 weight units at 253 a
thousand has a fee of 92 atoms. -/
theorem asset_fees_keep_value_twice :
    (183.172 : ℚ) ≤ atomsValue (channelFee sequentia 253 724 200000000) 200000000 ∧
      IsLeast {n : ℕ | (184 : ℚ) ≤ atomsValue n 200000000} 92 ∧
      u64MulAddDivPortable 184 exchangeRateScale 199999999 200000000 = 92 := by
  obtain ⟨hchannel, hwallet, -, hportable⟩ :=
    asset_fees_keep_value sequentia rfl 200000000 (by decide)
  refine ⟨?_, ?_, ?_⟩
  · have h := hchannel 253 724 (by decide) (by decide)
    refine le_trans (le_of_eq ?_) h
    show (183.172 : ℚ) = ((253 : ℕ) : ℚ) * ((724 : ℕ) : ℚ) / 1000
    norm_num
  · exact hwallet 253 724 (by decide) (by decide)
  · rw [hportable 184 exchangeRateScale 199999999 200000000 (by decide)]
    decide

end AssetFeeExample

end SeqLN.Wallet
