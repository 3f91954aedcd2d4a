import SeqLN.Lib.Bytes

/-!
# Script numbers

The variable-length integers of the script interpreter: little-endian magnitude with the sign in
the top bit of the last byte, zero the empty string, and every number in its shortest form.

* `scriptNum n` — the encoding of a non-negative number.
* `readScriptNum w b` — the reading of a string of at most `w` bytes, refusing a longer or a
  non-minimal one. `readScriptNum_scriptNum`: it reads back every encoding that fits.
-/

namespace SeqLN

/-- The magnitude bytes of `n`, least significant first, none for zero. -/
def magnitude (n : ℕ) : Bytes := (Nat.digits 256 n).map UInt8.ofNat

/-- The top bit of the last byte: the sign of a script number. -/
def signBit (b : Bytes) : Bool :=
  match b.getLast? with
  | some top => 128 ≤ top.toNat
  | none => false

/-- A non-negative script number, minimally encoded: a zero byte is added only where the top bit
would be read as a sign. -/
def scriptNum (n : ℕ) : Bytes :=
  if signBit (magnitude n) then magnitude n ++ [0] else magnitude n

/-- A string with no shorter encoding of its number: its last byte is more than a bare sign, unless
the byte before it needs one. -/
def isMinimal (b : Bytes) : Bool :=
  match b.getLast? with
  | some top => top.toNat % 128 ≠ 0 || signBit b.dropLast
  | none => true

/-- The number a script string of at most `w` bytes denotes; `none` for a string the interpreter
refuses. -/
def readScriptNum (w : ℕ) (b : Bytes) : Option ℤ :=
  if b.length ≤ w && isMinimal b then
    if signBit b then some (128 * 256 ^ (b.length - 1) - leNat b) else some (leNat b)
  else none

/-! ### Reading back an encoding -/

/-- A zero byte at the end changes nothing. -/
theorem leNat_append_zero (b : Bytes) : leNat (b ++ [0]) = leNat b := by
  induction b with
  | nil => rfl
  | cons x bs ih => simp [leNat, ih]

/-- Digits in base 256, as bytes. -/
theorem leNat_map_ofNat {d : List ℕ} (h : ∀ x ∈ d, x < 256) :
    leNat (d.map UInt8.ofNat) = Nat.ofDigits 256 d := by
  induction d with
  | nil => rfl
  | cons x d ih =>
    have hx : x < 256 := h x List.mem_cons_self
    rw [List.map_cons, leNat, ih fun y hy => h y (List.mem_cons_of_mem _ hy), Nat.ofDigits_cons,
      UInt8.toNat_ofNat_of_lt' (by simpa using hx)]

/-- The magnitude is read back. -/
theorem leNat_magnitude (n : ℕ) : leNat (magnitude n) = n := by
  rw [magnitude, leNat_map_ofNat fun x hx => Nat.digits_lt_base (by norm_num) hx,
    Nat.ofDigits_digits]

/-- An encoding has the magnitude of its number. -/
theorem leNat_scriptNum (n : ℕ) : leNat (scriptNum n) = n := by
  unfold scriptNum
  split
  · rw [leNat_append_zero, leNat_magnitude]
  · exact leNat_magnitude n

/-- The sign is that of the last byte. -/
@[simp] theorem signBit_append_singleton (b : Bytes) (x : UInt8) :
    signBit (b ++ [x]) = decide (128 ≤ x.toNat) := by
  simp [signBit]

/-- An encoding has no sign. -/
theorem signBit_scriptNum (n : ℕ) : signBit (scriptNum n) = false := by
  unfold scriptNum
  split
  · simp
  · next hs => exact eq_false_of_ne_true hs

/-- The last byte of a magnitude is not zero. -/
theorem getLast?_magnitude_ne_zero {n : ℕ} {top : UInt8} (h : (magnitude n).getLast? = some top) :
    top.toNat ≠ 0 := by
  have hne : Nat.digits 256 n ≠ [] := by
    intro h0
    simp [magnitude, h0] at h
  have hlast : (Nat.digits 256 n).getLast hne ≠ 0 := by
    refine Nat.getLast_digit_ne_zero 256 ?_
    rintro rfl
    exact hne (Nat.digits_zero 256)
  have hlt : (Nat.digits 256 n).getLast hne < 256 :=
    Nat.digits_lt_base (by norm_num) (List.getLast_mem hne)
  rw [magnitude, List.getLast?_map, List.getLast?_eq_some_getLast hne] at h
  obtain rfl : UInt8.ofNat ((Nat.digits 256 n).getLast hne) = top := by simpa using h
  rwa [UInt8.toNat_ofNat_of_lt' (by simpa using hlt)]

/-- An encoding is minimal. -/
theorem isMinimal_scriptNum (n : ℕ) : isMinimal (scriptNum n) = true := by
  by_cases hs : signBit (magnitude n) = true
  · simp [scriptNum, hs, isMinimal]
  · rw [scriptNum, if_neg hs, isMinimal]
    split
    · next top htop =>
      -- the last byte is below the sign bit and not zero
      have h0 := getLast?_magnitude_ne_zero htop
      have h1 : ¬ 128 ≤ top.toNat := by
        intro h128
        exact hs (by simp [signBit, htop, h128])
      simp only [Bool.or_eq_true, decide_eq_true_eq]
      left
      omega
    · rfl

/-- An encoding that fits is read back. -/
theorem readScriptNum_scriptNum (w n : ℕ) :
    readScriptNum w (scriptNum n) = if (scriptNum n).length ≤ w then some (n : ℤ) else none := by
  simp [readScriptNum, isMinimal_scriptNum, signBit_scriptNum, leNat_scriptNum]

/-- A number whose magnitude leaves the sign bit of `w + 1` bytes free is encoded in `w + 1`
bytes. -/
theorem length_scriptNum_le {w n : ℕ} (h : n < 128 * 256 ^ w) : (scriptNum n).length ≤ w + 1 := by
  have hlen : (magnitude n).length ≤ w + 1 := by
    rw [magnitude, List.length_map, Nat.digits_length_le_iff (by norm_num), pow_succ]
    omega
  unfold scriptNum
  split
  · next hs =>
    -- a set top bit at full length would put `n` past the bound
    rw [List.length_append, List.length_singleton]
    by_contra hgt
    have hw : (magnitude n).length = w + 1 := by omega
    have hne : magnitude n ≠ [] := by
      intro h0
      simp [h0] at hw
    obtain ⟨bs, top, htop⟩ : ∃ bs top, magnitude n = bs ++ [top] :=
      ⟨_, _, (List.dropLast_append_getLast hne).symm⟩
    have hbs : bs.length = w := by simpa [htop] using hw
    have h128 : 128 ≤ top.toNat := by simpa [htop] using hs
    have hn : leNat (bs ++ [top]) = n := by rw [← htop, leNat_magnitude]
    have hsplit : ∀ l : Bytes, leNat (l ++ [top]) = leNat l + 256 ^ l.length * top.toNat := by
      intro l
      induction l with
      | nil => simp [leNat]
      | cons x l ih => simp only [List.cons_append, leNat, ih, List.length_cons]; ring
    have := hsplit bs
    rw [hn, hbs] at this
    have hle : 256 ^ w * 128 ≤ 256 ^ w * top.toNat := Nat.mul_le_mul_left _ h128
    omega
  · exact hlen

/-- A script number of either sign. -/
def scriptNumInt : ℤ → Bytes
  | .ofNat n => scriptNum n
  | .negSucc n =>
    let m := magnitude (n + 1)
    if signBit m then m ++ [0x80] else m.dropLast ++ [m.getLastD 0 ||| 0x80]

end SeqLN
