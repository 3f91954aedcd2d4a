import Mathlib

/-!
# Byte strings and fixed-width integers

* `leBytes w n` — the `w`-byte little-endian encoding of `n` (truncating, as a C cast does), and
  `leNat`, its reading.
* `wrapS64` — an integer brought into the range of a signed 64-bit word.
* `ByteString n` — a byte string that carries its length.
-/

namespace SeqLN

open List

/-- A byte string. -/
abbrev Bytes := List UInt8

/-- A byte string of `n` bytes, for fields whose length the data type fixes. -/
def ByteString (n : ℕ) := { b : Bytes // b.length = n }

instance (n : ℕ) : DecidableEq (ByteString n) :=
  inferInstanceAs (DecidableEq { b : Bytes // b.length = n })

instance {n : ℕ} (b : ByteString n) (l : List (ByteString n)) : Decidable (b ∈ l) :=
  List.instDecidableMemOfLawfulBEq b l

namespace ByteString

variable {n : ℕ}

/-- The bytes of a fixed-length string. -/
def bytes (b : ByteString n) : Bytes := b.1

/-- The length is the one of the type. -/
@[simp] theorem length_bytes (b : ByteString n) : b.bytes.length = n := b.2

/-- Fixed-length strings of the same bytes are equal. -/
theorem ext {a b : ByteString n} (h : a.bytes = b.bytes) : a = b := Subtype.ext h

/-- The string of `n` equal bytes. -/
def replicate (n : ℕ) (b : UInt8) : ByteString n := ⟨List.replicate n b, by simp⟩

/-- The bytes of a string of equal bytes. -/
@[simp] theorem bytes_replicate (b : UInt8) : (replicate n b).bytes = List.replicate n b := rfl

/-- The first `n` bytes of a string, filled up with zeros. -/
def pad (n : ℕ) (b : Bytes) : ByteString n := ⟨(b ++ List.replicate n 0).take n, by simp⟩

/-- What is left of a compressed key without its first byte. -/
theorem length_xonly (key : ByteString 33) : (key.bytes.drop 1).length = 32 := by
  rw [length_drop, length_bytes]

end ByteString

/-! ### Lists of parts -/

section parts

variable {α β γ : Type} {f : α → List γ} {g : β → List γ} {w : ℕ}

/-- Parts of at least `w` elements, joined. -/
theorem mul_length_le_length_flatMap {l : List α} (hf : ∀ x ∈ l, w ≤ (f x).length) :
    w * l.length ≤ (l.flatMap f).length := by
  induction l with
  | nil => simp
  | cons x l ih =>
    have hx := hf x mem_cons_self
    have hl := ih fun y hy => hf y (mem_cons_of_mem _ hy)
    simp only [length_cons, flatMap_cons, length_append, Nat.mul_add]
    omega

/-- Parts of `w` elements, joined. -/
theorem length_flatMap_eq_mul {l : List β} (hg : ∀ y ∈ l, (g y).length = w) :
    (l.flatMap g).length = w * l.length := by
  induction l with
  | nil => simp
  | cons y l ih =>
    have hy := hg y mem_cons_self
    have hl := ih fun z hz => hg z (mem_cons_of_mem _ hz)
    simp only [length_cons, flatMap_cons, length_append, Nat.mul_add]
    omega

/-- As many parts of at least `w` as of exactly `w` elements, joined to the same string, are the
same parts. -/
theorem forall₂_of_flatMap_eq {l : List α} {l' : List β} (hlen : l.length = l'.length)
    (hf : ∀ x ∈ l, w ≤ (f x).length) (hg : ∀ y ∈ l', (g y).length = w)
    (h : l.flatMap f = l'.flatMap g) : List.Forall₂ (fun x y => f x = g y) l l' := by
  induction l generalizing l' with
  | nil =>
    obtain rfl : l' = [] := eq_nil_of_length_eq_zero hlen.symm
    exact .nil
  | cons x l ih =>
    obtain ⟨y, l', rfl⟩ := exists_cons_of_length_eq_add_one hlen.symm
    have hl : ∀ z ∈ l, w ≤ (f z).length := fun z hz => hf z (mem_cons_of_mem _ hz)
    have hl' : ∀ z ∈ l', (g z).length = w := fun z hz => hg z (mem_cons_of_mem _ hz)
    have hx := hf x mem_cons_self
    have hy := hg y mem_cons_self
    have hlen' : l.length = l'.length := by simpa using hlen
    -- the later parts leave exactly `w` elements for the first one
    have hxy : (f x).length = (g y).length := by
      have hge := mul_length_le_length_flatMap hl
      have heq := length_flatMap_eq_mul hl'
      have htot := congrArg List.length h
      simp only [flatMap_cons, length_append] at htot
      rw [hlen'] at hge
      omega
    obtain ⟨hhead, htail⟩ := append_inj h hxy
    exact .cons hhead (ih hlen' hl hl' htail)

end parts

/-! ### Little-endian integers -/

/-- The low `w` bytes of `n`, least significant first. -/
def leBytes : ℕ → ℕ → Bytes
  | 0, _ => []
  | w + 1, n => UInt8.ofNat (n % 256) :: leBytes w (n / 256)

/-- The number a little-endian byte string denotes. -/
def leNat : Bytes → ℕ
  | [] => 0
  | b :: bs => b.toNat + 256 * leNat bs

/-- An encoding has its width. -/
@[simp] theorem length_leBytes (w n : ℕ) : (leBytes w n).length = w := by
  induction w generalizing n with
  | zero => rfl
  | succ w ih => simp [leBytes, ih]

/-- Reading an encoding gives the number it was cut to. -/
theorem leNat_leBytes (w n : ℕ) : leNat (leBytes w n) = n % 256 ^ w := by
  induction w generalizing n with
  | zero => simp [leBytes, leNat, Nat.mod_one]
  | succ w ih =>
    have hb : (UInt8.ofNat (n % 256)).toNat = n % 256 := by simp
    rw [leBytes, leNat, ih, hb, pow_succ', Nat.mod_mul]

/-- A number that fits is read back. -/
theorem leNat_leBytes_of_lt {w n : ℕ} (h : n < 256 ^ w) : leNat (leBytes w n) = n := by
  rw [leNat_leBytes, Nat.mod_eq_of_lt h]

/-- Two words of the same width have the same encoding only when they are equal. -/
theorem leBytes_inj {w m n : ℕ} (hm : m < 256 ^ w) (hn : n < 256 ^ w)
    (h : leBytes w m = leBytes w n) : m = n := by
  rw [← leNat_leBytes_of_lt hm, ← leNat_leBytes_of_lt hn, h]

/-! ### Signed 64-bit words -/

/-- The signed 64-bit word congruent to `x`: what two's complement arithmetic keeps of it. -/
def wrapS64 (x : ℤ) : ℤ := (x + 2 ^ 63) % 2 ^ 64 - 2 ^ 63

/-- The range of a signed 64-bit word. -/
def IsS64 (x : ℤ) : Prop := -2 ^ 63 ≤ x ∧ x < 2 ^ 63

instance (x : ℤ) : Decidable (IsS64 x) := inferInstanceAs (Decidable (_ ∧ _))

/-- A wrapped integer is a signed word. -/
theorem isS64_wrapS64 (x : ℤ) : IsS64 (wrapS64 x) := by
  unfold IsS64 wrapS64
  omega

/-- A signed word is left as it is. -/
theorem wrapS64_of_isS64 {x : ℤ} (h : IsS64 x) : wrapS64 x = x := by
  unfold IsS64 at h
  unfold wrapS64
  omega

/-- The 8-byte little-endian two's complement encoding of a signed word. -/
def le8s (v : ℤ) : Bytes := leBytes 8 (v % 2 ^ 64).toNat

/-- The signed word that eight bytes denote. -/
def readS64 (b : Bytes) : ℤ := wrapS64 (leNat b)

/-- A signed word takes eight bytes. -/
@[simp] theorem length_le8s (v : ℤ) : (le8s v).length = 8 := length_leBytes _ _

/-- A signed word is read back. -/
theorem readS64_le8s {v : ℤ} (h : IsS64 v) : readS64 (le8s v) = v := by
  have hlt : (v % 2 ^ 64).toNat < 256 ^ 8 := by omega
  rw [readS64, le8s, leNat_leBytes_of_lt hlt]
  unfold IsS64 at h
  unfold wrapS64
  omega

/-- Signed words are told apart by their encodings. -/
theorem le8s_inj {v w : ℤ} (hv : IsS64 v) (hw : IsS64 w) (h : le8s v = le8s w) : v = w := by
  rw [← readS64_le8s hv, ← readS64_le8s hw, h]

end SeqLN
