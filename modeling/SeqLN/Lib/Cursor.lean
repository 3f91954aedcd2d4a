import SeqLN.Lib.Bytes

/-!
# Reading through a cursor that fails for good

A read that does not fit gives zeros, and the cursor is gone from then on: every later read gives zeros
too, and only the end of the message looks whether the cursor is still there.

* `Takes r b a` — off a string that starts with `b`, the reader takes `b` and returns `a`; off a
  proper prefix of `b` it loses the cursor. `Takes.bind` chains the parts of a message.
* `Sticky r` — the reader does not bring a lost cursor back.
-/

namespace SeqLN.Lib

open List

/-- A reader through a cursor, which is `none` once a read has failed. -/
abbrev Fromwire (α : Type) : Type := StateM (Option Bytes) α

namespace Fromwire

variable {α β : Type}

/-- The next `n` bytes; zeros where there are not as many. -/
def fixed (n : ℕ) : Fromwire (ByteString n)
  | some b =>
    if h : n ≤ b.length then (⟨b.take n, length_take_of_le h⟩, some (b.drop n))
    else (ByteString.replicate n 0, none)
  | none => (ByteString.replicate n 0, none)

/-- Loses the cursor. -/
def fail : Fromwire Unit := fun _ => ((), none)

/-- Loses the cursor unless the condition holds. -/
def check (p : Prop) [Decidable p] : Fromwire Unit := if p then pure () else fail

/-- Whether the cursor is still there. -/
def alive : Fromwire Bool := fun cur => (cur.isSome, cur)

/-- A big-endian word of `w` bytes. -/
def be (w : ℕ) : Fromwire ℕ := do
  let b ← fixed w
  return leNat b.bytes.reverse

/-- As many of the same as a count says. -/
def times : ℕ → Fromwire α → Fromwire (List α)
  | 0, _ => pure []
  | n + 1, r => do
    let a ← r
    let as ← times n r
    return a :: as

/-- What was read, where the cursor is still there. -/
def orNone (a : α) : Fromwire (Option α) := do
  if ← alive then return some a else return none

/-! ### A lost cursor stays lost -/

/-- The reader does not bring a lost cursor back. A class, since it is asked of all that follows each
step of a message. -/
class Sticky (r : Fromwire α) : Prop where
  lost : (r none).2 = none

instance (a : α) : Sticky (Pure.pure a : Fromwire α) := ⟨rfl⟩

instance Sticky.bind (r : Fromwire α) (f : α → Fromwire β) [h : Sticky r] [hf : ∀ a, Sticky (f a)] :
    Sticky (r >>= f) where
  lost := by
    change (f (r none).1 (r none).2).2 = none
    rw [h.lost]
    exact (hf _).lost

instance (p : Prop) [Decidable p] (r r' : Fromwire α) [h : Sticky r] [h' : Sticky r'] :
    Sticky (if p then r else r') := by
  split
  · exact h
  · exact h'

instance (n : ℕ) : Sticky (fixed n) := ⟨rfl⟩

instance : Sticky fail := ⟨rfl⟩

instance : Sticky alive := ⟨rfl⟩

instance (p : Prop) [Decidable p] : Sticky (check p) := inferInstanceAs (Sticky (ite _ _ _))

instance (w : ℕ) : Sticky (be w) := inferInstanceAs (Sticky (_ >>= _))

instance (a : α) : Sticky (orNone a) := inferInstanceAs (Sticky (_ >>= _))

instance Sticky.times (r : Fromwire α) [Sticky r] (n : ℕ) : Sticky (times n r) := by
  induction n with
  | zero => exact inferInstanceAs (Sticky (Pure.pure []))
  | succ n ih => exact inferInstanceAs (Sticky (r >>= _))

/-! ### What a reader takes -/

variable {b : Bytes} {n : ℕ}

/-- Off a string that starts with `b` the reader takes `b` and returns `a`; a string that ends inside
`b` makes it fail. -/
structure Takes (r : Fromwire α) (b : Bytes) (a : α) : Prop where
  whole : ∀ rest, r (some (b ++ rest)) = (a, some rest)
  cut : ∀ p, p <+: b → p ≠ b → (r (some p)).2 = none

/-- Nothing is taken for a value that is given. -/
theorem Takes.pure (a : α) : Takes (Pure.pure a : Fromwire α) [] a where
  whole _ := rfl
  cut _ hp hne := absurd (prefix_nil.1 hp) hne

/-- One part after another. -/
theorem Takes.bind {r : Fromwire α} {f : α → Fromwire β} {b' : Bytes} {a : α} {c : β}
    (h : Takes r b a) (h' : Takes (f a) b' c) [hf : ∀ x, Sticky (f x)] :
    Takes (r >>= f) (b ++ b') c where
  whole rest := by
    change f (r (some (b ++ b' ++ rest))).1 (r (some (b ++ b' ++ rest))).2 = _
    rw [append_assoc, h.whole]
    exact h'.whole rest
  cut p hp hne := by
    change (f (r (some p)).1 (r (some p)).2).2 = none
    -- the cut is inside the first part, or behind it
    rcases prefix_or_prefix_of_prefix hp (prefix_append b b') with hin | ⟨q, rfl⟩
    · by_cases heq : p = b
      · subst heq
        have hwhole := h.whole []
        rw [append_nil] at hwhole
        rw [hwhole]
        exact h'.cut [] nil_prefix fun h0 => hne (by rw [← h0, append_nil])
      · rw [h.cut p hin heq]
        exact (hf _).lost
    · rw [h.whole q]
      exact h'.cut q ((prefix_append_right_inj b).1 hp) fun h0 => hne (by rw [h0])

/-- The last of several: what is returned is made from what was read. -/
theorem Takes.map {r : Fromwire α} {f : α → β} {a : α} (h : Takes r b a) :
    Takes (r >>= fun x => Pure.pure (f x)) b (f a) := by
  have hb : Takes (r >>= fun x => Pure.pure (f x)) (b ++ []) (f a) := h.bind (Takes.pure (f a))
  rwa [append_nil] at hb

/-- A step that takes nothing, in front of the rest. -/
theorem Takes.nil_bind {r : Fromwire α} {f : α → Fromwire β} {a : α} {c : β} (h : Takes r [] a)
    (h' : Takes (f a) b c) [∀ x, Sticky (f x)] : Takes (r >>= f) b c :=
  h.bind h'

/-- A step that takes nothing, behind the rest. -/
theorem Takes.bind_nil {r : Fromwire α} {f : α → Fromwire β} {a : α} {c : β} (h : Takes r b a)
    (h' : Takes (f a) [] c) [∀ x, Sticky (f x)] : Takes (r >>= f) b c := by
  have hb := h.bind h'
  rwa [append_nil] at hb

/-- A string that could not be read is zeros. -/
theorem fixed_eq_zeros {cur : Option Bytes} (h : (Fromwire.fixed n cur).2 = none) :
    (Fromwire.fixed n cur).1 = ByteString.replicate n 0 := by
  cases cur with
  | none => rfl
  | some b =>
    by_cases hle : n ≤ b.length
    · rw [Fromwire.fixed, dif_pos hle] at h
      exact absurd h (by simp)
    · rw [Fromwire.fixed, dif_neg hle]

/-- A string of fixed length. -/
theorem Takes.fixed (b : ByteString n) : Takes (Fromwire.fixed n) b.bytes b where
  whole rest := by
    have hle : n ≤ (b.bytes ++ rest).length := by
      rw [length_append, b.length_bytes]
      omega
    have htake : (b.bytes ++ rest).take n = b.bytes := take_left' b.length_bytes
    have hdrop : (b.bytes ++ rest).drop n = rest := drop_left' b.length_bytes
    rw [Fromwire.fixed, dif_pos hle, hdrop]
    exact Prod.ext (Subtype.ext htake) rfl
  cut p hp hne := by
    have hlt : ¬ n ≤ p.length := fun hle => hne (hp.eq_of_length_le (by rwa [b.length_bytes]))
    rw [Fromwire.fixed, dif_neg hlt]

/-- A check that passes takes nothing. -/
theorem Takes.check {p : Prop} [Decidable p] (h : p) : Takes (Fromwire.check p) [] () := by
  rw [Fromwire.check, if_pos h]
  exact Takes.pure ()

/-- Whether the cursor is there takes nothing. -/
theorem Takes.orNone (a : α) : Takes (Fromwire.orNone a) [] (some a) where
  whole _ := rfl
  cut _ hp hne := absurd (prefix_nil.1 hp) hne

/-- The big-endian encoding of a word. -/
def beBytes (w n : ℕ) : Bytes := (leBytes w n).reverse

/-- An encoding has its width. -/
@[simp] theorem length_beBytes (w n : ℕ) : (beBytes w n).length = w := by simp [beBytes]

/-- A word that fits. -/
theorem Takes.be {w : ℕ} (h : n < 256 ^ w) : Takes (Fromwire.be w) (beBytes w n) n := by
  let b : ByteString w := ⟨beBytes w n, length_beBytes w n⟩
  have hb := (Takes.fixed b).map (f := fun b => leNat b.bytes.reverse)
  have hval : leNat b.bytes.reverse = n := by
    change leNat (leBytes w n).reverse.reverse = n
    rw [reverse_reverse, leNat_leBytes_of_lt h]
  rwa [hval] at hb

/-- As many as there are. -/
theorem Takes.times {r : Fromwire α} [Sticky r] {enc : α → Bytes} {as : List α}
    (h : ∀ a ∈ as, Takes r (enc a) a) : Takes (Fromwire.times as.length r) (as.flatMap enc) as := by
  induction as with
  | nil => exact Takes.pure []
  | cons a as ih =>
    have hrest := ih fun x hx => h x (mem_cons_of_mem a hx)
    exact (h a mem_cons_self).bind hrest.map

/-- A message read off exactly its own bytes. -/
theorem Takes.run {r : Fromwire α} {a : α} (h : Takes r b a) : r (some b) = (a, some []) := by
  simpa using h.whole []

/-! ### Words and flags -/

/-- A word of one byte. -/
def u8 : Fromwire UInt8 := do return UInt8.ofNat (← be 1)

/-- A word of two bytes. -/
def u16 : Fromwire UInt16 := do return UInt16.ofNat (← be 2)

/-- A word of four bytes. -/
def u32 : Fromwire UInt32 := do return UInt32.ofNat (← be 4)

/-- A word of eight bytes. -/
def u64 : Fromwire UInt64 := do return UInt64.ofNat (← be 8)

/-- A flag: a byte of zero or one. -/
def bool : Fromwire Bool := do
  let b ← u8
  check (b = 0 ∨ b = 1)
  return b ≠ 0

/-- The byte of a flag. -/
def boolBytes (v : Bool) : Bytes := beBytes 1 (if v then 1 else 0 : UInt8).toNat

/-- A part behind a flag that says whether it is there. -/
def flagged (r : Fromwire (Option α)) : Fromwire (Option α) := do
  if ← bool then r else return none

/-- The flag and, where there is one, the part. -/
def flaggedBytes (enc : α → Bytes) : Option α → Bytes
  | some a => boolBytes true ++ enc a
  | none => boolBytes false

instance : Sticky u8 := inferInstanceAs (Sticky (_ >>= _))

instance : Sticky u16 := inferInstanceAs (Sticky (_ >>= _))

instance : Sticky u32 := inferInstanceAs (Sticky (_ >>= _))

instance : Sticky u64 := inferInstanceAs (Sticky (_ >>= _))

instance : Sticky bool := inferInstanceAs (Sticky (_ >>= _))

instance (r : Fromwire (Option α)) [Sticky r] : Sticky (flagged r) :=
  inferInstanceAs (Sticky (_ >>= _))

/-- A word of one byte. -/
theorem Takes.u8 (x : UInt8) : Takes Fromwire.u8 (beBytes 1 x.toNat) x := by
  have h := (Takes.be (w := 1) x.toNat_lt).map (f := UInt8.ofNat)
  rwa [UInt8.ofNat_toNat] at h

/-- A word of two bytes. -/
theorem Takes.u16 (x : UInt16) : Takes Fromwire.u16 (beBytes 2 x.toNat) x := by
  have h := (Takes.be (w := 2) x.toNat_lt).map (f := UInt16.ofNat)
  rwa [UInt16.ofNat_toNat] at h

/-- A word of four bytes. -/
theorem Takes.u32 (x : UInt32) : Takes Fromwire.u32 (beBytes 4 x.toNat) x := by
  have h := (Takes.be (w := 4) x.toNat_lt).map (f := UInt32.ofNat)
  rwa [UInt32.ofNat_toNat] at h

/-- A word of eight bytes. -/
theorem Takes.u64 (x : UInt64) : Takes Fromwire.u64 (beBytes 8 x.toNat) x := by
  have h := (Takes.be (w := 8) x.toNat_lt).map (f := UInt64.ofNat)
  rwa [UInt64.ofNat_toNat] at h

/-- A count that fits its word. -/
theorem Takes.count (h : n < 2 ^ 16) : Takes Fromwire.u16 (beBytes 2 n) (UInt16.ofNat n) :=
  (Takes.be (w := 2) h).map (f := UInt16.ofNat)

/-- A flag. -/
theorem Takes.bool (v : Bool) : Takes Fromwire.bool (boolBytes v) v := by
  cases v
  · exact (Takes.u8 0).bind_nil ((Takes.check (.inl rfl)).map (f := fun _ => false))
  · exact (Takes.u8 1).bind_nil ((Takes.check (.inr rfl)).map (f := fun _ => true))

/-- A part behind its flag. -/
theorem Takes.flagged {r : Fromwire (Option α)} [Sticky r] {enc : α → Bytes} {o : Option α}
    (h : ∀ a ∈ o, Takes r (enc a) (some a)) :
    Takes (Fromwire.flagged r) (flaggedBytes enc o) o := by
  cases o with
  | none => exact (Takes.bool false).bind_nil (Takes.pure none)
  | some a => exact (Takes.bool true).bind (h a rfl)

/-- A word that could not be read is zero. -/
theorem u64_eq_zero {cur : Option Bytes} (h : (Fromwire.u64 cur).2 = none) :
    (Fromwire.u64 cur).1 = 0 := by
  have hz : (Fromwire.fixed 8 cur).1 = ByteString.replicate 8 0 := fixed_eq_zeros h
  change UInt64.ofNat (leNat (Fromwire.fixed 8 cur).1.bytes.reverse) = 0
  rw [hz]
  rfl

end Fromwire

end SeqLN.Lib
