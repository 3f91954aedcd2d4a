import SeqLN.Lib.Bytes

/-!
# Readers of byte strings

A `Reader` takes what it reads off the front of a byte string, or fails.
-/

namespace SeqLN.Lib

/-- A reader: it takes a part off the front of a string, or fails with an error. -/
abbrev Reader (ε α : Type) : Type := StateT Bytes (Except ε) α

namespace Reader

variable {ε α β : Type}

/-- The next `n` bytes. -/
def take (short : ε) (n : ℕ) : Reader ε Bytes := fun b =>
  if n ≤ b.length then .ok (b.take n, b.drop n) else .error short

/-- Fails. -/
def fail (why : ε) : Reader ε α := fun _ => .error why

/-- Fails unless the condition holds. -/
def check (p : Prop) [Decidable p] (why : ε) : Reader ε Unit := if p then pure () else fail why

/-- The next `n` bytes, as a string of that length. -/
def fixed (short : ε) (n : ℕ) : Reader ε (ByteString n) := fun b =>
  if h : n ≤ b.length then .ok (⟨b.take n, List.length_take_of_le h⟩, b.drop n) else .error short

/-- A little-endian word of `w` bytes. -/
def le (short : ε) (w : ℕ) : Reader ε ℕ := do
  let b ← take short w
  return leNat b

/-- As many of the same as a count says. -/
def times : ℕ → Reader ε α → Reader ε (List α)
  | 0, _ => pure []
  | n + 1, r => do
    let a ← r
    let as ← times n r
    return a :: as

/-! ### What a reader takes -/

/-- The reader takes a string off whatever follows it. -/
def Reads (r : Reader ε α) (b : Bytes) (a : α) : Prop := ∀ rest, r (b ++ rest) = .ok (a, rest)

/-- The reader takes a string, whatever it makes of it. A class, since it is asked of each part. -/
class Opens (r : Reader ε α) (b : Bytes) : Prop where
  reads : ∃ a, Reads r b a

variable {r : Reader ε α} {f : α → Reader ε β} {b b' : Bytes} {a : α} {e : ε}

/-- A string whose first part is known is taken part by part. -/
theorem Reads.opens (h : Reads r b a) (hf : Opens (f a) b') : Opens (r >>= f) (b ++ b') := by
  obtain ⟨c, hc⟩ := hf
  refine ⟨c, fun rest => ?_⟩
  change Except.bind (r (b ++ b' ++ rest)) _ = _
  rw [List.append_assoc, h]
  exact hc rest

instance Opens.bind [h : Opens r b] [k : ∀ a, Opens (f a) b'] : Opens (r >>= f) (b ++ b') := by
  obtain ⟨a, ha⟩ := h
  exact ha.opens (k a)

instance Opens.last {g : α → β} [h : Opens r b] : Opens (r >>= fun a => pure (g a)) b := by
  obtain ⟨a, ha⟩ := h
  have hopen : Opens (r >>= fun a => pure (g a)) (b ++ []) := ha.opens ⟨g a, fun _ => rfl⟩
  rwa [List.append_nil] at hopen

/-- As many bytes as are asked for. -/
theorem reads_take (b : Bytes) : Reads (take e b.length) b b := by
  intro rest
  rw [take, if_pos (by simp), List.take_left, List.drop_left]

/-- A string of a fixed length. -/
theorem reads_fixed {n : ℕ} (b : ByteString n) : Reads (fixed e n) b.bytes b := by
  obtain ⟨b, rfl⟩ := b
  intro rest
  rw [fixed, dif_pos (by simp [ByteString.bytes])]
  simp [ByteString.bytes]

instance {n : ℕ} (b : ByteString n) : Opens (fixed e n) b.bytes := ⟨b, reads_fixed b⟩

/-- A number is read back as far as it fits. -/
theorem reads_le (w n : ℕ) : Reads (le e w) (leBytes w n) (n % 256 ^ w) := by
  intro rest
  have htake := reads_take (e := e) (leBytes w n) rest
  rw [length_leBytes] at htake
  change Except.bind (take e w (leBytes w n ++ rest)) _ = _
  rw [htake, ← leNat_leBytes]
  rfl

instance (w n : ℕ) : Opens (le e w) (leBytes w n) := ⟨_, reads_le w n⟩

/-- A list of parts. -/
theorem opens_times {γ : Type} {push : γ → Bytes} {xs : List γ} (h : ∀ x ∈ xs, Opens r (push x)) :
    Opens (times xs.length r) (xs.flatMap push) := by
  induction xs with
  | nil => exact ⟨[], fun _ => rfl⟩
  | cons x xs ih =>
    have := h x List.mem_cons_self
    have := ih fun y hy => h y (List.mem_cons_of_mem x hy)
    rw [List.flatMap_cons, List.length_cons, times]
    infer_instance

end Reader

end SeqLN.Lib
