import SeqLN.Lib.Bytes

/-!
# SHA256

The hash itself, on byte strings, so that a concrete transaction can be evaluated. Results about
scripts take the hash as a parameter; this is the instance their examples are run at. Words are
natural numbers below `2 ^ 32`.
-/

namespace SeqLN.Sha256

/-- The round constants. -/
def roundConstants : List ℕ :=
  [0x428a2f98, 0x71374491, 0xb5c0fbcf, 0xe9b5dba5, 0x3956c25b, 0x59f111f1,
   0x923f82a4, 0xab1c5ed5, 0xd807aa98, 0x12835b01, 0x243185be, 0x550c7dc3,
   0x72be5d74, 0x80deb1fe, 0x9bdc06a7, 0xc19bf174, 0xe49b69c1, 0xefbe4786,
   0x0fc19dc6, 0x240ca1cc, 0x2de92c6f, 0x4a7484aa, 0x5cb0a9dc, 0x76f988da,
   0x983e5152, 0xa831c66d, 0xb00327c8, 0xbf597fc7, 0xc6e00bf3, 0xd5a79147,
   0x06ca6351, 0x14292967, 0x27b70a85, 0x2e1b2138, 0x4d2c6dfc, 0x53380d13,
   0x650a7354, 0x766a0abb, 0x81c2c92e, 0x92722c85, 0xa2bfe8a1, 0xa81a664b,
   0xc24b8b70, 0xc76c51a3, 0xd192e819, 0xd6990624, 0xf40e3585, 0x106aa070,
   0x19a4c116, 0x1e376c08, 0x2748774c, 0x34b0bcb5, 0x391c0cb3, 0x4ed8aa4a,
   0x5b9cca4f, 0x682e6ff3, 0x748f82ee, 0x78a5636f, 0x84c87814, 0x8cc70208,
   0x90befffa, 0xa4506ceb, 0xbef9a3f7, 0xc67178f2]

/-- The eight working words. -/
structure State where
  a : ℕ
  b : ℕ
  c : ℕ
  d : ℕ
  e : ℕ
  f : ℕ
  g : ℕ
  h : ℕ

/-- The initial words. -/
def init : State :=
  ⟨0x6a09e667, 0xbb67ae85, 0x3c6ef372, 0xa54ff53a, 0x510e527f, 0x9b05688c, 0x1f83d9ab, 0x5be0cd19⟩

/-- Rotation of a word to the right. -/
def rotr (x n : ℕ) : ℕ := (x >>> n ||| x <<< (32 - n)) % 2 ^ 32

/-- The schedule word sixteen after the head of a sixteen-word window. -/
def nextWord (w : List ℕ) : ℕ :=
  let w1 := w.getD 1 0
  let w14 := w.getD 14 0
  let s0 := rotr w1 7 ^^^ rotr w1 18 ^^^ w1 >>> 3
  let s1 := rotr w14 17 ^^^ rotr w14 19 ^^^ w14 >>> 10
  (w.getD 0 0 + s0 + w.getD 9 0 + s1) % 2 ^ 32

/-- One round: the words mixed with a constant and the head of the schedule window, which moves on
by one word. -/
def round (s : State × List ℕ) (k : ℕ) : State × List ℕ :=
  let (v, w) := s
  let s1 := rotr v.e 6 ^^^ rotr v.e 11 ^^^ rotr v.e 25
  let ch := (v.e &&& v.f) ^^^ ((2 ^ 32 - 1 - v.e) &&& v.g)
  let t1 := v.h + s1 + ch + k + w.getD 0 0
  let s0 := rotr v.a 2 ^^^ rotr v.a 13 ^^^ rotr v.a 22
  let maj := (v.a &&& v.b) ^^^ (v.a &&& v.c) ^^^ (v.b &&& v.c)
  (⟨(t1 + s0 + maj) % 2 ^ 32, v.a, v.b, v.c, (v.d + t1) % 2 ^ 32, v.e, v.f, v.g⟩,
    w.drop 1 ++ [nextWord w])

/-- The big-endian word of four bytes. -/
def beWord (b : Bytes) : ℕ := b.foldl (fun n x => 256 * n + x.toNat) 0

/-- The sixteen words of a block. -/
def blockWords (block : Bytes) : List ℕ :=
  (List.range 16).map fun i => beWord ((block.drop (4 * i)).take 4)

/-- The words after one more block. -/
def compress (v : State) (block : Bytes) : State :=
  let r := (roundConstants.foldl round (v, blockWords block)).1
  let add x y := (x + y) % 2 ^ 32
  ⟨add v.a r.a, add v.b r.b, add v.c r.c, add v.d r.d,
    add v.e r.e, add v.f r.f, add v.g r.g, add v.h r.h⟩

/-- The message with its padding: a one bit, zeros, and the length in bits as a 64-bit word. -/
def pad (m : Bytes) : Bytes :=
  m ++ 0x80 :: List.replicate ((119 - m.length % 64) % 64) 0 ++ (leBytes 8 (8 * m.length)).reverse

/-- The four big-endian bytes of a word. -/
def wordBytes (x : ℕ) : Bytes := (leBytes 4 x).reverse

/-- The bytes of the working words. -/
def State.bytes (v : State) : Bytes :=
  wordBytes v.a ++ wordBytes v.b ++ wordBytes v.c ++ wordBytes v.d ++
    wordBytes v.e ++ wordBytes v.f ++ wordBytes v.g ++ wordBytes v.h

/-- SHA256 of a byte string. -/
def sha256 (m : Bytes) : Bytes :=
  let p := pad m
  ((List.range (p.length / 64)).foldl (fun v i => compress v ((p.drop (64 * i)).take 64)) init).bytes

/-- A digest has 32 bytes. -/
theorem length_sha256 (m : Bytes) : (sha256 m).length = 32 := by
  simp [sha256, State.bytes, wordBytes]

-- the digest of "abc", the standard's first vector
example : sha256 [0x61, 0x62, 0x63] =
    [0xba, 0x78, 0x16, 0xbf, 0x8f, 0x01, 0xcf, 0xea, 0x41, 0x41, 0x40, 0xde, 0x5d, 0xae, 0x22, 0x23,
     0xb0, 0x03, 0x61, 0xa3, 0x96, 0x17, 0x7a, 0x9c, 0xb4, 0x10, 0xff, 0x61, 0xf2, 0x00, 0x15,
     0xad] := by
  decide +kernel

end SeqLN.Sha256
