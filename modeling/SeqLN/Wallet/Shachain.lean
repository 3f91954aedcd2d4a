import SeqLN.Common
import SeqLN.Lib.BitWalk
import SeqLN.Lib.Bytes

/-!
# The secrets of revoked commitments

A peer reveals one secret for each commitment it revokes, under indices of 48 bits that count down.
The secret of an index gives those of all that its trailing zeros span, so the store (`Shachain`)
keeps one for each number of trailing zeros (`Holds`). `getSecret_received`: the secret of a revoked
commitment is the one accepted for it; `received_honest`: those of one seed are never refused.
-/

namespace SeqLN.Wallet

open SeqLN.Lib List

abbrev Sha := ByteString 32

/-- Source: `Makefile`, `-DSHACHAIN_BITS=48` -/
def shachainBits : ℕ := 48

/-- Source: `ccan/crypto/shachain/shachain.c`, `change_bit` -/
def changeBit (h : Sha) (index : ℕ) : Sha :=
  ⟨h.bytes.modify (index / 8) (· ^^^ (1 <<< UInt8.ofNat (index % 8))), by simp⟩

/-- Source: `count_trailing_zeroes` -/
def countTrailingZeroes (index : ℕ) : ℕ :=
  if index = 0 then shachainBits else padicValNat 2 index

/-- The mask of the source is the bits from the lowest that is set in `src` on.
Source: `can_derive` -/
def canDerive (src dst : ℕ) : Bool :=
  src = 0 || (src ^^^ dst) >>> countTrailingZeroes src = 0

section store

variable (sha256 : Sha → Sha)

/-- Source: `derive` -/
def derive (src dst : ℕ) (h : Sha) : Sha :=
  bitWalk (fun i h => sha256 (changeBit h i)) (Nat.size (src ^^^ dst)) (src ^^^ dst) h

/-- Source: `shachain_from_seed` -/
def shachainFromSeed (seed : Sha) (index : ℕ) : Sha := derive sha256 0 index seed

/-- The entries from `numValid` on are not set. Source: `struct shachain` -/
structure Shachain where
  minIndex : ℕ
  numValid : ℕ
  known : ℕ → ℕ × Sha

/-- Source: `shachain_init` -/
def Shachain.init : Shachain := ⟨2 ^ shachainBits, 0, fun _ => (0, .replicate 32 0)⟩

/-- Source: `shachain_add_hash` -/
def shachainAddHash (c : Shachain) (index : ℕ) (h : Sha) : Option Shachain :=
  let pos := countTrailingZeroes index
  if ∀ i < pos, derive sha256 index (c.known i).1 h = (c.known i).2 then
    some ⟨index, max c.numValid (pos + 1), Function.update c.known pos (index, h)⟩
  else none

/-- The assertions of `shachain_add_hash`, and of `derive` in each of its checks. -/
def addAsserts (c : Shachain) (index : ℕ) : Bool :=
  index + 1 = c.minIndex &&
    (range (countTrailingZeroes index)).all fun i => canDerive index (c.known i).1

/-- Source: `shachain_get_hash` -/
def shachainGetHash (c : Shachain) (index : ℕ) : Option Sha :=
  ((range c.numValid).find? fun i => canDerive (c.known i).1 index).map fun i =>
    derive sha256 (c.known i).1 index (c.known i).2

/-- Source: `common/derive_basepoints.h`, `shachain_index` -/
def shachainIndex (perCommitIndex : ℕ) : ℕ := 2 ^ shachainBits - 1 - perCommitIndex

/-- Source: `common/derive_basepoints.h`, `revocations_received` -/
def revocationsReceived (c : Shachain) : ℕ := 2 ^ shachainBits - c.minIndex

/-- Source: `common/derive_basepoints.c`, `per_commit_secret` -/
def perCommitSecret (seed : Sha) (n : ℕ) : Option Sha :=
  if n ≥ 2 ^ shachainBits then none else some (shachainFromSeed sha256 seed (shachainIndex n))

/-- Source: `common/derive_basepoints.c`, `shachain_get_secret` -/
def shachainGetSecret (c : Shachain) (n : ℕ) : Option Sha :=
  if n ≥ 2 ^ shachainBits then none else shachainGetHash sha256 c (shachainIndex n)

/-- The index of a number that `peer_got_revoke` lets through. -/
def revokeIndex (c : Shachain) (revokenum : ℕ) : Option ℕ :=
  if revokenum < 2 ^ 48 ∧ revokenum = revocationsReceived c then some (shachainIndex revokenum) else none

/-- Source: `lightningd/peer_htlcs.c`, `peer_got_revoke`, what it does with the secret -/
def gotRevoke (c : Shachain) (revokenum : ℕ) (secret : Sha) : Option Shachain := do
  let index ← revokeIndex c revokenum
  shachainAddHash sha256 c index secret

/-- The store and the secrets it accepted, in order, after calls with any numbers and secrets. -/
def received (calls : List (ℕ × Sha)) : Shachain × List Sha :=
  calls.foldl (fun s call => match gotRevoke sha256 s.1 call.1 call.2 with
    | some c => (c, s.2 ++ [call.2])
    | none => s) (.init, [])

end store

/-! ### Trailing zeros -/

section zeros

variable {x i : ℕ}

lemma le_countTrailingZeroes_iff (hi : i ≤ 48) : i ≤ countTrailingZeroes x ↔ 2 ^ i ∣ x := by
  unfold countTrailingZeroes
  split
  · next h => exact iff_of_true hi (h ▸ dvd_zero _)
  · next h => exact (padicValNat_dvd_iff_le h).symm

lemma two_pow_countTrailingZeroes_dvd (x : ℕ) : 2 ^ countTrailingZeroes x ∣ x := by
  unfold countTrailingZeroes
  split
  · next h => exact h ▸ dvd_zero _
  · exact pow_padicValNat_dvd

lemma countTrailingZeroes_le (hx : x < 2 ^ 48) : countTrailingZeroes x ≤ 48 := by
  by_cases h : x = 0
  · rw [countTrailingZeroes, if_pos h, shachainBits]
  · have hle := Nat.le_of_dvd (Nat.pos_of_ne_zero h) (two_pow_countTrailingZeroes_dvd x)
    exact ((Nat.pow_lt_pow_iff_right Nat.one_lt_two).1 (hle.trans_lt hx)).le

/-- What an index spans ends within the tree. -/
theorem add_two_pow_le (hx : x < 2 ^ 48) : x + 2 ^ countTrailingZeroes x ≤ 2 ^ 48 := by
  by_contra hlt
  have hd := pow_dvd_pow 2 (countTrailingZeroes_le hx)
  have := Nat.le_of_lt_add_of_dvd (Nat.not_le.1 hlt) hd (two_pow_countTrailingZeroes_dvd x)
  omega

/-- An index spans those just above it. -/
theorem countTrailingZeroes_add (hx : x < 2 ^ 48) (hi : i < countTrailingZeroes x) :
    countTrailingZeroes (x + 2 ^ i) = i := by
  have hi48 := hi.trans_le (countTrailingZeroes_le hx)
  have hd : 2 ^ (i + 1) ∣ x := (le_countTrailingZeroes_iff hi48).1 hi
  apply le_antisymm
  · by_contra hlt
    have hsum := (le_countTrailingZeroes_iff hi48).1 (Nat.not_le.1 hlt)
    have hle := Nat.le_of_dvd (Nat.two_pow_pos i) ((Nat.dvd_add_right hd).1 hsum)
    rw [pow_succ] at hle
    have := Nat.two_pow_pos i
    omega
  · exact (le_countTrailingZeroes_iff hi48.le).2
      (dvd_add ((pow_dvd_pow 2 i.le_succ).trans hd) dvd_rfl)

/-- The next index up the tree. -/
theorem lt_countTrailingZeroes_sub (hi : countTrailingZeroes x = i) (hlt : i < 48) :
    i < countTrailingZeroes (x - 2 ^ i) := by
  obtain ⟨q, hq⟩ := hi ▸ two_pow_countTrailingZeroes_dvd x
  have hodd : ¬2 ^ (i + 1) ∣ x := by
    rw [← le_countTrailingZeroes_iff hlt]
    omega
  refine (le_countTrailingZeroes_iff hlt).2 ?_
  obtain ⟨k, rfl | rfl⟩ := q.even_or_odd'
  · exact absurd ⟨k, by rw [hq, pow_succ, mul_assoc]⟩ hodd
  · exact ⟨k, by rw [hq, Nat.mul_succ, Nat.add_sub_cancel, pow_succ, mul_assoc]⟩

/-- The indices that an index gives are those it spans. -/
theorem canDerive_iff {j : ℕ} (hj : j < 2 ^ 48) :
    canDerive x j = true ↔ x ≤ j ∧ j < x + 2 ^ countTrailingZeroes x := by
  obtain ⟨q, hq⟩ := two_pow_countTrailingZeroes_dvd x
  have hpos := Nat.two_pow_pos (countTrailingZeroes x)
  have hspan : (x ^^^ j) >>> countTrailingZeroes x = 0 ↔
      x ≤ j ∧ j < x + 2 ^ countTrailingZeroes x := by
    generalize countTrailingZeroes x = c at hq hpos ⊢
    rw [Nat.shiftRight_xor_distrib, Nat.xor_eq_zero_iff, Nat.shiftRight_eq_div_pow,
      Nat.shiftRight_eq_div_pow, hq, Nat.mul_div_cancel_left _ hpos, eq_comm, Nat.div_eq_iff hpos,
      Nat.mul_comm q]
    omega
  rw [canDerive, Bool.or_eq_true, decide_eq_true_eq, decide_eq_true_eq, hspan, or_iff_right_of_imp]
  rintro rfl
  have hzero := (le_countTrailingZeroes_iff (x := 0) le_rfl).2 (dvd_zero _)
  exact ⟨j.zero_le, by rw [zero_add]; exact hj.trans_le (Nat.pow_le_pow_right Nat.two_pos hzero)⟩

end zeros

/-! ### What the store holds -/

section holds

variable {sha256 : Sha → Sha} {f f' : ℕ → Sha} {c c' : Shachain} {x j i r : ℕ} {h : Sha}

lemma derive_add {p : ℕ} (hx : 2 ^ p ∣ x) (hr : r < 2 ^ p) :
    derive sha256 x (x + r) h = bitWalk (fun i h => sha256 (changeBit h i)) p r h := by
  rw [derive, xor_add_of_lt hx hr]
  exact (bitWalk_of_lt _ (Nat.lt_size_self r) (Nat.size_le.2 hr) h).symm

/-- The entries are the least indices of their kinds, and give the secrets `f` of all they span. -/
structure Holds (sha256 : Sha → Sha) (f : ℕ → Sha) (c : Shachain) : Prop where
  entry : ∀ i < c.numValid, c.minIndex ≤ (c.known i).1 ∧ (c.known i).1 < 2 ^ 48 ∧
    countTrailingZeroes (c.known i).1 = i
  least : ∀ x, c.minIndex ≤ x → x < 2 ^ 48 → x < c.minIndex + 2 ^ countTrailingZeroes x →
    countTrailingZeroes x < c.numValid ∧ (c.known (countTrailingZeroes x)).1 = x
  value : ∀ i < c.numValid, ∀ r < 2 ^ i,
    derive sha256 (c.known i).1 ((c.known i).1 + r) (c.known i).2 = f ((c.known i).1 + r)

/-- Every index from the least on is spanned by an entry. -/
theorem Holds.covers (hc : Holds sha256 f c) (hm : c.minIndex ≤ x) (hx : x < 2 ^ 48) (hj : x ≤ j)
    (hspan : j < x + 2 ^ countTrailingZeroes x) :
    ∃ i < c.numValid, (c.known i).1 ≤ j ∧ j < (c.known i).1 + 2 ^ i := by
  -- from an index that is not an entry to the next one up the tree
  induction hn : 48 - countTrailingZeroes x using Nat.strong_induction_on generalizing x with
  | _ n ih =>
    by_cases hleast : x < c.minIndex + 2 ^ countTrailingZeroes x
    · obtain ⟨hvalid, heq⟩ := hc.least x hm hx hleast
      exact ⟨_, hvalid, by omega, by omega⟩
    · generalize hz : countTrailingZeroes x = i at *
      have hi : i < 48 := (Nat.pow_lt_pow_iff_right Nat.one_lt_two).1 (by omega)
      have hup := lt_countTrailingZeroes_sub hz hi
      have hpow := Nat.pow_le_pow_right Nat.two_pos hup
      rw [Nat.succ_eq_add_one, pow_succ] at hpow
      exact ih _ (by omega) (x := x - 2 ^ i) (by omega) (by omega) (by omega) (by omega) rfl

/-- The store gives the secrets of the indices from the least on, and no others. -/
theorem Holds.getHash (hc : Holds sha256 f c) (hj : j < 2 ^ 48) :
    shachainGetHash sha256 c j = if c.minIndex ≤ j then some (f j) else none := by
  have hspan : ∀ i < c.numValid, canDerive (c.known i).1 j = true ↔
      (c.known i).1 ≤ j ∧ j < (c.known i).1 + 2 ^ i := by
    intro i hi
    rw [canDerive_iff hj, (hc.entry i hi).2.2]
  unfold shachainGetHash
  cases hfind : (range c.numValid).find? fun i => canDerive (c.known i).1 j with
  | none =>
    have hno := find?_range_eq_none.1 hfind
    rw [if_neg]
    · rfl
    · intro hm
      obtain ⟨i, hi, hder⟩ := hc.covers hm hj le_rfl (Nat.lt_add_of_pos_right (Nat.two_pow_pos _))
      simpa [(hspan i hi).2 hder] using hno i hi
  | some i =>
    obtain ⟨hder, hi, -⟩ := find?_range_eq_some.1 hfind
    obtain ⟨hle, hlt⟩ := (hspan i (mem_range.1 hi)).1 hder
    obtain ⟨r, rfl⟩ := Nat.exists_eq_add_of_le hle
    have hmin := (hc.entry i (mem_range.1 hi)).1
    rw [if_pos (by omega), Option.map_some, hc.value i (mem_range.1 hi) r (by omega)]

lemma Holds.hash_eq (hc : Holds sha256 f c) (hi : i < c.numValid) :
    (c.known i).2 = f (c.known i).1 := by
  have h := hc.value i hi 0 (Nat.two_pow_pos i)
  rwa [derive_add (p := 0) (one_dvd _) Nat.one_pos, bitWalk_zero] at h

section next

variable (hc : Holds sha256 f c) (hx : x + 1 = c.minIndex) (hlt : x < 2 ^ 48)

include hc hx hlt

/-- Each entry that the next index spans is just above it. -/
theorem Holds.known_eq (hi : i < countTrailingZeroes x) :
    i < c.numValid ∧ (c.known i).1 = x + 2 ^ i := by
  have hpow : 2 ^ i < 2 ^ countTrailingZeroes x := Nat.pow_lt_pow_right Nat.one_lt_two hi
  have hend := add_two_pow_le hlt
  have hpos := Nat.two_pow_pos i
  have h := hc.least (x + 2 ^ i) (by omega) (by omega)
  rw [countTrailingZeroes_add hlt hi] at h
  exact h (by omega)

/-- A secret that passes the checks gives all that its index spans. -/
theorem Holds.derive_eq
    (hcheck : ∀ i < countTrailingZeroes x, derive sha256 x (c.known i).1 (f' x) = (c.known i).2)
    (hf : ∀ j, c.minIndex ≤ j → j < 2 ^ 48 → f' j = f j) (hr : r < 2 ^ countTrailingZeroes x) :
    derive sha256 x (x + r) (f' x) = f' (x + r) := by
  have hd := two_pow_countTrailingZeroes_dvd x
  have hend := add_two_pow_le hlt
  rw [derive_add hd hr]
  rcases Nat.eq_zero_or_pos r with rfl | hpos
  · rw [bitWalk_zero, add_zero]
  -- the highest bit of `r` leads to an entry, which was checked
  · have hlow := Nat.pow_log_le_self 2 hpos.ne'
    have hhigh := Nat.lt_pow_succ_log_self Nat.one_lt_two r
    generalize Nat.log 2 r = k at hlow hhigh
    have hk := (Nat.pow_lt_pow_iff_right Nat.one_lt_two).1 (hlow.trans_lt hr)
    obtain ⟨s, rfl⟩ := Nat.exists_eq_add_of_le hlow
    have hs : s < 2 ^ k := by rw [Nat.succ_eq_add_one, pow_succ] at hhigh; omega
    obtain ⟨hvalid, heq⟩ := hc.known_eq hx hlt hk
    have hstep := hcheck k hk
    have hvalue := hc.value k hvalid s hs
    have hdk : 2 ^ k ∣ x + 2 ^ k := dvd_add ((pow_dvd_pow 2 hk.le).trans hd) dvd_rfl
    rw [heq, derive_add hd (by omega)] at hstep
    rw [heq, derive_add hdk hs] at hvalue
    rw [bitWalk_add _ dvd_rfl hs hk.le, hstep, hvalue, hf _ (by omega) (by omega), add_assoc]

/-- A secret that is accepted is held, with those before it. -/
theorem Holds.add (hadd : shachainAddHash sha256 c x h = some c')
    (hf : ∀ j, c.minIndex ≤ j → j < 2 ^ 48 → f' j = f j) (hself : f' x = h) :
    Holds sha256 f' c' ∧ c'.minIndex = x := by
  simp only [shachainAddHash, Option.ite_none_right_eq_some, Option.some.injEq] at hadd
  obtain ⟨hcheck, rfl⟩ := hadd
  have hd := two_pow_countTrailingZeroes_dvd x
  have hend := add_two_pow_le hlt
  have hknown := fun i hi => hc.known_eq (i := i) hx hlt hi
  generalize hp : countTrailingZeroes x = p at *
  have hold : ∀ i < max c.numValid (p + 1), i ≠ p → i < c.numValid := by
    intro i hi hne
    by_contra hge
    exact hge (hknown i (by omega)).1
  refine ⟨⟨?_, ?_, ?_⟩, rfl⟩
  · intro i hi
    dsimp only
    by_cases hip : i = p
    · rw [hip, Function.update_self]
      exact ⟨le_rfl, hlt, hp⟩
    · rw [Function.update_of_ne hip]
      obtain ⟨hmin, hrest⟩ := hc.entry i (hold i hi hip)
      exact ⟨by omega, hrest⟩
  · intro y hy hy48 hnear
    dsimp only at hy hnear ⊢
    rcases hy.eq_or_lt with rfl | hy
    · rw [hp, Function.update_self]
      exact ⟨by omega, rfl⟩
    · obtain ⟨hvalid, heq⟩ := hc.least y (by omega) hy48 (by omega)
      have hyp : countTrailingZeroes y ≠ p := by
        rintro rfl
        have := Nat.le_of_lt_add_of_dvd hnear (two_pow_countTrailingZeroes_dvd y) hd
        omega
      rw [Function.update_of_ne hyp]
      exact ⟨by omega, heq⟩
  · intro i hi r hr
    dsimp only
    by_cases hip : i = p
    · subst hip hp hself
      rw [Function.update_self]
      exact hc.derive_eq hx hlt hcheck hf hr
    · rw [Function.update_of_ne hip, hc.value i (hold i hi hip) r hr]
      obtain ⟨hmin, hbound, hz⟩ := hc.entry i (hold i hi hip)
      have := add_two_pow_le hbound
      rw [hz] at this
      exact (hf _ (by omega) (by omega)).symm

/-- The next secret of the seed that the others come from is accepted. -/
theorem Holds.accepts {seed : Sha}
    (hf : ∀ j, c.minIndex ≤ j → j < 2 ^ 48 → f j = shachainFromSeed sha256 seed j) :
    (shachainAddHash sha256 c x (shachainFromSeed sha256 seed x)).isSome = true := by
  have hseed : ∀ j < 2 ^ 48, shachainFromSeed sha256 seed j =
      bitWalk (fun i h => sha256 (changeBit h i)) 48 j seed := by
    intro j hj
    rw [shachainFromSeed, ← derive_add (dvd_zero (2 ^ 48)) hj, zero_add]
  rw [shachainAddHash, if_pos]
  · rfl
  intro i hi
  obtain ⟨hvalid, heq⟩ := hc.known_eq hx hlt hi
  obtain ⟨hmin, hbound, -⟩ := hc.entry i hvalid
  have hr : 2 ^ i < 2 ^ countTrailingZeroes x := Nat.pow_lt_pow_right (by norm_num) hi
  have hd := two_pow_countTrailingZeroes_dvd x
  rw [hc.hash_eq hvalid, hf _ hmin hbound, heq, derive_add hd hr, hseed x hlt,
    hseed _ (heq ▸ hbound), bitWalk_add _ hd hr (countTrailingZeroes_le hlt)]

end next

end holds

/-! ### Runs -/

section runs

variable {sha256 : Sha → Sha}

lemma shachainIndex_eq (n : ℕ) : shachainIndex n = 2 ^ 48 - 1 - n := rfl

lemma revocationsReceived_eq (c : Shachain) : revocationsReceived c = 2 ^ 48 - c.minIndex := rfl

lemma shachainIndex_shachainIndex {n : ℕ} (hn : n < 2 ^ 48) :
    shachainIndex (shachainIndex n) = n := by
  rw [shachainIndex_eq, shachainIndex_eq]
  omega

lemma revokeIndex_eq_some {c : Shachain} {n x : ℕ} (h : revokeIndex c n = some x) :
    n < 2 ^ 48 ∧ n = 2 ^ 48 - c.minIndex ∧ x = shachainIndex n := by
  unfold revokeIndex at h
  split at h
  · next hn => exact ⟨hn.1, hn.2, (Option.some.inj h).symm⟩
  · cases h

/-- The secret of an index, of those accepted. -/
def secretAt (secrets : List Sha) (j : ℕ) : Sha :=
  secrets.getD (shachainIndex j) (.replicate 32 0)

/-- The store holds the accepted secrets, the first at the last index. -/
def Keeps (sha256 : Sha → Sha) (s : Shachain × List Sha) : Prop :=
  Holds sha256 (secretAt s.2) s.1 ∧ s.1.minIndex + s.2.length = 2 ^ 48

/-- A secret that is taken is kept. -/
theorem Keeps.step {c c' : Shachain} {secrets : List Sha} {n : ℕ} {secret : Sha}
    (hk : Keeps sha256 (c, secrets)) (h : gotRevoke sha256 c n secret = some c') :
    Keeps sha256 (c', secrets ++ [secret]) := by
  obtain ⟨hc, hlen⟩ := hk
  dsimp only at hc hlen
  obtain ⟨_, hx, hadd⟩ := Option.bind_eq_some_iff.1 h
  obtain ⟨hn, hnext, rfl⟩ := revokeIndex_eq_some hx
  have hindex := shachainIndex_eq n
  have hx : shachainIndex n + 1 = c.minIndex := by omega
  have hself : secretAt (secrets ++ [secret]) (shachainIndex n) = secret := by
    have hlast : n = secrets.length := by omega
    rw [secretAt, shachainIndex_shachainIndex hn]
    simp [hlast]
  have hf : ∀ j, c.minIndex ≤ j → j < 2 ^ 48 →
      secretAt (secrets ++ [secret]) j = secretAt secrets j := by
    intro j hj _
    have hindex := shachainIndex_eq j
    exact getD_append _ _ _ _ (by omega)
  obtain ⟨hholds, hmin⟩ := hc.add hx (by omega) hadd hf hself
  refine ⟨hholds, ?_⟩
  rw [hmin, length_append, length_singleton]
  omega

lemma keeps_received (calls : List (ℕ × Sha)) : Keeps sha256 (received sha256 calls) := by
  induction calls using reverseRecOn with
  | nil =>
    refine ⟨⟨?_, ?_, ?_⟩, Nat.add_zero (2 ^ 48)⟩
    · intro i hi
      exact absurd hi (Nat.not_lt_zero i)
    · intro j hj hlt
      exact absurd hlt (Nat.not_lt.2 hj)
    · intro i hi
      exact absurd hi (Nat.not_lt_zero i)
  | append_singleton calls call ih =>
    rw [received, foldl_append, foldl_cons, foldl_nil, ← received]
    split
    · next c hc => exact ih.step hc
    · exact ih

/-- The secret of a revoked commitment is the one that was accepted for it, and there is none of any
other, whatever the calls brought. -/
theorem getSecret_received (calls : List (ℕ × Sha)) (n : ℕ) :
    shachainGetSecret sha256 (received sha256 calls).1 n = (received sha256 calls).2[n]? := by
  obtain ⟨hc, hlen⟩ : Keeps sha256 _ := keeps_received calls
  generalize received sha256 calls = s at hc hlen ⊢
  have hindex := shachainIndex_eq n
  unfold shachainGetSecret
  split
  · next hn =>
    rw [getElem?_eq_none (by simp only [shachainBits] at hn; omega)]
  · next hn =>
    have hn : n < 2 ^ 48 := Nat.not_le.1 hn
    rw [hc.getHash (by omega), secretAt, shachainIndex_shachainIndex hn]
    by_cases hin : n < s.2.length
    · rw [if_pos (by omega), getD_eq_getElem _ _ hin, getElem?_eq_getElem hin]
    · rw [if_neg (by omega), getElem?_eq_none (by omega)]

/-- No number that `peer_got_revoke` lets through fails an assertion. -/
theorem addAsserts_received (calls : List (ℕ × Sha)) (n : ℕ) :
    (revokeIndex (received sha256 calls).1 n).all (addAsserts (received sha256 calls).1) = true := by
  obtain ⟨hc, hlen⟩ : Keeps sha256 _ := keeps_received calls
  generalize received sha256 calls = s at hc hlen ⊢
  refine (Option.all_eq_true _ _).2 fun x hsome => ?_
  obtain ⟨hn, hnext, hindex⟩ := revokeIndex_eq_some hsome
  rw [shachainIndex_eq] at hindex
  have hx : x + 1 = s.1.minIndex := by omega
  simp only [addAsserts, hx, decide_true, Bool.true_and, all_eq_true, mem_range]
  intro i hi
  obtain ⟨hvalid, heq⟩ := hc.known_eq hx (by omega) hi
  rw [canDerive_iff (hc.entry i hvalid).2.1, heq]
  exact ⟨Nat.le_add_right _ _, Nat.add_lt_add_left (Nat.pow_lt_pow_right Nat.one_lt_two hi) x⟩

/-- The next secret of a seed is accepted after those before it. -/
theorem Keeps.accepts {s : Shachain × List Sha} {seed : Sha} {n : ℕ} (hk : Keeps sha256 s)
    (hs : s.2 = (range n).map fun m => shachainFromSeed sha256 seed (shachainIndex m))
    (hn : n < 2 ^ 48) :
    (gotRevoke sha256 s.1 n (shachainFromSeed sha256 seed (shachainIndex n))).isSome = true := by
  obtain ⟨hc, hlen⟩ := hk
  have hlen' : s.2.length = n := by simp [hs]
  have hnext : n = revocationsReceived s.1 := by
    rw [revocationsReceived_eq]
    omega
  rw [gotRevoke, revokeIndex, if_pos ⟨hn, hnext⟩]
  have hindex := shachainIndex_eq n
  refine hc.accepts (by omega) (by omega) fun j hj hlt => ?_
  have hj' : shachainIndex j < n := by rw [shachainIndex_eq]; omega
  simp [secretAt, hs, hj', shachainIndex_shachainIndex hlt]

/-- What a peer that makes its secrets from a seed reveals is accepted, to the last of its secrets. -/
theorem received_honest (seed : Sha) (k : ℕ) :
    (received sha256 ((range k).filterMap fun n =>
      (perCommitSecret sha256 seed n).map fun secret => (n, secret))).2 =
      (range k).filterMap (perCommitSecret sha256 seed) := by
  induction k with
  | zero => rfl
  | succ k ih =>
    simp only [range_succ, filterMap_append, filterMap_cons, filterMap_nil]
    by_cases hk : k < 2 ^ shachainBits
    · have hsecret : ∀ n < k + 1, perCommitSecret sha256 seed n =
          some (shachainFromSeed sha256 seed (shachainIndex n)) := fun n hn => if_neg (by omega)
      have hlist : (range k).filterMap (perCommitSecret sha256 seed) =
          (range k).map fun n => shachainFromSeed sha256 seed (shachainIndex n) := by
        rw [← filterMap_eq_map]
        exact filterMap_congr fun n hn => hsecret n (Nat.lt_succ_of_lt (mem_range.1 hn))
      obtain ⟨c, hc⟩ := Option.isSome_iff_exists.1
        ((keeps_received _).accepts (ih.trans hlist) hk)
      rw [hsecret k (Nat.lt_succ_self k), Option.map_some, received, foldl_append, ← received]
      dsimp only [foldl_cons, foldl_nil]
      rw [hc, ih]
    · rw [perCommitSecret, if_pos (Nat.not_lt.1 hk)]
      simpa using ih

end runs

end SeqLN.Wallet
