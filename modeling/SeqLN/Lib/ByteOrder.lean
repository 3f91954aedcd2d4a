import SeqLN.Lib.Bytes

/-!
# Ordering by an amount, a string and a number

Outputs of a transaction are ordered by their amount, then by their script, then by a number that
breaks ties. `memcmp` and the lengths order strings as their bytes in sequence do
(`memcmp_then_length`), so this is the lexicographic order `cmpKey` of the three, a linear one.
-/

namespace SeqLN

/-- The order of the first bytes of two strings, as many as both have. Source: `memcmp` -/
def memcmp : Bytes → Bytes → Ordering
  | a :: as, b :: bs => (compare a b).then (memcmp as bs)
  | _, _ => .eq

/-- The first bytes and then the length order strings as the bytes in sequence do. -/
theorem memcmp_then_length (a b : Bytes) :
    (memcmp a b).then (compare a.length b.length) = compare a b := by
  rw [List.compare_eq_compareLex]
  induction a generalizing b with
  | nil => cases b <;> rfl
  | cons x a ih =>
    cases b with
    | nil => rfl
    | cons y b =>
      have hlen : compare (x :: a).length (y :: b).length = compare a.length b.length := by
        simp only [List.length_cons, Nat.compare_eq_ite_lt, Nat.add_lt_add_iff_right]
      rw [List.compareLex_cons_cons, ← ih, memcmp, Ordering.then_assoc, hlen]

/-- The order of the keys. -/
def cmpKey : ℕ × Bytes × ℕ → ℕ × Bytes × ℕ → Ordering :=
  compareLex (compareOn Prod.fst) (compareLex (compareOn fun k => k.2.1) (compareOn fun k => k.2.2))

instance : Std.TransCmp cmpKey := inferInstanceAs (Std.TransCmp (compareLex _ _))

/-- Keys that compare equal are equal. -/
theorem eq_of_cmpKey_eq {a b : ℕ × Bytes × ℕ} (h : cmpKey a b = .eq) : a = b := by
  obtain ⟨h1, h2, h3⟩ : compare a.1 b.1 = .eq ∧ compare a.2.1 b.2.1 = .eq ∧
      compare a.2.2 b.2.2 = .eq := by
    simpa [cmpKey, compareLex, compareOn, Ordering.then_eq_eq] using h
  exact Prod.ext (Std.LawfulEqCmp.eq_of_compare h1)
    (Prod.ext (Std.LawfulEqCmp.eq_of_compare h2) (Std.LawfulEqCmp.eq_of_compare h3))

/-- Keys in both orders are equal. -/
theorem eq_of_cmpKey_isLE {a b : ℕ × Bytes × ℕ} (hab : (cmpKey a b).isLE = true)
    (hba : (cmpKey b a).isLE = true) : a = b := by
  apply eq_of_cmpKey_eq
  cases hc : cmpKey a b with
  | lt =>
    rw [Std.OrientedCmp.gt_iff_lt.mpr hc] at hba
    cases hba
  | eq => rfl
  | gt => rw [hc] at hab; cases hab

end SeqLN
