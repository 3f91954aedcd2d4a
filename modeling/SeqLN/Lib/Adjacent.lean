import Mathlib.Algebra.Order.Group.Nat
import Mathlib.Data.List.Chain

/-!
# Sums over the steps of a sequence

A cost is charged for each pair of neighbours of a list (`adjSum`). Where each step lowers a quantity
by at most its cost, the whole sequence lowers it by at most the sum (`le_last_add_adjSum`).
-/

namespace SeqLN.Lib

universe u

variable {α : Type u}

/-- The costs of the steps, added up. -/
def adjSum (cost : α → α → ℕ) : List α → ℕ
  | a :: b :: l => cost a b + adjSum cost (b :: l)
  | _ => 0

/-- No steps. -/
@[simp] theorem adjSum_nil (cost : α → α → ℕ) : adjSum cost [] = 0 := rfl

/-- One element makes no step. -/
@[simp] theorem adjSum_singleton (cost : α → α → ℕ) (a : α) : adjSum cost [a] = 0 := rfl

/-- The first step and the others. -/
@[simp] theorem adjSum_cons_cons (cost : α → α → ℕ) (a b : α) (l : List α) :
    adjSum cost (a :: b :: l) = cost a b + adjSum cost (b :: l) := rfl

/-- Costs of two kinds. -/
theorem adjSum_add (f g : α → α → ℕ) (l : List α) :
    adjSum (fun a b => f a b + g a b) l = adjSum f l + adjSum g l := by
  induction l with
  | nil => rfl
  | cons a l ih =>
    cases l with
    | nil => rfl
    | cons b l =>
      simp only [adjSum_cons_cons] at ih ⊢
      omega

/-- What each step lowers by at most its cost, the sequence lowers by at most the sum. -/
theorem le_last_add_adjSum (value : α → ℕ) (cost : α → α → ℕ) {l : List α} (hl : l ≠ [])
    (h : l.IsChain fun a b => value a ≤ value b + cost a b) :
    value (l.head hl) ≤ value (l.getLast hl) + adjSum cost l := by
  induction l with
  | nil => exact absurd rfl hl
  | cons a l ih =>
    cases l with
    | nil => exact Nat.le_add_right _ _
    | cons b l =>
      obtain ⟨hstep, hrest⟩ := List.isChain_cons_cons.1 h
      have hlast := ih (List.cons_ne_nil b l) hrest
      rw [adjSum_cons_cons, List.getLast_cons (List.cons_ne_nil b l)]
      simp only [List.head_cons] at hlast ⊢
      omega

end SeqLN.Lib
