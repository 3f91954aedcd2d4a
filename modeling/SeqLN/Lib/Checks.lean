import Mathlib

/-!
# Computations that check

A fallible computation is a chain of checks, each with the reason it fails for. `bind_eq_ok` takes
such a chain apart: what it returned was returned by its last step, and every check before it
passed. `require_eq_ok` and `fromOption_eq_ok` say what a passed check means.
-/

namespace SeqLN.Lib

variable {ε α β : Type}

/-- A check, and the reason it fails for. -/
def require (p : Prop) [Decidable p] (why : ε) : Except ε Unit := if p then .ok () else .error why

/-- What is there, or the reason it has to be. -/
def fromOption (x : Option α) (why : ε) : Except ε α :=
  match x with
  | some a => .ok a
  | none => .error why

/-- A check that passed. -/
theorem require_eq_ok {p : Prop} [Decidable p] {why : ε} {u : Unit} :
    require p why = .ok u ↔ p := by
  unfold require
  split <;> simp_all

/-- What had to be there was. -/
theorem fromOption_eq_ok {x : Option α} {why : ε} {a : α} :
    fromOption x why = .ok a ↔ x = some a := by
  cases x <;> simp [fromOption]

/-- A chain that returned: each of its parts did. -/
theorem bind_eq_ok {x : Except ε α} {f : α → Except ε β} {b : β} :
    (x >>= f) = .ok b ↔ ∃ a, x = .ok a ∧ f a = .ok b := by
  cases x <;> simp [bind, Except.bind]

end SeqLN.Lib
