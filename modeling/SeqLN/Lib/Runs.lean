import Mathlib.Data.List.Basic

/-!
# Runs under a condition

A system takes events one after another and may refuse one (`step`). A condition on an event speaks of
the state that the event finds.

* `Reaches` — the states that accepted events lead to, where each meets the condition.
* `Along` — the events of a list meet it, each when its turn comes.
* `runWhile` — the run of a list, which stops at an event that does not meet it.
-/

namespace SeqLN.Lib

universe u v

variable {σ : Type u} {ε : Type v}

/-- The states that accepted events lead to, each event meeting a condition on the state before it. -/
inductive Reaches (step : σ → ε → Option σ) (ok : σ → ε → Prop) (s₀ : σ) : σ → Prop where
  | start : Reaches step ok s₀ s₀
  | step {s s' : σ} {e : ε} : Reaches step ok s₀ s → ok s e → step s e = some s' →
      Reaches step ok s₀ s'

/-- Every event of a run meets a condition on the state that it finds. -/
def Along (step : σ → ε → Option σ) (ok : σ → ε → Prop) : σ → List ε → Prop
  | _, [] => True
  | s, e :: es => ok s e ∧ ∀ s' ∈ step s e, Along step ok s' es

/-- The state after a list of events that are accepted and meet a condition. -/
def runWhile (step : σ → ε → Option σ) (ok : σ → ε → Prop) [∀ s e, Decidable (ok s e)] (s : σ)
    (es : List ε) : Option σ :=
  es.foldlM (fun s e => if ok s e then step s e else none) s

variable {step : σ → ε → Option σ} {ok : σ → ε → Prop} {s₀ s s' : σ} {e : ε} {es : List ε}

/-- A run can be checked for a condition. -/
def Along.decide (step : σ → ε → Option σ) (ok : σ → ε → Prop) [∀ s e, Decidable (ok s e)] :
    (es : List ε) → (s : σ) → Decidable (Along step ok s es)
  | [], _ => isTrue trivial
  | e :: es, s =>
    have := Along.decide step ok es
    inferInstanceAs (Decidable (ok s e ∧ ∀ s' ∈ step s e, Along step ok s' es))

instance [∀ s e, Decidable (ok s e)] : Decidable (Along step ok s es) := Along.decide step ok es s

/-- What each step that meets the condition keeps, they all keep. -/
theorem Reaches.keeps {P : σ → Prop} (h : Reaches step ok s₀ s) (hstart : P s₀)
    (hstep : ∀ s e s', P s → ok s e → step s e = some s' → P s') : P s := by
  induction h with
  | start => exact hstart
  | step _ hok hs ih => exact hstep _ _ _ ih hok hs

/-- A run whose events meet the condition stays among the states that are reached. -/
theorem Reaches.along (hs : Reaches step ok s₀ s) (h : Along step ok s es)
    (hrun : es.foldlM step s = some s') : Reaches step ok s₀ s' := by
  induction es generalizing s with
  | nil => exact Option.some.inj hrun ▸ hs
  | cons e es ih =>
    obtain ⟨t, ht, hrun⟩ := Option.bind_eq_some_iff.1 hrun
    exact ih (hs.step h.1 ht) (h.2 t ht) hrun

/-- A run whose events meet the condition leads to a state that is reached. -/
theorem Along.reaches (h : Along step ok s es) (hrun : es.foldlM step s = some s') :
    Reaches step ok s s' :=
  Reaches.start.along h hrun

/-- The same of a system that refuses nothing. -/
theorem Along.keeps_foldl {next : σ → ε → σ} {P : σ → Prop}
    (h : Along (fun s e => some (next s e)) ok s es) (hs : P s)
    (hstep : ∀ s e, P s → ok s e → P (next s e)) : P (es.foldl next s) := by
  induction es generalizing s with
  | nil => exact hs
  | cons e es ih => exact ih (h.2 _ rfl) (hstep s e hs h.1)

section stops

variable [∀ s e, Decidable (ok s e)]

/-- One event of a run that stops where the condition fails. -/
theorem runWhile_cons (h : runWhile step ok s (e :: es) = some s') :
    ok s e ∧ ∃ t, step s e = some t ∧ runWhile step ok t es = some s' := by
  obtain ⟨t, ht, h⟩ := Option.bind_eq_some_iff.1 h
  obtain ⟨hok, ht⟩ := Option.ite_none_right_eq_some.1 ht
  exact ⟨hok, t, ht, h⟩

/-- So does one that stops where it fails. -/
theorem Reaches.runWhile (hs : Reaches step ok s₀ s)
    (h : runWhile step ok s es = some s') : Reaches step ok s₀ s' := by
  induction es generalizing s with
  | nil => exact Option.some.inj h ▸ hs
  | cons e es ih =>
    obtain ⟨hok, t, ht, h⟩ := runWhile_cons h
    exact ih (hs.step hok ht) h

/-- A run that stops where the condition fails, and does not, is the run. -/
theorem foldlM_of_runWhile (h : runWhile step ok s es = some s') :
    es.foldlM step s = some s' := by
  induction es generalizing s with
  | nil => exact h
  | cons e es ih =>
    obtain ⟨-, t, ht, h⟩ := runWhile_cons h
    rw [List.foldlM_cons, ht]
    exact ih h

end stops

/-- What every accepted event keeps, a run keeps. -/
theorem keeps_of_run {P : σ → Prop} (hs : P s) (hrun : es.foldlM step s = some s')
    (hstep : ∀ s e s', P s → step s e = some s' → P s') : P s' := by
  induction es generalizing s with
  | nil => exact Option.some.inj hrun ▸ hs
  | cons e es ih =>
    obtain ⟨t, ht, hrun⟩ := Option.bind_eq_some_iff.1 hrun
    exact ih (hstep s e t hs ht) hrun

end SeqLN.Lib
