import Mathlib.Data.List.Perm.Subperm
import Mathlib.Data.List.Forall2

/-!
# Greedy matching

Items are matched one after the other, each to the first free slot that it fits (`greedy`). Where slots
that have an item in common fit the same items (`Classes`), this finds a matching whenever there is one
(`greedy_isSome`).
-/

namespace SeqLN.Lib.Matching

open List

universe u v

variable {σ : Type u} {ο : Type v} (fits : σ → ο → Bool)

/-- The slots that the items take, each the first free one that it fits. -/
def greedy : List σ → List ο → Option (List σ)
  | _, [] => some []
  | slots, x :: xs =>
    match slots.find? (fits · x) with
    | some s => (greedy (slots.eraseP (fits · x)) xs).map (s :: ·)
    | none => none

/-- Two of the slots that an item fits fit the same items. -/
def Classes (slots : List σ) : Prop :=
  ∀ a ∈ slots, ∀ b ∈ slots, ∀ x y, fits a x = true → fits b x = true → fits a y = true → fits b y = true

/-- Slots that the items fit, each taken as often as it is there at most. -/
structure Matched (slots : List σ) (items : List ο) (chosen : List σ) : Prop where
  fit : List.Forall₂ (fun s x => fits s x = true) chosen items
  free : List.Subperm chosen slots

variable {fits}

variable {chosen slots : List σ} {xs : List ο}

/-- The first item takes a slot, and so do the others. -/
theorem greedy_cons {x : ο} (h : greedy fits slots (x :: xs) = some chosen) :
    ∃ s rest, slots.find? (fits · x) = some s ∧ greedy fits (slots.eraseP (fits · x)) xs = some rest ∧
      chosen = s :: rest := by
  unfold greedy at h
  split at h
  · next s hs =>
    obtain ⟨rest, hrest, rfl⟩ := Option.map_eq_some_iff.1 h
    exact ⟨s, rest, hs, hrest, rfl⟩
  · cases h

/-- The first free slot, taken out of the others. -/
theorem perm_eraseP {p : σ → Bool} {s : σ} (h : slots.find? p = some s) :
    List.Perm (s :: slots.eraseP p) slots := by
  induction slots with
  | nil => cases h
  | cons a slots ih =>
    by_cases ha : p a = true
    · rw [find?_cons_of_pos ha] at h
      cases h
      rw [eraseP_cons_of_pos ha]
    · rw [find?_cons_of_neg ha] at h
      rw [eraseP_cons_of_neg ha]
      exact (List.Perm.swap a s _).trans ((ih h).cons a)

/-- A slot of the same class may stand in for one that was chosen. -/
theorem exists_exchange {s s' : σ} (hclass : ∀ y, fits s' y = true → fits s y = true)
    (hfit : List.Forall₂ (fun s x => fits s x = true) chosen xs) (hmem : s' ∈ chosen) :
    ∃ chosen', List.Forall₂ (fun s x => fits s x = true) chosen' xs ∧
      List.Perm (s' :: chosen') (s :: chosen) := by
  induction hfit with
  | nil => cases hmem
  | @cons c y cs ys hc hcs ih =>
    rcases mem_cons.1 hmem with rfl | hmem
    · exact ⟨s :: cs, .cons (hclass y hc) hcs, .swap _ _ _⟩
    · obtain ⟨cs', hfit', hperm⟩ := ih hmem
      refine ⟨c :: cs', .cons hc hfit', ?_⟩
      exact (List.Perm.swap _ _ _).trans ((hperm.cons c).trans (.swap _ _ _))

/-- After an item took the first slot it fits, the others can still be matched. -/
theorem matched_rest {s s' : σ} (hclass : ∀ y, fits s' y = true → fits s y = true)
    (hfit : List.Forall₂ (fun s x => fits s x = true) chosen xs)
    (hfree : List.Subperm (s :: chosen) (s' :: slots)) :
    ∃ chosen', Matched fits slots xs chosen' := by
  classical
  by_cases hmem : s' ∈ chosen
  · obtain ⟨chosen', hfit', hperm⟩ := exists_exchange hclass hfit hmem
    exact ⟨chosen', hfit', (subperm_cons s').1 (hperm.subperm.trans hfree)⟩
  · refine ⟨chosen, hfit, ?_⟩
    by_cases heq : s = s'
    · subst heq
      exact (subperm_cons s).1 hfree
    · have hchosen : List.Subperm chosen (s' :: slots) :=
        (subperm_cons_self).trans hfree
      rw [subperm_ext_iff] at hchosen ⊢
      intro a ha
      have hne : a ≠ s' := fun h => hmem (h ▸ ha)
      have hcount := hchosen a ha
      rwa [count_cons_of_ne (Ne.symm hne)] at hcount

/-- Greedy matching finds a matching where there is one. -/
theorem greedy_isSome {items : List ο} (hclasses : Classes fits slots)
    (h : Matched fits slots items chosen) : (greedy fits slots items).isSome = true := by
  induction items generalizing slots chosen with
  | nil => rfl
  | cons x xs ih =>
    obtain ⟨hfit, hfree⟩ := h
    cases hfit with
    | @cons s _ cs _ hs hcs =>
      have hmem : s ∈ slots := hfree.subset mem_cons_self
      obtain ⟨s', hfind⟩ := Option.isSome_iff_exists.1
        (find?_isSome.2 ⟨s, hmem, hs⟩ : (slots.find? (fits · x)).isSome = true)
      have hs' : fits s' x = true := find?_some (p := (fits · x)) hfind
      have hmem' : s' ∈ slots := mem_of_find?_eq_some hfind
      obtain ⟨rest, hrest⟩ := matched_rest (fun y => hclasses s' hmem' s hmem x y hs' hs) hcs
        (hfree.trans (perm_eraseP hfind).symm.subperm)
      have hclasses' : Classes fits (slots.eraseP (fits · x)) := fun a ha b hb =>
        hclasses a (mem_of_mem_eraseP ha) b (mem_of_mem_eraseP hb)
      obtain ⟨found, hfound⟩ := Option.isSome_iff_exists.1 (ih hclasses' hrest)
      unfold greedy
      rw [hfind]
      dsimp only
      rw [hfound]
      rfl

end SeqLN.Lib.Matching
