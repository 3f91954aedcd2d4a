import Mathlib

/-!
# Selection sort

A sort that puts the best of what is left in the next place, in exchange for the element that stood
there; elements that `better` does not tell apart end up as the exchanges leave them. The result is a
sorted permutation (`pairwise_selectionSort`); where elements that are not told apart have one key, the
list of the keys depends only on their collection (`selectionSort_map_eq`).
-/

namespace SeqLN

open List

section select

variable {α : Type} (better : α → α → Bool)

/-- The scan for the best: the position and the element it holds, and the rest from a position on. -/
def scanBest (best : ℕ × α) : ℕ → List α → ℕ × α
  | _, [] => best
  | i, x :: xs => scanBest (if better x best.2 then (i, x) else best) (i + 1) xs

/-- Places filled one after the other with the best of what is left. -/
def selectionSort : ℕ → List α → List α
  | 0, l => l
  | _ + 1, [] => []
  | n + 1, x :: xs =>
    match scanBest better (0, x) 1 xs with
    | (0, _) => x :: selectionSort n xs
    | (k + 1, y) => y :: selectionSort n (xs.set k x)

/-- The scan ends with what it held, or with an element of the rest and its position. -/
theorem scanBest_mem (best : ℕ × α) (i : ℕ) (xs : List α) :
    scanBest better best i xs = best ∨
      ∃ j, xs[j]? = some (scanBest better best i xs).2 ∧ (scanBest better best i xs).1 = i + j := by
  induction xs generalizing best i with
  | nil => exact .inl rfl
  | cons x xs ih =>
    rw [scanBest]
    rcases ih (if better x best.2 then (i, x) else best) (i + 1) with h | ⟨j, hj, hpos⟩
    · rw [h]
      split
      · exact .inr ⟨0, rfl, rfl⟩
      · exact .inl rfl
    · exact .inr ⟨j + 1, hj, by omega⟩

/-- An element exchanged for one from outside. -/
theorem perm_cons_set {xs : List α} {k : ℕ} {y : α} (x : α) (h : xs[k]? = some y) :
    y :: xs.set k x ~ x :: xs := by
  induction xs generalizing k with
  | nil => cases h
  | cons z xs ih =>
    cases k with
    | zero =>
      cases h
      exact .swap ..
    | succ k =>
      have hrest := ih (k := k) h
      calc y :: z :: xs.set k x
        _ ~ z :: y :: xs.set k x := .swap ..
        _ ~ z :: x :: xs := hrest.cons z
        _ ~ x :: z :: xs := .swap ..

/-- What one turn does to a list: it puts the element of the scan in front, and leaves the others
behind. -/
theorem selectionSort_cons (n : ℕ) (x : α) (xs : List α) :
    ∃ rest, (scanBest better (0, x) 1 xs).2 :: rest ~ x :: xs ∧
      selectionSort better (n + 1) (x :: xs) =
        (scanBest better (0, x) 1 xs).2 :: selectionSort better n rest := by
  rw [selectionSort]
  have hmem := scanBest_mem better (0, x) 1 xs
  generalize scanBest better (0, x) 1 xs = r at hmem ⊢
  obtain ⟨k, y⟩ := r
  rcases hmem with h | ⟨j, hj, hpos⟩
  · cases h
    exact ⟨xs, .rfl, rfl⟩
  · obtain rfl : k = j + 1 := by simpa [Nat.add_comm] using hpos
    exact ⟨xs.set j x, perm_cons_set x hj, rfl⟩

/-- The sorted list is a permutation. -/
theorem perm_selectionSort (n : ℕ) (l : List α) : selectionSort better n l ~ l := by
  induction n generalizing l with
  | zero => exact .rfl
  | succ n ih =>
    cases l with
    | nil => exact .rfl
    | cons x xs =>
      obtain ⟨rest, hperm, hsort⟩ := selectionSort_cons better n x xs
      rw [hsort]
      exact ((ih rest).cons _).trans hperm

/-- A strict weak order: nothing is better than what is better than it, and what is not better goes on
along a chain. -/
structure StrictWeak : Prop where
  asymm : ∀ {a b}, better a b = true → better b a = false
  trans : ∀ {a b c}, better b a = false → better c b = false → better c a = false

section order

variable {better} (ho : StrictWeak better)
include ho

/-- What the scan held is not better than what it ends with. -/
theorem scanBest_best (best : ℕ × α) (i : ℕ) (xs : List α) :
    better best.2 (scanBest better best i xs).2 = false := by
  induction xs generalizing best i with
  | nil =>
    cases hself : better best.2 best.2 with
    | false => exact hself
    | true => exact ho.asymm hself
  | cons x xs ih =>
    rw [scanBest]
    split
    · next hx => exact ho.trans (ih (i, x) (i + 1)) (ho.asymm hx)
    · exact ih best (i + 1)

/-- Nothing that was scanned is better than what the scan ends with. -/
theorem scanBest_rest (best : ℕ × α) (i : ℕ) (xs : List α) :
    ∀ z ∈ xs, better z (scanBest better best i xs).2 = false := by
  induction xs generalizing best i with
  | nil => exact fun z hz => by cases hz
  | cons x xs ih =>
    intro z hz
    rw [scanBest]
    rcases mem_cons.1 hz with rfl | hz
    · split
      · exact scanBest_best ho (i, z) (i + 1) xs
      · next hx => exact ho.trans (scanBest_best ho best (i + 1) xs) (by simpa using hx)
    · exact ih _ _ z hz

/-- No element is better than one before it, once there is no place left to fill. -/
theorem pairwise_selectionSort (n : ℕ) (l : List α) (hn : l.length ≤ n + 1) :
    (selectionSort better n l).Pairwise fun a b => better b a = false := by
  induction n generalizing l with
  | zero =>
    match l, hn with
    | [], _ => exact .nil
    | [x], _ => exact pairwise_singleton _ _
  | succ n ih =>
    cases l with
    | nil => exact .nil
    | cons x xs =>
      obtain ⟨rest, hperm, hsort⟩ := selectionSort_cons better n x xs
      rw [hsort]
      have hlen := hperm.length_eq
      simp only [length_cons] at hlen hn
      refine pairwise_cons.2 ⟨fun z hz => ?_, ih rest (by omega)⟩
      have hz : z ∈ x :: xs :=
        hperm.subset (mem_cons_of_mem _ ((perm_selectionSort better n rest).subset hz))
      rcases mem_cons.1 hz with rfl | hz
      · exact scanBest_best ho (0, z) 1 xs
      · exact scanBest_rest ho (0, x) 1 xs z hz

/-- The keys of the sorted list are in order, if those of any two elements are that do not stand the
wrong way round. -/
theorem pairwise_map_selectionSort {κ : Type} {key : α → κ} {le : κ → κ → Prop} {l : List α}
    (hkey : ∀ a ∈ l, ∀ b ∈ l, better b a = false → le (key a) (key b)) :
    ((selectionSort better (l.length - 1) l).map key).Pairwise le := by
  rw [pairwise_map]
  have hperm := perm_selectionSort better (l.length - 1) l
  refine (pairwise_selectionSort ho _ l (by omega)).imp_of_mem fun ha hb hab => ?_
  exact hkey _ (hperm.subset ha) _ (hperm.subset hb) hab

/-- Two lists with the same collection of keys are sorted to the same list of keys. -/
theorem selectionSort_map_eq {κ : Type} {key : α → κ} {le : κ → κ → Prop}
    (hanti : ∀ a b, le a b → le b a → a = b) {l l' : List α}
    (hkey : ∀ a ∈ l, ∀ b ∈ l, better b a = false → le (key a) (key b))
    (hkey' : ∀ a ∈ l', ∀ b ∈ l', better b a = false → le (key a) (key b))
    (h : l.map key ~ l'.map key) :
    (selectionSort better (l.length - 1) l).map key =
      (selectionSort better (l'.length - 1) l').map key := by
  refine Perm.eq_of_pairwise (fun a b _ _ => hanti a b) (pairwise_map_selectionSort ho hkey)
    (pairwise_map_selectionSort ho hkey') ?_
  exact ((perm_selectionSort better _ l).map key).trans
    (h.trans ((perm_selectionSort better _ l').map key).symm)

end order

/-- Lists with the same keys, whose elements of one key have one image, have the same images. -/
theorem map_eq_map_of_key {β κ : Type} {key : α → κ} {f : α → β} {l l' : List α}
    (h : l.map key = l'.map key) (hf : ∀ a ∈ l, ∀ b ∈ l', key a = key b → f a = f b) :
    l.map f = l'.map f := by
  induction l generalizing l' with
  | nil =>
    obtain rfl : l' = [] := map_eq_nil_iff.1 h.symm
    rfl
  | cons a l ih =>
    obtain ⟨b, l', rfl, hb, hrest⟩ := map_eq_cons_iff.1 h.symm
    have hhead := hf a mem_cons_self b mem_cons_self hb.symm
    have htail := ih hrest.symm fun x hx y hy => hf x (mem_cons_of_mem _ hx) y (mem_cons_of_mem _ hy)
    rw [map_cons, map_cons, hhead, htail]

end select

end SeqLN
