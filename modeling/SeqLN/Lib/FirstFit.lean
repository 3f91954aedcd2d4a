import Mathlib.Data.List.Sort
import Mathlib.Data.List.Perm.Basic
import Mathlib.Order.Defs.LinearOrder

/-!
# First fit by key

Items take slots one after the other, each the first free slot of its key (`firstFit`). Within a key,
the items and the slots meet in order. Where the items of each key are, in order of value, the values of
those slots of the key that pass a test, every item meets a slot of its own value exactly if the slots
of a key come in that order too, those that fail the test last (`firstFit_exact_iff`).
-/

namespace SeqLN.Lib.FirstFit

open List

universe u v w z

variable {σ : Type u} {ο : Type v} {κ : Type w} {ν : Type z}

/-- The pairs of an item and the slot it takes, and the slots that are left. -/
def firstFit (fits : σ → ο → Bool) : List σ → List ο → List (ο × σ) × List σ
  | slots, [] => ([], slots)
  | slots, x :: xs =>
    match slots.find? (fits · x) with
    | some s =>
      let r := firstFit fits (slots.eraseP (fits · x)) xs
      ((x, s) :: r.1, r.2)
    | none => firstFit fits slots xs

variable {fits : σ → ο → Bool} {slots : List σ} {x : ο}

/-- An item that finds a slot. -/
theorem firstFit_of_some {s : σ} (xs : List ο) (h : slots.find? (fits · x) = some s) :
    firstFit fits slots (x :: xs) =
      ((x, s) :: (firstFit fits (slots.eraseP (fits · x)) xs).1,
        (firstFit fits (slots.eraseP (fits · x)) xs).2) := by
  rw [firstFit, h]

/-- An item that finds none. -/
theorem firstFit_of_none (xs : List ο) (h : slots.find? (fits · x) = none) :
    firstFit fits slots (x :: xs) = firstFit fits slots xs := by
  rw [firstFit, h]

/-- The items that find a slot keep their order. -/
theorem firstFit_sublist (slots : List σ) (items : List ο) :
    List.Sublist ((firstFit fits slots items).1.map Prod.fst) items := by
  induction items generalizing slots with
  | nil => exact .refl _
  | cons x xs ih =>
    cases hfind : slots.find? (fits · x) with
    | some s =>
      rw [firstFit_of_some xs hfind]
      exact (ih _).cons_cons x
    | none =>
      rw [firstFit_of_none xs hfind]
      exact (ih _).cons x

variable {items : List ο}

/-- An item and the slot it takes fit. -/
theorem firstFit_mem {q : ο × σ} (h : q ∈ (firstFit fits slots items).1) :
    q.1 ∈ items ∧ q.2 ∈ slots ∧ fits q.2 q.1 = true := by
  induction items generalizing slots with
  | nil => cases h
  | cons x xs ih =>
    cases hfind : slots.find? (fits · x) with
    | some s =>
      rw [firstFit_of_some xs hfind] at h
      rcases mem_cons.1 h with rfl | h
      · exact ⟨mem_cons_self, List.mem_of_find?_eq_some hfind,
          List.find?_some (p := (fits · x)) hfind⟩
      · obtain ⟨hitem, hslot, hfits⟩ := ih h
        exact ⟨mem_cons_of_mem x hitem, mem_of_mem_eraseP hslot, hfits⟩
    | none =>
      rw [firstFit_of_none xs hfind] at h
      obtain ⟨hitem, hslot, hfits⟩ := ih h
      exact ⟨mem_cons_of_mem x hitem, hslot, hfits⟩

/-- Items that no slot fits make no difference. -/
theorem firstFit_filter {q : ο → Bool}
    (h : ∀ x ∈ items, ¬ q x = true → ∀ s ∈ slots, ¬ fits s x = true) :
    firstFit fits slots (items.filter q) = firstFit fits slots items := by
  induction items generalizing slots with
  | nil => rfl
  | cons x xs ih =>
    have hrest : ∀ y ∈ xs, ¬ q y = true → ∀ s ∈ slots, ¬ fits s y = true :=
      fun y hy => h y (mem_cons_of_mem x hy)
    by_cases hq : q x = true
    · rw [filter_cons_of_pos hq]
      cases hfind : slots.find? (fits · x) with
      | some s =>
        rw [firstFit_of_some _ hfind, firstFit_of_some _ hfind,
          ih fun y hy hqy s hs => hrest y hy hqy s (mem_of_mem_eraseP hs)]
      | none => rw [firstFit_of_none _ hfind, firstFit_of_none _ hfind, ih hrest]
    · have hfind : slots.find? (fits · x) = none :=
        List.find?_eq_none.2 (h x mem_cons_self hq)
      rw [filter_cons_of_neg hq, firstFit_of_none _ hfind, ih hrest]

/-! ### The classes of a key -/

/-- Lists agree up to order if their classes do. -/
theorem perm_of_filter_perm [DecidableEq κ] {f : σ → κ} {as bs : List σ}
    (h : ∀ k, List.Perm (as.filter (f · = k)) (bs.filter (f · = k))) : List.Perm as bs := by
  classical
  rw [perm_iff_count]
  intro a
  have hcount := (h (f a)).count_eq a
  rwa [count_filter (by simp), count_filter (by simp)] at hcount

section keyed

variable [DecidableEq κ] {ks : σ → κ} {kx : ο → κ}

/-- A slot and an item of one key. -/
def sameKey (ks : σ → κ) (kx : ο → κ) (s : σ) (x : ο) : Bool := ks s = kx x

/-- The first slot of a key, among those of the key. -/
theorem filter_eraseP_self {s : σ} (h : slots.find? (sameKey ks kx · x) = some s) :
    slots.filter (ks · = kx x) = s :: (slots.eraseP (sameKey ks kx · x)).filter (ks · = kx x) := by
  induction slots with
  | nil => cases h
  | cons a slots ih =>
    by_cases ha : ks a = kx x
    · rw [List.find?_cons_of_pos (p := (sameKey ks kx · x)) (decide_eq_true ha)] at h
      cases h
      rw [eraseP_cons_of_pos (p := (sameKey ks kx · x)) (decide_eq_true ha),
        filter_cons_of_pos (by simpa using ha)]
    · have hna : ¬ sameKey ks kx a x = true := fun h => ha (of_decide_eq_true h)
      rw [List.find?_cons_of_neg (p := (sameKey ks kx · x)) hna] at h
      rw [eraseP_cons_of_neg (p := (sameKey ks kx · x)) hna,
        filter_cons_of_neg (by simpa using ha), filter_cons_of_neg (by simpa using ha), ih h]

/-- The slots of the other keys stay. -/
theorem filter_eraseP_of_ne {k : κ} (hk : k ≠ kx x) :
    (slots.eraseP (sameKey ks kx · x)).filter (ks · = k) = slots.filter (ks · = k) := by
  induction slots with
  | nil => rfl
  | cons a slots ih =>
    by_cases ha : ks a = kx x
    · have hne : ¬ ks a = k := fun h => hk (h.symm.trans ha)
      rw [eraseP_cons_of_pos (p := (sameKey ks kx · x)) (decide_eq_true ha),
        filter_cons_of_neg (by simpa using hne)]
    · have hna : ¬ sameKey ks kx a x = true := fun h => ha (of_decide_eq_true h)
      rw [eraseP_cons_of_neg (p := (sameKey ks kx · x)) hna, filter_cons, filter_cons, ih]

/-- No slot of a key is left. -/
theorem filter_eq_nil_of_find? (h : slots.find? (sameKey ks kx · x) = none) :
    slots.filter (ks · = kx x) = [] := by
  rw [filter_eq_nil_iff]
  intro a ha hkey
  exact List.find?_eq_none.1 h a ha hkey

/-- Within a key, the items and the slots meet in order, and the last slots are left. -/
theorem firstFit_key (slots : List σ) (items : List ο) (k : κ) :
    (firstFit (sameKey ks kx) slots items).1.filter (fun q => kx q.1 = k) =
        (items.filter (kx · = k)).zip (slots.filter (ks · = k)) ∧
      (firstFit (sameKey ks kx) slots items).2.filter (ks · = k) =
        (slots.filter (ks · = k)).drop (items.filter (kx · = k)).length := by
  induction items generalizing slots with
  | nil => exact ⟨rfl, rfl⟩
  | cons x xs ih =>
    cases hfind : slots.find? (sameKey ks kx · x) with
    | some s =>
      obtain ⟨hpairs, hleft⟩ := ih (slots.eraseP (sameKey ks kx · x))
      rw [firstFit_of_some xs hfind]
      by_cases hk : kx x = k
      · subst hk
        rw [filter_cons_of_pos (by simp), filter_cons_of_pos (by simp), hpairs, hleft,
          filter_eraseP_self hfind]
        exact ⟨rfl, rfl⟩
      · rw [filter_cons_of_neg (by simpa using hk), filter_cons_of_neg (by simpa using hk), hpairs,
          hleft, filter_eraseP_of_ne (Ne.symm hk)]
        exact ⟨rfl, rfl⟩
    | none =>
      obtain ⟨hpairs, hleft⟩ := ih slots
      rw [firstFit_of_none xs hfind, hpairs, hleft]
      by_cases hk : kx x = k
      · subst hk
        rw [filter_eq_nil_of_find? hfind, zip_nil_right, zip_nil_right, drop_nil, drop_nil]
        exact ⟨rfl, rfl⟩
      · rw [filter_cons_of_neg (by simpa using hk)]
        exact ⟨rfl, rfl⟩

/-- Each item finds a slot, where no key has more items than slots. -/
theorem firstFit_items
    (h : ∀ k, (items.filter (kx · = k)).length ≤ (slots.filter (ks · = k)).length) :
    (firstFit (sameKey ks kx) slots items).1.map Prod.fst = items := by
  have hclass : ∀ k, ((firstFit (sameKey ks kx) slots items).1.map Prod.fst).filter (kx · = k) =
      items.filter (kx · = k) := by
    intro k
    rw [List.filter_map]
    change ((firstFit (sameKey ks kx) slots items).1.filter (fun q => kx q.1 = k)).map Prod.fst = _
    rw [(firstFit_key _ _ _).1, map_fst_zip (h k)]
  have hlen : ((firstFit (sameKey ks kx) slots items).1.map Prod.fst).length = items.length :=
    (perm_of_filter_perm fun k => .of_eq (hclass k)).length_eq
  exact (firstFit_sublist slots items).eq_of_length hlen

end keyed

/-! ### Sorted classes -/

/-- Two lists agree where they meet. -/
theorem forall_mem_zip_iff {vs : σ → ν} {vx : ο → ν} {xs : List ο} {ss : List σ}
    (hlen : xs.length ≤ ss.length) :
    (∀ q ∈ xs.zip ss, vs q.2 = vx q.1) ↔ (ss.map vs).take (xs.map vx).length = xs.map vx := by
  induction xs generalizing ss with
  | nil => simp
  | cons x xs ih =>
    cases ss with
    | nil => simp at hlen
    | cons s ss =>
      have hrest := @ih ss (by simpa using hlen)
      rw [zip_cons_cons, forall_mem_cons, hrest, map_cons, map_cons,
        length_cons, take_succ_cons, List.cons.injEq]

section sorted

variable [LinearOrder ν] {p : ν → Bool} {vs ws : List ν}

/-- What passes a test comes first, in order. -/
def Orderly (p : ν → Bool) (a b : ν) : Prop := p b = true → p a = true ∧ a ≤ b

/-- What passes a test, where that comes first, and the rest. -/
theorem filter_append_of_first {P : σ → Bool} {l : List σ}
    (h : l.Pairwise fun a b => P b = true → P a = true) :
    l.filter P ++ l.filter (fun a => !P a) = l := by
  induction l with
  | nil => rfl
  | cons a l ih =>
    obtain ⟨hfirst, hrest⟩ := pairwise_cons.1 h
    by_cases ha : P a = true
    · rw [filter_cons_of_pos ha, filter_cons_of_neg (by simpa using ha), cons_append,
        ih hrest]
    · have hnone : ∀ b ∈ a :: l, ¬ P b = true := by
        rintro b (_ | ⟨_, hb⟩)
        · exact ha
        · exact fun hpb => ha (hfirst b hb hpb)
      rw [filter_eq_nil_iff.2 hnone, nil_append, filter_eq_self]
      intro b hb
      simpa using hnone b hb

/-- A list starts with its elements that pass a test, in order, exactly if each that passes comes
after none that fails and no larger one. -/
theorem take_eq_sorted_iff (hperm : List.Perm ws (vs.filter p)) (hsorted : ws.Pairwise (· ≤ ·)) :
    vs.take ws.length = ws ↔ vs.Pairwise (Orderly p) := by
  constructor
  · intro htake
    have hsplit : vs = ws ++ vs.drop ws.length := by
      conv_lhs => rw [← take_append_drop ws.length vs, htake]
    have hpass : ∀ w ∈ ws, p w = true := fun w hw => (mem_filter.1 (hperm.subset hw)).2
    -- as many elements pass the test as are in front, so none of the others does
    have hrest : (vs.drop ws.length).filter p = [] := by
      have hlen := hperm.length_eq
      rw [hsplit, filter_append, length_append, filter_eq_self.2 hpass] at hlen
      refine eq_nil_of_length_eq_zero ?_
      omega
    have hfail : ∀ b ∈ vs.drop ws.length, ¬ p b = true := filter_eq_nil_iff.1 hrest
    rw [hsplit, pairwise_append]
    refine ⟨hsorted.imp_of_mem fun ha _ hle _ => ⟨hpass _ ha, hle⟩, ?_, ?_⟩
    · exact pairwise_of_forall_mem_list fun a _ b hb hpb => absurd hpb (hfail b hb)
    · intro a _ b hb hpb
      exact absurd hpb (hfail b hb)
  · intro h
    have hfilter : (vs.filter p).Pairwise (· ≤ ·) :=
      (h.filter p).imp_of_mem fun _ hb horder => (horder (mem_filter.1 hb).2).2
    have heq : ws = vs.filter p := hperm.eq_of_pairwise (fun _ _ _ _ => le_antisymm) hsorted hfilter
    have happend := filter_append_of_first (h.imp fun horder hb => (horder hb).1)
    rw [← heq] at happend
    rw [← happend]
    exact take_left

end sorted

/-! ### Pairs of one value -/

section exact

variable [DecidableEq κ] [LinearOrder ν] {ks : σ → κ} {kx : ο → κ} {vs : σ → ν} {vx : ο → ν}
  {p : ν → Bool} {slots : List σ} {items : List ο}

/-- The items of each key are, in order of value, those of the slots of the key that pass the
test. -/
structure Listed (ks : σ → κ) (kx : ο → κ) (vs : σ → ν) (vx : ο → ν) (p : ν → Bool) (slots : List σ)
    (items : List ο) : Prop where
  perm : ∀ k, List.Perm ((items.filter (kx · = k)).map vx)
    (((slots.filter (ks · = k)).map vs).filter p)
  sorted : ∀ k, ((items.filter (kx · = k)).map vx).Pairwise (· ≤ ·)

/-- No key has more items than slots. -/
theorem Listed.length_le (h : Listed ks kx vs vx p slots items) (k : κ) :
    (items.filter (kx · = k)).length ≤ (slots.filter (ks · = k)).length := by
  have hlen := (h.perm k).length_eq
  have hle := length_filter_le p ((slots.filter (ks · = k)).map vs)
  rw [length_map] at hlen hle
  omega

/-- A relation within every class. -/
theorem pairwise_class_iff {R : σ → σ → Prop} :
    (∀ k, (slots.filter (ks · = k)).Pairwise R) ↔ slots.Pairwise fun a b => ks a = ks b → R a b := by
  simp only [pairwise_filter, decide_eq_true_eq]
  constructor
  · intro h
    induction slots with
    | nil => exact .nil
    | cons a slots ih =>
      refine pairwise_cons.2 ⟨fun b hb hkey => ?_, ih fun k => (pairwise_cons.1 (h k)).2⟩
      exact (pairwise_cons.1 (h (ks a))).1 b hb rfl hkey.symm
  · intro h k
    exact h.imp fun hR ha hb => hR (ha.trans hb.symm)

/-- Each item meets a slot of its own value exactly if the slots of a key that pass the test come
first and in order. -/
theorem firstFit_exact_iff (h : Listed ks kx vs vx p slots items) :
    (∀ q ∈ (firstFit (sameKey ks kx) slots items).1, vs q.2 = vx q.1) ↔
      slots.Pairwise fun a b => ks a = ks b → Orderly p (vs a) (vs b) := by
  have hclass : ∀ k, (∀ q ∈ (firstFit (sameKey ks kx) slots items).1.filter (fun q => kx q.1 = k),
      vs q.2 = vx q.1) ↔ (slots.filter (ks · = k)).Pairwise fun a b => Orderly p (vs a) (vs b) := by
    intro k
    rw [(firstFit_key _ _ _).1, forall_mem_zip_iff (h.length_le k),
      take_eq_sorted_iff (h.perm k) (h.sorted k), pairwise_map]
  rw [← pairwise_class_iff, ← forall_congr' hclass]
  constructor
  · intro hall k q hq
    exact hall q (mem_filter.1 hq).1
  · intro hall q hq
    exact hall (kx q.1) q (mem_filter.2 ⟨hq, by simp⟩)

/-- The slots that are left are then those that fail the test. -/
theorem firstFit_left_perm (h : Listed ks kx vs vx p slots items)
    (horder : slots.Pairwise fun a b => ks a = ks b → Orderly p (vs a) (vs b)) :
    List.Perm (firstFit (sameKey ks kx) slots items).2 (slots.filter fun s => !p (vs s)) := by
  refine perm_of_filter_perm (f := ks) fun k => .of_eq ?_
  have hclass := pairwise_class_iff.2 horder k
  have happend := filter_append_of_first (P := fun s => p (vs s))
    (hclass.imp fun horder hb => (horder hb).1)
  have hlen : (items.filter (kx · = k)).length =
      ((slots.filter (ks · = k)).filter fun s => p (vs s)).length := by
    have hperm := (h.perm k).length_eq
    rwa [length_map, List.filter_map, length_map] at hperm
  have hdrop : (slots.filter (ks · = k)).drop
      ((slots.filter (ks · = k)).filter fun s => p (vs s)).length =
      (slots.filter (ks · = k)).filter fun s => !p (vs s) :=
    (congrArg (List.drop _) happend).symm.trans drop_left
  rw [(firstFit_key _ _ _).2, hlen, hdrop, filter_comm]

end exact

end SeqLN.Lib.FirstFit
