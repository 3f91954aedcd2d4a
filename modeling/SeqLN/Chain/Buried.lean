import SeqLN.Lib.Bytes

/-!
# Burial under the anchor chain

A block names the height of the Bitcoin chain it is anchored at, and a channel is announced once its
funding is buried under enough of these. `topo_anchor_buried` of `lightningd/chaintopology.c` walks from
the tip and stops at the first block that is buried itself; `topoAnchorBuried_iff`: it decides what it
would decide at the funding block. Differences of the 32-bit heights wrap.
-/

namespace SeqLN.Chain

open List

/-- What the walk reads of a block. Source: `struct block` -/
structure AnchoredBlock where
  height : UInt32
  anchorHeight : UInt32
  deriving DecidableEq

/-- The walk back from the tip along `prev`. Source: the loop of `topo_anchor_buried` -/
def buriedFrom (bestAnchor fundingHeight minAnchorDepth : UInt32) : List AnchoredBlock → Bool
  | [] => false
  | b :: prev =>
    if fundingHeight < b.height then
      if minAnchorDepth ≤ bestAnchor - b.anchorHeight then true
      else buriedFrom bestAnchor fundingHeight minAnchorDepth prev
    else minAnchorDepth ≤ bestAnchor - b.anchorHeight

/-- The blocks are given tip first. Source: `topo_anchor_buried` -/
def topoAnchorBuried (blocks : List AnchoredBlock) (fundingHeight minAnchorDepth : UInt32) : Bool :=
  match blocks.head?, blocks.getLast? with
  | some tip, some root =>
    if tip.height < fundingHeight then false
    else if fundingHeight < root.height then true
    else buriedFrom tip.anchorHeight fundingHeight minAnchorDepth blocks
  | _, _ => false

/-- The blocks from a tip to a root: each is one above the next, and its anchor not below. -/
structure AnchoredChain (blocks : List AnchoredBlock) : Prop where
  height : blocks.IsChain fun b prev => b.height.toNat = prev.height.toNat + 1
  anchor : blocks.IsChain fun b prev => prev.anchorHeight ≤ b.anchorHeight

section walk

variable {b : AnchoredBlock} {blocks prev : List AnchoredBlock} {best funding depth : UInt32}

lemma AnchoredChain.tail (h : AnchoredChain (b :: prev)) : AnchoredChain prev :=
  ⟨h.height.tail, h.anchor.tail⟩

/-- No block has a higher anchor than the one it is before. -/
theorem AnchoredChain.anchor_le (h : AnchoredChain (b :: prev)) {x : AnchoredBlock} (hx : x ∈ prev) :
    x.anchorHeight ≤ b.anchorHeight := by
  have hpair : (b :: prev).Pairwise fun b prev => prev.anchorHeight ≤ b.anchorHeight :=
    h.anchor.pairwise
  exact rel_of_pairwise_cons hpair hx

/-- The blocks of a chain are below the one they are before. -/
theorem AnchoredChain.height_lt (h : AnchoredChain (b :: prev)) {x : AnchoredBlock} (hx : x ∈ prev) :
    x.height.toNat < b.height.toNat := by
  have hlt : (b :: prev).IsChain fun b prev => prev.height.toNat < b.height.toNat :=
    h.height.imp fun _ _ heq => by omega
  have hpair : (b :: prev).Pairwise fun b prev => prev.height.toNat < b.height.toNat := hlt.pairwise
  exact rel_of_pairwise_cons hpair hx

/-- A difference of anchor heights is that of the numbers where the tip's is the higher one. -/
theorem depth_le_sub_iff {best anchor : UInt32} (hle : anchor ≤ best) :
    depth ≤ best - anchor ↔ depth.toNat + anchor.toNat ≤ best.toNat := by
  have hle' : anchor.toNat ≤ best.toNat := UInt32.le_iff_toNat_le.1 hle
  rw [UInt32.le_iff_toNat_le, UInt32.toNat_sub_of_le _ _ hle]
  omega

/-- A block stands at each height between the root's and the tip's. -/
theorem AnchoredChain.exists_height (h : AnchoredChain (b :: prev))
    (hroot : ∀ r ∈ (b :: prev).getLast?, r.height ≤ funding) (htip : funding ≤ b.height) :
    ∃ x ∈ b :: prev, x.height = funding := by
  induction prev generalizing b with
  | nil => exact ⟨b, mem_singleton_self b, UInt32.le_antisymm (hroot b rfl) htip⟩
  | cons p prev ih =>
    rcases UInt32.lt_or_eq_of_le htip with hlt | heq
    · have hstep : b.height.toNat = p.height.toNat + 1 := (isChain_cons_cons.1 h.height).1
      have hp : funding ≤ p.height := by
        rw [UInt32.lt_iff_toNat_lt] at hlt
        rw [UInt32.le_iff_toNat_le]
        omega
      obtain ⟨x, hx, hheight⟩ := ih h.tail hroot hp
      exact ⟨x, mem_cons_of_mem b hx, hheight⟩
    · exact ⟨b, mem_cons_self, heq.symm⟩

/-- A block above the funding that is buried has the funding block, with no higher anchor, before
it. -/
theorem buriedFrom_iff (h : AnchoredChain (b :: prev)) (hbest : b.anchorHeight ≤ best)
    (hroot : ∀ r ∈ (b :: prev).getLast?, r.height ≤ funding) (htip : funding ≤ b.height) :
    buriedFrom best funding depth (b :: prev) = true ↔
      ∃ x ∈ b :: prev, x.height = funding ∧ depth.toNat + x.anchorHeight.toNat ≤ best.toNat := by
  induction prev generalizing b with
  | nil =>
    have heq : b.height = funding := UInt32.le_antisymm (hroot b rfl) htip
    have hnlt : ¬ funding < b.height := by rw [heq]; exact UInt32.lt_irrefl _
    rw [buriedFrom, if_neg hnlt, decide_eq_true_iff, depth_le_sub_iff hbest]
    simp [heq]
  | cons p prev ih =>
    rw [buriedFrom]
    rcases UInt32.lt_or_eq_of_le htip with hlt | heq
    · rw [if_pos hlt]
      have hbne : b.height ≠ funding := fun heq => UInt32.lt_irrefl _ (heq ▸ hlt)
      have hstep : b.height.toNat = p.height.toNat + 1 := (isChain_cons_cons.1 h.height).1
      have hp : funding ≤ p.height := by
        rw [UInt32.lt_iff_toNat_lt] at hlt
        rw [UInt32.le_iff_toNat_le]
        omega
      have hpanchor : p.anchorHeight ≤ best :=
        UInt32.le_trans (h.anchor_le mem_cons_self) hbest
      split
      · next hburied =>
        rw [depth_le_sub_iff hbest] at hburied
        obtain ⟨x, hx, hheight⟩ := h.tail.exists_height hroot hp
        have hanchor := UInt32.le_iff_toNat_le.1 (h.anchor_le hx)
        simp only [true_iff]
        exact ⟨x, mem_cons_of_mem b hx, hheight, by omega⟩
      · rw [ih h.tail hpanchor hroot hp]
        constructor
        · rintro ⟨x, hx, hheight, hle⟩
          exact ⟨x, mem_cons_of_mem b hx, hheight, hle⟩
        · rintro ⟨x, hx, hheight, hle⟩
          obtain rfl | hx := mem_cons.1 hx
          · exact absurd hheight hbne
          · exact ⟨x, hx, hheight, hle⟩
    · have hnlt : ¬ funding < b.height := by rw [heq]; exact UInt32.lt_irrefl _
      rw [if_neg hnlt, decide_eq_true_iff, depth_le_sub_iff hbest]
      constructor
      · intro hle
        exact ⟨b, mem_cons_self, heq.symm, hle⟩
      · rintro ⟨x, hx, hheight, hle⟩
        obtain rfl | hx := mem_cons.1 hx
        · exact hle
        · have hbelow := h.height_lt hx
          rw [hheight, heq] at hbelow
          exact absurd hbelow (Nat.lt_irrefl _)

end walk

/-- Buried exactly if not above the tip, and below the root or the depth below the tip's anchor. -/
theorem topoAnchorBuried_iff (blocks : List AnchoredBlock) (tip root : AnchoredBlock)
    (fundingHeight minAnchorDepth : UInt32) (hchain : AnchoredChain blocks)
    (htip : blocks.head? = some tip) (hroot : blocks.getLast? = some root) :
    topoAnchorBuried blocks fundingHeight minAnchorDepth = true ↔
      fundingHeight ≤ tip.height ∧ (fundingHeight < root.height ∨
        ∃ b ∈ blocks, b.height = fundingHeight ∧
          (minAnchorDepth.toNat : ℤ) ≤ tip.anchorHeight.toNat - b.anchorHeight.toNat) := by
  obtain ⟨prev, rfl⟩ : ∃ prev, blocks = tip :: prev := by
    cases blocks with
    | nil => cases htip
    | cons b prev => exact ⟨prev, by rw [Option.some.inj htip]⟩
  have hdepth : ∀ b : AnchoredBlock,
      (minAnchorDepth.toNat : ℤ) ≤ tip.anchorHeight.toNat - b.anchorHeight.toNat ↔
        minAnchorDepth.toNat + b.anchorHeight.toNat ≤ tip.anchorHeight.toNat := by
    intro b
    omega
  simp only [topoAnchorBuried, htip, hroot, hdepth]
  split
  · next habove => simp [UInt32.not_le.2 habove]
  · next hbelow =>
    have hle : fundingHeight ≤ tip.height := UInt32.not_lt.1 hbelow
    split
    · next hold => simp [hle, hold]
    · next hheld =>
      have hlast : ∀ r ∈ (tip :: prev).getLast?, r.height ≤ fundingHeight := by
        intro r hr
        rw [hroot] at hr
        rw [← Option.some.inj hr]
        exact UInt32.not_lt.1 hheld
      rw [buriedFrom_iff hchain (UInt32.le_refl _) hlast hle]
      simp [hle, hheld]

namespace BuriedExample

/-- Five blocks, of which two are anchored at one Bitcoin block. -/
def blocks : List AnchoredBlock := [⟨104, 59⟩, ⟨103, 57⟩, ⟨102, 56⟩, ⟨101, 56⟩, ⟨100, 53⟩]

lemma anchoredChain : AnchoredChain blocks where
  height := by simp [blocks]
  anchor := by
    unfold blocks
    decide

/-- The funding at height 101 is three anchors deep, which the walk sees at height 102. -/
theorem topoAnchorBuried_three : topoAnchorBuried blocks 101 3 = true :=
  (topoAnchorBuried_iff blocks ⟨104, 59⟩ ⟨100, 53⟩ 101 3 anchoredChain rfl rfl).2
    ⟨by decide, .inr ⟨⟨101, 56⟩, by simp [blocks], rfl, by decide⟩⟩

end BuriedExample

end SeqLN.Chain
