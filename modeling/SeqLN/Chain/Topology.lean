import SeqLN.Lib.Bytes

/-!
# Following the served chain

`lightningd/chaintopology.c` keeps the blocks from a root to a tip and polls for the block above its
tip: one whose predecessor is not the tip takes the tip away, else it is added. A poll of a chain that
stays the same ends with the blocks of that chain exactly if the chain starts with the blocks held
before or is higher (`poll_follows_iff`); `tip_follows_served` has this for chains that change between
requests.
-/

namespace SeqLN.Chain

open List

/-! ### The loop -/

section topology

variable {β : Type} (blkid prevHash : β → ByteString 32)

/-- What a request for the block above the tip comes to. -/
inductive Polled (β : Type) where
  /-- No such block: `updates_complete`. -/
  | complete
  /-- The blocks after the tip was added or removed. -/
  | changed (blocks : List β)
  /-- The root was taken away, or a block was added twice. -/
  | fatal

/-- The blocks without the tip. Source: `remove_tip` -/
def removeTip (blocks : List β) : Polled β :=
  if blocks.dropLast = [] then .fatal else .changed blocks.dropLast

/-- The blocks with a new tip. Source: `new_block`, `add_tip` -/
def addTip (blocks : List β) (b : β) : Polled β :=
  if blkid b ∈ blocks.map blkid then .fatal else .changed (blocks ++ [b])

/-- The blocks held, root first, after the block above the tip came. Source: `get_new_block` -/
def getNewBlock (blocks : List β) : Option β → Polled β
  | none => .complete
  | some b =>
    if (blocks.getLast?).map blkid ≠ some (prevHash b) then removeTip blocks
    else addTip blkid blocks b

/-- The request for the block above the tip, on the chain being served, from the root on. Source:
`try_extend_tip` -/
def tryExtendTip (blocks served : List β) : Polled β :=
  getNewBlock blkid prevHash blocks served[blocks.length]?

/-! ### Chains -/

/-- Each block names the one before it. -/
def Linked (blocks : List β) : Prop := blocks.IsChain fun a b => prevHash b = blkid a

/-- The chains of one root. -/
structure FromRoot (root : β) (blocks : List β) : Prop where
  linked : Linked blkid prevHash blocks
  head : blocks.head? = some root
  distinct : blocks.Nodup

/-- The served chain starts with the blocks held, or is higher. -/
def Ahead (blocks served : List β) : Prop := blocks <+: served ∨ blocks.length < served.length

variable {blkid prevHash}

lemma linked_append_singleton {l : List β} {b : β} :
    Linked blkid prevHash (l ++ [b]) ↔
      Linked blkid prevHash l ∧ ∀ a ∈ l.getLast?, prevHash b = blkid a := by
  unfold Linked
  rw [isChain_append]
  simp

/-- Chains of one height with one tip are the same: a block's hash names it and all before it. -/
theorem eq_of_linked (hinj : Function.Injective blkid) {l l' : List β} (hl : Linked blkid prevHash l)
    (hl' : Linked blkid prevHash l') (hlen : l.length = l'.length) (hlast : l.getLast? = l'.getLast?) :
    l = l' := by
  induction l using List.reverseRecOn generalizing l' with
  | nil => exact (length_eq_zero_iff.1 hlen.symm).symm
  | append_singleton l b ih =>
    obtain ⟨l', b', rfl⟩ : ∃ l'' b', l' = l'' ++ [b'] := by
      have hne : l' ≠ [] := by
        rintro rfl
        simp at hlen
      exact ⟨l'.dropLast, l'.getLast hne, (dropLast_append_getLast hne).symm⟩
    obtain rfl : b = b' := by simpa using hlast
    obtain ⟨hl, hb⟩ := linked_append_singleton.1 hl
    obtain ⟨hl', hb'⟩ := linked_append_singleton.1 hl'
    have hlen' : l.length = l'.length := by simpa using hlen
    have hlast' : l.getLast? = l'.getLast? := by
      cases h : l.getLast? with
      | none =>
        rw [List.getLast?_eq_none_iff] at h
        subst h
        rw [length_eq_zero_iff.1 hlen'.symm]
        rfl
      | some a =>
        cases h' : l'.getLast? with
        | none =>
          rw [List.getLast?_eq_none_iff] at h'
          subst h'
          rw [length_eq_zero_iff.1 hlen'] at h
          cases h
        | some a' => exact congrArg some (hinj ((hb a h).symm.trans (hb' a' h')))
    rw [ih hl hl' hlen' hlast']

/-! ### One request -/

variable {root : β} {blocks served : List β}

lemma FromRoot.length_pos (h : FromRoot blkid prevHash root blocks) : 0 < blocks.length := by
  cases blocks with
  | nil => cases h.head
  | cons => exact Nat.succ_pos _

lemma FromRoot.take (h : FromRoot blkid prevHash root blocks) {n : ℕ} (hn : 0 < n) :
    FromRoot blkid prevHash root (blocks.take n) where
  linked := h.linked.take n
  head := by
    rw [List.head?_take, if_neg hn.ne']
    exact h.head
  distinct := h.distinct.take

lemma FromRoot.dropLast (h : FromRoot blkid prevHash root blocks) (hlen : 1 < blocks.length) :
    FromRoot blkid prevHash root blocks.dropLast := by
  rw [dropLast_eq_take]
  exact h.take (by omega)

/-- A served block that names the tip: the served chain starts with the blocks held. -/
theorem eq_take_of_prev (hinj : Function.Injective blkid) (hblocks : FromRoot blkid prevHash root blocks)
    (hserved : FromRoot blkid prevHash root served) {b : β} (hb : served[blocks.length]? = some b)
    (hprev : (blocks.getLast?).map blkid = some (prevHash b)) : blocks = served.take blocks.length := by
  obtain ⟨hlt, hget⟩ := List.getElem?_eq_some_iff.1 hb
  have hpos := hblocks.length_pos
  have hlen : blocks.length = (served.take blocks.length).length := by
    rw [length_take]
    omega
  refine eq_of_linked hinj hblocks.linked (hserved.take hpos).linked hlen ?_
  obtain ⟨tip, htip, hid⟩ := Option.map_eq_some_iff.1 hprev
  have hlast : (served.take blocks.length).getLast? = some (served[blocks.length - 1]) := by
    rw [List.getLast?_eq_getElem?, ← hlen, List.getElem?_take, if_pos (by omega),
      List.getElem?_eq_getElem]
  have hlink : prevHash b = blkid served[blocks.length - 1] := by
    have hchain := isChain_iff_getElem.1 hserved.linked (blocks.length - 1) (by omega)
    simp only [Nat.sub_add_cancel hpos] at hchain
    rw [← hget, hchain]
  rw [htip, hlast, hinj (hid.trans hlink)]

lemma getNewBlock_of_prev {b : β} (h : (blocks.getLast?).map blkid = some (prevHash b)) :
    getNewBlock blkid prevHash blocks (some b) = addTip blkid blocks b :=
  if_neg (not_not.2 h)

lemma getNewBlock_of_ne {b : β} (h : (blocks.getLast?).map blkid ≠ some (prevHash b)) :
    getNewBlock blkid prevHash blocks (some b) = removeTip blocks :=
  if_pos h

/-- A request finds nothing to add, or drops the tip, or adds the next block of a chain that starts
with the blocks held. -/
theorem tryExtendTip_cases (hinj : Function.Injective blkid)
    (hblocks : FromRoot blkid prevHash root blocks) (hserved : FromRoot blkid prevHash root served) :
    (served.length ≤ blocks.length ∧ tryExtendTip blkid prevHash blocks served = .complete) ∨
      (blocks.length < served.length ∧ 1 < blocks.length ∧ ¬ blocks <+: served ∧
        tryExtendTip blkid prevHash blocks served = .changed blocks.dropLast) ∨
      (blocks.length < served.length ∧ blocks <+: served ∧
        tryExtendTip blkid prevHash blocks served = .changed (served.take (blocks.length + 1))) := by
  unfold tryExtendTip
  cases hb : served[blocks.length]? with
  | none => exact .inl ⟨List.getElem?_eq_none_iff.1 hb, rfl⟩
  | some b =>
    obtain ⟨hlt, hget⟩ := List.getElem?_eq_some_iff.1 hb
    have hpos := hblocks.length_pos
    have hnext : served.take (blocks.length + 1) = served.take blocks.length ++ [b] := by
      rw [take_add_one, hb]
      rfl
    by_cases hprev : (blocks.getLast?).map blkid = some (prevHash b)
    · have htake := eq_take_of_prev hinj hblocks hserved hb hprev
      refine .inr (.inr ⟨hlt, prefix_iff_eq_take.2 htake, ?_⟩)
      -- a block of the served chain is not among those before it
      have hnew : blkid b ∉ blocks.map blkid := by
        rw [List.mem_map_of_injective hinj]
        have hnodup := (hserved.take (Nat.succ_pos blocks.length)).distinct
        rw [hnext, ← htake, nodup_append] at hnodup
        exact fun hmem => hnodup.2.2 b hmem b mem_cons_self rfl
      rw [getNewBlock_of_prev hprev, addTip, if_neg hnew, hnext, ← htake]
    · -- the tip is not on the served chain
      have hbegin : ¬ blocks <+: served := by
        intro hbegin
        have hlink := (linked_append_singleton.1 (hnext ▸ (hserved.take (Nat.succ_pos _)).linked)).2
        rw [← prefix_iff_eq_take.1 hbegin] at hlink
        refine hprev ?_
        rw [List.getLast?_eq_some_getLast (length_pos_iff.1 hpos)] at hlink ⊢
        exact congrArg some (hlink _ rfl).symm
      have hlong : 1 < blocks.length := by
        by_contra hone
        obtain ⟨a, rfl⟩ := length_eq_one_iff.1 (by omega : blocks.length = 1)
        refine hbegin ?_
        have hhead := hserved.head
        rw [← hblocks.head] at hhead
        cases served with
        | nil => cases hhead
        | cons c served =>
          cases hhead
          exact ⟨served, rfl⟩
      refine .inr (.inl ⟨hlt, hlong, hbegin, ?_⟩)
      rw [getNewBlock_of_ne hprev, removeTip, if_neg]
      rw [← length_eq_zero_iff, length_dropLast]
      omega

/-! ### A poll -/

/-- The requests of a poll on one chain, until it is complete or `fuel` requests were made. -/
def poll (blkid prevHash : β → ByteString 32) (served : List β) : ℕ → List β → Option (List β)
  | 0, _ => none
  | fuel + 1, blocks =>
    match tryExtendTip blkid prevHash blocks served with
    | .complete => some blocks
    | .changed blocks' => poll blkid prevHash served fuel blocks'
    | .fatal => none

lemma poll_of_complete (fuel : ℕ) (h : tryExtendTip blkid prevHash blocks served = .complete) :
    poll blkid prevHash served (fuel + 1) blocks = some blocks := by
  rw [poll, h]

lemma poll_of_changed (fuel : ℕ) {blocks' : List β}
    (h : tryExtendTip blkid prevHash blocks served = .changed blocks') :
    poll blkid prevHash served (fuel + 1) blocks = poll blkid prevHash served fuel blocks' := by
  rw [poll, h]

/-- From the beginning of the served chain, the poll adds the rest. -/
theorem poll_of_prefix (hinj : Function.Injective blkid) (hserved : FromRoot blkid prevHash root served)
    {k n : ℕ} (hn : 0 < n) (hk : n + k = served.length) :
    poll blkid prevHash served (k + 1) (served.take n) = some served := by
  induction k generalizing n with
  | zero =>
    have hall : served.take n = served := take_of_length_le (by omega)
    rw [hall]
    refine poll_of_complete 0 ?_
    rcases tryExtendTip_cases hinj hserved hserved with ⟨-, h⟩ | ⟨hlt, -⟩ | ⟨hlt, -⟩
    · exact h
    · exact absurd hlt (lt_irrefl _)
    · exact absurd hlt (lt_irrefl _)
  | succ k ih =>
    have hlen : (served.take n).length = n := by
      rw [length_take]
      omega
    rcases tryExtendTip_cases hinj (hserved.take hn) hserved with ⟨hle, -⟩ | ⟨-, -, hno, -⟩ | ⟨-, -, h⟩
    · rw [hlen] at hle
      omega
    · have hbegin := take_prefix n served
      exact absurd hbegin hno
    · rw [poll_of_changed (k + 1) h, hlen]
      exact ih (Nat.succ_pos n) (by omega)

/-- From below the served chain's height, the poll goes back to where the chains meet and adds the
rest. -/
theorem poll_of_lt (hinj : Function.Injective blkid) (hserved : FromRoot blkid prevHash root served)
    {n : ℕ} (hblocks : FromRoot blkid prevHash root blocks) (hn : blocks.length = n)
    (hlt : n < served.length) : ∃ fuel, poll blkid prevHash served fuel blocks = some served := by
  induction n generalizing blocks with
  | zero => exact absurd hblocks.length_pos (by omega)
  | succ n ih =>
    rcases tryExtendTip_cases hinj hblocks hserved with ⟨hle, -⟩ | ⟨-, hlong, -, h⟩ | ⟨-, hbegin, -⟩
    · omega
    · have hlen : blocks.dropLast.length = n := by
        rw [length_dropLast]
        omega
      obtain ⟨fuel, hfuel⟩ := ih (hblocks.dropLast hlong) hlen (by omega)
      exact ⟨fuel + 1, (poll_of_changed fuel h).trans hfuel⟩
    · rw [prefix_iff_eq_take.1 hbegin]
      exact ⟨_, poll_of_prefix hinj hserved hblocks.length_pos
        (Nat.add_sub_cancel' (by omega : blocks.length ≤ served.length))⟩

/-- A poll of one chain ends, and with that chain exactly if the chain was ahead. -/
theorem poll_follows_iff (hinj : Function.Injective blkid) (hblocks : FromRoot blkid prevHash root blocks)
    (hserved : FromRoot blkid prevHash root served) :
    ∃ fuel final, poll blkid prevHash served fuel blocks = some final ∧
      (final = served ↔ Ahead blocks served) := by
  by_cases hlt : blocks.length < served.length
  · obtain ⟨fuel, hfuel⟩ := poll_of_lt hinj hserved hblocks rfl hlt
    exact ⟨fuel, served, hfuel, iff_of_true rfl (.inr hlt)⟩
  · have hcomplete : tryExtendTip blkid prevHash blocks served = .complete := by
      rcases tryExtendTip_cases hinj hblocks hserved with ⟨-, h⟩ | ⟨h, -⟩ | ⟨h, -⟩
      · exact h
      · exact absurd h hlt
      · exact absurd h hlt
    refine ⟨1, blocks, poll_of_complete 0 hcomplete, ?_⟩
    constructor
    · rintro rfl
      exact .inl prefix_rfl
    · rintro (hbegin | h)
      · exact hbegin.eq_of_length_le (not_lt.1 hlt)
      · exact absurd h hlt

/-! ### Runs -/

/-- The blocks held after the first requests, each made on the chain served at its time. -/
def blocksAfter (blkid prevHash : β → ByteString 32) (start : List β) (served : ℕ → List β) :
    ℕ → Option (List β)
  | 0 => some start
  | i + 1 =>
    (blocksAfter blkid prevHash start served i).bind fun blocks =>
      match tryExtendTip blkid prevHash blocks (served i) with
      | .complete => some blocks
      | .changed blocks' => some blocks'
      | .fatal => none

/-- A request keeps the blocks a chain from the root that the served chain is ahead of. -/
theorem exists_next (hinj : Function.Injective blkid) (hblocks : FromRoot blkid prevHash root blocks)
    (hserved : FromRoot blkid prevHash root served) (hahead : Ahead blocks served) :
    ∃ blocks', (match tryExtendTip blkid prevHash blocks served with
        | .complete => some blocks
        | .changed blocks' => some blocks'
        | .fatal => none) = some blocks' ∧ FromRoot blkid prevHash root blocks' ∧ Ahead blocks' served := by
  rcases tryExtendTip_cases hinj hblocks hserved with ⟨-, h⟩ | ⟨hlt, hlong, -, h⟩ | ⟨hlt, -, h⟩
  · exact ⟨blocks, by rw [h], hblocks, hahead⟩
  · refine ⟨blocks.dropLast, by rw [h], hblocks.dropLast hlong, .inr ?_⟩
    rw [length_dropLast]
    omega
  · have hbegin := take_prefix (blocks.length + 1) served
    exact ⟨_, by rw [h], hserved.take (Nat.succ_pos _), .inl hbegin⟩

/-- Where the served chain changes only to one that is ahead, it stays ahead. -/
theorem blocksAfter_ahead (hinj : Function.Injective blkid) {start : List β} {served : ℕ → List β}
    (hstart : FromRoot blkid prevHash root start) (hserved : ∀ i, FromRoot blkid prevHash root (served i))
    (hahead : Ahead start (served 0))
    (hchange : ∀ i blocks, blocksAfter blkid prevHash start served (i + 1) = some blocks →
      served (i + 1) = served i ∨ Ahead blocks (served (i + 1))) (i : ℕ) :
    ∃ blocks, blocksAfter blkid prevHash start served i = some blocks ∧
      FromRoot blkid prevHash root blocks ∧ Ahead blocks (served i) := by
  induction i with
  | zero => exact ⟨start, rfl, hstart, hahead⟩
  | succ i ih =>
    obtain ⟨blocks, hafter, hblocks, hahead⟩ := ih
    obtain ⟨blocks', hnext, hblocks', hahead'⟩ := exists_next hinj hblocks (hserved i) hahead
    have hafter' : blocksAfter blkid prevHash start served (i + 1) = some blocks' := by
      rw [blocksAfter, hafter]
      exact hnext
    refine ⟨blocks', hafter', hblocks', ?_⟩
    rcases hchange i blocks' hafter' with heq | h
    · rw [heq]
      exact hahead'
    · exact h

/-- As long as the served chain never changes to one that is not higher than the blocks held and
does not start with them, the blocks held are those served whenever a poll completes, and the root
is never lost. On a chain that does not change, every poll completes, and this is the exact
condition. -/
theorem tip_follows_served (hinj : Function.Injective blkid) (root : β) :
    (∀ blocks served, FromRoot blkid prevHash root blocks → FromRoot blkid prevHash root served →
      ∃ fuel final, poll blkid prevHash served fuel blocks = some final ∧
        (final = served ↔ Ahead blocks served)) ∧
    ∀ (start : List β) (served : ℕ → List β), FromRoot blkid prevHash root start →
      (∀ i, FromRoot blkid prevHash root (served i)) → Ahead start (served 0) →
      (∀ i blocks, blocksAfter blkid prevHash start served (i + 1) = some blocks →
        served (i + 1) = served i ∨ Ahead blocks (served (i + 1))) →
      ∀ i, ∃ blocks, blocksAfter blkid prevHash start served i = some blocks ∧
        (tryExtendTip blkid prevHash blocks (served i) = .complete → blocks = served i) := by
  refine ⟨fun _ _ => poll_follows_iff hinj, fun start served hstart hserved hahead hchange i => ?_⟩
  obtain ⟨blocks, hafter, hblocks, hahead⟩ := blocksAfter_ahead hinj hstart hserved hahead hchange i
  refine ⟨blocks, hafter, fun hcomplete => ?_⟩
  rcases tryExtendTip_cases hinj hblocks (hserved i) with ⟨hle, -⟩ | ⟨-, -, -, h⟩ | ⟨-, -, h⟩
  · rcases hahead with hbegin | hlt
    · exact hbegin.eq_of_length_le hle
    · omega
  · rw [hcomplete] at h
    cases h
  · rw [hcomplete] at h
    cases h

end topology

namespace TopologyExample

/-- A root with two blocks above it, and one above the second. -/
inductive Named where
  | root
  | old
  | new
  | next
  deriving DecidableEq

def blkid : Named → ByteString 32
  | .root => .replicate 32 0
  | .old => .replicate 32 1
  | .new => .replicate 32 2
  | .next => .replicate 32 3

def prevHash : Named → ByteString 32
  | .root => .replicate 32 9
  | .old => blkid .root
  | .new => blkid .root
  | .next => blkid .new

lemma blkid_injective : Function.Injective blkid := by
  rintro (_ | _ | _ | _) (_ | _ | _ | _) h
  all_goals first | rfl | exact absurd h (by decide)

def oldChain : List Named := [.root, .old]

/-- A chain of the same height. -/
def newChain : List Named := [.root, .new]

/-- The same, one block higher. -/
def higherChain : List Named := [.root, .new, .next]

lemma fromRoot_oldChain : FromRoot blkid prevHash .root oldChain :=
  ⟨by unfold Linked; decide, rfl, by decide⟩

lemma fromRoot_newChain : FromRoot blkid prevHash .root newChain :=
  ⟨by unfold Linked; decide, rfl, by decide⟩

lemma fromRoot_higherChain : FromRoot blkid prevHash .root higherChain :=
  ⟨by unfold Linked; decide, rfl, by decide⟩

/-- The served chain after so many requests: after the first one it is the higher one. -/
def rising (i : ℕ) : List Named := if i = 0 then oldChain else higherChain

/-- A higher chain is followed, by a poll and in a run in which the chain changes to it. -/
theorem tip_follows_higher :
    (Ahead oldChain higherChain ∧
      ∃ fuel final, poll blkid prevHash higherChain fuel oldChain = some final ∧
        (final = higherChain ↔ Ahead oldChain higherChain)) ∧
    blocksAfter blkid prevHash oldChain rising 4 = some higherChain ∧
    ∀ i, ∃ blocks, blocksAfter blkid prevHash oldChain rising i = some blocks ∧
      (tryExtendTip blkid prevHash blocks (rising i) = .complete → blocks = rising i) := by
  have hahead : Ahead oldChain higherChain := .inr (by decide)
  obtain ⟨hpoll, hrun⟩ := tip_follows_served blkid_injective Named.root
  refine ⟨⟨hahead, hpoll _ _ fromRoot_oldChain fromRoot_higherChain⟩, by decide,
    hrun oldChain rising fromRoot_oldChain (fun i => ?_) (.inl prefix_rfl) fun i blocks hafter => ?_⟩
  · unfold rising
    split
    · exact fromRoot_oldChain
    · exact fromRoot_higherChain
  · cases i with
    | zero =>
      -- the first request finds the old chain unchanged
      have hold : blocksAfter blkid prevHash oldChain rising 1 = some oldChain := by decide
      obtain rfl := Option.some.inj (hold.symm.trans hafter)
      exact .inr hahead
    | succ i => exact .inl rfl

/-- A chain of equal height is not: the poll is complete at once, with the old block as the tip. -/
theorem tip_misses_equal_height :
    FromRoot blkid prevHash .root oldChain ∧ FromRoot blkid prevHash .root newChain ∧
      tryExtendTip blkid prevHash oldChain newChain = .complete ∧ oldChain ≠ newChain :=
  ⟨fromRoot_oldChain, fromRoot_newChain, rfl, by decide⟩

end TopologyExample

end SeqLN.Chain
