import SeqLN.Lib.Bytes

/-!
# The certified frontier

`plugins/bcli.c` shows the node only the quorum-certified chain: `getchaininfo` reports the highest
certified height, and `getrawblockbyheight` holds back what is above it. The plugin remembers the last
frontier it found, and trusts it far below itself without asking again. `certified_chain_served`: this
memory never shows while the frontier does not fall 144 or more.
-/

namespace SeqLN.Chain

/-! ### What bitcoind answers -/

/-- The answer to `getblockchaininfo`. -/
structure ChainInfo where
  headers : ℕ
  blocks : ℕ
  bestblockhash : ByteString 32

/-- The RPC calls that the plugin makes; `none` is a failed call. -/
structure Bitcoind where
  getblockchaininfo : Option ChainInfo
  getblockhash : ℕ → Option (ByteString 32)
  /-- `poscertified` of a header. -/
  getblockheader : ByteString 32 → Option Bool

/-- Source: `SEQUENTIA_CERT_LOOKBACK` -/
def certLookback : ℕ := 144

section plugin

variable (b : Bitcoind)

/-- Source: `sequentia_block_certified`, where it returns true and sets `certified` -/
def blockCertified (hash : ByteString 32) : Bool := b.getblockheader hash = some true

/-- The walk down from the tip, `fuel` blocks at most. Source: the loop of
`sequentia_certified_frontier` -/
def walkDown (tip : ℕ) : ℕ → ℕ → ℕ
  | 0, _ => tip
  | fuel + 1, back =>
    if back ≤ tip then
      if (b.getblockhash (tip - back)).any (blockCertified b) then tip - back
      else walkDown tip fuel (back + 1)
    else tip

/-- Source: `sequentia_certified_frontier` -/
def certifiedFrontier (tip : ℕ) (tipHash : ByteString 32) : ℕ :=
  if blockCertified b tipHash then tip else walkDown b tip certLookback 1

/-- Whether a block is in view, and the frontier to remember; heights are 32-bit words.
Source: `sequentia_block_in_view` -/
def blockInView (frontierHint height : ℕ) (blockhash : ByteString 32) : Bool × ℕ :=
  if (height + certLookback) % 2 ^ 32 ≤ frontierHint then (true, frontierHint)
  else if height ≤ frontierHint ∧ blockCertified b blockhash = true then (true, frontierHint)
  else
    match b.getblockchaininfo with
    | none => (false, frontierHint)
    | some info =>
      let frontier := certifiedFrontier b info.blocks info.bestblockhash
      (decide (height ≤ frontier), frontier)

/-- The hash of the block that is fetched, if one is. Source: `getrawblockbyheight`, on a chain with
anchor headers -/
def getrawblockbyheight (frontierHint height : ℕ) : Option (ByteString 32) × ℕ :=
  match b.getblockhash height with
  | none => (none, frontierHint)
  | some hash =>
    let inView := blockInView b frontierHint height hash
    (if inView.1 then some hash else none, inView.2)

/-- The header count and the block count. Source: `getchaininfo` on a chain with anchor headers -/
def getchaininfo : Option (ℕ × ℕ) :=
  b.getblockchaininfo.map fun info =>
    if 0 < info.blocks then
      let frontier := certifiedFrontier b info.blocks info.bestblockhash
      let blocks := if frontier < info.blocks then frontier else info.blocks
      (if blocks < info.headers then blocks else info.headers, blocks)
    else (info.headers, info.blocks)

end plugin

/-! ### Chains -/

variable {hint : ℕ}

/-- A block as far as the plugin asks about it. -/
structure Block where
  hash : ByteString 32
  certified : Bool

/-- A chain from genesis to its tip; a block's hash names it. -/
structure BlockChain where
  blocks : List Block
  nonempty : blocks ≠ []
  hash_inj : (blocks.map (·.hash)).Nodup
  /-- Headers may be known past the blocks. -/
  headers : ℕ
  blocks_le_headers : blocks.length ≤ headers + 1
  height_lt : blocks.length ≤ 2 ^ 31

namespace BlockChain

variable (c : BlockChain)

def tip : ℕ := c.blocks.length - 1

/-- The block at a height is certified. -/
def CertifiedAt (h : ℕ) : Prop := (c.blocks[h]?).any (·.certified) = true

instance (h : ℕ) : Decidable (c.CertifiedAt h) := inferInstanceAs (Decidable (_ = true))

/-- The highest certified height. -/
def frontier : ℕ := Nat.findGreatest c.CertifiedAt c.tip

/-- Some block within the lookback of the tip is certified. -/
def Certifying : Prop := ∃ h, c.tip ≤ h + certLookback ∧ c.CertifiedAt h

/-- A bitcoind whose calls succeed on this chain. -/
def bitcoind : Bitcoind where
  getblockchaininfo := some ⟨c.headers, c.tip, (c.blocks.getLast c.nonempty).hash⟩
  getblockhash h := (c.blocks[h]?).map (·.hash)
  getblockheader hash := (c.blocks.find? (·.hash = hash)).map (·.certified)

variable {c}

variable {h : ℕ}

lemma le_tip_of_certifiedAt (hh : c.CertifiedAt h) : h ≤ c.tip := by
  obtain ⟨blk, hblk, -⟩ := (Option.any_eq_true _ _).1 hh
  have := (List.getElem?_eq_some_iff.1 hblk).1
  unfold tip
  omega

lemma frontier_le_tip : c.frontier ≤ c.tip := Nat.findGreatest_le _

lemma le_frontier (hh : c.CertifiedAt h) : h ≤ c.frontier :=
  Nat.le_findGreatest (le_tip_of_certifiedAt hh) hh

/-- A height is the frontier if it is certified and nothing above it is. -/
theorem eq_frontier (hh : c.CertifiedAt h) (habove : ∀ k, h < k → ¬ c.CertifiedAt k) :
    h = c.frontier := by
  refine le_antisymm (le_frontier hh) ?_
  by_contra hlt
  exact habove c.frontier (not_le.1 hlt) (Nat.findGreatest_spec (le_tip_of_certifiedAt hh) hh)

/-- The header of a block of the chain says whether it is certified. -/
theorem blockCertified_iff {blk : Block} (hblk : c.blocks[h]? = some blk) :
    blockCertified c.bitcoind blk.hash = true ↔ c.CertifiedAt h := by
  have hfind : c.blocks.find? (·.hash = blk.hash) = some blk := by
    obtain ⟨hlt, rfl⟩ := List.getElem?_eq_some_iff.1 hblk
    refine List.find?_eq_some_iff_getElem.2 ⟨decide_eq_true rfl, h, hlt, rfl, fun j hj => ?_⟩
    have hne : c.blocks[j].hash ≠ c.blocks[h].hash := by
      intro heq
      have hinj := List.nodup_iff_injective_get.1 c.hash_inj
      have := @hinj ⟨j, by simpa using hj.trans hlt⟩ ⟨h, by simpa using hlt⟩ (by simpa using heq)
      exact absurd (Fin.mk.inj this) hj.ne
    simpa using hne
  have hheader : c.bitcoind.getblockheader blk.hash = some blk.certified := by
    unfold bitcoind
    dsimp only
    rw [hfind]
    rfl
  unfold blockCertified CertifiedAt
  rw [decide_eq_true_eq, hheader, hblk, Option.some_inj]
  rfl

/-- Asking for the block at a height and its header. -/
theorem getblockhash_any (h : ℕ) :
    (c.bitcoind.getblockhash h).any (blockCertified c.bitcoind) = true ↔ c.CertifiedAt h := by
  change ((c.blocks[h]?).map (·.hash)).any _ = true ↔ _
  cases hblk : c.blocks[h]? with
  | none =>
    unfold CertifiedAt
    rw [hblk]
    rfl
  | some blk => exact blockCertified_iff hblk

/-- The walk finds the frontier, if there is one as far down as it goes. -/
theorem walkDown_eq {fuel back : ℕ} (hnone : ∀ k, c.tip < k + back → ¬ c.CertifiedAt k)
    (hsome : ∃ h, c.tip < h + back + fuel ∧ c.CertifiedAt h) :
    walkDown c.bitcoind c.tip fuel back = c.frontier := by
  induction fuel generalizing back with
  | zero =>
    obtain ⟨h, hlt, hh⟩ := hsome
    exact absurd hh (hnone h hlt)
  | succ fuel ih =>
    unfold walkDown
    have hback : back ≤ c.tip := by
      obtain ⟨h, -, hh⟩ := hsome
      by_contra hlt
      exact hnone h (by omega) hh
    rw [if_pos hback]
    split
    · next hcert =>
      exact eq_frontier ((getblockhash_any _).1 hcert) fun k hk => hnone k (by omega)
    · next hcert =>
      rw [getblockhash_any] at hcert
      refine ih (fun k hk hck => ?_) ?_
      · by_cases hlt : c.tip < k + back
        · exact hnone k hlt hck
        · exact hcert ((show k = c.tip - back by omega) ▸ hck)
      · obtain ⟨h, hlt, hh⟩ := hsome
        exact ⟨h, by omega, hh⟩

/-- What the plugin computes is the frontier. -/
theorem certifiedFrontier_eq (hc : c.Certifying) :
    certifiedFrontier c.bitcoind c.tip (c.blocks.getLast c.nonempty).hash = c.frontier := by
  have hlast : c.blocks[c.tip]? = some (c.blocks.getLast c.nonempty) := by
    unfold tip
    rw [← List.getLast?_eq_getElem?, List.getLast?_eq_some_getLast c.nonempty]
  unfold certifiedFrontier
  split
  · next hcert =>
    rw [blockCertified_iff hlast] at hcert
    exact eq_frontier hcert fun k hk hck => absurd (le_tip_of_certifiedAt hck) (not_le.2 hk)
  · next hcert =>
    rw [blockCertified_iff hlast] at hcert
    refine walkDown_eq (fun k hk hck => hcert ?_) ?_
    · have hle := le_tip_of_certifiedAt hck
      exact (show k = c.tip by omega) ▸ hck
    · obtain ⟨h, hle, hh⟩ := hc
      exact ⟨h, by omega, hh⟩

/-- A block is in view exactly up to the frontier, unless the remembered one is far above. -/
theorem blockInView_iff (hc : c.Certifying) (hhint : hint < c.frontier + certLookback) {blk : Block}
    (hblk : c.blocks[h]? = some blk) :
    (blockInView c.bitcoind hint h blk.hash).1 = true ↔ h ≤ c.frontier := by
  have hlt : h < c.blocks.length := (List.getElem?_eq_some_iff.1 hblk).1
  have hword : (h + certLookback) % 2 ^ 32 = h + certLookback := by
    have := c.height_lt
    unfold certLookback
    omega
  unfold blockInView
  rw [hword]
  split
  · next hfar => exact iff_of_true rfl (by omega)
  · split
    · next hcert => exact iff_of_true rfl (le_frontier ((blockCertified_iff hblk).1 hcert.2))
    · change decide (h ≤ certifiedFrontier c.bitcoind c.tip _) = true ↔ _
      rw [decide_eq_true_eq, certifiedFrontier_eq hc]

/-- What is remembered stays, or becomes the frontier of this chain. -/
theorem blockInView_hint (hc : c.Certifying) (hint h : ℕ) (hash : ByteString 32) :
    (blockInView c.bitcoind hint h hash).2 = hint ∨
      (blockInView c.bitcoind hint h hash).2 = c.frontier := by
  unfold blockInView
  split
  · exact .inl rfl
  · split
    · exact .inl rfl
    · exact .inr (certifiedFrontier_eq hc)

end BlockChain

/-! ### Runs -/

inductive Call where
  | getchaininfo
  | getrawblockbyheight (height : ℕ)

inductive Answer where
  | chaininfo (counts : Option (ℕ × ℕ))
  | block (hash : Option (ByteString 32))

/-- One call on a chain, with the frontier that is remembered. -/
def answer (hint : ℕ) (c : BlockChain) : Call → Answer × ℕ
  | .getchaininfo => (.chaininfo (getchaininfo c.bitcoind), hint)
  | .getrawblockbyheight height =>
    let r := getrawblockbyheight c.bitcoind hint height
    (.block r.1, r.2)

/-- The answers to a sequence of calls, each on the chain of its time. -/
def answers : ℕ → List (BlockChain × Call) → List Answer
  | _, [] => []
  | hint, (c, call) :: es => (answer hint c call).1 :: answers (answer hint c call).2 es

/-- The answer that shows the certified chain and nothing above it. -/
def Certified (c : BlockChain) : Call → Answer → Prop
  | .getchaininfo, a => ∃ headers, a = .chaininfo (some (headers, c.frontier))
  | .getrawblockbyheight h, a =>
    a = .block (if h ≤ c.frontier then (c.blocks[h]?).map (·.hash) else none)

/-- The remembered height is not far above the frontiers of the chains to come. -/
def Remembers (hint : ℕ) (es : List (BlockChain × Call)) : Prop :=
  ∀ e ∈ es, hint < e.1.frontier + certLookback

variable {es : List (BlockChain × Call)}

/-- A call keeps what the hint remembers. -/
theorem Remembers.step {c : BlockChain} {call : Call} (h : Remembers hint es) (hc : c.Certifying)
    (hfall : ∀ e ∈ es, c.frontier < e.1.frontier + certLookback) :
    Remembers (answer hint c call).2 es := by
  cases call with
  | getchaininfo => exact h
  | getrawblockbyheight height =>
    have hnext : (getrawblockbyheight c.bitcoind hint height).2 = hint ∨
        (getrawblockbyheight c.bitcoind hint height).2 = c.frontier := by
      unfold getrawblockbyheight
      cases hhash : c.bitcoind.getblockhash height with
      | none => exact .inl rfl
      | some hash => exact c.blockInView_hint hc hint height hash
    change Remembers (getrawblockbyheight c.bitcoind hint height).2 es
    rcases hnext with heq | heq
    · rw [heq]
      exact h
    · rw [heq]
      exact hfall

/-- One answer. -/
theorem certified_answer {c : BlockChain} (call : Call) (hc : c.Certifying)
    (hhint : hint < c.frontier + certLookback) : Certified c call (answer hint c call).1 := by
  cases call with
  | getchaininfo =>
    have hle := c.frontier_le_tip
    change ∃ headers, Answer.chaininfo (getchaininfo c.bitcoind) = _
    unfold getchaininfo
    change ∃ headers, Answer.chaininfo (some (if 0 < c.tip then _ else (c.headers, c.tip))) = _
    split
    · have hblocks : (if c.frontier < c.tip then c.frontier else c.tip) = c.frontier := by
        split <;> omega
      change ∃ headers, Answer.chaininfo (some (_, if certifiedFrontier c.bitcoind c.tip _ < c.tip then
        certifiedFrontier c.bitcoind c.tip _ else c.tip)) = _
      rw [BlockChain.certifiedFrontier_eq hc, hblocks]
      exact ⟨_, rfl⟩
    · have htip : c.tip = c.frontier := by omega
      exact ⟨c.headers, by rw [← htip]⟩
  | getrawblockbyheight height =>
    change Answer.block (getrawblockbyheight c.bitcoind hint height).1 = _
    cases hblk : c.blocks[height]? with
    | none =>
      have hhash : c.bitcoind.getblockhash height = none := congrArg (Option.map Block.hash) hblk
      simp [getrawblockbyheight, hhash]
    | some blk =>
      have hhash : c.bitcoind.getblockhash height = some blk.hash := congrArg (Option.map Block.hash) hblk
      have hview := BlockChain.blockInView_iff hc hhint hblk
      unfold getrawblockbyheight
      rw [hhash]
      by_cases hle : height ≤ c.frontier
      · simp [hle, hview.2 hle]
      · have hno : ¬ (blockInView c.bitcoind hint height blk.hash).1 = true := fun h => hle (hview.1 h)
        simp [hle, hno]

/-- The answers from any remembered frontier on. -/
theorem certified_answers (hcert : ∀ e ∈ es, e.1.Certifying)
    (hfall : es.Pairwise fun a b => a.1.frontier < b.1.frontier + certLookback)
    (hhint : Remembers hint es) :
    List.Forall₂ (fun e a => Certified e.1 e.2 a) es (answers hint es) := by
  induction es generalizing hint with
  | nil => exact .nil
  | cons e es ih =>
    obtain ⟨hfirst, hrest⟩ := List.pairwise_cons.1 hfall
    have hc : e.1.Certifying := hcert e List.mem_cons_self
    have hlater : Remembers hint es := fun e' he' => hhint e' (List.mem_cons_of_mem e he')
    refine .cons (certified_answer e.2 hc (hhint e List.mem_cons_self)) ?_
    exact ih (fun e' he' => hcert e' (List.mem_cons_of_mem e he')) hrest (hlater.step hc hfirst)

/-- Over every sequence of calls, on chains that change and each have a certified block near their
tip, where the frontier never falls by 144 or more, a block is served exactly up to its chain's
frontier, which is the reported height. -/
theorem certified_chain_served (es : List (BlockChain × Call)) (hcert : ∀ e ∈ es, e.1.Certifying)
    (hfall : es.Pairwise fun a b => a.1.frontier < b.1.frontier + certLookback) :
    List.Forall₂ (fun e a => Certified e.1 e.2 a) es (answers 0 es) := by
  refine certified_answers hcert hfall fun e he => ?_
  unfold certLookback
  omega

namespace FrontierExample

def block (n : UInt8) (certified : Bool) : Block := ⟨.replicate 32 n, certified⟩

/-- A chain whose last block is not certified yet. -/
def high : BlockChain where
  blocks := [block 0 true, block 1 true, block 2 true, block 3 false]
  nonempty := by simp
  hash_inj := by decide
  headers := 5
  blocks_le_headers := by decide
  height_lt := by decide

/-- After a reorganization, two blocks fewer are certified. -/
def low : BlockChain where
  blocks := [block 0 true, block 11 false, block 12 false]
  nonempty := by simp
  hash_inj := by decide
  headers := 2
  blocks_le_headers := by decide
  height_lt := by decide

/-- The frontier falls from 2 to 0 between the calls. -/
theorem certified_chain_served_reorg :
    List.Forall₂ (fun e a => Certified e.1 e.2 a)
      [(high, .getrawblockbyheight 2), (high, .getrawblockbyheight 3), (low, .getrawblockbyheight 1),
        (low, .getchaininfo)]
      (answers 0 [(high, .getrawblockbyheight 2), (high, .getrawblockbyheight 3),
        (low, .getrawblockbyheight 1), (low, .getchaininfo)]) := by
  have hhigh : high.Certifying := ⟨2, by decide, by decide⟩
  have hlow : low.Certifying := ⟨0, by decide, by decide⟩
  refine certified_chain_served _ ?_ (by decide)
  simp [hhigh, hlow]

end FrontierExample

end SeqLN.Chain
