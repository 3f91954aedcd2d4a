import SeqLN.Channeld.Basic
import SeqLN.Sym.Clock

/-!
# A splice's balances

`common/initial_channel.c`, `channel_update_funding`: when a splice locks in, our side is moved by the
splice amount and the other one by the rest of the change. The function means to refuse a negative
balance, but its sum is unsigned: it refuses nothing, and keeps what would be negative modulo
`2 ^ 64`. `spliceExact_iff`: it does what it should exactly where neither side would be negative.
-/

namespace SeqLN.Channeld

open SeqLN.Sym

/-- The channel with its funding output. Source: `struct channel` -/
structure FundedChannel where
  funding : Outpoint
  channel : Channel

/-- A signed word added to an unsigned one: both are read as unsigned. -/
def addSigned (owed : ℕ) (d : ℤ) : ℤ := (d + owed) % 2 ^ 64

/-- The balance of a side in lane 0 of both views, moved by a signed amount. -/
def Channel.moveSide (c : Channel) (side : Side) (d : ℤ) : Channel :=
  { c with owed := fun view lane s =>
      if lane = 0 ∧ s = side then (addSigned (c.owed view lane s) d).toNat else c.owed view lane s }

/-- The channel it leaves, and the error. Source: `channel_update_funding` -/
def channelUpdateFunding (c : FundedChannel) (funding : Outpoint) (fundingSats : ℕ) (spliceAmnt : ℤ) :
    FundedChannel × Option String :=
  let fundingDiff := wrapS64 (wrapS64 fundingSats - wrapS64 c.channel.setup.fundingSats)
  let remoteSpliceAmnt := wrapS64 (fundingDiff - spliceAmnt)
  let funded := { c.channel with setup := { c.channel.setup with fundingSats } }
  if addSigned (funded.owed .LOCAL 0 .LOCAL) (wrapS64 (spliceAmnt * 1000)) < 0 then
    (⟨funding, funded⟩, some "Channel funding update would make local balance negative.")
  else
    let ours := funded.moveSide .LOCAL (wrapS64 (spliceAmnt * 1000))
    if addSigned (ours.owed .LOCAL 0 .REMOTE) (wrapS64 (remoteSpliceAmnt * 1000)) < 0 then
      (⟨funding, ours⟩, some "Channel funding update would make remote balance negative.")
    else (⟨funding, ours.moveSide .REMOTE (wrapS64 (remoteSpliceAmnt * 1000))⟩, none)

/-! ### What it does -/

/-- What a splice moves a side by, in millisatoshis: us by its amount, the other by the rest of the
change. -/
def spliceShare (c : FundedChannel) (fundingSats : ℕ) (spliceAmnt : ℤ) : Side → ℤ
  | .LOCAL => 1000 * spliceAmnt
  | .REMOTE => 1000 * (fundingSats - c.channel.setup.fundingSats - spliceAmnt)

/-- The balance a side should have in a view. -/
def splicedBalance (c : FundedChannel) (fundingSats : ℕ) (spliceAmnt : ℤ) (view side : Side) : ℤ :=
  c.channel.owed view 0 side + spliceShare c fundingSats spliceAmnt side

/-- The update is made exactly, or refused for a negative balance and not made at all. -/
structure SpliceExact (c : FundedChannel) (funding : Outpoint) (fundingSats : ℕ) (spliceAmnt : ℤ) :
    Prop where
  error_iff : (channelUpdateFunding c funding fundingSats spliceAmnt).2.isSome = true ↔
    ∃ side, splicedBalance c fundingSats spliceAmnt .LOCAL side < 0
  unchanged : (channelUpdateFunding c funding fundingSats spliceAmnt).2.isSome = true →
    (channelUpdateFunding c funding fundingSats spliceAmnt).1 = c
  moved : (channelUpdateFunding c funding fundingSats spliceAmnt).2 = none → ∀ view side,
    (((channelUpdateFunding c funding fundingSats spliceAmnt).1.channel.owed view 0 side : ℕ) : ℤ) =
      splicedBalance c fundingSats spliceAmnt view side
  sum : (channelUpdateFunding c funding fundingSats spliceAmnt).2 = none → ∀ view,
    (channelUpdateFunding c funding fundingSats spliceAmnt).1.channel.owed view 0 .LOCAL +
      (channelUpdateFunding c funding fundingSats spliceAmnt).1.channel.owed view 0 .REMOTE =
        1000 * fundingSats

section splice

variable {c : FundedChannel} {funding : Outpoint} {fundingSats : ℕ} {spliceAmnt : ℤ}

lemma not_addSigned_neg (owed : ℕ) (d : ℤ) : ¬ addSigned owed d < 0 :=
  not_lt.2 (Int.emod_nonneg _ (by decide))

lemma addSigned_wrapS64 (owed : ℕ) (d : ℤ) : addSigned owed (wrapS64 d) = addSigned owed d := by
  unfold addSigned wrapS64
  omega

/-- No error is returned, and each side is moved modulo `2 ^ 64`. -/
theorem channelUpdateFunding_eq (c : FundedChannel) (funding : Outpoint) (fundingSats : ℕ)
    (spliceAmnt : ℤ) :
    (channelUpdateFunding c funding fundingSats spliceAmnt).2 = none ∧ ∀ view side,
      (((channelUpdateFunding c funding fundingSats spliceAmnt).1.channel.owed view 0 side : ℕ) : ℤ) =
        splicedBalance c fundingSats spliceAmnt view side % 2 ^ 64 := by
  unfold channelUpdateFunding
  simp only [not_addSigned_neg, if_false, true_and]
  intro view side
  have hnonneg : ∀ (owed : ℕ) (d : ℤ), ((addSigned owed d).toNat : ℤ) = addSigned owed d := fun owed d =>
    Int.toNat_of_nonneg (Int.emod_nonneg _ (by decide))
  cases side with
  | LOCAL =>
    simp only [Channel.moveSide, true_and, reduceCtorEq, and_false, if_false, if_true, hnonneg,
      addSigned_wrapS64]
    simp only [addSigned, splicedBalance, spliceShare]
    omega
  | REMOTE =>
    simp only [Channel.moveSide, true_and, reduceCtorEq, and_false, if_false, if_true, hnonneg,
      addSigned_wrapS64]
    simp only [addSigned, splicedBalance, spliceShare, wrapS64]
    omega

end splice

/-- The update is exact exactly where no side would be left with a negative balance, in either view. -/
theorem spliceExact_iff (c : FundedChannel) (funding : Outpoint) (fundingSats : ℕ) (spliceAmnt : ℤ)
    (hviews : ∀ view, c.channel.owed view 0 .LOCAL + c.channel.owed view 0 .REMOTE =
      1000 * c.channel.setup.fundingSats)
    (hold : c.channel.setup.fundingSats < 2 ^ 50) (hnew : fundingSats < 2 ^ 50)
    (hsplice : |spliceAmnt| < 2 ^ 50) :
    SpliceExact c funding fundingSats spliceAmnt ↔
      ∀ view side, 0 ≤ splicedBalance c fundingSats spliceAmnt view side := by
  obtain ⟨hnone, howed⟩ := channelUpdateFunding_eq c funding fundingSats spliceAmnt
  have hsome : (channelUpdateFunding c funding fundingSats spliceAmnt).2.isSome = false := by rw [hnone]; rfl
  have hrange := abs_lt.1 hsplice
  -- a balance that is not negative is within the word
  have hlt : ∀ view side, splicedBalance c fundingSats spliceAmnt view side < 2 ^ 64 := by
    intro view side
    have hview := hviews view
    cases side with
    | LOCAL =>
      simp only [splicedBalance, spliceShare]
      omega
    | REMOTE =>
      simp only [splicedBalance, spliceShare]
      omega
  constructor
  · intro h view side
    rw [← h.moved hnone view side]
    exact Int.natCast_nonneg _
  · intro hnonneg
    have hmoved : ∀ view side,
        (((channelUpdateFunding c funding fundingSats spliceAmnt).1.channel.owed view 0 side : ℕ) : ℤ) =
          splicedBalance c fundingSats spliceAmnt view side := fun view side =>
      (howed view side).trans (Int.emod_eq_of_lt (hnonneg view side) (hlt view side))
    refine ⟨?_, fun h => ?_, fun _ => hmoved, fun _ view => ?_⟩
    · rw [hsome]
      simp only [Bool.false_eq_true, false_iff, not_exists, not_lt]
      exact hnonneg .LOCAL
    · rw [hsome] at h
      cases h
    · have hours := hmoved view .LOCAL
      have htheirs := hmoved view .REMOTE
      have hview := hviews view
      simp only [splicedBalance, spliceShare] at hours htheirs
      omega

namespace SpliceExample

/-- A channel of a hundred thousand satoshis, of which we have ten thousand. -/
def channel : FundedChannel where
  funding := ⟨.replicate 32 5, 0⟩
  channel :=
    { setup :=
        { opener := .LOCAL
          fundingSats := 100000
          symLanes := []
          config := fun _ => ⟨546, 100000000, 1000, 1, 483, 50000000⟩
          creditFloor := 0
          optionAnchorOutputs := false
          optionAnchorsZeroFeeHtlcTx := true
          optionWumbo := false
          lowestSpliceAmnt := fun _ _ => 0 }
      htlcs := []
      owed := fun _ lane side =>
        match lane, side with
        | 0, .LOCAL => 10000000
        | 0, .REMOTE => 90000000
        | _, _ => 0
      feeStates := fun _ => none
      blockheightStates := fun _ => none
      symSwap := none
      symSwapReq := none }

def spliced : Outpoint := ⟨.replicate 32 6, 1⟩

/-- Five thousand of ours are spliced out. -/
theorem spliceExact_out : SpliceExact channel spliced 95000 (-5000) := by
  have hnonneg : ∀ view side, 0 ≤ splicedBalance channel 95000 (-5000) view side := by
    intro view side
    cases side with
    | LOCAL => show (0 : ℤ) ≤ 10000000 + 1000 * -5000; norm_num
    | REMOTE => show (0 : ℤ) ≤ 90000000 + 1000 * (95000 - 100000 - -5000); norm_num
  exact (spliceExact_iff channel spliced 95000 (-5000) (fun _ => by norm_num [channel])
    (by norm_num [channel]) (by norm_num) (by norm_num)).2 hnonneg

/-- Twenty thousand are spliced out of our ten: no error, and our balance is negative modulo `2 ^
64`. -/
theorem splice_below_zero :
    channel.channel.htlcs = [] ∧
      splicedBalance channel 80000 (-20000) .LOCAL .LOCAL = -10000000 ∧
      (channelUpdateFunding channel spliced 80000 (-20000)).2 = none ∧
      (channelUpdateFunding channel spliced 80000 (-20000)).1.channel.owed .LOCAL 0 .LOCAL =
        2 ^ 64 - 10000000 ∧
      ¬ SpliceExact channel spliced 80000 (-20000) := by
  have hnone : (channelUpdateFunding channel spliced 80000 (-20000)).2 = none := by decide
  have howed : splicedBalance channel 80000 (-20000) .LOCAL .LOCAL = -10000000 := by decide
  refine ⟨rfl, howed, hnone, by decide, fun h => ?_⟩
  have hsome := h.error_iff.2 ⟨.LOCAL, by rw [howed]; decide⟩
  rw [hnone] at hsome
  cases hsome

end SpliceExample

end SeqLN.Channeld
