import SeqLN.Lib.Bytes
import SeqLN.Channeld.FeeStates

/-!
# The channel object

`common/initial_channel.h`, `channeld/channeld_htlc.h` and the first part of
`channeld/full_channel.c`: the channel, its two views, and the balances its functions compute in the
signed 64-bit word of `struct balance`. `balanceAddHtlc_wrapS64` and its companions: a run of such
operations gives the wrapped value of the exact sum.

The hash table of HTLCs is a list whose order carries no meaning. Fields that no function here reads
(onion, blinded path key, extra TLVs, keys, outpoint) are left out.
-/

namespace SeqLN.Channeld

open HtlcState

/-- `r` is the preimage once it is known. Source: `channeld/channeld_htlc.h`, `struct htlc` -/
structure Htlc where
  state : HtlcState
  id : ℕ
  amount : ℕ
  expiry : ℕ
  rhash : ByteString 32
  r : Option (ByteString 32)
  lockPoint : Option (ByteString 33)
  lane : ℕ
  failed : Bool
  failImmediate : Bool
  deriving DecidableEq

/-- Source: `htlc_owner` -/
def Htlc.owner (h : Htlc) : Side := htlcStateOwner h.state

/-- Source: `htlc_has` -/
def Htlc.has (h : Htlc) (flag : ℕ) : Bool := h.state.has flag

/-- Its owner gives in one lane and takes in the other. Source: `common/sym_lanes.h`, `struct
sym_swap` -/
structure SymSwap where
  id : ℕ
  state : HtlcState
  giveLane : ℕ
  takeLane : ℕ
  give : ℕ
  take : ℕ
  deriving DecidableEq

/-- Who sent a swap. -/
def SymSwap.owner (s : SymSwap) : Side := htlcStateOwner s.state

/-- What a side asks of the other's HTLCs and commitment.
Source: `common/channel_config.h`, `struct channel_config` -/
structure ChannelConfig where
  dustLimit : ℕ
  maxHtlcValueInFlight : ℕ
  channelReserve : ℕ
  htlcMinimum : ℕ
  maxAcceptedHtlcs : ℕ
  maxDustHtlcExposureMsat : ℕ

/-- What does not change while the channel runs; `symLanes` holds the funding of the lanes beside
its own. Source: `common/initial_channel.h`, `struct channel` -/
structure ChannelSetup where
  opener : Side
  fundingSats : ℕ
  symLanes : List ℕ
  config : Side → ChannelConfig
  creditFloor : ℕ
  optionAnchorOutputs : Bool
  optionAnchorsZeroFeeHtlcTx : Bool
  optionWumbo : Bool
  /-- The amounts by which splices in flight lower a side's balance, in each view. -/
  lowestSpliceAmnt : Side → Side → ℕ

/-- A covenant channel counts no anchors. Source: `common/tcov_commit_tx.c`, `TCOV_ANCHORS`,
`TCOV_ZERO_FEE_HTLC` -/
def ChannelSetup.tcov (su : ChannelSetup) : ChannelSetup :=
  { su with optionAnchorOutputs := false, optionAnchorsZeroFeeHtlcTx := false }

/-- Its setup, its HTLCs, what each view owes each side in each lane, and the other updates in
flight. Source: `common/initial_channel.h`, `struct channel` -/
structure Channel where
  setup : ChannelSetup
  htlcs : List Htlc
  /-- `owed view lane side`. Source: `channel->view[view].owed[side]`, `channel->sym_lane_bal` -/
  owed : Side → ℕ → Side → ℕ
  feeStates : StateTable
  blockheightStates : StateTable
  symSwap : Option SymSwap
  symSwapReq : Option SymSwap

/-- Source: `common/sym_lanes.c`, `sym_num_lanes` -/
def symNumLanes (c : ChannelSetup) : ℕ := 1 + c.symLanes.length

/-- What a lane was funded with. Source: `sym_lane_funding` -/
def symLaneFunding (c : ChannelSetup) (lane : ℕ) : ℕ :=
  match lane with
  | 0 => c.fundingSats
  | lane + 1 => c.symLanes.getD lane 0

/-- Source: `channel_feerate` -/
def channelFeerate (c : Channel) (side : Side) : Option ℕ :=
  getFeerate c.feeStates c.setup.opener side

/-- In satoshi; `none` is `abort`. Source: `common/initial_channel.c`, `channel_reserve_of` -/
def channelReserveOf (c : ChannelSetup) (side : Side) : Option ℕ :=
  if side = c.opener then amountAdd (c.config side.other).channelReserve c.creditFloor
  else some (c.config side.other).channelReserve

/-! ### Balances -/

/-- A balance, where the assertion holds. Source: `to_balance` -/
def toBalance (msat : ℕ) : Option ℤ := if msat < 2 ^ 63 then some msat else none

/-- An amount, where the balance is not negative. Source: `balance_ok` -/
def balanceOk (balance : ℤ) : Option ℕ := if balance < 0 then none else some balance.toNat

/-- What adding an HTLC does to a side's balance, exactly. -/
def addMove (h : Htlc) (side : Side) : ℤ := if h.owner = side then -h.amount else 0

/-- A fulfilled HTLC is paid to the recipient, any other returns to its owner. -/
def Htlc.paidTo (h : Htlc) : Side := if h.r.isSome then h.owner.other else h.owner

/-- What removing an HTLC does to a side's balance, exactly. -/
def removeMove (h : Htlc) (side : Side) : ℤ := if h.paidTo = side then h.amount else 0

/-- What a swap does to a side's balance in a lane, exactly. -/
def swapMove (s : SymSwap) (lane : ℕ) (side : Side) : ℤ :=
  (if s.giveLane = lane then (if s.owner = side then -(s.give : ℤ) else s.give) else 0) +
    (if s.takeLane = lane then (if s.owner = side then (s.take : ℤ) else -s.take) else 0)

/-- Source: `balance_add_htlc` -/
def balanceAddHtlc (balance : ℤ) (h : Htlc) (side : Side) : ℤ :=
  if h.owner = side then wrapS64 (balance - h.amount) else balance

/-- Source: `balance_remove_htlc` -/
def balanceRemoveHtlc (balance : ℤ) (h : Htlc) (side : Side) : ℤ :=
  if h.paidTo = side then wrapS64 (balance + h.amount) else balance

/-- The balances of one view: lane and side. -/
abbrev Owed := ℕ → Side → ℤ

/-- A signed amount added to one balance. -/
def Owed.move (owed : Owed) (lane : ℕ) (side : Side) (d : ℤ) : Owed :=
  fun l s => if l = lane ∧ s = side then wrapS64 (owed l s + d) else owed l s

/-- A swap moves its two legs. Source: `balance_swap` -/
def balanceSwap (owed : Owed) (s : SymSwap) : Owed :=
  (((owed.move s.giveLane s.owner (-s.give)).move s.giveLane s.owner.other s.give).move
    s.takeLane s.owner.other (-s.take)).move s.takeLane s.owner s.take

/-- Neither balance leaves its range. Source: `common/sym_lanes.c`, `owed_move` -/
def owedMove (owed : Side → ℕ) (payer : Side) (amount : ℕ) : Option (Side → ℕ) := do
  let f ← amountSub (owed payer) amount
  let t ← amountAdd (owed payer.other) amount
  return fun s => if s = payer then f else t

/-- A swap on the balances of one view, with checked arithmetic. Source: `sym_swap_apply` -/
def symSwapApply (s : SymSwap) (numLanes : ℕ) (owed : ℕ → Side → ℕ) : Option (ℕ → Side → ℕ) :=
  if s.giveLane = s.takeLane ∨ numLanes ≤ s.giveLane ∨ numLanes ≤ s.takeLane then none
  else do
    let give ← owedMove (owed s.giveLane) s.owner s.give
    let take ← owedMove (owed s.takeLane) s.owner.other s.take
    return fun l => if l = s.giveLane then give else if l = s.takeLane then take else owed l

section wrap

lemma wrapS64_wrapS64_add (x y : ℤ) : wrapS64 (wrapS64 x + y) = wrapS64 (x + y) := by
  unfold wrapS64
  omega

lemma wrapS64_wrapS64_sub (x y : ℤ) : wrapS64 (wrapS64 x - y) = wrapS64 (x - y) := by
  unfold wrapS64
  omega

lemma balanceAddHtlc_wrapS64 (x : ℤ) (h : Htlc) (side : Side) :
    balanceAddHtlc (wrapS64 x) h side = wrapS64 (x + addMove h side) := by
  unfold balanceAddHtlc addMove
  split
  · rw [wrapS64_wrapS64_sub, sub_eq_add_neg]
  · rw [add_zero]

lemma balanceRemoveHtlc_wrapS64 (x : ℤ) (h : Htlc) (side : Side) :
    balanceRemoveHtlc (wrapS64 x) h side = wrapS64 (x + removeMove h side) := by
  unfold balanceRemoveHtlc removeMove
  split
  · rw [wrapS64_wrapS64_add]
  · rw [add_zero]

lemma Owed.move_eq_wrapS64 {owed : Owed} {l : ℕ} {p : Side} {x : ℤ} (h : owed l p = wrapS64 x)
    (lane : ℕ) (side : Side) (d : ℤ) :
    owed.move lane side d l p = wrapS64 (x + if l = lane ∧ p = side then d else 0) := by
  unfold Owed.move
  split
  · rw [h, wrapS64_wrapS64_add]
  · rw [h, add_zero]

lemma balanceSwap_eq_wrapS64 {owed : Owed} {lane : ℕ} {side : Side} {x : ℤ}
    (h : owed lane side = wrapS64 x) (s : SymSwap) :
    balanceSwap owed s lane side = wrapS64 (x + swapMove s lane side) := by
  unfold balanceSwap
  rw [Owed.move_eq_wrapS64 (Owed.move_eq_wrapS64 (Owed.move_eq_wrapS64 (Owed.move_eq_wrapS64 h
    _ _ _) _ _ _) _ _ _)]
  congr 1
  unfold swapMove
  rcases side.eq_or_eq_other s.owner with rfl | rfl <;>
    by_cases hg : s.giveLane = lane <;> by_cases ht : s.takeLane = lane <;>
    simp [hg, ht, eq_comm (a := lane)] <;> grind

lemma wrapS64_modEq (x : ℤ) : wrapS64 x ≡ x [ZMOD 2 ^ 64] := by
  unfold wrapS64 Int.ModEq
  omega

end wrap

/-! ### Which HTLCs a view holds -/

/-- What `gather_lane_htlcs` returns: the HTLCs committed to a view, those pending removal, those
pending addition, and how many the other side will have offered. -/
structure Gathered where
  committed : List Htlc
  pendingRemoval : List Htlc
  pendingAddition : List Htlc
  numOtherSide : ℕ

section gather

variable (htlcs : List Htlc) (side : Side)

def isCommitted (h : Htlc) : Bool := h.has (HTLC_FLAG side HTLC_F_COMMITTED)

def isPending (h : Htlc) : Bool := h.has (HTLC_FLAG side HTLC_F_PENDING)

/-- An HTLC that the view will hold, offered by the other side. -/
def countsForOther (h : Htlc) : Bool := (isCommitted side h != isPending side h) && h.owner != side

/-- The HTLCs of a list in a view. -/
def gather : Gathered where
  committed := htlcs.filter (isCommitted side)
  pendingRemoval := htlcs.filter fun h => isCommitted side h && isPending side h
  pendingAddition := htlcs.filter fun h => !isCommitted side h && isPending side h
  numOtherSide := htlcs.countP (countsForOther side)

/-- The HTLCs of a lane, or of all, in a view. Source: `gather_lane_htlcs` -/
def gatherLaneHtlcs (lane : Option ℕ) : Gathered :=
  gather (htlcs.filter fun h => lane.all (· == h.lane)) side

end gather

/-- The lookup by id and owner. Source: `htlc_get` -/
def htlcGet (htlcs : List Htlc) (id : ℕ) (owner : Side) : Option Htlc :=
  htlcs.find? fun h => h.id == id && h.has (HTLC_FLAG owner HTLC_F_OWNER)

/-- What a swap not yet committed to a view takes from a side in a lane. -/
def promisedBy (view : Side) (lane : ℕ) (payer : Side) (s : SymSwap) : ℕ :=
  if s.state.has (HTLC_FLAG view HTLC_F_COMMITTED) then 0
  else (if s.owner = payer ∧ s.giveLane = lane then s.give else 0) +
    (if s.owner ≠ payer ∧ s.takeLane = lane then s.take else 0)

/-- What a side has promised, in a lane, to the swap in flight and the one asked for, as far as a
view has not committed them. `none` is `abort`. Source: `swap_promised` -/
def swapPromised (c : Channel) (view : Side) (lane : ℕ) (payer : Side) : Option ℕ :=
  amountAdd ((c.symSwap.map (promisedBy view lane payer)).getD 0)
    ((c.symSwapReq.map (promisedBy view lane payer)).getD 0)

/-! ### A new channel -/

/-- At most eight, each funded and within a signed word. Source: `common/sym_lanes.c`,
`sym_lanes_check` -/
def symLanesCheck (lanes : List ℕ) : Bool :=
  lanes.length ≤ 8 && lanes.all fun sats => sats != 0 && sats ≤ (2 ^ 63 - 1) / 1000

/-- What the other side has of a lane's funding. Source: `amount_sat_sub_msat` -/
def amountSatSubMsat (sats msat : ℕ) : Option ℕ :=
  if sats * 1000 < 2 ^ 64 then amountSub (sats * 1000) msat else none

/-- A channel without HTLCs and without a splice, from our balance in each lane. Source:
`common/initial_channel.c`, `new_initial_channel` and the lanes in `channeld/channeld.c`,
`init_channel` -/
def newFullChannel (setup : ChannelSetup) (feeStates blockheightStates : StateTable)
    (localMsat : ℕ → ℕ) : Option Channel :=
  if symLanesCheck setup.symLanes ∧ ∀ l < symNumLanes setup,
      (amountSatSubMsat (symLaneFunding setup l) (localMsat l)).isSome then
    some {
      setup := { setup with lowestSpliceAmnt := fun _ _ => 0 }
      feeStates, blockheightStates
      htlcs := []
      owed := fun _ lane side => match side with
        | .LOCAL => localMsat lane
        | .REMOTE => symLaneFunding setup lane * 1000 - localMsat lane
      symSwap := none
      symSwapReq := none }
  else none

end SeqLN.Channeld
