import SeqLN.Channeld.Basic

/-!
# Adding an HTLC

`channeld/full_channel.c`, `add_htlc` with what it calls: the fees and trimming of
`common/htlc_trim.c`, `common/htlc_tx.h`, `common/initial_commit_tx.h` and `channeld/commit_tx.c`,
and the room a side has. `addHtlc_ok` says what an accepted HTLC passed.

A failed assertion and `abort` are as a refusal. `marginal_feerate` is computed in floating point and
is a parameter.
-/

namespace SeqLN.Channeld

open HtlcState

/-- Source: `channeld/full_channel_error.h`, `enum channel_add_err` -/
inductive ChannelAddErr where
  | INVALID_EXPIRY
  | DUPLICATE
  | DUPLICATE_ID_DIFFERENT
  | MAX_HTLC_VALUE_EXCEEDED
  | CHANNEL_CAPACITY_EXCEEDED
  | HTLC_BELOW_MINIMUM
  | TOO_MANY_HTLCS
  | DUST_FAILURE
  deriving DecidableEq, Repr

/-- What the checks read of the network. Source: `struct chainparams`, `marginal_feerate` -/
structure ChainParams where
  maxPayment : ℕ
  isElements : Bool
  hasAnchorHeader : Bool
  marginalFeerate : ℕ → ℕ

/-! ### Fees and trimming -/

section fees

variable (cp : ChainParams) (su : ChannelSetup)

/-- Source: `bitcoin/tx.h`, `elements_tx_overhead` -/
def elementsTxOverhead (incount outcount : ℕ) : ℕ :=
  if cp.isElements then 2 * 4 + (8 + 1) * 4 + (32 + 1 + 1 + 1) * 4 * (outcount + 1) + 6 * incount
  else 0

/-- Rounded up on a network whose fees are paid in any asset.
Source: `common/amount.c`, `amount_tx_fee` -/
def amountTxFee (feePerKw weight : ℕ) : ℕ :=
  if cp.hasAnchorHeader then (feePerKw * weight + 999) / 1000 else feePerKw * weight / 1000

lemma amountTxFee_mono {f g m n : ℕ} (hf : f ≤ g) (hm : m ≤ n) :
    amountTxFee cp f m ≤ amountTxFee cp g n := by
  have hmul : f * m ≤ g * n := Nat.mul_le_mul hf hm
  unfold amountTxFee
  split <;> omega

/-- The fee of a second-stage transaction of a base weight, with and without anchors. -/
def htlcTxFee (anchorBase base feerate : ℕ) : ℕ :=
  if su.optionAnchorsZeroFeeHtlcTx then 0
  else amountTxFee cp
    ((if su.optionAnchorOutputs then anchorBase else base) + elementsTxOverhead cp 1 1) feerate

/-- Source: `common/htlc_tx.h`, `htlc_timeout_fee` -/
def htlcTimeoutFee (feerate : ℕ) : ℕ := htlcTxFee cp su 666 663 feerate

/-- Source: `common/htlc_tx.h`, `htlc_success_fee` -/
def htlcSuccessFee (feerate : ℕ) : ℕ := htlcTxFee cp su 706 703 feerate

/-- Source: `common/amount.c`, `amount_msat_less_sat` -/
def amountMsatLessSat (msat sat : ℕ) : Bool := sat * 1000 < 2 ^ 64 && msat < sat * 1000

/-- Source: `common/amount.c`, `amount_msat_sub_sat`, `amount_msat_deduct_sat` -/
def amountMsatSubSat (msat sat : ℕ) : Option ℕ :=
  if sat * 1000 < 2 ^ 64 then amountSub msat (sat * 1000) else none

/-- An HTLC too small for an output on a side's commitment.
Source: `common/htlc_trim.c`, `htlc_is_trimmed` -/
def htlcIsTrimmed (owner : Side) (amount feerate dustLimit : ℕ) (side : Side) : Bool :=
  match amountAdd dustLimit
      (if owner = side then htlcTimeoutFee cp su feerate else htlcSuccessFee cp su feerate) with
  | none => true
  | some htlcMin => amountMsatLessSat amount htlcMin

/-- Source: `common/htlc_trim.c`, `htlc_trim_feerate_ceiling` -/
def htlcTrimFeerateCeiling (feerate : ℕ) : ℕ :=
  max ((feerate + feerate / 4) % 2 ^ 32) ((feerate + 2530) % 2 ^ 32)

/-- Source: `channeld/commit_tx.c`, `commit_tx_num_untrimmed` -/
def commitTxNumUntrimmed (htlcs : List Htlc) (feerate dustLimit : ℕ) (side : Side) : ℕ :=
  htlcs.countP fun h => !htlcIsTrimmed cp su h.owner h.amount feerate dustLimit side

/-- The amounts of the trimmed HTLCs on top of a total, and whether they fit. Source:
`channeld/commit_tx.c`, `commit_tx_amount_trimmed` -/
def commitTxAmountTrimmed (feerate dustLimit : ℕ) (side : Side) : List Htlc → ℕ → ℕ × Bool
  | [], amt => (amt, true)
  | h :: htlcs, amt =>
    if htlcIsTrimmed cp su h.owner h.amount feerate dustLimit side then
      match amountAdd amt h.amount with
      | some amt => commitTxAmountTrimmed feerate dustLimit side htlcs amt
      | none => (amt, false)
    else commitTxAmountTrimmed feerate dustLimit side htlcs amt

/-- Source: `common/initial_commit_tx.h`, `commit_tx_base_weight` -/
def commitTxBaseWeight (numUntrimmed : ℕ) : ℕ :=
  let anchors := su.optionAnchorOutputs || su.optionAnchorsZeroFeeHtlcTx
  (if anchors then 1124 else 724) + 172 * numUntrimmed +
    elementsTxOverhead cp 1 ((if anchors then 4 else 2) + numUntrimmed)

/-- Source: `common/initial_commit_tx.h`, `commit_tx_base_fee` -/
def commitTxBaseFee (feerate numUntrimmed : ℕ) : ℕ :=
  amountTxFee cp feerate (commitTxBaseWeight cp su numUntrimmed)

/-- Source: `num_untrimmed_htlcs` -/
def numUntrimmedHtlcs (side : Side) (dustLimit feerate : ℕ) (committed adding removing : List Htlc) :
    ℕ :=
  commitTxNumUntrimmed cp su committed feerate dustLimit side +
    commitTxNumUntrimmed cp su adding feerate dustLimit side -
    commitTxNumUntrimmed cp su removing feerate dustLimit side

/-- The HTLCs of a lane in the recipient's view, the new one among those pending addition. -/
structure Pending where
  committed : List Htlc
  adding : List Htlc
  removing : List Htlc

/-- Source: `fee_for_htlcs` -/
def feeForHtlcs (c : Channel) (p : Pending) (side : Side) : Option ℕ := do
  let feerate ← channelFeerate c side
  return commitTxBaseFee cp c.setup feerate
    (numUntrimmedHtlcs cp c.setup side (c.setup.config side).dustLimit feerate
      p.committed p.adding p.removing)

/-- The total of the trimmed HTLCs, and whether it could be computed. Source: `htlc_dust` -/
def htlcDust (p : Pending) (side : Side) (feerate : ℕ) : ℕ × Bool :=
  let trimmed := commitTxAmountTrimmed cp su feerate (su.config side).dustLimit side
  let (committed, ok) := trimmed p.committed 0
  if !ok then (committed, false) else
  let (total, ok) := trimmed p.adding committed
  if !ok then (total, false) else
  let (rmvd, ok) := trimmed p.removing 0
  if !ok then (total, false) else
  match amountSub total rmvd with
  | some dust => (dust, true)
  | none => (total, false)

end fees

/-! ### The room of a side -/

/-- The HTLCs of a list taken off, or given back to, a balance. -/
def balanceHtlcs (adding removing : List Htlc) (side : Side) (balance : ℤ) : ℤ :=
  adding.foldl (fun b h => balanceAddHtlc b h side)
    (removing.foldl (fun b h => balanceRemoveHtlc b h side) balance)

/-- What a side will have in a lane of a view once what is pending is applied and its promise to a
swap paid, as `lane_room` and `get_room_above_reserve` compute it. -/
def roomBalance (c : Channel) (view : Side) (lane : ℕ) (adding removing : List Htlc) (side : Side)
    (owed : ℕ) : Option ℤ := do
  let balance ← toBalance owed
  let promised ← swapPromised c view lane side
  return wrapS64 (balanceHtlcs adding removing side balance - promised)

/-- Can the sender, in the recipient's view, pay what is pending in a further lane? Source:
`lane_room` -/
def laneRoom (c : Channel) (recipient : Side) (lane : ℕ) (adding removing : List Htlc)
    (sender : Side) : Bool :=
  match roomBalance c recipient lane adding removing sender (c.owed recipient lane sender) with
  | some balance => (balanceOk balance).isSome
  | none => false

/-- What a side has left above its reserve in lane 0. Source: `get_room_above_reserve` -/
def getRoomAboveReserve (c : Channel) (view : Side) (adding removing : List Htlc) (side : Side) :
    Option ℕ := do
  let splice := c.setup.lowestSpliceAmnt view side
  guard (¬ (splice * 1000 < 2 ^ 64 ∧ c.owed view 0 side ≤ splice * 1000))
  let owed ← amountMsatSubSat (c.owed view 0 side) splice
  let balance ← roomBalance c view 0 adding removing side owed
  let remainder ← balanceOk balance
  let reserve ← channelReserveOf c.setup side
  amountMsatSubSat remainder reserve

/-- Source: `local_opener_has_fee_headroom` -/
def localOpenerHasFeeHeadroom (cp : ChainParams) (c : Channel) (remainder : ℕ) (p : Pending) :
    Bool :=
  match channelFeerate c .LOCAL with
  | none => false
  | some feerate =>
    let untrimmed := numUntrimmedHtlcs cp c.setup .LOCAL (c.setup.config .LOCAL).dustLimit feerate
      p.committed p.adding p.removing
    let fee := commitTxBaseFee cp c.setup (cp.marginalFeerate feerate) (untrimmed + 1)
    fee * 1000 < 2 ^ 64 && fee * 1000 ≤ remainder

/-! ### The checks of a new HTLC -/

/-- The arguments of an addition. -/
structure AddArgs where
  id : ℕ
  amount : ℕ
  cltvExpiry : ℕ
  paymentHash : ByteString 32
  lockPoint : Option (ByteString 33)
  lane : ℕ

/-- The HTLC an addition makes. -/
def newHtlc (state : HtlcState) (a : AddArgs) : Htlc where
  state := state
  id := a.id
  amount := a.amount
  expiry := a.cltvExpiry
  rhash := a.paymentHash
  r := none
  lockPoint := a.lockPoint
  lane := a.lane
  failed := false
  failImmediate := false

/-- The arguments with which an HTLC was added, and is put back on a restart. -/
def Htlc.addArgs (h : Htlc) : AddArgs := ⟨h.id, h.amount, h.expiry, h.rhash, h.lockPoint, h.lane⟩

/-- A check that returns an error. -/
def failIf (p : Prop) [Decidable p] (e : ChannelAddErr) : Except ChannelAddErr Unit :=
  if p then .error e else .ok ()

/-- The error for an HTLC whose id its sender has used. -/
def duplicateErr (old h : Htlc) : ChannelAddErr :=
  if old.state ≠ h.state ∨ old.amount ≠ h.amount ∨ old.expiry ≠ h.expiry ∨ old.rhash ≠ h.rhash then
    .DUPLICATE_ID_DIFFERENT
  else .DUPLICATE

section checks

variable (cp : ChainParams) (c : Channel) (h : Htlc) (enforce : Bool)

/-- The checks every HTLC passes, up to the number of HTLCs, which counts those of every lane. -/
def addBasicChecks : Except ChannelAddErr Unit := do
  let recipient := h.owner.other
  failIf (symNumLanes c.setup ≤ h.lane) .CHANNEL_CAPACITY_EXCEEDED
  failIf (500000000 ≤ h.expiry) .INVALID_EXPIRY
  match htlcGet c.htlcs h.id h.owner with
  | some old => .error (duplicateErr old h)
  | none => pure ()
  failIf (h.amount = 0) .HTLC_BELOW_MINIMUM
  failIf (h.amount < (c.setup.config recipient).htlcMinimum) .HTLC_BELOW_MINIMUM
  failIf (h.owner = .LOCAL ∧ cp.maxPayment < h.amount ∧ c.setup.optionWumbo = false)
    .MAX_HTLC_VALUE_EXCEEDED
  let htlcCount := (gatherLaneHtlcs c.htlcs recipient none).numOtherSide
  failIf ((c.setup.config recipient).maxAcceptedHtlcs < htlcCount + 1) .TOO_MANY_HTLCS
  failIf (enforce = true ∧ h.owner = .LOCAL ∧
    (c.setup.config .LOCAL).maxAcceptedHtlcs < htlcCount + 1) .TOO_MANY_HTLCS

/-- The HTLCs of the new one's lane in the recipient's view, with the new one. -/
def addPending : Pending :=
  let g := gatherLaneHtlcs c.htlcs h.owner.other (some h.lane)
  ⟨g.committed, g.pendingAddition ++ [h], g.pendingRemoval⟩

/-- Source: `sum_offered_msatoshis` -/
def sumOfferedMsatoshis (htlcs : List Htlc) (side : Side) : Option ℕ :=
  htlcs.foldlM (fun total h => if h.owner = side then amountAdd total h.amount else some total) 0

/-- What the sender has in HTLCs in the channel's own lane once the new one is added. -/
def msatInHtlcs : Option ℕ := do
  let p := addPending c h
  let committed ← sumOfferedMsatoshis p.committed h.owner
  let removing ← sumOfferedMsatoshis p.removing h.owner
  let adding ← sumOfferedMsatoshis p.adding h.owner
  let total ← amountAdd committed adding
  amountSub total removing

/-- The sums of the channel's own lane fit, and where limits are enforced stay below the
recipient's. -/
def addValueChecks : Except ChannelAddErr Unit :=
  match msatInHtlcs c h with
  | none => .error .MAX_HTLC_VALUE_EXCEEDED
  | some total =>
    failIf (enforce = true ∧ (c.setup.config h.owner.other).maxHtlcValueInFlight < total)
      .MAX_HTLC_VALUE_EXCEEDED

/-- What is left of an amount after the two anchors, for the side that pays for them. -/
def afterAnchors (pays : Bool) (remainder : ℕ) : Option ℕ :=
  if (c.setup.optionAnchorOutputs || c.setup.optionAnchorsZeroFeeHtlcTx) && pays then
    amountMsatSubSat remainder 660
  else some remainder

/-- The sender keeps its reserve, and the fee if it is the opener. -/
def senderAffords : Option Unit := do
  let p := addPending c h
  let fee ← feeForHtlcs cp c p h.owner.other
  let remainder ← getRoomAboveReserve c h.owner.other p.adding p.removing h.owner
  let remainder ← afterAnchors c (c.setup.opener == h.owner) remainder
  guard (c.setup.opener ≠ h.owner ∨ amountMsatLessSat remainder fee = false)
  guard (c.setup.opener ≠ h.owner ∨ h.owner ≠ .LOCAL ∨
    localOpenerHasFeeHeadroom cp c remainder p = true)

/-- A payment of ours does not take the opener into its fees, in either commitment. -/
def openerAffords : Option Unit := do
  let p := addPending c h
  let opener := c.setup.opener
  let remainder ← getRoomAboveReserve c h.owner.other p.adding p.removing opener
  let remainder ← afterAnchors c (opener != h.owner) remainder
  let fee ← feeForHtlcs cp c p opener
  guard (amountMsatLessSat remainder fee = false)
  let fee ← feeForHtlcs cp c p opener.other
  guard (amountMsatLessSat remainder fee = false)

/-- The fee and reserve checks of the channel's own lane, made where limits are enforced. -/
def addRoomChecks : Except ChannelAddErr Unit :=
  failIf (senderAffords cp c h = none ∨ h.owner = .LOCAL ∧ openerAffords cp c h = none)
    .CHANNEL_CAPACITY_EXCEEDED

/-- Whether the trimmed HTLCs of a side's commitment are more than we accept. -/
def dustExposed (side : Side) : Except ChannelAddErr Bool :=
  match channelFeerate c side with
  | none => .error .CHANNEL_CAPACITY_EXCEEDED
  | some feerate =>
    let (dust, ok) := htlcDust cp c.setup (addPending c h) side (htlcTrimFeerateCeiling feerate)
    if ok then .ok (decide ((c.setup.config .LOCAL).maxDustHtlcExposureMsat < dust))
    else .error .CHANNEL_CAPACITY_EXCEEDED

/-- The dust checks of the channel's own lane: whether the HTLC is to be failed once committed. -/
def addDustChecks (errImmediateFailures : Bool) : Except ChannelAddErr Bool := do
  let recipientDust ← dustExposed cp c h h.owner.other
  failIf (recipientDust = true ∧ errImmediateFailures = true) .DUST_FAILURE
  let senderDust ← dustExposed cp c h h.owner
  failIf (senderDust = true ∧ errImmediateFailures = true) .DUST_FAILURE
  return recipientDust || senderDust

/-- Another lane than the channel's own moves only its balance. -/
def addLaneChecks (errImmediateFailures : Bool) : Except ChannelAddErr Bool :=
  if h.lane ≠ 0 then do
    let p := addPending c h
    failIf (enforce = true ∧ laneRoom c h.owner.other h.lane p.adding p.removing h.owner = false)
      .CHANNEL_CAPACITY_EXCEEDED
    return false
  else do
    addValueChecks c h enforce
    if enforce then addRoomChecks cp c h
    addDustChecks cp c h errImmediateFailures

end checks

/-- The channel with a new HTLC, and the HTLC. Source: `add_htlc` -/
def addHtlc (cp : ChainParams) (c : Channel) (state : HtlcState) (a : AddArgs)
    (enforce errImmediateFailures : Bool) : Except ChannelAddErr (Channel × Htlc) := do
  let h := newHtlc state a
  addBasicChecks cp c h enforce
  let failImmediate ← addLaneChecks cp c h enforce errImmediateFailures
  let h := { h with failImmediate }
  return ({ c with htlcs := h :: c.htlcs }, h)

/-- The state in which a side's HTLC starts. -/
def addState : Side → HtlcState
  | .LOCAL => SENT_ADD_HTLC
  | .REMOTE => RCVD_ADD_HTLC

/-- An addition by a side. Source: `channel_add_htlc`, `channel_add_lane_htlc` -/
def channelAddHtlc (cp : ChainParams) (c : Channel) (sender : Side) (a : AddArgs)
    (errImmediateFailures : Bool) : Except ChannelAddErr (Channel × Htlc) :=
  addHtlc cp c (addState sender) a true errImmediateFailures

/-! ### What an accepted HTLC passed -/

variable {c : Channel} {h : Htlc}

lemma failIf_bind_ok {α : Type} {p : Prop} [Decidable p] {e : ChannelAddErr}
    {f : Unit → Except ChannelAddErr α} {r : α} :
    (failIf p e >>= f) = .ok r ↔ ¬ p ∧ f () = .ok r := by
  unfold failIf
  split
  · next hp => exact ⟨fun h => (by cases h), fun h => absurd hp h.1⟩
  · next hp => exact ⟨fun h => ⟨hp, h⟩, fun h => h.2⟩

lemma failIf_ok {p : Prop} [Decidable p] {e : ChannelAddErr} {u : Unit} :
    failIf p e = .ok u ↔ ¬ p := by
  unfold failIf
  split
  · next hp => exact ⟨fun h => (by cases h), fun h => absurd hp h⟩
  · next hp => exact ⟨fun _ => hp, fun _ => rfl⟩

lemma bind_ok {ε α β : Type} {x : Except ε α} {f : α → Except ε β} {r : β} :
    (x >>= f) = .ok r ↔ ∃ a, x = .ok a ∧ f a = .ok r := by
  cases x with
  | error e => exact ⟨fun h => (by cases h), by rintro ⟨_, h, _⟩; cases h⟩
  | ok a => exact ⟨fun h => ⟨a, rfl, h⟩, fun ⟨_, ha, h⟩ => by cases ha; exact h⟩

/-- The conditions under which an HTLC passes the checks that are made of every HTLC. -/
structure BasicChecks (cp : ChainParams) (c : Channel) (h : Htlc) (enforce : Bool) : Prop where
  lane_lt : h.lane < symNumLanes c.setup
  expiry_lt : h.expiry < 500000000
  fresh : htlcGet c.htlcs h.id h.owner = none
  amount_ne : h.amount ≠ 0
  minimum_le : (c.setup.config h.owner.other).htlcMinimum ≤ h.amount
  payment_le : ¬ (h.owner = .LOCAL ∧ cp.maxPayment < h.amount ∧ c.setup.optionWumbo = false)
  count_lt : (gatherLaneHtlcs c.htlcs h.owner.other none).numOtherSide <
    (c.setup.config h.owner.other).maxAcceptedHtlcs
  count_local : ¬ (enforce = true ∧ h.owner = .LOCAL ∧ (c.setup.config .LOCAL).maxAcceptedHtlcs <
    (gatherLaneHtlcs c.htlcs h.owner.other none).numOtherSide + 1)

/-- The basic checks, as they are named. -/
lemma addBasicChecks_ok {cp : ChainParams} {enforce : Bool} {u : Unit} :
    addBasicChecks cp c h enforce = .ok u ↔ BasicChecks cp c h enforce := by
  unfold addBasicChecks
  rcases hget : htlcGet c.htlcs h.id h.owner with _ | old
  · simp only [failIf_bind_ok, failIf_ok]
    constructor
    · rintro ⟨h1, h2, h3, h4, h5, h6, h7⟩
      exact ⟨not_le.1 h1, not_le.1 h2, hget, h3, not_lt.1 h4, h5, by omega, h7⟩
    · rintro ⟨h1, h2, -, h3, h4, h5, h6, h7⟩
      exact ⟨not_le.2 h1, not_le.2 h2, h3, not_lt.2 h4, h5, by omega, h7⟩
  · simp only [failIf_bind_ok]
    constructor
    · rintro ⟨-, -, h3⟩
      cases h3
    · intro hb
      cases hget.symm.trans hb.fresh

/-- What a side can spend in a lane of a view: in lane 0, not what a splice in flight takes. -/
def spendable (c : Channel) (view : Side) (lane : ℕ) (side : Side) : ℕ :=
  c.owed view lane side - if lane = 0 then c.setup.lowestSpliceAmnt view side * 1000 else 0

/-- The sender has room for a new HTLC in the recipient's view, in lane 0 above its reserve. -/
def HasRoom (c : Channel) (h : Htlc) : Prop :=
  ∃ balance, roomBalance c h.owner.other h.lane (addPending c h).adding (addPending c h).removing
      h.owner (spendable c h.owner.other h.lane h.owner) = some balance ∧ 0 ≤ balance ∧
    (h.lane = 0 → ∃ reserve, channelReserveOf c.setup h.owner = some reserve ∧
      (reserve * 1000 : ℕ) ≤ balance)

lemma balanceOk_eq_some {b : ℤ} {m : ℕ} : balanceOk b = some m ↔ 0 ≤ b ∧ m = b.toNat := by
  unfold balanceOk
  split
  · next hb => exact ⟨fun h => (by cases h), fun h => absurd h.1 (not_le.2 hb)⟩
  · next hb => exact ⟨fun h => ⟨not_lt.1 hb, (Option.some.inj h).symm⟩, fun h => by rw [h.2]⟩

lemma hasRoom_of_laneRoom (hlane : h.lane ≠ 0)
    (hroom : laneRoom c h.owner.other h.lane (addPending c h).adding (addPending c h).removing
      h.owner = true) : HasRoom c h := by
  have hs : spendable c h.owner.other h.lane h.owner = c.owed h.owner.other h.lane h.owner := by
    simp [spendable, hlane]
  unfold laneRoom at hroom
  split at hroom
  · next balance hb =>
    obtain ⟨m, hm⟩ := Option.isSome_iff_exists.1 hroom
    exact ⟨balance, hs ▸ hb, (balanceOk_eq_some.1 hm).1, fun hz => absurd hz hlane⟩
  · cases hroom

/-- A difference that is there does not go below zero. -/
theorem amountMsatSubSat_eq_some {msat sat m : ℕ} (h : amountMsatSubSat msat sat = some m) :
    sat * 1000 < 2 ^ 64 ∧ sat * 1000 ≤ msat ∧ m = msat - sat * 1000 := by
  unfold amountMsatSubSat at h
  split at h
  · next hfit => exact ⟨hfit, amountSub_eq_some.1 h⟩
  · cases h

/-- The room above the reserve is room. -/
lemma hasRoom_of_getRoomAboveReserve {m : ℕ} (hlane : h.lane = 0)
    (hroom : getRoomAboveReserve c h.owner.other (addPending c h).adding (addPending c h).removing
      h.owner = some m) : HasRoom c h := by
  unfold getRoomAboveReserve at hroom
  simp only [Option.bind_eq_bind, Option.bind_eq_some_iff] at hroom
  obtain ⟨-, -, owed, howed, balance, hbal, rem, hrem, reserve, hreserve, hleft⟩ := hroom
  obtain ⟨hnonneg, rfl⟩ := balanceOk_eq_some.1 hrem
  have hs : spendable c h.owner.other h.lane h.owner = owed := by
    simp [spendable, hlane, (amountMsatSubSat_eq_some howed).2.2]
  refine ⟨balance, ?_, hnonneg, fun _ => ⟨reserve, hreserve, ?_⟩⟩
  · rw [hs, hlane]
    exact hbal
  · have hle := (amountMsatSubSat_eq_some hleft).2.1
    omega

/-- What an accepted HTLC passed, and the channel it leaves. -/
theorem addHtlc_ok {cp : ChainParams} {c' : Channel} {st : HtlcState} {a : AddArgs}
    {enforce imm : Bool} (hok : addHtlc cp c st a enforce imm = .ok (c', h)) :
    BasicChecks cp c (newHtlc st a) enforce ∧ (enforce = true → HasRoom c (newHtlc st a)) ∧
      (∃ fi, h = { newHtlc st a with failImmediate := fi }) ∧
      c' = { c with htlcs := h :: c.htlcs } := by
  unfold addHtlc at hok
  obtain ⟨u, hbasic, hok⟩ := bind_ok.1 hok
  obtain ⟨fi, hlane, hok⟩ := bind_ok.1 hok
  have hpair := Except.ok.inj hok
  refine ⟨addBasicChecks_ok.1 hbasic, ?_, ⟨fi, (Prod.mk.inj hpair).2.symm⟩, ?_⟩
  · rintro rfl
    unfold addLaneChecks at hlane
    split at hlane
    · next hz =>
      apply hasRoom_of_laneRoom hz
      have := (failIf_bind_ok.1 hlane).1
      simpa using this
    · next hz =>
      obtain ⟨-, -, hlane⟩ := bind_ok.1 hlane
      obtain ⟨u, hroom, -⟩ := bind_ok.1 hlane
      have hs : senderAffords cp c (newHtlc st a) ≠ none :=
        fun hn => failIf_ok.1 hroom (Or.inl hn)
      obtain ⟨v, hv⟩ := Option.ne_none_iff_exists'.1 hs
      unfold senderAffords at hv
      simp only [Option.bind_eq_bind, Option.bind_eq_some_iff] at hv
      obtain ⟨-, -, rem, hrem, -⟩ := hv
      exact hasRoom_of_getRoomAboveReserve (not_not.1 hz) hrem
  · rw [← (Prod.mk.inj hpair).1, ← (Prod.mk.inj hpair).2]

end SeqLN.Channeld
