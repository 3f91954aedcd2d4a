import SeqLN.Signer.Commitment

/-!
# Mutual closes

A mutual close is held to what the channel's latest commitments give this side (`checkCloseBalance`):
the larger of the two shares, less the fee where this side opened the channel; on a channel of several
assets, in every further lane to the balance its latest states left (`validateLanesClose`).

Source: `contrib/seqln-signer/src/policy.rs`
-/

namespace SeqLN.Signer

open Lib

/-- Which scripts a close may pay this side to: the wallet's, the local upfront shutdown script
where the device derives it, and those its user named. -/
structure OwnScripts where
  own : Bytes → Bool
  ownClose : Option Bytes
  approved : List Bytes

def OwnScripts.pays (s : OwnScripts) (script : Bytes) : Bool :=
  s.own script || s.ownClose = some script || s.approved.contains script

/-- Source: `CLOSE_DUST_TOLERANCE` -/
def closeDustToleranceDefault : ℕ := 546

/-- Source: `close_dust_tolerance` -/
def closeDustTolerance (st : ChannelState) : ℕ :=
  match st.limits with
  | some l => min (max l.ourDust l.peerDust) (max (st.fundingSats / 100) 1)
  | none => closeDustToleranceDefault

/-- Source: `CLOSE_FEE_CEILING_FACTOR` -/
def closeFeeCeilingFactor : ℕ := 4

/-- Source: `credit_owed` -/
def creditOwed (st : ChannelState) : ℕ :=
  match st.credit with
  | some note => if st.optionCredit then note.credit else 0
  | none => 0

/-- The larger of the shares the latest commitments give this side, and of the fees it may pay;
`none` before any. Source: the loop of `check_close_balance` -/
def knownShare (st : ChannelState) : Option (ℕ × ℕ) :=
  let one := fun sp : ℕ × Split => (sp.2.share st.isOutbound,
    satMul closeFeeCeilingFactor (satAdd sp.2.fee sp.2.anchors))
  match st.localSplit, st.remoteSplit with
  | some a, some b => some (max (one a).1 (one b).1, max (one a).2 (one b).2)
  | some a, none => some (one a)
  | none, some b => some (one b)
  | none, none => none

/-- The output to this wallet is at least what is due; it may be absent only where that is dust. -/
def paysDue (st : ChannelState) (due : ℕ) : Option ℕ → Bool
  | some v => due ≤ v
  | none => due ≤ closeDustTolerance st

/-- Source: `check_close_balance` -/
def checkCloseBalance (st : ChannelState) (oursOut : Option ℕ) (theirsOut closeFee : ℕ) :
    Except Refusal Unit := do
  let (known, ceiling) ← fromOption (knownShare st) .badClose
  let share := satAdd known (creditOwed st)
  let feeShare := if st.isOutbound = some false then 0 else min closeFee ceiling
  let due := share - feeShare
  require (paysDue st due oursOut = true) .badClose
  require (theirsOut ≤ st.fundingSats - share) .badClose

/-- What a close pays so far. -/
structure CloseTally where
  total : ℕ
  ours : ℕ
  theirs : ℕ
  oursValue : ℕ
  theirsValue : ℕ

/-- Source: the loop of `validate_mutual_close` -/
def tallyClose (own : OwnScripts) (remoteShutdown : Bytes) :
    List (TxOut × ℕ) → CloseTally → Except Refusal CloseTally
  | [], t => .ok t
  | (o, i) :: rest, t =>
    match o.value with
    | none => .error (.blindedValue i)
    | some v =>
      let t := { t with total := t.total + v }
      if o.script = [] then tallyClose own remoteShutdown rest t
      else if own.pays o.script then
        tallyClose own remoteShutdown rest { t with ours := t.ours + 1, oursValue := v }
      else if remoteShutdown = [] ∨ o.script = remoteShutdown then
        tallyClose own remoteShutdown rest { t with theirs := t.theirs + 1, theirsValue := v }
      else .error (.unknownScript i v o.script)

/-- Source: `validate_mutual_close` -/
def validateMutualClose (st : ChannelState) (own : OwnScripts) (tx : Tx) : Except Refusal Unit := do
  let inp ← oneInput tx
  require (spendsFunding st inp) .otherFundingOutput
  checkSingleAsset st tx
  let t ← tallyClose own st.remoteShutdownScript tx.outputs.zipIdx ⟨0, 0, 0, 0, 0⟩
  require (t.ours ≤ 1 ∧ t.theirs ≤ 1) .badClose
  require (t.total ≤ st.fundingSats) (.valueCreated t.total st.fundingSats)
  checkCloseBalance st (if t.ours = 1 then some t.oursValue else none) t.theirsValue
    (st.fundingSats - t.oursValue - t.theirsValue)

/-! ### Several lanes -/

/-- An asset as a lane names it: the prefix of an open asset, and its id. -/
def explicitAsset (a : Key) : Option Hash :=
  match a.bytes with
  | tag :: id => if h : tag = 1 ∧ id.length = 32 then some ⟨id, h.2⟩ else none
  | [] => none

/-- The further lane that an output is in. Source: `lane_of` -/
def laneOf (st : ChannelState) (o : TxOut) : Option ℕ :=
  o.asset.bind fun id => st.lanes.findIdx? fun l => explicitAsset l.asset = some id

/-- What a lane of a close pays so far. -/
structure LaneTally where
  ours : Option ℕ
  theirs : ℕ
  total : ℕ

/-- Source: the inner loop of `validate_lanes_close` -/
def tallyLane (st : ChannelState) (own : OwnScripts) (l : ℕ) :
    List (TxOut × ℕ) → LaneTally → Except Refusal LaneTally
  | [], t => .ok t
  | (o, i) :: rest, t =>
    if o.script = [] ∨ laneOf st o ≠ some l then tallyLane st own l rest t
    else
      match o.value with
      | none => .error (.blindedValue i)
      | some v =>
        if 2 ^ 64 ≤ t.total + v then .error .badClose
        else if own.pays o.script then
          if t.ours.isSome then .error (.otherLane (l + 1))
          else tallyLane st own l rest { t with total := t.total + v, ours := some v }
        else if st.remoteShutdownScript = [] ∨ o.script = st.remoteShutdownScript then
          if 0 < t.theirs then .error (.otherLane (l + 1))
          else tallyLane st own l rest { t with total := t.total + v, theirs := 1 }
        else .error (.unknownScript i v o.script)

/-- The larger of the balances a lane's latest states left this side. -/
def laneDue (lane : Lane) : Option ℕ :=
  match lane.pay.localSide, lane.pay.remoteSide with
  | some a, some b => some (max a.value b.value)
  | some a, none => some a.value
  | none, some b => some b.value
  | none, none => none

/-- One further lane of a close. Source: the loop of `validate_lanes_close` -/
def validateLane (st : ChannelState) (own : OwnScripts) (tx : Tx) (lane : Lane) (l : ℕ) :
    Except Refusal Unit := do
  let t ← tallyLane st own l tx.outputs.zipIdx ⟨none, 0, 0⟩
  require (t.total = lane.sats) (.otherLane (l + 1))
  let due ← fromOption (laneDue lane) (.otherLane (l + 1))
  require (due ≤ t.ours.getD 0) (.otherLane (l + 1))

/-- The inputs after the first are the lanes' funding outputs, in order. -/
def laneInputs (st : ChannelState) (inputs : List TxIn) : Bool :=
  (st.lanes.zip inputs.tail).all fun (lane, inp) =>
    lane.outnum = some inp.index && inp.txhash = st.fundingTxid && !inp.isIssuance

def validateLanes (st : ChannelState) (own : OwnScripts) (tx : Tx) :
    List (Lane × ℕ) → Except Refusal Unit
  | [] => .ok ()
  | (lane, l) :: rest => do
    validateLane st own tx lane l
    validateLanes st own tx rest

/-- What of a close is in the first lane. -/
def firstLane (st : ChannelState) (tx : Tx) : Tx :=
  { tx with
    inputs := tx.inputs.take 1
    outputs := tx.outputs.filter fun o => o.script = [] || (laneOf st o).isNone }

/-- The close of a channel of several assets. Source: `validate_lanes_close` -/
def validateLanesClose (st : ChannelState) (own : OwnScripts) (tx : Tx) : Except Refusal Unit := do
  require (st.lanes ≠ [] ∧ tx.network = .elements ∧ tx.inputs.length = 1 + st.lanes.length)
    (.inputCount tx.inputs.length)
  require (laneInputs st tx.inputs = true) .otherFundingOutput
  validateMutualClose st own (firstLane st tx)
  validateLanes st own tx st.lanes.zipIdx

end SeqLN.Signer
