import SeqLN.Signer.Close

/-!
# The device

The state of the device signer (`Device`) and its handlers in enforce mode: each takes a request as
it was parsed and gives the device after it, or the reason it was refused. A refused request changes
nothing. What a request carries that no check reads is left out, and so is the reply.

Source: `contrib/seqln-signer/src/dispatch.rs`
-/

namespace SeqLN.Signer

open Lib

/-- A swap the device approved, and which side's state has applied it. Source: `SwapApproval` -/
structure SwapApproval where
  key : ChannelKey
  giveAsset : Key
  giveMsat : ℕ
  takeAsset : Key
  takeMsat : ℕ
  usedLocal : Bool
  usedRemote : Bool
  deriving DecidableEq

/-- Source: `Signer` -/
structure Device where
  store : ChannelStore
  limits : Limits
  now : ℕ
  swaps : List SwapApproval
  closeDestinations : List Bytes

namespace Device

variable (k : Kernel) (s : Device)

/-! ### Payments -/

/-- The asset of a transaction's first output. Source: `commitment_asset` -/
def commitmentAsset (tx : Tx) : Except Refusal AssetKey :=
  match tx.network with
  | .bitcoin => .ok .btc
  | .elements => (fromOption (tx.outputs.head?.bind TxOut.asset) (.blindedAsset 0)).map .asset

/-- The HTLCs we offered, as the record keeps them. -/
def offeredOf (htlcs : List Htlc) : List Offered :=
  (htlcs.filter (·.side = 0)).map fun h => ⟨h.amountMsat, h.paymentHash, h.cltvExpiry⟩

/-- What a commitment leaves this side: its main output, the fee and anchors where it opened the
channel, and every HTLC it offered; a trimmed HTLC's value is in the opener's fee. -/
def commitmentValue (st : ChannelState) (htlcs : List Htlc) (v : Validated) : ℕ :=
  let value := satAdd (v.split.share st.isOutbound) (offeredAtoms (offeredOf htlcs))
  if st.isOutbound = some true then value - v.trimmed else value

/-- Source: `payment_plan` -/
def paymentPlan (st : ChannelState) (ours : Bool) (n : ℕ) (tx : Tx) (htlcs : List Htlc)
    (v : Validated) : Except Refusal Plan := do
  let asset ← commitmentAsset tx
  return st.pay.plan ours n asset (commitmentValue st htlcs v) (offeredOf htlcs) htlcs.length

/-- Source: `BalanceCheck::refusal` -/
def checkBalance (balance : Option BalanceCheck) : Except Refusal Unit :=
  match balance with
  | some b => require (b.short = 0) (.short b)
  | none => .ok ()

/-- The first HTLC that no approval covers. -/
def unapproved (offered : List Offered) : Option Offered :=
  offered.find? fun h => !s.store.ledger.isApproved h.hash s.now s.limits.periodSecs

/-- Source: `check_plan` -/
def checkPlan (plan : Plan) : Except Refusal Unit := do
  checkBalance plan.balance
  match s.unapproved plan.newOffered with
  | some h => .error (.notApproved h)
  | none =>
    require (s.store.ledger.checkSpend s.limits plan.asset plan.chargeMsat s.now = true)
      (.overLimit plan.asset plan.chargeMsat)

/-- An amount charged to the ledger. -/
def chargeLedger (asset : AssetKey) (msat : ℕ) : Device :=
  let ledger := s.store.ledger.pruneAndCharge asset msat s.now s.limits.periodSecs
  { s with store := { s.store with ledger } }

/-- Source: `apply_plan` -/
def applyPlan (key : ChannelKey) (plan : Plan) : Device :=
  let s := { s with store := s.store.modify key fun st => { st with pay := plan.track } }
  s.chargeLedger plan.asset plan.chargeMsat

/-- Source: `within_limit` -/
def withinLimit (asset : AssetKey) (amount : ℕ) : Except Refusal Unit :=
  match s.limits.limitMsat asset with
  | some l => require (amount ≤ l / 1000) (.overLimit asset amount)
  | none => .ok ()

/-- The fee of a commitment or a close, where this side pays it. Source: `paid_fee_within_limit` -/
def paidFeeWithinLimit (st : ChannelState) (tx : Tx) (fee : ℕ) : Except Refusal Unit :=
  if st.isOutbound = some false then .ok ()
  else
    match st.pay.asset with
    | some a => s.withinLimit a fee
    | none => do
      let a ← commitmentAsset tx
      s.withinLimit a fee

/-! ### Channel records -/

/-- A record that a device that validated nothing left is never signed for. Source: `predating` -/
def predating (key : ChannelKey) : Except Refusal Unit :=
  require ((s.store.get key).any ChannelState.predatesValidation = false) .predatesValidation

/-- The record of a channel. -/
def tracked (key : ChannelKey) : Except Refusal ChannelState :=
  fromOption (s.store.get key) .untracked

/-- A fresh record from `setup_channel`, with what the device has learned since it first saw the
channel. Source: `record_setup_channel` -/
def recordSetupChannel (key : ChannelKey) (st : ChannelState) : Device :=
  let st := match s.store.get key with
    | some old => st.mergeFrom old
    | none => st
  { s with store := s.store.insert key st }

/-- Source: `forget_channel` -/
def forgetChannel (key : ChannelKey) : Device := { s with store := s.store.remove key }

/-! ### The peer's commitments -/

/-- What `SIGN_REMOTE_COMMITMENT_TX` names. -/
structure RemoteCommitment where
  key : ChannelKey
  bt : BitcoinTx
  remoteFunding : Key
  remotePerCommit : Key
  htlcs : List Htlc
  commitNum : ℕ

/-- Source: `check_remote_commitment` -/
def checkRemoteCommitment (req : RemoteCommitment) : Except Refusal Validated := do
  let st ← s.tracked req.key
  require (req.remoteFunding = st.remoteFunding) .otherFundingKey
  validateCommitment k req.key st .REMOTE req.remotePerCommit req.htlcs req.bt.tx

/-- The later of two splits stays. -/
def recordSplit (old : Option (ℕ × Split)) (n : ℕ) (sp : Split) : Option (ℕ × Split) :=
  if old.any (n < ·.1) then old else some (n, sp)

/-- What the record learns from a commitment of the peer's. -/
def recordRemote (n : ℕ) (v : Validated) (st : ChannelState) : ChannelState :=
  let st := { st with remoteSplit := recordSplit st.remoteSplit n v.split }
  notePeerBalance st v.theirs

/-- What a commitment of the peer's pays, and its plan. -/
def planRemoteCommitment (req : RemoteCommitment) : Except Refusal (Validated × Plan) := do
  let v ← s.checkRemoteCommitment k req
  let st ← s.tracked req.key
  checkPeerReserve st v.theirs
  s.paidFeeWithinLimit st req.bt.tx v.split.fee
  let plan ← paymentPlan st false req.commitNum req.bt.tx req.htlcs v
  return (v, plan)

/-- Source: `sign_remote_commitment_tx_checked` -/
def signRemoteCommitmentTx (req : RemoteCommitment) : Except Refusal Device := do
  s.predating req.key
  let (v, plan) ← s.planRemoteCommitment k req
  s.checkPlan plan
  -- the signature hash commits to the value the PSBT states
  require ((req.bt.inputValue 0).isSome = true) .unsigned
  let s := { s with store := s.store.modify req.key (recordRemote req.commitNum v) }
  return s.applyPlan req.key plan

/-! ### Our commitments -/

/-- What `VALIDATE_COMMITMENT_TX` names. -/
structure LocalCommitment where
  key : ChannelKey
  bt : BitcoinTx
  htlcs : List Htlc
  commitNum : ℕ
  sig : Bytes

/-- Source: `check_local_commitment` -/
def checkLocalCommitment (req : LocalCommitment) : Except Refusal Validated := do
  let st ← s.tracked req.key
  require (k.peerFundingSigVerifies req.key st req.bt req.sig = true)
    (.badPeerSignature req.commitNum)
  validateCommitment k req.key st .LOCAL (k.perCommitPoint req.key req.commitNum) req.htlcs req.bt.tx

/-- What the record learns from a commitment of ours. -/
def recordLocal (n : ℕ) (v : Validated) (txid : Hash) (st : ChannelState) : ChannelState :=
  let st := { st with
    validatedThrough := maxOpt st.validatedThrough (some n)
    localSplit := recordSplit st.localSplit n v.split }
  (notePeerBalance st v.theirs).recordValidated n txid

/-- What a commitment of ours pays, and its plan. -/
def planLocalCommitment (req : LocalCommitment) : Except Refusal (Validated × Plan) := do
  let v ← s.checkLocalCommitment k req
  let st ← s.tracked req.key
  checkPeerReserve st v.theirs
  s.paidFeeWithinLimit st req.bt.tx v.split.fee
  let plan ← paymentPlan st true req.commitNum req.bt.tx req.htlcs v
  return (v, plan)

/-- Source: `validate_commitment_tx_checked` -/
def validateCommitmentTx (req : LocalCommitment) : Except Refusal Device := do
  s.predating req.key
  let (v, plan) ← s.planLocalCommitment k req
  s.checkPlan plan
  let s := { s with store := s.store.modify req.key (recordLocal req.commitNum v req.bt.txid) }
  return s.applyPlan req.key plan

/-- What `SIGN_COMMITMENT_TX` names. -/
structure OwnCommitment where
  key : ChannelKey
  bt : BitcoinTx
  remoteFunding : Key
  commitNum : ℕ

/-- What a closing transaction pays in fee. Source: `close_fee` -/
def closeFee (st : ChannelState) (tx : Tx) : ℕ :=
  st.fundingSats - satSum ((tx.outputs.filter (·.script ≠ [])).map fun o => o.value.getD 0)

/-- Which scripts are this side's. -/
def own (st : ChannelState) : OwnScripts := ⟨k.ownScript, k.ownCloseScript st, s.closeDestinations⟩

/-- The number of a commitment to broadcast: the one it carries, or else the request's.
Source: the first branch of `check_own_commitment` -/
def checkBroadcast (st : ChannelState) (req : OwnCommitment) : Except Refusal (Option ℕ) := do
  let n := (commitmentNumber k req.key st req.bt.tx).getD req.commitNum
  require (st.revokedThrough.any (n ≤ ·) = false) (.revoked n)
  require (st.isValidated req.bt.txid = true) (.notValidated n req.bt.txid)
  return some n

/-- The number of the commitment, or `none` for a close. Source: `check_own_commitment` -/
def checkOwnCommitment (req : OwnCommitment) : Except Refusal (Option ℕ) := do
  let st ← s.tracked req.key
  require (req.remoteFunding = st.remoteFunding) .otherFundingKey
  if isCommitmentShaped req.bt.tx then checkBroadcast k st req
  else do
    if 1 < req.bt.tx.inputs.length then validateLanesClose st (s.own k st) req.bt.tx
    else validateMutualClose st (s.own k st) req.bt.tx
    s.paidFeeWithinLimit st req.bt.tx (closeFee st req.bt.tx)
    return none

/-- A commitment of ours was signed for broadcast. -/
def recordBroadcast (n : ℕ) (st : ChannelState) : ChannelState :=
  { st with broadcastFrom := minOpt st.broadcastFrom (some n) }

/-- Source: `sign_commitment_tx_checked` -/
def signCommitmentTx (req : OwnCommitment) : Except Refusal Device := do
  s.predating req.key
  let broadcast ← s.checkOwnCommitment k req
  require ((req.bt.inputValue 0).isSome = true) .unsigned
  match broadcast with
  | some n => return { s with store := s.store.modify req.key (recordBroadcast n) }
  | none => return { s with store := s.store.recordClose req.bt.txid }

/-- The secret of commitment `n` may be revealed. Source: the match of
`revoke_commitment_tx_checked` -/
def checkRevoke (st : ChannelState) (n : ℕ) : Except Refusal Unit :=
  if st.revokedThrough.any (n ≤ ·) then .ok ()
  else do
    require (st.broadcastFrom.any (· ≤ n) = false) (.signedForBroadcast n)
    require (st.revokedThrough.any (fun r => satAdd r 1 < n) = false) (.skips n)
    match st.validatedThrough with
    | some v => require (satAdd n 1 ≤ v) (.notYetValidated n)
    | none => require (st.revokedThrough = none ∧ n = 0) (.notYetValidated n)

/-- The secret of a commitment was revealed. -/
def recordRevoked (n : ℕ) (st : ChannelState) : ChannelState :=
  if st.revokedThrough.any (n ≤ ·) then st
  else ChannelState.dropRevoked { st with revokedThrough := some n }

/-- Reveals the secret of commitment `n`. Source: `revoke_commitment_tx_checked` -/
def revokeCommitmentTx (key : ChannelKey) (n : ℕ) : Except Refusal Device := do
  s.predating key
  let st ← s.tracked key
  checkRevoke st n
  return { s with store := s.store.modify key (recordRevoked n) }

/-! ### Approvals -/

/-- A payment of `need` fits in what an asset has left. -/
def assetFits (need : ℕ) (asset : AssetKey) : Bool :=
  match s.store.ledger.remainingMsat s.limits asset s.now with
  | some left => need ≤ left
  | none => true

/-- The assets of every channel whose asset is known. Source: `ChannelStore::assets` -/
def assets : List AssetKey := s.store.map.entries.filterMap fun e => e.2.pay.asset

/-- A payment, with its fee allowance, fits: in what its asset has left, or in what every channel's
asset has left where it names none. Source: `payment_fits` -/
def paymentFits (amountMsat : Option ℕ) (asset : Option AssetKey) : Bool :=
  match amountMsat with
  | none => true
  | some a =>
    let need := satAdd a (feeAllowanceMsat a)
    match asset with
    | some asset => s.assetFits need asset
    | none =>
      if s.assets = [] then
        match s.limits.unnamedLimitAtoms with
        | some l => need ≤ satMul l 1000
        | none => true
      else s.assets.all (s.assetFits need)

/-- Records a payment hash as approved. Source: `preapprove` -/
def preapprove (hash : Hash) (amountMsat : Option ℕ) (asset : Option AssetKey) :
    Except Refusal Device :=
  if s.paymentFits amountMsat asset then
    let ledger := (s.store.ledger.prune s.now s.limits.periodSecs).approve hash s.now
    .ok { s with store := { s.store with ledger } }
  else .error (.paymentTooLarge (amountMsat.getD 0))

end Device

end SeqLN.Signer
