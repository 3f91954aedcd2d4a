import SeqLN.Signer.SymLanes

/-!
# Requests

The requests that change what the device keeps, and what it does with each (`Device.step`). A
refused request leaves the device as it was (`Device.after`), so a run is a list of requests
(`Device.run`); `Device.history` is what the accepted ones of a run charged to the allowances.

Source: `contrib/seqln-signer/src/dispatch.rs`, `Signer::handle`
-/

namespace SeqLN.Signer

open Lib

/-- What `SETUP_CHANNEL` names of a channel. Source: `parse_setup_channel` -/
structure ChannelSetup where
  isOutbound : Bool
  fundingSats : ℕ
  fundingTxid : Hash
  fundingTxout : ℕ
  localToSelfDelay : ℕ
  localShutdownScript : Bytes
  localShutdownWalletIndex : Option ℕ
  remoteRevocation : Key
  remotePayment : Key
  remoteHtlc : Key
  remoteDelayed : Key
  remoteFunding : Key
  remoteToSelfDelay : ℕ
  remoteShutdownScript : Bytes
  optionStaticRemotekey : Bool
  optionAnchors : Bool
  optionTcov : Bool
  optionCredit : Bool
  optionSym : Bool
  optionSymClock : Bool
  limits : Option ChannelLimits

/-- The record of a channel the device has learned nothing of yet. Source: `parse_setup_channel` -/
def ChannelSetup.fresh (c : ChannelSetup) : ChannelState where
  fundingSats := c.fundingSats
  fundingTxid := c.fundingTxid
  fundingTxout := c.fundingTxout
  localToSelfDelay := c.localToSelfDelay
  remoteToSelfDelay := c.remoteToSelfDelay
  remoteRevocation := c.remoteRevocation
  remotePayment := c.remotePayment
  remoteHtlc := c.remoteHtlc
  remoteDelayed := c.remoteDelayed
  remoteFunding := c.remoteFunding
  optionStaticRemotekey := c.optionStaticRemotekey
  optionAnchors := c.optionAnchors
  optionTcov := c.optionTcov
  isOutbound := some c.isOutbound
  localShutdownScript := c.localShutdownScript
  remoteShutdownScript := c.remoteShutdownScript
  localShutdownWalletIndex := c.localShutdownWalletIndex
  revokedThrough := none
  validatedThrough := none
  localSplit := none
  remoteSplit := none
  validated := []
  pay := PayTrack.new
  predatesValidation := false
  limits := c.limits
  peerReachedReserve := false
  optionCredit := c.optionTcov && c.optionCredit
  credit := none
  optionSym := c.optionSym
  lanes := []
  optionSymClock := c.optionSymClock
  clockIssuer := none
  clockSeed := none
  broadcastFrom := none

namespace Device

variable (k : SymKernel) (s : Device)

/-! ### Closes -/

/-- Source: `sign_mutual_close_tx_checked` -/
def signMutualCloseTx (key : ChannelKey) (bt : BitcoinTx) : Except Refusal Device := do
  s.predating key
  let st ← s.tracked key
  validateMutualClose st (s.own k.toKernel st) bt.tx
  s.paidFeeWithinLimit st bt.tx (closeFee st bt.tx)
  require ((bt.inputValue 0).isSome = true) .unsigned
  return { s with store := s.store.recordClose bt.txid }

/-- Source: `sign_mutual_close_lanes_checked` -/
def signMutualCloseLanes (key : ChannelKey) (bt : BitcoinTx) (remoteFunding : Key) :
    Except Refusal Device := do
  s.predating key
  let st ← s.tracked key
  require (remoteFunding = st.remoteFunding) .otherFundingKey
  validateLanesClose st (s.own k.toKernel st) bt.tx
  s.paidFeeWithinLimit st bt.tx (closeFee st bt.tx)
  require (∀ i ∈ List.range bt.tx.inputs.length, (bt.inputValue i).isSome = true) .unsigned
  return { s with store := s.store.recordClose bt.txid }

/-! ### Credit notes and settle clocks -/

/-- Source: `credit_note` -/
def creditNote (key : ChannelKey) (cid : Hash) (note : CreditNote) : Except Refusal Device := do
  let st ← s.tracked key
  require (st.optionCredit = true ∧ st.isOutbound = some false) .badNote
  require (cid = k.channelId st.fundingTxid st.fundingTxout) .badNote
  require (k.creditNoteVerifies key st note = true) .badNote
  require (note.preimage.all (fun p => k.sha256 p = note.paymentHash) = true) .badNote
  return { s with store := s.store.modify key fun st => st.learnCredit note }

/-- The marker's issuer and seed of a channel with a settle clock. -/
def recordClock (issuer : Hash × ℕ) (seed : ℕ) (st : ChannelState) : ChannelState :=
  { st with clockIssuer := some issuer, clockSeed := some seed }

/-- Source: `check_sym_clock_funding` -/
def checkSymClockFunding (key : ChannelKey) (tx : Tx) (txid fundingTxid : Hash) (fundingVout : ℕ)
    (issuer : Hash × ℕ) : Except Refusal Device := do
  let st ← s.tracked key
  require (st.optionSymClock = true) .settleClock
  require (fundingTxid = st.fundingTxid ∧ fundingVout = st.fundingTxout) .otherFundingOutput
  require (txid = st.fundingTxid) .otherFundingOutput
  require (st.clockIssuer.all (· = issuer) = true) .otherIssuer
  let seed ← fromOption (k.clockSeed key st tx issuer) .settleClock
  return { s with store := s.store.modify key (recordClock issuer seed) }

/-! ### Withdrawals -/

/-- A wallet spend, with what `check_withdrawal` finds it to let leave the device of each asset. -/
structure Withdrawal where
  txid : Hash
  losses : AList fun _ : AssetKey => ℕ

/-- What a spend lets leave of an asset fits in what the period has left. -/
def lossFits (txid : Hash) (asset : AssetKey) (atoms : ℕ) : Bool :=
  atoms = 0 || s.store.ledger.isChargedTxid txid ||
    match s.limits.limitMsat asset with
    | none => true
    | some limit =>
      satMul atoms 1000 ≤ limit - s.store.ledger.spentMsat asset s.now s.limits.periodSecs

/-- Source: `losses_fit`, for `Bound::Period` -/
def lossesFit (w : Withdrawal) : Bool :=
  w.losses.entries.all fun l => s.lossFits w.txid l.1 l.2

/-- What a spend is charged for: nothing where it was charged before. -/
def withdrawalCharges (w : Withdrawal) : List (AssetKey × ℕ) :=
  if s.store.ledger.isChargedTxid w.txid || !w.losses.entries.any (0 < ·.2) then []
  else w.losses.entries.map fun l => (l.1, satMul l.2 1000)

/-- Amounts charged to the ledger at one time. -/
def chargeAll (now : ℕ) (charges : List (AssetKey × ℕ)) (l : Ledger) : Ledger :=
  charges.foldl (fun l c => l.charge c.1 c.2 now) l

/-- Source: `h_sign_withdrawal` -/
def signWithdrawal (w : Withdrawal) : Except Refusal Device := do
  require (s.lossesFit w = true) (.paymentTooLarge 0)
  match s.withdrawalCharges w with
  | [] => return s
  | charges =>
    let ledger := (chargeAll s.now charges
      (s.store.ledger.prune s.now s.limits.periodSecs)).markChargedTxid w.txid
    return { s with store := { s.store with ledger } }

end Device

/-! ### Runs -/

/-- What the host asks; `setNow` moves the device's clock. -/
inductive Request where
  | setNow (now : ℕ)
  | setupChannel (key : ChannelKey) (setup : ChannelSetup)
  | forgetChannel (key : ChannelKey)
  | signRemoteCommitmentTx (req : Device.RemoteCommitment)
  | validateCommitmentTx (req : Device.LocalCommitment)
  | signCommitmentTx (req : Device.OwnCommitment)
  | revokeCommitmentTx (key : ChannelKey) (n : ℕ)
  | preapprove (hash : Hash) (amountMsat : Option ℕ) (asset : Option AssetKey)
  | signSymState (key : ChannelKey) (q : SymRequest) (ck : Option SymClockRequest)
  | signSymLanesState (key : ChannelKey) (q : SymLanesRequest)
  | approveSymSwap (key : ChannelKey) (giveAsset : Key) (giveMsat : ℕ) (takeAsset : Key)
      (takeMsat : ℕ)
  | signSymKickoff (req : Device.KickoffRequest)
  | checkSymClockFunding (key : ChannelKey) (tx : Tx) (txid fundingTxid : Hash) (fundingVout : ℕ)
      (issuer : Hash × ℕ)
  | signMutualCloseTx (key : ChannelKey) (bt : BitcoinTx)
  | signMutualCloseLanes (key : ChannelKey) (bt : BitcoinTx) (remoteFunding : Key)
  | creditNote (key : ChannelKey) (cid : Hash) (note : CreditNote)
  | signWithdrawal (w : Device.Withdrawal)

namespace Device

variable (k : SymKernel)

/-- Source: `Signer::handle` -/
def step (s : Device) : Request → Except Refusal Device
  | .setNow now => .ok { s with now }
  | .setupChannel key setup => .ok (s.recordSetupChannel key setup.fresh)
  | .forgetChannel key => .ok (s.forgetChannel key)
  | .signRemoteCommitmentTx req => s.signRemoteCommitmentTx k.toKernel req
  | .validateCommitmentTx req => s.validateCommitmentTx k.toKernel req
  | .signCommitmentTx req => s.signCommitmentTx k.toKernel req
  | .revokeCommitmentTx key n => s.revokeCommitmentTx key n
  | .preapprove hash amountMsat asset => s.preapprove hash amountMsat asset
  | .signSymState key q ck => s.signSymState k key q ck
  | .signSymLanesState key q => s.signSymLanesState k key q
  | .approveSymSwap key give giveMsat take takeMsat => s.approveSymSwap key give giveMsat take takeMsat
  | .signSymKickoff req => s.signSymKickoff k req
  | .checkSymClockFunding key tx txid fundingTxid vout issuer =>
    s.checkSymClockFunding k key tx txid fundingTxid vout issuer
  | .signMutualCloseTx key bt => s.signMutualCloseTx k key bt
  | .signMutualCloseLanes key bt remoteFunding => s.signMutualCloseLanes k key bt remoteFunding
  | .creditNote key cid note => s.creditNote k key cid note
  | .signWithdrawal w => s.signWithdrawal w

/-- The device after a request; a refused one changes nothing. -/
def after (s : Device) (req : Request) : Device :=
  match s.step k req with
  | .ok s' => s'
  | .error _ => s

/-- The device after a list of requests. -/
def run (s : Device) (reqs : List Request) : Device := reqs.foldl (after k) s

@[simp] lemma run_nil (s : Device) : run k s [] = s := rfl

@[simp] lemma run_cons (s : Device) (req : Request) (reqs : List Request) :
    run k s (req :: reqs) = run k (s.after k req) reqs := rfl

variable {k}

/-- A refused request changes nothing, so only an accepted one has to keep a property. -/
theorem after_keeps {P : Device → Prop} {s : Device} {req : Request} (hs : P s)
    (hstep : ∀ s', s.step k req = .ok s' → P s') : P (s.after k req) := by
  unfold after
  split
  · next s' h => exact hstep s' h
  · exact hs

/-- What every accepted request of a run keeps, the run keeps. -/
theorem run_keeps {P : Device → Prop} {s : Device} {reqs : List Request} (hs : P s)
    (hstep : ∀ req ∈ reqs, ∀ s s', P s → s.step k req = .ok s' → P s') : P (s.run k reqs) := by
  induction reqs generalizing s with
  | nil => exact hs
  | cons req reqs ih =>
    apply ih
    · exact after_keeps hs fun s' h => hstep req List.mem_cons_self s s' hs h
    · exact fun r hr => hstep r (List.mem_cons_of_mem req hr)

end Device

/-! ### A device to run -/

namespace Example

/-- A string of one byte, repeated. -/
def bytes (n : ℕ) (b : UInt8) : ByteString n := ByteString.replicate n b

/-- Our main script, the peer's, and one for each HTLC. -/
def scripts (side : Side) (htlcs : List Htlc) : List Bytes :=
  (if side = .LOCAL then [[1], [2]] else [[2], [1]]) ++ htlcs.map fun h => 3 :: h.paymentHash.bytes

/-- Keys and scripts that are told apart by their first bytes; every signature verifies. -/
def kernel : SymKernel where
  basepoint := fun _ i => bytes 33 (16 + i.toUInt8)
  perCommitPoint := fun _ n => bytes 33 n.toUInt8
  expectedScripts := fun _ _ side _ htlcs _ => some (scripts side htlcs)
  obscurer := fun _ _ => 0
  peerFundingSigVerifies := fun _ _ _ _ => true
  ownScript := fun script => script = [7]
  ownCloseScript := fun _ => none
  scripts :=
    { p2wpkh := fun key => key.bytes.take 1
      htlcTree := fun offerer _ hash cltv => some (offerer.bytes.take 1 ++ cltv.toUInt8 :: hash.bytes) }
  kickoffSpk := fun _ _ _ => some [9]
  markerAsset := fun _ => bytes 33 1
  clockKickoffSpk := fun _ _ _ _ => some [10]
  buildsState := fun _ _ _ _ => true
  peerUpdateSigVerifies := fun _ _ _ _ _ => true
  clockSeed := fun _ _ _ _ => some 1
  channelId := fun txid _ => txid
  creditNoteVerifies := fun _ _ _ => true
  sha256 := id

/-- A device with no channels; an asset's limit is `atoms` in a day. -/
def device (atoms : Option ℕ) : Device where
  store := ChannelStore.new
  limits := ⟨.none, fun _ => some atoms, fun _ => none, 86400⟩
  now := 0
  swaps := []
  closeDestinations := []

def channel : ChannelKey := (bytes 33 2, 1)

/-- A channel of `sats` that the peer opened. -/
def setup (sats : ℕ) : ChannelSetup where
  isOutbound := false
  fundingSats := sats
  fundingTxid := bytes 32 5
  fundingTxout := 0
  localToSelfDelay := 6
  localShutdownScript := []
  localShutdownWalletIndex := none
  remoteRevocation := bytes 33 32
  remotePayment := bytes 33 33
  remoteHtlc := bytes 33 34
  remoteDelayed := bytes 33 35
  remoteFunding := bytes 33 36
  remoteToSelfDelay := 6
  remoteShutdownScript := []
  optionStaticRemotekey := true
  optionAnchors := false
  optionTcov := false
  optionCredit := false
  optionSym := false
  optionSymClock := false
  limits := none

/-- An HTLC that we offer. -/
def offer (msat : ℕ) (hash : UInt8) : Htlc := ⟨0, msat, bytes 32 hash, 500⟩

/-- A transaction that spends the funding and pays us `ours`, with the locktime and the sequence of
commitment `n`. -/
def commitment (n ours : ℕ) : Tx where
  network := .bitcoin
  locktime := 0x20000000 + n
  inputs := [⟨bytes 32 5, 0, 0x80000000, false⟩]
  outputs := [⟨none, some ours, [1]⟩]

/-- The peer's commitment `n`, with our HTLCs. -/
def remote (n ours : ℕ) (htlcs : List Htlc) : Device.RemoteCommitment where
  key := channel
  bt := ⟨commitment n ours, bytes 32 n.toUInt8, [some 0], none⟩
  remoteFunding := bytes 33 36
  remotePerCommit := bytes 33 40
  htlcs
  commitNum := n

def signRemote (n ours : ℕ) (htlcs : List Htlc) : Request :=
  .signRemoteCommitmentTx (remote n ours htlcs)

end Example

end SeqLN.Signer
