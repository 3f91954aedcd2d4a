import SeqLN.Signer.Device

/-!
# Symmetric channels

The states of a symmetric channel of one asset (`signSymState`) and the swaps between lanes
(`approveSymSwap`). A state's settlement is held to the channel (`checkSettlement`), and what it leaves
this side to the payments the device approved.

Source: `contrib/seqln-signer/src/dispatch.rs`, `contrib/seqln-signer/src/sym.rs`
-/

namespace SeqLN.Signer

open Lib

/-! ### The settlement of a state -/

/-- One output of a settlement. Source: `sym::Out` -/
structure Out where
  amount : ℕ
  spk : Bytes
  deriving DecidableEq

/-- An HTLC a state carries; `ours` where this side offered it. Source: `StateHtlc` -/
structure StateHtlc where
  ours : Bool
  amountMsat : ℕ
  paymentHash : Hash
  cltvExpiry : ℕ
  deriving DecidableEq

/-- What a state pays: each side's balance output, and the outputs of the HTLCs this side offered.
Source: `Paid` -/
structure Paid where
  ours : ℕ
  theirs : ℕ
  offered : ℕ
  deriving DecidableEq

/-- What `check_settlement` has seen of a settlement; `unused` are the HTLCs, each with its script,
that no output has paid yet. -/
structure SettlementScan where
  paid : Paid
  seenOurs : Bool
  seenTheirs : Bool
  unused : List (StateHtlc × Option Bytes)
  total : ℕ

/-- An output is that of an HTLC, for its whole atoms. -/
def paysHtlc (o : Out) (h : StateHtlc × Option Bytes) : Bool :=
  h.2 = some o.spk && h.1.amountMsat / 1000 = o.amount

/-- One output of a settlement. Source: the loop of `check_settlement` -/
def scanOut (oursSpk theirsSpk : Bytes) (c : SettlementScan) (o : Out) (i : ℕ) :
    Except Refusal SettlementScan :=
  if 2 ^ 64 ≤ c.total + o.amount then .error .settlementOverflows
  else
    let c := { c with total := c.total + o.amount }
    if o.spk = oursSpk ∧ c.seenOurs = false then
      .ok { c with seenOurs := true, paid := { c.paid with ours := o.amount } }
    else if o.spk = theirsSpk ∧ c.seenTheirs = false then
      .ok { c with seenTheirs := true, paid := { c.paid with theirs := o.amount } }
    else
      match c.unused.find? (paysHtlc o) with
      | some h =>
        let offered := if h.1.ours then satAdd c.paid.offered o.amount else c.paid.offered
        .ok { c with
          unused := c.unused.eraseP (paysHtlc o)
          paid := { c.paid with offered } }
      | none => .error (.unknownScript i o.amount o.spk)

def scanOuts (oursSpk theirsSpk : Bytes) :
    List (Out × ℕ) → SettlementScan → Except Refusal SettlementScan
  | [], c => .ok c
  | (o, i) :: rest, c => do
    let c ← scanOut oursSpk theirsSpk c o i
    scanOuts oursSpk theirsSpk rest c

/-- What the device derives for symmetric channels. -/
structure SymScripts where
  /-- Source: `taproot::p2wpkh` -/
  p2wpkh : Key → Bytes
  /-- The script of an HTLC's output, from its offerer's and its receiver's key.
  Source: `htlc_tree`, `script_pubkey` -/
  htlcTree : Key → Key → Hash → ℕ → Option Bytes

/-- The keys a settlement pays to. -/
structure SymKeys where
  ourPayment : Key
  theirPayment : Key
  ourHtlc : Key
  theirHtlc : Key

/-- The script of an HTLC's output, where it has one. -/
def htlcScript (y : SymScripts) (keys : SymKeys) (h : StateHtlc) : Option Bytes :=
  if h.ours then y.htlcTree keys.ourHtlc keys.theirHtlc h.paymentHash h.cltvExpiry
  else y.htlcTree keys.theirHtlc keys.ourHtlc h.paymentHash h.cltvExpiry

/-- Source: `check_settlement` -/
def checkSettlement (y : SymScripts) (fundingSats : ℕ) (keys : SymKeys) (htlcs : List StateHtlc)
    (outs : List Out) : Except Refusal Paid := do
  let scripts := htlcs.map fun h => (h, htlcScript y keys h)
  let c ← scanOuts (y.p2wpkh keys.ourPayment) (y.p2wpkh keys.theirPayment) outs.zipIdx
    ⟨⟨0, 0, 0⟩, false, false, scripts, 0⟩
  require (c.total = fundingSats) (.badSettlement c.total)
  return c.paid

/-! ### The requests -/

/-- The number of a state: the opener's are even, the accepter's odd. Source: `state_num` -/
def stateNum (index : ℕ) (opener : Bool) : Option ℕ :=
  if 2 ^ 61 ≤ index then none else some (index * 2 + if opener then 0 else 1)

/-- What `SIGN_SYM_STATE` names; `owner` is 0 for a state of ours and 1 for one of the peer's.
Source: `SymRequest` -/
structure SymRequest where
  fundingTxid : Hash
  fundingVout : ℕ
  weOpened : Bool
  remoteUpdateKey : Key
  asset : Key
  delay : ℕ
  owner : ℕ
  commitNum : ℕ
  num : ℕ
  outs : List Out
  assets : List (Option Key)
  sigRemote : Option (ByteString 64)
  htlcs : List Htlc

/-- What `SIGN_SYM_CLOCK_STATE` names on top. Source: `SymClockRequest` -/
structure SymClockRequest where
  remoteFunding : Key
  fundingSats : ℕ
  issuer : Hash × ℕ

/-- What `SIGN_SYM_LANES_STATE` names: the further lanes, and each HTLC's lane.
Source: `SymLanesRequest` -/
structure SymLanesRequest where
  base : SymRequest
  fundingSats : ℕ
  lanes : List (Key × ℕ)
  htlcLanes : List ℕ

/-- What the device derives from its seed, for symmetric channels and credit notes as well. -/
structure SymKernel extends Kernel where
  scripts : SymScripts
  /-- The script of the channel's kickoff output in an asset.
  Source: `sym_channel`, `kickoff_spk` -/
  kickoffSpk : ChannelKey → ChannelState → Key → Option Bytes
  /-- The asset that an issuance on an outpoint makes. Source: `marker_asset` -/
  markerAsset : Hash × ℕ → Key
  /-- The kickoff output of a channel with a settle clock. Source: `with_sym_clock`, `kickoff_spk` -/
  clockKickoffSpk : ChannelKey → ChannelState → Key → Hash × ℕ → Option Bytes
  /-- A state's output can be built. Source: `Channel::state_in` -/
  buildsState : ChannelKey → ChannelState → SymRequest → Option SymClockRequest → Bool
  /-- The peer's signature on a state verifies. Source: `upd_msg`, `sym::verify` -/
  peerUpdateSigVerifies : ChannelKey → ChannelState → SymRequest → Option SymClockRequest →
    ByteString 64 → Bool
  /-- The seed's output in the funding transaction of a channel with a settle clock, where the
  transaction makes one marker atom. Source: `check_sym_clock_funding` -/
  clockSeed : ChannelKey → ChannelState → Tx → Hash × ℕ → Option ℕ
  /-- Source: `taproot::channel_id` -/
  channelId : Hash → ℕ → Hash
  /-- A note is signed by the provider's credit key. Source: `credit_note_check` -/
  creditNoteVerifies : ChannelKey → ChannelState → CreditNote → Bool
  /-- Source: `taproot::sha256` -/
  sha256 : Hash → Hash

/-- An asset as it serializes. -/
def explicitKey (id : Hash) : Key := ⟨1 :: id.bytes, by simp [id.2, ByteString.bytes]⟩

lemma explicitAsset_eq_some {a : Key} {id : Hash} :
    explicitAsset a = some id ↔ a = explicitKey id := by
  unfold explicitAsset
  constructor
  · intro h
    split at h
    · next tag bytes hbytes =>
      split at h
      · next hexplicit =>
        have hid : id.bytes = bytes := congrArg ByteString.bytes (Option.some.inj h).symm
        apply ByteString.ext
        rw [hbytes, hexplicit.1, ← hid]
        rfl
      · cases h
    · cases h
  · rintro rfl
    have hbytes : (explicitKey id).bytes = 1 :: id.bytes := rfl
    rw [hbytes]
    exact dif_pos ⟨rfl, id.2⟩

/-- An asset as the ledger knows it. Source: `explicit_asset` -/
def assetKey (a : Key) : Option AssetKey := (explicitAsset a).map .asset

/-- The HTLCs of a request, as the settlement's check takes them. -/
def stateHtlcs (htlcs : List Htlc) : List StateHtlc :=
  htlcs.map fun h => ⟨h.side = 0, h.amountMsat, h.paymentHash, h.cltvExpiry⟩

/-- The HTLCs of a state that we offered, as the record keeps them. -/
def stateOffered (htlcs : List StateHtlc) : List Offered :=
  (htlcs.filter (·.ours)).map fun h => ⟨h.amountMsat, h.paymentHash, h.cltvExpiry⟩

namespace Device

variable (k : SymKernel) (s : Device)

/-- The keys of a channel's settlements. -/
def symKeys (key : ChannelKey) (st : ChannelState) : SymKeys where
  ourPayment := k.basepoint key 1
  theirPayment := st.remotePayment
  ourHtlc := k.basepoint key 2
  theirHtlc := st.remoteHtlc

/-- The channel's constants as the request names them; its asset.
Source: the checks that `check_sym_state` and `check_sym_lanes_state` share -/
def checkConstants (st : ChannelState) (q : SymRequest) : Except Refusal AssetKey := do
  require (q.fundingTxid = st.fundingTxid ∧ q.fundingVout = st.fundingTxout) .otherFundingOutput
  require (some q.weOpened = st.isOutbound) .otherOpener
  require (q.remoteUpdateKey = st.remoteDelayed) .otherUpdateKey
  require (q.delay = max st.localToSelfDelay st.remoteToSelfDelay) (.otherDelay q.delay)
  let asset ← fromOption (assetKey q.asset) (.blindedAsset 0)
  require (st.pay.asset.all (· = asset) = true) .otherAsset
  return asset

/-- Whether the state is ours; its number is that of its commitment.
Source: the checks that `check_sym_state` and `check_sym_lanes_state` share -/
def checkOwner (q : SymRequest) : Except Refusal Bool := do
  require (q.owner ≤ 1) (.badOwner q.owner)
  let ours : Bool := q.owner = 0
  require (stateNum q.commitNum (ours == q.weOpened) = some q.num) (.stateNumber q.num)
  return ours

/-- The peer's signature, where the request carries it, is on this state. -/
def checkPeerSig (key : ChannelKey) (st : ChannelState) (q : SymRequest)
    (ck : Option SymClockRequest) : Except Refusal Bool := do
  require (k.buildsState key st q ck = true) .badState
  match q.sigRemote with
  | none => return false
  | some sig => do
    require (k.peerUpdateSigVerifies key st q ck sig = true) (.badPeerSignature q.num)
    return true

/-- What a checked state is recorded by. Source: `SymChecked` -/
structure SymChecked where
  ours : Bool
  commitNum : ℕ
  paidOurs : ℕ
  peerSigned : Bool
  clockIssuer : Option (Hash × ℕ)

/-- A state that is kept as one of ours that the peer signed was asked for as such. -/
def SymChecked.Carries (c : SymChecked) (q : SymRequest) : Prop :=
  c.ours = true → c.peerSigned = true → q.owner = 0 ∧ q.sigRemote.isSome = true

/-- The plan of a state's settlement, and what it pays this side in its balance output. -/
def settlementPlan (keys : SymKeys) (fundingSats : ℕ) (pay : PayTrack) (ours : Bool) (n : ℕ)
    (asset : AssetKey) (htlcs : List StateHtlc) (outs : List Out) : Except Refusal (Paid × Plan) := do
  let paid ← checkSettlement k.scripts fundingSats keys htlcs outs
  return (paid, pay.plan ours n asset (satAdd paid.ours paid.offered) (stateOffered htlcs)
    htlcs.length)

/-- What a state over a settle clock names of it. -/
def checkClock (st : ChannelState) (ck : Option SymClockRequest) : Except Refusal Unit :=
  match ck with
  | none => .ok ()
  | some ck => do
    require (ck.remoteFunding = st.remoteFunding) .otherFundingKey
    require (ck.fundingSats = st.fundingSats) (.badSettlement ck.fundingSats)
    require (st.clockIssuer.all (· = ck.issuer) = true) .otherIssuer

/-- Source: `check_sym_state` -/
def checkSymState (key : ChannelKey) (q : SymRequest) (ck : Option SymClockRequest) :
    Except Refusal (SymChecked × Plan) := do
  let st ← s.tracked key
  require (st.optionSym = true) .notSymmetric
  require (st.optionSymClock = ck.isSome) .settleClock
  checkClock st ck
  let asset ← checkConstants st q
  let ours ← checkOwner q
  let (paid, plan) ← settlementPlan k (symKeys k key st) st.fundingSats st.pay ours q.commitNum
    asset (stateHtlcs q.htlcs) q.outs
  let peerSigned ← checkPeerSig k key st q ck
  -- a channel with a settle clock pays this side only once its funding is checked
  require (ck.isSome = true → 0 < satAdd paid.ours paid.offered → st.clockSeed.isSome = true)
    .settleClock
  return (⟨ours, q.commitNum, paid.ours, peerSigned, ck.map SymClockRequest.issuer⟩, plan)

/-- What the record learns from a state that was signed. -/
def recordSymState (c : SymChecked) (st : ChannelState) : ChannelState :=
  let split : Split := ⟨c.paidOurs, 0, 0⟩
  let st :=
    if c.ours then
      if c.peerSigned then
        { st with
          validatedThrough := maxOpt st.validatedThrough (some c.commitNum)
          localSplit := recordSplit st.localSplit c.commitNum split }
      else st
    else { st with remoteSplit := recordSplit st.remoteSplit c.commitNum split }
  { st with clockIssuer := st.clockIssuer.or c.clockIssuer }

/-- Source: `sign_sym_state_checked` -/
def signSymState (key : ChannelKey) (q : SymRequest) (ck : Option SymClockRequest) :
    Except Refusal Device := do
  s.predating key
  let (c, plan) ← s.checkSymState k key q ck
  s.checkPlan plan
  let s := { s with store := s.store.modify key (recordSymState c) }
  return s.applyPlan key plan

end Device

end SeqLN.Signer
