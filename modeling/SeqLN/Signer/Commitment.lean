import SeqLN.Lib.Checks
import SeqLN.Signer.Channel

/-!
# Commitments

The full validation of a commitment: it spends the funding output alone, every output pays a script
that the channel's keys give, and no value is created. `validateCommitment` returns what it pays each
side, its fee and the value of the HTLCs that have no output. The keys and scripts come from the
device's seed and are a parameter (`Kernel`).

Source: `contrib/seqln-signer/src/policy.rs`
-/

namespace SeqLN.Signer

open Lib

/-- Source: `kernel::Network` -/
inductive Network where
  | elements
  | bitcoin
  deriving DecidableEq

structure TxIn where
  txhash : Hash
  index : ℕ
  sequence : ℕ
  isIssuance : Bool
  deriving DecidableEq

structure TxOut where
  asset : Option Hash
  value : Option ℕ
  script : Bytes
  deriving DecidableEq

/-- Source: `ElementsTx` -/
structure Tx where
  network : Network
  locktime : ℕ
  inputs : List TxIn
  outputs : List TxOut
  deriving DecidableEq

/-- A transaction with what its PSBT states of the outputs it spends: each one's value, and the
first one's asset. Source: `BitcoinTx` -/
structure BitcoinTx where
  tx : Tx
  txid : Hash
  inputValues : List (Option ℕ)
  /-- As it serializes: a prefix, and the asset's id where the prefix is 1. -/
  inputAsset : Option Bytes
  deriving DecidableEq

/-- Source: `psbt_input_value9`, `psbt_input_value_sats_le` -/
def BitcoinTx.inputValue (bt : BitcoinTx) (i : ℕ) : Option ℕ := bt.inputValues[i]?.join

/-- One HTLC of a commitment request; `side` is 0 for one we offered. Source: `Htlc` -/
structure Htlc where
  side : ℕ
  amountMsat : ℕ
  paymentHash : Hash
  cltvExpiry : ℕ
  deriving DecidableEq

/-- Why the device will not sign. -/
inductive Refusal where
  | untracked
  | predatesValidation
  | otherFundingKey
  | badPeerSignature (n : ℕ)
  | noScripts
  | inputCount (n : ℕ)
  | otherFundingOutput
  | issuance
  | blindedAsset (i : ℕ)
  | twoAssets (i : ℕ)
  | otherAsset
  | blindedValue (i : ℕ)
  | unknownScript (i value : ℕ) (script : Bytes)
  | valueCreated (total funding : ℕ)
  | creditFloor (theirs credit : ℕ)
  | peerReserve (theirs reserve : ℕ)
  | overLimit (asset : AssetKey) (amount : ℕ)
  | short (check : BalanceCheck)
  | notApproved (h : Offered)
  | paymentTooLarge (amount : ℕ)
  | revoked (n : ℕ)
  | notValidated (n : ℕ) (txid : Hash)
  | signedForBroadcast (n : ℕ)
  | skips (n : ℕ)
  | notYetValidated (n : ℕ)
  | badClose
  | otherLane (l : ℕ)
  | notSymmetric
  | settleClock
  | otherIssuer
  | otherOpener
  | otherUpdateKey
  | otherDelay (delay : ℕ)
  | settlementOverflows
  | badSettlement (total : ℕ)
  | badOwner (owner : ℕ)
  | stateNumber (n : ℕ)
  | badState
  | lanes (n : ℕ)
  | laneAsset (l : ℕ)
  | badSwap
  | notKickoff
  | badNote
  | unsigned
  deriving DecidableEq

/-- What the device derives from its seed. -/
structure Kernel where
  /-- Source: `channel_basepoints` -/
  basepoint : ChannelKey → ℕ → Key
  /-- Source: `per_commit_point_at` -/
  perCommitPoint : ChannelKey → ℕ → Key
  /-- Our main script, the peer's, the anchors' and the HTLCs', in the order `to_local`,
  `to_remote`. Source: `build_keyset`, `expected_scripts`, `tcov_expected_scripts` -/
  expectedScripts : ChannelKey → ChannelState → Side → Key → List Htlc → Tx → Option (List Bytes)
  /-- The lower 48 bits of a hash of the opener's and the accepter's payment basepoints.
  Source: `commitment_number` -/
  obscurer : Key → Key → ℕ
  /-- Source: `peer_funding_sig_verifies` -/
  peerFundingSigVerifies : ChannelKey → ChannelState → BitcoinTx → Bytes → Bool
  /-- The wallet's own scripts. Source: `own_sweep_script_set` -/
  ownScript : Bytes → Bool
  /-- The local upfront shutdown script, where the device derives it. Source: `own_close_script` -/
  ownCloseScript : ChannelState → Option Bytes

/-! ### Validation -/

/-- Every output is in the first one's open asset. Source: the loop of `check_single_asset` -/
def checkAssets (first : Option Hash) : List (TxOut × ℕ) → Except Refusal Unit
  | [] => .ok ()
  | (o, i) :: rest => do
    require (o.asset.isSome = true) (.blindedAsset i)
    require (o.asset = first) (.twoAssets i)
    checkAssets first rest

/-- Every output is in one open asset, the channel's, and no input issues one.
Source: `check_single_asset` -/
def checkSingleAsset (st : ChannelState) (tx : Tx) : Except Refusal Unit :=
  if tx.network ≠ .elements then .ok ()
  else
    match tx.outputs with
    | [] => require (tx.inputs.any TxIn.isIssuance = false) .issuance
    | first :: _ => do
      require (tx.inputs.any TxIn.isIssuance = false) .issuance
      checkAssets first.asset tx.outputs.zipIdx
      match st.pay.asset with
      | some (.asset id) => require (first.asset = some id) .otherAsset
      | _ => .ok ()

/-- What the outputs seen so far pay. -/
structure Tally where
  total : ℕ
  notFee : ℕ
  ours : ℕ
  theirs : ℕ
  anchors : ℕ

/-- The scripts an output may pay. -/
structure Whitelist where
  all : List Bytes
  ours : Bytes
  theirs : Bytes
  anchors : List Bytes
  htlcs : List Bytes

/-- The scripts in their places. -/
def whitelistOf (st : ChannelState) (side : Side) (scripts : List Bytes) : Whitelist where
  all := scripts
  ours := scripts.getD (if side = .LOCAL then 0 else 1) []
  theirs := scripts.getD (if side = .LOCAL then 1 else 0) []
  anchors := if st.optionAnchors then (scripts.drop 2).take 2 else []
  htlcs := scripts.drop (if st.optionAnchors then 4 else 2)

/-- One output counted. Source: the loop of `validate_commitment` -/
def tallyOutput (w : Whitelist) (t : Tally) (o : TxOut) (i : ℕ) : Except Refusal Tally :=
  match o.value with
  | none => .error (.blindedValue i)
  | some v =>
    let t := { t with total := t.total + v }
    -- an explicit fee output
    if o.script = [] then .ok t
    else if o.script ∉ w.all then .error (.unknownScript i v o.script)
    else
      let t := { t with notFee := t.notFee + v }
      if o.script = w.ours then .ok { t with ours := satAdd t.ours v }
      else if o.script = w.theirs then .ok { t with theirs := satAdd t.theirs v }
      else if o.script ∈ w.anchors then .ok { t with anchors := satAdd t.anchors v }
      else .ok t

def tallyOutputs (w : Whitelist) : List (TxOut × ℕ) → Tally → Except Refusal Tally
  | [], t => .ok t
  | (o, i) :: rest, t => do
    let t ← tallyOutput w t o i
    tallyOutputs w rest t

/-- The value of the HTLCs that have no output of their own; each output pays at most one.
Source: the last loop of `validate_commitment` -/
def trimmedAtoms : List (Htlc × Bytes) → List TxOut → ℕ → ℕ
  | [], _, trimmed => trimmed
  | (h, script) :: htlcs, outputs, trimmed =>
    let atoms := h.amountMsat / 1000
    let mine := fun o : TxOut => o.script = script && o.value = some atoms
    if outputs.any mine then trimmedAtoms htlcs (outputs.eraseP mine) trimmed
    else trimmedAtoms htlcs outputs (satAdd trimmed atoms)

/-- Source: `check_credit_floor` -/
def checkCreditFloor (st : ChannelState) (theirs : ℕ) : Except Refusal Unit :=
  match st.credit with
  | some note => require (st.optionCredit = true → note.credit ≤ theirs) (.creditFloor theirs note.credit)
  | none => .ok ()

/-- What a validated commitment pays. Source: `Validated` -/
structure Validated where
  split : Split
  theirs : ℕ
  trimmed : ℕ

/-- The one input of a transaction. -/
def oneInput (tx : Tx) : Except Refusal TxIn :=
  match tx.inputs with
  | [inp] => .ok inp
  | _ => .error (.inputCount tx.inputs.length)

lemma oneInput_eq_ok {tx : Tx} {inp : TxIn} : oneInput tx = .ok inp ↔ tx.inputs = [inp] := by
  unfold oneInput
  split <;> simp_all

/-- The output an input spends is the channel's funding. -/
def spendsFunding (st : ChannelState) (inp : TxIn) : Prop :=
  inp.txhash = st.fundingTxid ∧ inp.index % 2 ^ 16 = st.fundingTxout

instance (st : ChannelState) (inp : TxIn) : Decidable (spendsFunding st inp) :=
  inferInstanceAs (Decidable (_ ∧ _))

/-- Source: `validate_commitment` -/
def validateCommitment (k : Kernel) (key : ChannelKey) (st : ChannelState) (side : Side)
    (point : Key) (htlcs : List Htlc) (tx : Tx) : Except Refusal Validated := do
  let scripts ← fromOption (k.expectedScripts key st side point htlcs tx) .noScripts
  let inp ← oneInput tx
  require (spendsFunding st inp) .otherFundingOutput
  checkSingleAsset st tx
  let w := whitelistOf st side scripts
  let t ← tallyOutputs w tx.outputs.zipIdx ⟨0, 0, 0, 0, 0⟩
  require (t.total ≤ st.fundingSats) (.valueCreated t.total st.fundingSats)
  checkCreditFloor st t.theirs
  return {
    split := ⟨t.ours, st.fundingSats - t.notFee, t.anchors⟩
    theirs := t.theirs
    trimmed := trimmedAtoms (htlcs.zip w.htlcs) tx.outputs 0 }

/-- Source: `check_peer_reserve` -/
def checkPeerReserve (st : ChannelState) (theirs : ℕ) : Except Refusal Unit :=
  match st.limits with
  | some l =>
    require (st.peerReachedReserve = true → l.peerReserve ≤ theirs)
      (.peerReserve theirs l.peerReserve)
  | none => .ok ()

/-- Source: `note_peer_balance` -/
def notePeerBalance (st : ChannelState) (theirs : ℕ) : ChannelState :=
  match st.limits with
  | some l => if l.peerReserve ≤ theirs then { st with peerReachedReserve := true } else st
  | none => st

/-! ### The number a commitment carries -/

/-- Source: `is_commitment_shaped` -/
def isCommitmentShaped (tx : Tx) : Bool :=
  match tx.inputs with
  | [inp] => tx.locktime >>> 24 = 0x20 && inp.sequence >>> 24 = 0x80
  | _ => false

/-- Source: `commitment_number` -/
def commitmentNumber (k : Kernel) (key : ChannelKey) (st : ChannelState) (tx : Tx) : Option ℕ :=
  match tx.inputs with
  | [inp] =>
    if isCommitmentShaped tx then
      st.isOutbound.map fun weOpened =>
        let ours := k.basepoint key 1
        let obscurer := if weOpened then k.obscurer ours st.remotePayment
          else k.obscurer st.remotePayment ours
        ((inp.sequence % 2 ^ 24) <<< 24 ||| tx.locktime % 2 ^ 24) ^^^ obscurer
    else none
  | _ => none

end SeqLN.Signer
