import SeqLN.Bitcoin.Tx

/-!
# The transaction of a mutual close

`lightningd/closing_control.c`, `peer_start_closingd`: what each side takes, lane by lane;
`closingd/closingd.c`, `close_tx`: the fee off the opener's share; `common/close_tx.c`, `close_tx_of`:
the transaction, lane 0 in the order of `permuteOutputs`, then each further lane's two shares, then the
fee. `none`: the functions return NULL, give up on the channel, or stop at an assertion.
-/

namespace SeqLN.Closing

open Bitcoin SeqLN.Sym

/-! ### The amounts -/

/-- A further lane of a channel, as lightningd holds it.
Source: `lightningd/sym_lanes.h`, `struct sym_lanes_info` -/
structure Lane where
  asset : AssetId
  outnum : UInt32
  fundingSats : ℕ
  ourMsat : ℕ

/-- What a close reads of a channel. `keypath` is there if our wallet can spend our script: whether
the key could be noted beside an output. Source: `lightningd/channel.h`, `struct channel` -/
structure Channel where
  funding : Outpoint
  fundingSats : ℕ
  channelAsset : AssetId
  opener : Side
  ourMsat : ℕ
  lanes : List Lane
  fundingKey : Side → ByteString 33
  shutdownScriptpubkey : Side → Bytes
  dustLimit : ℕ
  creditOwed : ℕ
  wrongFunding : Option Outpoint
  keypath : Option (Bytes → Bool)

/-- A further lane as the close pays it. Source: `common/close_tx.h`, `struct close_lane` -/
structure CloseLane where
  asset : AssetId
  funding : Outpoint
  fundingSats : ℕ
  toUs : ℕ
  toThem : ℕ

/-- Source: `amount_sat_sub_msat` -/
def amountSatSubMsat (sat msat : ℕ) : Option ℕ :=
  if sat * 1000 < 2 ^ 64 then amountSub (sat * 1000) msat else none

/-- A lane's shares in whole atoms; the opener takes what rounding leaves.
Source: `peer_start_closingd`, the loop over the lanes -/
def closeLane (c : Channel) (l : Lane) : Option CloseLane := do
  let theirs ← amountSatSubMsat l.fundingSats l.ourMsat
  if c.opener = .LOCAL then
    let toThem := satRoundDown theirs
    let toUs ← amountSub l.fundingSats toThem
    return ⟨l.asset, { c.funding with n := l.outnum }, l.fundingSats, toUs, toThem⟩
  else
    let toUs := satRoundDown l.ourMsat
    let toThem ← amountSub l.fundingSats toUs
    return ⟨l.asset, { c.funding with n := l.outnum }, l.fundingSats, toUs, toThem⟩

/-- What closingd is given. Source: `closingd_init` -/
structure ClosingInit where
  out : Side → ℕ
  lanes : List CloseLane

/-- The credit that the opener provides goes to the other side.
Source: `peer_start_closingd`, `credit` -/
def payCredit (c : Channel) (out : Side → ℕ) : Option (Side → ℕ) :=
  if c.creditOwed = 0 then some out
  else do
    let provider ← amountSub (out c.opener) c.creditOwed
    let holder ← amountAdd (out c.opener.other) c.creditOwed
    return Function.update (Function.update out c.opener provider) c.opener.other holder

/-- Source: `peer_start_closingd` -/
def peerStartClosingd (c : Channel) : Option ClosingInit := do
  let theirMsat ← amountSatSubMsat c.fundingSats c.ourMsat
  let out : Side → ℕ
    | .LOCAL => satRoundDown c.ourMsat
    | .REMOTE => satRoundDown theirMsat
  let out ← payCredit c out
  let lanes ← c.lanes.mapM (closeLane c)
  return ⟨out, lanes⟩

/-! ### The transaction -/

/-- Source: `BITCOIN_TX_DEFAULT_SEQUENCE` -/
def defaultSequence : ℕ := 0xFFFFFFFF

/-- The funding outputs of all lanes as inputs, and the channel's asset set for what comes next.
Source: `close_tx_of` -/
def closeInputs (ch : Chain) (fundingWscript : Bytes) (funding : Outpoint) (fundingSats : ℕ)
    (channelAsset : AssetId) (lanes : List CloseLane) : BitcoinTx :=
  let tx := ((bitcoinTx ch 0).setOutputAsset (some channelAsset)).addInput funding defaultSequence
    fundingSats fundingWscript
  let tx := lanes.foldl (fun tx l => (tx.setOutputAsset (some l.asset)).addInput l.funding
    defaultSequence l.fundingSats fundingWscript) tx
  tx.setOutputAsset (some channelAsset)

/-- Whether the wallet's key, where there is one, could be noted beside the last output.
Source: `psbt_add_keypath_to_last_output` -/
def keypathAdded (keypath : Option (Bytes → Bool)) (script : Bytes) : Bool := keypath.all (· script)

/-- A share of lane 0, unless it is below the dust limit. -/
def addOverDust (dustLimit : ℕ) (script : Bytes) (amount : ℕ) (tx : BitcoinTx) : BitcoinTx :=
  if dustLimit ≤ amount then tx.addOutput script amount else tx

/-- The outputs in order, with nothing kept beside them. Source: `permute_outputs` -/
def sortOutputs (tx : BitcoinTx) : BitcoinTx :=
  let slots := tx.outputs.map fun o => (⟨o, 0, ()⟩ : Slot Unit)
  { tx with outputs := (permuteOutputs slots).map Slot.out }

/-- Whether our share of a lane comes first: the lower amount, then the lower script.
Source: `close_tx_of`, `first` -/
def oursFirst (ours theirs : ℕ × Bytes) : Bool :=
  if ours.1 ≠ theirs.1 then ours.1 < theirs.1
  else
    match memcmp ours.2 theirs.2 with
    | .lt => true
    | .eq => ours.2.length ≤ theirs.2.length
    | .gt => false

/-- A share of a further lane, unless it is nothing; `own` marks ours. -/
def addShare (keypath : Option (Bytes → Bool)) (tx : BitcoinTx) (own : Bool) (share : ℕ × Bytes) :
    Option BitcoinTx :=
  if share.1 = 0 then some tx
  else do
    guard (own → keypathAdded keypath share.2)
    return tx.addOutput share.2 share.1

/-- The shares of a further lane. Source: `close_tx_of`, the second loop over the lanes -/
def addLane (keypath : Option (Bytes → Bool)) (ourScript theirScript : Bytes) (tx : BitcoinTx)
    (l : CloseLane) : Option BitcoinTx := do
  let sum ← amountAdd l.toUs l.toThem
  guard (sum = l.fundingSats)
  let ours := (l.toUs, ourScript)
  let theirs := (l.toThem, theirScript)
  let tx := tx.setOutputAsset (some l.asset)
  if oursFirst ours theirs then
    addShare keypath (← addShare keypath tx true ours) false theirs
  else
    addShare keypath (← addShare keypath tx false theirs) true ours

/-- Source: `close_tx_of` -/
def closeTxOf (ch : Chain) (keypath : Option (Bytes → Bool)) (ourScript theirScript : Bytes)
    (fundingWscript : Bytes) (funding : Outpoint) (fundingSats toUs toThem dustLimit : ℕ)
    (channelAsset : AssetId) (lanes : List CloseLane) : Option BitcoinTx := do
  let totalOut ← amountAdd toUs toThem
  guard (totalOut ≤ fundingSats)
  let tx := closeInputs ch fundingWscript funding fundingSats channelAsset lanes
  guard (dustLimit ≤ toUs → keypathAdded keypath ourScript)
  let tx := addOverDust dustLimit theirScript toThem (addOverDust dustLimit ourScript toUs tx)
  let lane0Out ← amountAdd (if dustLimit ≤ toUs then toUs else 0)
    (if dustLimit ≤ toThem then toThem else 0)
  guard (dustLimit ≤ toUs ∨ dustLimit ≤ toThem)
  let tx := sortOutputs tx
  if lanes.isEmpty then tx.finalize
  else
    let tx ← lanes.foldlM (addLane keypath ourScript theirScript) tx
    let fee ← amountSub fundingSats lane0Out
    return (tx.setOutputAsset (some channelAsset)).addOutput [] fee

/-- The close with the fee off the opener's share. Source: `closingd/closingd.c`, `close_tx` -/
def closeTx (ch : Chain) (c : Channel) (init : ClosingInit) (fee : ℕ) : Option BitcoinTx := do
  let opened ← amountSub (init.out c.opener) fee
  let outMinusFee := Function.update init.out c.opener opened
  let tx ← closeTxOf ch c.keypath (c.shutdownScriptpubkey .LOCAL) (c.shutdownScriptpubkey .REMOTE)
    (bitcoinRedeem2of2 (c.fundingKey .LOCAL) (c.fundingKey .REMOTE)) c.funding c.fundingSats
    (outMinusFee .LOCAL) (outMinusFee .REMOTE) c.dustLimit c.channelAsset init.lanes
  match c.wrongFunding with
  | some outpoint =>
    return { tx with inputs := tx.inputs.modify 0 fun i => { i with outpoint := outpoint } }
  | none => return tx

/-- The closing transaction that a side builds for a fee. -/
def mutualClose (ch : Chain) (c : Channel) (fee : ℕ) : Option BitcoinTx := do
  closeTx ch c (← peerStartClosingd c) fee

end SeqLN.Closing
