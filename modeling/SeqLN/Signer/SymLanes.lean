import SeqLN.Signer.SymStates

/-!
# Channels of several assets

The states of a channel of several lanes (`signSymLanesState`): a lane that is short of what the device
tracks is refused unless it is the leg this side gives of a swap it approved. The further lanes are
recorded the first time a state or a kickoff (`signSymKickoff`) names them (`pinLane`).

Source: `contrib/seqln-signer/src/dispatch.rs`
-/

namespace SeqLN.Signer

open Lib

/-- The further lanes, with one recorded the first time a request names it. -/
def pinnedLanes (asset : Key) (sats : ℕ) (outnum : Option ℕ) (lanes : List Lane) : List Lane :=
  match lanes.findIdx? (·.asset = asset) with
  | some i => lanes.modify i fun l => { l with outnum := l.outnum.or outnum }
  | none => if lanes.length < maxLanes then lanes ++ [⟨asset, sats, outnum, PayTrack.new⟩] else lanes

/-- Source: `pin_lane` -/
def pinLane (asset : Key) (sats : ℕ) (outnum : Option ℕ) (st : ChannelState) : ChannelState :=
  { st with lanes := pinnedLanes asset sats outnum st.lanes }

namespace Device

variable (k : SymKernel) (s : Device)

/-! ### States -/

/-- The further lanes a request names, against those the device knows; returns those it does not.
`seen` are the assets of the lanes before. Source: the first loop of `check_sym_lanes_state` -/
def checkLanes (known : List Lane) : ℕ → List Key → List (Key × ℕ) →
    Except Refusal (List (Key × ℕ))
  | _, _, [] => .ok []
  | l, seen, (a, v) :: rest => do
    require ((explicitAsset a).isSome = true ∧ a ∉ seen) (.laneAsset (l + 1))
    match known[l]? with
    | some lane => do
      require (lane.asset = a ∧ lane.sats = v) (.otherLane (l + 1))
      checkLanes known (l + 1) (seen ++ [a]) rest
    | none => do
      let pin ← checkLanes known (l + 1) (seen ++ [a]) rest
      return (a, v) :: pin

/-- The lane of each output, by the asset it names, or the first where it names none.
Source: the second loop of `check_sym_lanes_state` -/
def outLanes (q : SymRequest) (laneAssets : List Key) : List (Out × ℕ) → Except Refusal (List ℕ)
  | [] => .ok []
  | (_, i) :: rest => do
    let a := (q.assets[i]?.join).getD q.asset
    let l ← fromOption (laneAssets.findIdx? (· = a)) (.twoAssets i)
    let ls ← outLanes q laneAssets rest
    return l :: ls

/-- What of a list is in a lane. -/
def inLane {α : Type} (l : ℕ) (xs : List α) (lanes : List ℕ) : List α :=
  ((xs.zip lanes).filter (·.2 = l)).map Prod.fst

/-- The record of what a lane's states pay. -/
def lanePay (st : ChannelState) (l : ℕ) : PayTrack :=
  if l = 0 then st.pay else ((st.lanes[l - 1]?).map Lane.pay).getD PayTrack.new

/-- Each lane's plan, and what it pays this side in its balance output; the lanes are given with
their asset, value and index. Source: the last loop of `check_sym_lanes_state` -/
def lanePlans (keys : SymKeys) (st : ChannelState) (q : SymLanesRequest) (ours : Bool)
    (outLane : List ℕ) : List ((Key × ℕ) × ℕ) → Except Refusal (List (Paid × Plan))
  | [] => .ok []
  | ((a, sats), l) :: rest => do
    let asset ← fromOption (assetKey a) (.laneAsset l)
    let paid ← settlementPlan k keys sats (lanePay st l) ours q.base.commitNum asset
      (inLane l (stateHtlcs q.base.htlcs) q.htlcLanes) (inLane l q.base.outs outLane)
    let plans ← lanePlans keys st q ours outLane rest
    return paid :: plans

/-- What a checked state of several lanes is recorded by. Source: `LanesChecked` -/
structure LanesChecked where
  base : SymChecked
  plans : List Plan
  laneAssets : List Key
  pin : List (Key × ℕ)

/-- Source: `check_sym_lanes_state` -/
def checkSymLanesState (key : ChannelKey) (q : SymLanesRequest) : Except Refusal LanesChecked := do
  let st ← s.tracked key
  require (st.optionSym = true) .notSymmetric
  let _ ← checkConstants st q.base
  require (q.fundingSats = st.fundingSats) (.otherLane 0)
  require (q.lanes ≠ [] ∧ q.lanes.length ≤ maxLanes) (.lanes q.lanes.length)
  let pin ← checkLanes st.lanes 0 [q.base.asset] q.lanes
  require (st.lanes.length ≤ q.lanes.length) (.lanes q.lanes.length)
  let lanes := (q.base.asset, st.fundingSats) :: q.lanes
  let ours ← checkOwner q.base
  require (q.htlcLanes.length = q.base.htlcs.length ∧ ∀ l ∈ q.htlcLanes, l < lanes.length)
    (.lanes q.lanes.length)
  let outLane ← outLanes q.base (lanes.map Prod.fst) q.base.outs.zipIdx
  let plans ← lanePlans k (symKeys k key st) st q ours outLane lanes.zipIdx
  let peerSigned ← checkPeerSig k key st q.base none
  return {
    base := ⟨ours, q.base.commitNum, ((plans.head?).map fun p => p.1.ours).getD 0, peerSigned, none⟩
    plans := plans.map Prod.snd
    laneAssets := lanes.map Prod.fst
    pin }

/-- A swap accounts for what a lane is short by: it is this channel's and unused on this side, it
gives the lane's asset, and the lane it takes in is paid. What it gives may round up an atom and what
it takes down. Source: the loop of `lanes_balance` -/
def swapCovers (key : ChannelKey) (c : LanesChecked) (g : ℕ) (short : ℕ) (sw : SwapApproval) :
    Bool :=
  sw.key = key && !(if c.base.ours then sw.usedLocal else sw.usedRemote) &&
    c.laneAssets[g]? = some sw.giveAsset && short ≤ sw.giveMsat / 1000 + 1 &&
    match c.laneAssets.findIdx? (· = sw.takeAsset) with
    | none => false
    | some t =>
      t ≠ g &&
      match (c.plans[t]?).bind Plan.balance with
      | none => false
      | some tb =>
        satAdd (tb.prevValue - tb.removedAtoms) (sw.takeMsat / 1000) ≤ satAdd tb.value 1

/-- The lanes that are short, each with what it is short by. -/
def shortLanes (plans : List Plan) : List (ℕ × BalanceCheck) :=
  plans.zipIdx.filterMap fun (p, l) =>
    p.balance.bind fun b => if 0 < b.short then some (l, b) else none

/-- No lane is short, or one swap accounts for the one that is; returns which.
Source: `lanes_balance` -/
def lanesBalance (key : ChannelKey) (c : LanesChecked) : Except Refusal (Option ℕ) :=
  match shortLanes c.plans with
  | [] => .ok none
  | [(g, b)] => (fromOption (s.swaps.findIdx? (swapCovers key c g b.short)) (.short b)).map some
  | (_, b) :: _ => .error (.short b)

/-- Every lane's plan holds but for the balances. -/
def checkLanePlans : List Plan → Except Refusal Unit
  | [] => .ok ()
  | plan :: rest => do
    s.checkPlan { plan with balance := none }
    checkLanePlans rest

/-- What a lane's record learns from the lane's plan. -/
def recordLanePlan (l : ℕ) (plan : Plan) (st : ChannelState) : ChannelState :=
  if l = 0 then { st with pay := plan.track }
  else { st with lanes := st.lanes.modify (l - 1) fun lane => { lane with pay := plan.track } }

/-- Source: the turn of the last loop of `sign_sym_lanes_state_checked` -/
def applyLanePlan (key : ChannelKey) (l : ℕ) (plan : Plan) : Device :=
  let s := { s with store := s.store.modify key (recordLanePlan l plan) }
  s.chargeLedger plan.asset plan.chargeMsat

def applyLanePlans (key : ChannelKey) : ℕ → List Plan → Device → Device
  | _, [], s => s
  | l, plan :: rest, s => applyLanePlans key (l + 1) rest (s.applyLanePlan key l plan)

/-- A swap was applied on one side; it is dropped once both have. -/
def useSwap (ours : Bool) (i : ℕ) : Device :=
  let swaps := s.swaps.modify i fun sw =>
    if ours then { sw with usedLocal := true } else { sw with usedRemote := true }
  let swaps := match swaps[i]? with
    | some sw => if sw.usedLocal && sw.usedRemote then swaps.eraseIdx i else swaps
    | none => swaps
  { s with swaps }

/-- The lanes a state names for the first time, recorded. -/
def pinLanes (pin : List (Key × ℕ)) (st : ChannelState) : ChannelState :=
  pin.foldl (fun st p => pinLane p.1 p.2 none st) st

/-- Source: `sign_sym_lanes_state_checked` -/
def signSymLanesState (key : ChannelKey) (q : SymLanesRequest) : Except Refusal Device := do
  s.predating key
  let c ← s.checkSymLanesState k key q
  let swapUsed ← s.lanesBalance key c
  s.checkLanePlans c.plans
  let s := { s with store := s.store.modify key (pinLanes c.pin) }
  let s := { s with store := s.store.modify key (recordSymState c.base) }
  let s := applyLanePlans key 0 c.plans s
  match swapUsed with
  | some i => return s.useSwap c.base.ours i
  | none => return s

/-! ### Swaps -/

/-- Source: `MAX_SWAPS` -/
def maxSwaps : ℕ := 16

/-- An asset is one of the channel's. -/
def isLaneAsset (st : ChannelState) (a : Key) : Bool :=
  (st.pay.asset.isSome && assetKey a = st.pay.asset) || st.lanes.any (·.asset = a)

/-- Source: `approve_sym_swap` -/
def approveSymSwap (key : ChannelKey) (giveAsset : Key) (giveMsat : ℕ) (takeAsset : Key)
    (takeMsat : ℕ) : Except Refusal Device := do
  let st ← s.tracked key
  require (isLaneAsset st giveAsset = true ∧ isLaneAsset st takeAsset = true ∧
    giveAsset ≠ takeAsset) .badSwap
  require (s.paymentFits (some giveMsat) (assetKey giveAsset) = true) (.paymentTooLarge giveMsat)
  let swaps := if maxSwaps ≤ s.swaps.length then s.swaps.tail else s.swaps
  return { s with
    swaps := swaps ++ [⟨key, giveAsset, giveMsat, takeAsset, takeMsat, false, false⟩] }

/-! ### Kickoffs -/

/-- What `SIGN_SYM_KICKOFF` names. -/
structure KickoffRequest where
  key : ChannelKey
  bt : BitcoinTx
  remoteFunding : Key

/-- The kickoff of a channel with a settle clock: its output holds the marker's one atom.
Source: the branch `st.option_sym_clock` of `check_sym_kickoff` -/
def checkClockKickoff (st : ChannelState) (req : KickoffRequest) (inp : TxIn) (o : TxOut)
    (asset : Key) : Except Refusal Unit := do
  require (inp.txhash = st.fundingTxid ∧ inp.index = st.fundingTxout ∧ inp.isIssuance = false)
    .otherFundingOutput
  let issuer ← fromOption st.clockIssuer .settleClock
  let psbt := req.bt.inputAsset.bind fun b => if h : b.length = 33 then some ⟨b, h⟩ else none
  let chan := st.pay.asset.map fun a => match a with
    | .asset id => explicitKey id
    | .btc => ByteString.replicate 33 0
  let chanAsset ← fromOption (psbt.or chan) .settleClock
  require (asset = k.markerAsset issuer ∧ o.value = some 1) .notKickoff
  let ko ← fromOption (k.clockKickoffSpk req.key st chanAsset issuer) .notKickoff
  require (o.script = ko) .notKickoff

/-- A further lane's kickoff against the lane the device knows by its asset or its output.
Source: the branch of `check_sym_kickoff` for another lane -/
def checkLaneKickoff (st : ChannelState) (inp : TxIn) (asset : Key) (v : ℕ) :
    Except Refusal Unit := do
  require (st.pay.asset = none ∨ assetKey asset ≠ st.pay.asset) (.laneAsset 0)
  match st.lanes.find? fun l => l.asset = asset || l.outnum = some inp.index with
  | some l =>
    require (l.asset = asset ∧ l.sats = v ∧ (l.outnum = none ∨ l.outnum = some inp.index))
      (.otherLane inp.index)
  | none => require (st.lanes.length < maxLanes) (.lanes st.lanes.length)

/-- The kickoff of the first lane. Source: the last branch of `check_sym_kickoff` -/
def checkFirstKickoff (st : ChannelState) (inp : TxIn) (asset : Key) (o : TxOut) :
    Except Refusal Unit := do
  require (inp.txhash = st.fundingTxid ∧ inp.index = st.fundingTxout ∧ inp.isIssuance = false)
    .otherFundingOutput
  require (st.pay.asset = none ∨ assetKey asset = st.pay.asset) .otherAsset
  require (o.value = some st.fundingSats) .notKickoff

/-- The output pays the channel's kickoff script. -/
def checkKickoffScript (st : ChannelState) (req : KickoffRequest) (asset : Key) (o : TxOut) :
    Except Refusal Unit := do
  let ko ← fromOption (k.kickoffSpk req.key st asset) .notKickoff
  require (o.script = ko) .notKickoff

/-- Checks a kickoff; returns a further lane's output index, asset and value.
Source: `check_sym_kickoff` -/
def checkSymKickoff (req : KickoffRequest) : Except Refusal (Option (ℕ × Key × ℕ)) := do
  let st ← s.tracked req.key
  require (st.optionSym = true) .notSymmetric
  require (req.remoteFunding = st.remoteFunding) .otherFundingKey
  let inp ← oneInput req.bt.tx
  let o ← fromOption req.bt.tx.outputs.head? .notKickoff
  let id ← fromOption o.asset (.blindedAsset 0)
  let asset := explicitKey id
  require (st.optionSymClock = true ∨ req.bt.inputAsset.all (· = asset.bytes) = true) .otherAsset
  if st.optionSymClock then do
    checkClockKickoff k st req inp o asset
    return none
  else if inp.txhash = st.fundingTxid ∧ inp.index ≠ st.fundingTxout ∧ inp.isIssuance = false then do
    let v ← fromOption o.value (.blindedValue 0)
    checkLaneKickoff st inp asset v
    checkKickoffScript k st req asset o
    return some (inp.index, asset, v)
  else do
    checkFirstKickoff st inp asset o
    checkKickoffScript k st req asset o
    return none

/-- A further lane is recorded whether or not the signature can be made then, which takes the value
that the PSBT states. Source: `sign_sym_kickoff_checked` -/
def signSymKickoff (req : KickoffRequest) : Except Refusal Device := do
  s.predating req.key
  match ← s.checkSymKickoff k req with
  | some (outnum, asset, sats) =>
    return { s with store := s.store.modify req.key (pinLane asset sats (some outnum)) }
  | none => return s

end Device

end SeqLN.Signer
