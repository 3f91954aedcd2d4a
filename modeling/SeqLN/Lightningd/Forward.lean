import SeqLN.Common
import SeqLN.Lib.Bytes

/-!
# Forwarding an HTLC

`forward_htlc` and `send_htlc_out` of `lightningd/peer_htlcs.c`. A channel holds one asset, or several
in lanes; an HTLC is in one lane of its channel. Where it goes on is given by its onion, or by a plugin.

`lane_of_forwardHtlc`: what is offered is in a lane of the incoming HTLC's asset.
-/

namespace SeqLN.Forward

/-- Source: the 33-byte tag of `channel_asset` -/
abbrev AssetTag := ByteString 33

/-- What forwarding reads of a channel. Source: `struct channel` -/
structure Channel where
  cid : ByteString 32
  /-- The asset of lane 0. -/
  channelAsset : AssetTag
  /-- The assets of the other lanes. -/
  symLanes : List AssetTag
  /-- Source: `channel_state_can_add_htlc` -/
  canAddHtlc : Bool
  owned : Bool
  feerateBase : ℕ
  feeratePpm : ℕ
  oldFeerateBase : ℕ
  oldFeeratePpm : ℕ
  /-- The old fees and limits are still accepted. -/
  beforeOldFeerateTimeout : Bool
  htlcMinimumMsat : ℕ
  htlcMaximumMsat : ℕ
  oldHtlcMinimumMsat : ℕ
  oldHtlcMaximumMsat : ℕ
  /-- What we owe as the provider of credit. -/
  creditOwed : Option UInt64
  /-- Source: `channel_amount_spendable` -/
  spendable : ℕ
  dustLimit : ℕ
  /-- The blocks an HTLC must outlive on a symmetric channel. Source: `sym_htlc_margin` -/
  symHtlcMargin : Option ℕ
  /-- Source: `channel_takes_point_lock` -/
  takesPointLock : Bool

/-- The assets of a channel's lanes. -/
def Channel.assets (c : Channel) : List AssetTag := c.channelAsset :: c.symLanes

/-- A lane of a channel. -/
abbrev Channel.Lane (c : Channel) := Fin c.assets.length

/-- Source: `channel_lane_asset` -/
def channelLaneAsset (c : Channel) (lane : c.Lane) : AssetTag := c.assets.get lane

/-- The first lane that holds the asset. Source: `channel_lane_of_asset` -/
def channelLaneOfAsset (c : Channel) (asset : AssetTag) : Option c.Lane :=
  c.assets.findFinIdx? (· = asset)

lemma channelLaneAsset_of_channelLaneOfAsset {c : Channel} {asset : AssetTag} {lane : c.Lane}
    (h : channelLaneOfAsset c asset = some lane) : channelLaneAsset c lane = asset :=
  of_decide_eq_true (List.findFinIdx?_eq_some_iff.1 h).1

/-- Source: `struct htlc_in` -/
structure HtlcIn where
  channel : Channel
  lane : channel.Lane
  msat : ℕ
  paymentHash : ByteString 32

/-- Source: `htlc_in_asset` -/
def htlcInAsset (hin : HtlcIn) : AssetTag := channelLaneAsset hin.channel hin.lane

/-- Source: `struct htlc_out` -/
structure HtlcOut where
  channel : Channel
  lane : channel.Lane
  amount : ℕ
  cltv : ℕ
  paymentHash : ByteString 32
  lockPoint : Option (ByteString 33)

/-- The failures a forward can end with. -/
inductive Failmsg where
  | unknownNextPeer
  | temporaryChannelFailure
  | expiryTooSoon
  | expiryTooFar
  | requiredChannelFeatureMissing
  | feeInsufficient
  | incorrectCltvExpiry
  deriving DecidableEq

/-- A credit provider's balance stays able to pay what it owes after this amount.
Source: `send_htlc_out` -/
def paysCredit (out : Channel) (amount : ℕ) (credit : UInt64) : Bool :=
  match amountSub out.spendable amount, amountAdd (credit * 1000).toNat (out.dustLimit * 1000) with
  | some left, some floor => floor ≤ left
  | _, _ => false

/-- The lane of an HTLC that we offer: of its asset, where the chain has assets.
Source: `send_htlc_out` -/
def laneOut (out : Channel) : Option AssetTag → Option out.Lane
  | none => some ⟨0, Nat.succ_pos _⟩
  | some asset => channelLaneOfAsset out asset

/-- Source: `send_htlc_out` -/
def sendHtlcOut (blockHeight : ℕ) (out : Channel) (amount cltv : ℕ) (paymentHash : ByteString 32)
    (lockPoint : Option (ByteString 33)) (asset : Option AssetTag) : Except Failmsg HtlcOut :=
  match laneOut out asset with
  | none => .error .unknownNextPeer
  | some lane =>
    if out.creditOwed.any (fun credit => !paysCredit out amount credit) then
      .error .temporaryChannelFailure
    else if out.symHtlcMargin.any (fun margin => cltv ≤ (blockHeight + margin) % 2 ^ 32) then
      .error .expiryTooSoon
    else if lockPoint.isSome && !out.takesPointLock then .error .requiredChannelFeatureMissing
    else if !out.canAddHtlc then .error .unknownNextPeer
    else if !out.owned then .error .temporaryChannelFailure
    else .ok ⟨out, lane, amount, cltv, paymentHash, lockPoint⟩

/-- The products are of 64-bit words, and wrap. Source: `amount_msat_fee`, `amount_msat_mul_div` -/
def amountMsatFee (amt base ppm : ℕ) : Option ℕ :=
  amountAdd base ((ppm * (amt / 1000000) + ppm * (amt % 1000000) / 1000000) % 2 ^ 64)

/-- Source: `check_fwd_amount` -/
def checkFwdAmount (amtToForward amtInHtlc base ppm : ℕ) : Bool :=
  match amountMsatFee amtToForward base ppm with
  | none => false
  | some fee =>
    match amountSub amtInHtlc fee with
    | none => false
    | some fwd => amtToForward ≤ fwd

/-- Source: `check_cltv` -/
def checkCltv (cltvExpiry outgoingCltv delta : ℕ) : Bool :=
  delta < cltvExpiry && outgoingCltv ≤ cltvExpiry - delta

/-- What forwarding reads of the daemon. Source: `struct lightningd` -/
structure Lightningd where
  channels : List Channel
  blockHeight : ℕ
  cltvExpiryDelta : ℕ
  maxHtlcCltv : ℕ

/-- The amount is within the channel's limits, or within the old ones while they are accepted. -/
def withinLimits (next : Channel) (amt : ℕ) : Bool :=
  (next.htlcMinimumMsat ≤ amt && amt ≤ next.htlcMaximumMsat) ||
    (next.beforeOldFeerateTimeout && next.oldHtlcMinimumMsat ≤ amt && amt ≤ next.oldHtlcMaximumMsat)

/-- The fee is that of the channel, or the old one while it is accepted. -/
def paysFee (next : Channel) (amt amtIn : ℕ) : Bool :=
  checkFwdAmount amt amtIn next.feerateBase next.feeratePpm ||
    (next.beforeOldFeerateTimeout &&
      checkFwdAmount amt amtIn next.oldFeerateBase next.oldFeeratePpm)

/-- What a forward is asked to do: from the onion, or as a plugin rewrote it. -/
structure Instruction where
  amtToForward : ℕ
  outgoingCltvValue : ℕ
  forwardTo : Option (ByteString 32)
  nextLockPoint : Option (ByteString 33)

/-- Source: `point_lock_payment_hash` -/
def pointLockPaymentHash (lock : ByteString 33) : ByteString 32 :=
  ⟨lock.bytes.drop 1, lock.length_xonly⟩

/-- Source: `forward_htlc` -/
def forwardHtlc (ld : Lightningd) (hin : HtlcIn) (cltvExpiry : ℕ) (ask : Instruction) :
    Except Failmsg HtlcOut :=
  match ask.forwardTo.bind fun cid => ld.channels.find? (·.cid = cid) with
  | none => .error .unknownNextPeer
  | some next =>
    if !next.canAddHtlc then .error .unknownNextPeer
    else if (channelLaneOfAsset next (htlcInAsset hin)).isNone then .error .unknownNextPeer
    else if !paysFee next ask.amtToForward hin.msat then .error .feeInsufficient
    else if !withinLimits next ask.amtToForward then .error .temporaryChannelFailure
    else if !checkCltv cltvExpiry ask.outgoingCltvValue ld.cltvExpiryDelta then
      .error .incorrectCltvExpiry
    else if ask.outgoingCltvValue ≤ ld.blockHeight then .error .expiryTooSoon
    else if (ld.blockHeight + ld.maxHtlcCltv) % 2 ^ 32 < ask.outgoingCltvValue then
      .error .expiryTooFar
    else
      sendHtlcOut ld.blockHeight next ask.amtToForward ask.outgoingCltvValue
        ((ask.nextLockPoint.map pointLockPaymentHash).getD hin.paymentHash) ask.nextLockPoint
        (some (htlcInAsset hin))

/-- Where an HTLC is offered in an asset, it is in a lane of it. -/
theorem asset_of_sendHtlcOut {blockHeight : ℕ} {out : Channel} {amount cltv : ℕ}
    {paymentHash : ByteString 32} {lockPoint : Option (ByteString 33)} {asset : AssetTag}
    {hout : HtlcOut}
    (h : sendHtlcOut blockHeight out amount cltv paymentHash lockPoint (some asset) = .ok hout) :
    channelLaneAsset hout.channel hout.lane = asset := by
  unfold sendHtlcOut at h
  split at h
  · cases h
  · next lane hlane =>
    split_ifs at h
    cases h
    exact channelLaneAsset_of_channelLaneOfAsset hlane

lemma lane_of_forwardHtlc {ld : Lightningd} {hin : HtlcIn} {cltvExpiry : ℕ} {ask : Instruction}
    {hout : HtlcOut} (h : forwardHtlc ld hin cltvExpiry ask = .ok hout) :
    channelLaneAsset hout.channel hout.lane = htlcInAsset hin := by
  unfold forwardHtlc at h
  split at h
  · cases h
  · split_ifs at h
    exact asset_of_sendHtlcOut h

end SeqLN.Forward
