import Mathlib.Data.List.MinMax
import SeqLN.Lightningd.Forward

/-!
# Choosing among the channels to a peer

`best_channel` and `calc_forwarding_channel` of `lightningd/peer_htlcs.c`: the onion names a channel,
and among the channels to its peer the one with the most to spend takes its place, if its fees are the
same and its asset is. The asset compared is that of lane 0, while an HTLC may be in any lane:
`forwarding_keeps_asset_iff` says when the channel picked holds the asset.
-/

namespace SeqLN.Forward

open List

/-- What the choice reads of a channel beside what forwarding does: its ids and the least HTLC its
peer takes. Source: `struct channel`, `any_channel_by_scid`,
`channel_info.their_config.htlc_minimum` -/
structure PeerChannel extends Channel where
  scids : List UInt64
  theirHtlcMinimum : ℕ

/-- The part of an onion that says where an HTLC goes.
Source: `struct onion_payload` -/
structure OnionPayload where
  final : Bool
  forwardChannel : Option UInt64
  forwardNodeId : Option (ByteString 33)
  amtToForward : ℕ

/-- Source: `struct peer` -/
structure Peer where
  id : ByteString 33
  channels : List PeerChannel

/-- What the choice reads of the daemon. Source: `struct lightningd` -/
structure Peers where
  peers : List Peer
  devStrictForwarding : Bool

/-! ### The choice -/

/-- A channel that may not take the place of the hinted one: other fees, or another asset.
Source: `best_channel` -/
def differs (hint channel : PeerChannel) : Bool :=
  hint.feerateBase != channel.feerateBase || hint.feeratePpm != channel.feeratePpm ||
    hint.channelAsset != channel.channelAsset

/-- The body of the loop over the channels: the best one so far and what it can spend.
Source: `best_channel` -/
def betterChannel (amtToForward : ℕ) (hint : Option PeerChannel)
    (best : Option PeerChannel × ℕ) (channel : PeerChannel) : Option PeerChannel × ℕ :=
  if !channel.canAddHtlc then best
  else if !(best.2 < channel.spendable) then best
  else if hint.any (differs · channel) then best
  else if amtToForward < channel.theirHtlcMinimum then best
  else (some channel, channel.spendable)

/-- Source: `best_channel` -/
def bestChannel (channels : List PeerChannel) (amtToForward : ℕ) (hint : Option PeerChannel) :
    Option PeerChannel :=
  (channels.foldl (betterChannel amtToForward hint) (hint, 0)).1

/-- The peer and the channel of an id. Source: `any_channel_by_scid` -/
def anyChannelByScid (ld : Peers) (scid : UInt64) : Option (Peer × PeerChannel) :=
  ld.peers.findSome? fun p => (p.channels.find? fun c => scid ∈ c.scids).map fun c => (p, c)

/-- The peer an onion names, and the channel if it names one. Source: `calc_forwarding_channel` -/
def forwardingHint (ld : Peers) (p : OnionPayload) : Option (Peer × Option PeerChannel) :=
  match p.forwardChannel with
  | some scid => (anyChannelByScid ld scid).map fun r => (r.1, some r.2)
  | none => do
    let id ← p.forwardNodeId
    let peer ← ld.peers.find? (·.id = id)
    return (peer, none)

/-- The channel an HTLC is forwarded over. Source: `calc_forwarding_channel` -/
def calcForwardingChannel (ld : Peers) (p : OnionPayload) : Option PeerChannel :=
  if p.final then none
  else do
    let (peer, c) ← forwardingHint ld p
    if ld.devStrictForwarding then c else bestChannel peer.channels p.amtToForward c

/-! ### What is picked -/

/-- A channel that may be picked in a hinted one's place: it can add HTLCs and has something to
spend, asks the same fees, has the same asset in lane 0 and takes the amount. -/
def replaces (amtToForward : ℕ) (hint channel : PeerChannel) : Bool :=
  channel.canAddHtlc && decide (0 < channel.spendable) && !differs hint channel &&
    decide (channel.theirHtlcMinimum ≤ amtToForward)

/-- The channels of a peer that may be picked in the place of a hinted one. -/
def rivals (channels : List PeerChannel) (amtToForward : ℕ) (hint : PeerChannel) :
    List PeerChannel :=
  channels.filter (replaces amtToForward hint)

/-- What may be picked can add HTLCs, and lane 0 has the hinted channel's asset. -/
theorem replaces_spec {amt : ℕ} {hint channel : PeerChannel}
    (h : replaces amt hint channel = true) :
    channel.canAddHtlc = true ∧ channel.channelAsset = hint.channelAsset := by
  simp only [replaces, differs, Bool.and_eq_true, Bool.not_eq_true', Bool.or_eq_false_iff,
    bne_eq_false_iff_eq] at h
  exact ⟨h.1.1.1, h.1.2.2.symm⟩

/-- One turn of the loop: a channel that may be picked is, if it can spend more than the best. -/
theorem betterChannel_eq (amt : ℕ) (hint : PeerChannel) (best : Option PeerChannel × ℕ)
    (channel : PeerChannel) :
    betterChannel amt (some hint) best channel =
      if replaces amt hint channel = true ∧ best.2 < channel.spendable then
        (some channel, channel.spendable)
      else best := by
  unfold betterChannel replaces
  split_ifs <;> simp_all
  omega

/-- The loop ends with the first channel of largest spendable amount among those that may be picked,
or the hinted one. -/
theorem bestChannel_eq (channels : List PeerChannel) (amt : ℕ) (hint : PeerChannel) :
    bestChannel channels amt (some hint) =
      some (((rivals channels amt hint).argmax (·.spendable)).getD hint) := by
  -- with the best channel goes what it can spend, or 0 as long as it is the hint
  suffices hfold : channels.foldl (betterChannel amt (some hint)) (some hint, 0) =
      (some (((rivals channels amt hint).argmax (·.spendable)).getD hint),
        (((rivals channels amt hint).argmax (·.spendable)).map (·.spendable)).getD 0) from
    congrArg Prod.fst hfold
  induction channels using reverseRecOn with
  | nil => rfl
  | append_singleton channels c ih =>
    rw [foldl_append, ih, foldl_cons, foldl_nil, betterChannel_eq]
    unfold rivals
    rw [filter_append]
    by_cases hrep : replaces amt hint c = true
    · rw [filter_cons_of_pos hrep, filter_nil, argmax_concat]
      have hpos : 0 < c.spendable := by
        simp only [replaces, Bool.and_eq_true, decide_eq_true_eq] at hrep
        exact hrep.1.1.2
      cases (channels.filter (replaces amt hint)).argmax (·.spendable) with
      | none => simp [hrep, hpos]
      | some best => by_cases hmore : best.spendable < c.spendable <;> simp [hrep, hmore]
    · rw [filter_cons_of_neg hrep, filter_nil, append_nil,
        if_neg fun h => hrep h.1]

/-- A channel has a lane in each of its assets, and in no other. -/
theorem lane_of_mem_assets {c : Channel} {asset : AssetTag} :
    (channelLaneOfAsset c asset).isSome = true ↔ asset ∈ c.assets := by
  simp [channelLaneOfAsset]

/-! ### The asset of what is picked -/

/-- What an onion that names a channel is forwarded over. -/
theorem calcForwardingChannel_eq {ld : Peers} {p : OnionPayload} {peer : Peer}
    {hint : PeerChannel} {scid : UInt64} (hfinal : p.final = false)
    (hforward : p.forwardChannel = some scid)
    (hfound : anyChannelByScid ld scid = some (peer, hint)) :
    calcForwardingChannel ld p =
      some (if ld.devStrictForwarding then hint else
        ((rivals peer.channels p.amtToForward hint).argmax (·.spendable)).getD hint) := by
  simp only [calcForwardingChannel, hfinal, Bool.false_eq_true, if_false, forwardingHint, hforward,
    hfound, Option.map_some, Option.bind_eq_bind, Option.bind_some, bestChannel_eq]
  split <;> rfl

/-- An onion names a channel that can add HTLCs and holds an asset in some lane. The channel that is
picked holds the asset too exactly if it is the asset of the hinted channel's lane 0, or forwarding
is strict, or no channel of the peer may take the hinted one's place, or the first of those with
most to spend holds it too. Else the forward is refused at the asset boundary. -/
theorem forwarding_keeps_asset_iff {ld : Peers} {p : OnionPayload} {peer : Peer}
    {hint : PeerChannel} {scid : UInt64} {asset : AssetTag} (hcan : hint.canAddHtlc = true)
    (hasset : (channelLaneOfAsset hint.toChannel asset).isSome = true) (hfinal : p.final = false)
    (hforward : p.forwardChannel = some scid)
    (hfound : anyChannelByScid ld scid = some (peer, hint)) :
    (∃ pick, calcForwardingChannel ld p = some pick ∧ pick.canAddHtlc = true ∧
        (channelLaneOfAsset pick.toChannel asset).isSome = true) ↔
      hint.channelAsset = asset ∨ ld.devStrictForwarding = true ∨
        rivals peer.channels p.amtToForward hint = [] ∨
        ∃ c ∈ (rivals peer.channels p.amtToForward hint).argmax (·.spendable),
          (channelLaneOfAsset c.toChannel asset).isSome = true := by
  rw [calcForwardingChannel_eq hfinal hforward hfound]
  simp only [Option.some.injEq, exists_eq_left']
  by_cases hstrict : ld.devStrictForwarding = true
  · rw [if_pos hstrict]
    simp [hstrict, hcan, hasset]
  rw [if_neg hstrict]
  cases hbest : (rivals peer.channels p.amtToForward hint).argmax (·.spendable) with
  | none => simp [hcan, hasset, argmax_eq_none.1 hbest]
  | some best =>
    -- the pick has the hinted channel's asset in lane 0, so it holds that asset at least
    have hmem := argmax_mem hbest
    obtain ⟨hadd, hsame⟩ := replaces_spec (mem_filter.1 hmem).2
    have hown : hint.channelAsset = asset →
        (channelLaneOfAsset best.toChannel asset).isSome = true := by
      rintro rfl
      rw [lane_of_mem_assets, ← hsame]
      exact mem_cons_self
    have hsome : rivals peer.channels p.amtToForward hint ≠ [] := ne_nil_of_mem hmem
    simp only [Option.getD_some, hadd, true_and, hstrict, hsome, Option.mem_some_iff,
      exists_eq_left', false_or, Bool.false_eq_true]
    exact ⟨Or.inr, fun h => h.elim hown id⟩

namespace BestChannelExample

def gold : AssetTag := ⟨1 :: replicate 32 0xaa, rfl⟩

def silver : AssetTag := ⟨1 :: replicate 32 0xbb, rfl⟩

/-- A channel of gold, and in further lanes of other assets. -/
def goldChannel (n : UInt8) (lanes : List AssetTag) (spendable : ℕ) : PeerChannel where
  cid := .replicate 32 n
  channelAsset := gold
  symLanes := lanes
  canAddHtlc := true
  owned := true
  feerateBase := 1
  feeratePpm := 10
  oldFeerateBase := 1
  oldFeeratePpm := 10
  beforeOldFeerateTimeout := false
  htlcMinimumMsat := 0
  htlcMaximumMsat := 2 ^ 40
  oldHtlcMinimumMsat := 0
  oldHtlcMaximumMsat := 2 ^ 40
  creditOwed := none
  spendable
  dustLimit := 546
  symHtlcMargin := none
  takesPointLock := false
  scids := [n.toUInt64]
  theirHtlcMinimum := 0

/-- The peer's channels: of gold and silver, which the onion names, and of gold alone with more to
spend. -/
def ld : Peers :=
  ⟨[⟨.replicate 33 2, [goldChannel 1 [silver] 500000, goldChannel 2 [] 900000]⟩], false⟩

/-- The same peer with a third channel, of gold and silver and with most to spend. -/
def ldThree : Peers :=
  ⟨[⟨.replicate 33 2, [goldChannel 1 [silver] 500000, goldChannel 2 [] 900000,
    goldChannel 3 [silver] 950000]⟩], false⟩

/-- An HTLC in gold keeps its asset over the channel that is picked; one in silver where the channel
with most to spend holds silver too, or forwarding is strict. -/
theorem forwarding_keeps_gold :
    (∃ pick, calcForwardingChannel ld ⟨false, some 1, none, 1000⟩ = some pick ∧
      pick.canAddHtlc = true ∧ (channelLaneOfAsset pick.toChannel gold).isSome = true) ∧
    (∃ pick, calcForwardingChannel ldThree ⟨false, some 1, none, 1000⟩ = some pick ∧
      pick.canAddHtlc = true ∧ (channelLaneOfAsset pick.toChannel silver).isSome = true) ∧
    (∃ pick, calcForwardingChannel { ld with devStrictForwarding := true }
        ⟨false, some 1, none, 1000⟩ = some pick ∧
      pick.canAddHtlc = true ∧ (channelLaneOfAsset pick.toChannel silver).isSome = true) :=
  ⟨(@forwarding_keeps_asset_iff ld _ _ (goldChannel 1 [silver] 500000) 1 gold rfl (by decide) rfl
      rfl rfl).2 (.inl rfl),
    (@forwarding_keeps_asset_iff ldThree _ _ (goldChannel 1 [silver] 500000) 1 silver rfl
      (by decide) rfl rfl rfl).2 (.inr (.inr (.inr ⟨goldChannel 3 [silver] 950000, rfl, by decide⟩))),
    (@forwarding_keeps_asset_iff { ld with devStrictForwarding := true } _ _
      (goldChannel 1 [silver] 500000) 1 silver rfl (by decide) rfl rfl rfl).2 (.inr (.inl rfl))⟩

/-- An HTLC in silver does not, though the hinted channel holds a lane of it. -/
theorem forwarding_loses_silver : ∃ pick,
    (channelLaneOfAsset (goldChannel 1 [silver] 500000).toChannel silver).isSome = true ∧
      calcForwardingChannel ld ⟨false, some 1, none, 1000⟩ = some pick ∧
      channelLaneOfAsset pick.toChannel silver = none :=
  ⟨goldChannel 2 [] 900000, by decide, rfl, by decide⟩

end BestChannelExample

end SeqLN.Forward
