import SeqLN.Channeld.UpdateLog

/-!
# Two peers and the messages between them

Two channel objects of one channel, each with its own end as `LOCAL`, and the messages in flight in
either direction, in order. `Peer.act` is what a peer does on its own account and `Peer.hear` what it
does with a message, as the handlers of `channeld/channeld.c` do. A step that a peer refuses, or that
would make it drop the connection, is no step. Messages that change no state of the channel object are
left out, and so are block heights and what a commitment signs.
-/

namespace SeqLN.Channeld

open HtlcState

/-- A commitment carries the swap it is the first to carry; `sent` is the sender's channel then,
which no handler reads. -/
inductive Msg where
  | updateAddHtlc (a : AddArgs)
  | updateFulfillHtlc (id : ℕ) (preimage : ByteString 32)
  | updateFailHtlc (id : ℕ)
  | updateFee (feerate : ℕ)
  | commitmentSigned (swap : Option SymSwap) (sent : Channel)
  | revokeAndAck

/-- Source: `channeld/channeld.c`, `struct peer` -/
structure Peer where
  channel : Channel
  /-- The last commitment we sent is not revoked yet. Source: `revocations_received` -/
  awaitingRevoke : Bool
  /-- The id of the next HTLC we offer. -/
  htlcId : ℕ

/-- What a peer does on its own account. -/
inductive Action where
  | offerHtlc (a : AddArgs)
  | fulfillHtlc (id : ℕ) (preimage : ByteString 32)
  | failHtlc (id : ℕ)
  | updateFee (feerate : ℕ)
  | symSwapRequest (s : SymSwap)
  | symSwapCancel (id : ℕ)
  | symSwapAccept (s : SymSwap)
  | sendCommit

/-- The swap that a commitment is the first to carry. Source: `send_commit_part` -/
def seqSwap (c : Channel) : Option SymSwap := c.symSwap.filter fun s => s.state = SENT_ADD_COMMIT

/-- The swap of a commitment, where it has one, is taken. -/
def takeSwap (c : Channel) : Option SymSwap → Option Channel
  | none => some c
  | some s => takePeerSwap c s

/-- The swap of a commitment is taken, then the commitment. Source: `handle_peer_commit_sig` -/
def takeCommitment (c : Channel) (swap : Option SymSwap) : Option Channel := do
  let c ← takeSwap c swap
  let (c, _) ← channelRcvdCommit c
  return c

section peer

variable (cp : ChainParams) (lk : Locks) (p : Peer)

/-- Source: `handle_offer_htlc`, `handle_preimage`, `handle_fail`, `handle_sym_swap_request`,
`handle_sym_swap_cancel`, `handle_sym_swap_accept`, `send_commit` -/
def Peer.act : Action → Option (Peer × List Msg)
  | .offerHtlc a => do
    let a := { a with id := p.htlcId }
    let c ← p.channel.apply cp lk (.addHtlc .LOCAL a true)
    return ({ p with channel := c, htlcId := p.htlcId + 1 }, [.updateAddHtlc a])
  | .fulfillHtlc id preimage => do
    let c ← p.channel.apply cp lk (.fulfillHtlc .REMOTE id preimage)
    return ({ p with channel := c }, [.updateFulfillHtlc id preimage])
  | .failHtlc id => do
    let c ← p.channel.apply cp lk (.failHtlc .REMOTE id)
    return ({ p with channel := c }, [.updateFailHtlc id])
  | .updateFee feerate => do
    guard (p.channel.setup.opener = .LOCAL)
    let c ← channelUpdateFeerate cp p.channel feerate
    return ({ p with channel := c }, [.updateFee feerate])
  | .symSwapRequest s => do
    let c ← handleSymSwapRequest p.channel s
    return ({ p with channel := c }, [])
  | .symSwapCancel id => some ({ p with channel := handleSymSwapCancel p.channel id }, [])
  | .symSwapAccept s => do
    let c ← handleSymSwapAccept p.channel s
    return ({ p with channel := c }, [])
  | .sendCommit => do
    guard (p.awaitingRevoke = false)
    let (c, changed) ← channelSendingCommit p.channel
    guard (changed = true)
    return ({ p with channel := c, awaitingRevoke := true }, [.commitmentSigned (seqSwap c) c])

/-- Source: `handle_peer_add_htlc`, `handle_peer_fulfill_htlc`, `handle_peer_fail_htlc`,
`handle_peer_feechange`, `handle_peer_commit_sig`, `handle_peer_revoke_and_ack` -/
def Peer.hear : Msg → Option (Peer × List Msg)
  | .updateAddHtlc a => do
    let c ← p.channel.apply cp lk (.addHtlc .REMOTE a false)
    return ({ p with channel := c }, [])
  | .updateFulfillHtlc id preimage => do
    let c ← p.channel.apply cp lk (.fulfillHtlc .LOCAL id preimage)
    return ({ p with channel := c }, [])
  | .updateFailHtlc id => do
    let c ← p.channel.apply cp lk (.failHtlc .LOCAL id)
    return ({ p with channel := c }, [])
  | .updateFee feerate => do
    guard (p.channel.setup.opener = .REMOTE)
    let c ← channelUpdateFeerate cp p.channel feerate
    return ({ p with channel := c }, [])
  | .commitmentSigned swap _ => do
    let c ← takeCommitment p.channel swap
    let (c, _) ← channelSendingRevokeAndAck c
    return ({ p with channel := channelSymSwapDone c }, [.revokeAndAck])
  | .revokeAndAck => do
    guard (p.awaitingRevoke = true)
    let (c, _) ← channelRcvdRevokeAndAck p.channel
    return ({ p with channel := channelSymSwapDone c, awaitingRevoke := false }, [])

end peer

/-- A call whose result goes into a pair. -/
theorem bind_pair_eq_some {α β γ : Type} {x : Option α} {f : α → β} {g : α → γ} {b : β} {c : γ} :
    (x.bind fun a => some (f a, g a)) = some (b, c) ↔ ∃ a, x = some a ∧ f a = b ∧ g a = c := by
  simp [Option.bind_eq_some_iff]

/-- A call that commits or revokes returns the changed channel with a flag. -/
theorem changed_of_map {c c' : Channel} {st : CommitStep} {f : Channel × ℕ → Bool} {b : Bool}
    (h : ((changeHtlcs c st).map fun r => (r.1, f r)) = some (c', b)) :
    ∃ flags, changeHtlcs c st = some (c', flags) := by
  obtain ⟨⟨d, flags⟩, hd, h⟩ := Option.map_eq_some_iff.1 h
  obtain ⟨rfl, -⟩ := Prod.mk.inj h
  exact ⟨flags, hd⟩

/-- The two peers, and what each has sent and the other has not yet heard, oldest first. -/
structure Net where
  peer : Side → Peer
  wire : Side → List Msg

/-- A step of one peer. -/
inductive Move where
  | act (a : Action)
  | hear

section net

variable (cp : ChainParams) (lk : Locks)

/-- The net after a step of peer `x`. -/
def Net.step (n : Net) (x : Side) : Move → Option Net
  | .act a => do
    let (p, ms) ← (n.peer x).act cp lk a
    return ⟨Function.update n.peer x p, Function.update n.wire x (n.wire x ++ ms)⟩
  | .hear =>
    match n.wire x.other with
    | [] => none
    | m :: rest => do
      let (p, ms) ← (n.peer x).hear cp lk m
      return ⟨Function.update n.peer x p,
        Function.update (Function.update n.wire x.other rest) x (n.wire x ++ ms)⟩

/-- The nets that steps lead to, each step meeting a condition on the net before it. -/
abbrev Net.Reachable (ok : Net → Side → Move → Prop) (n₀ n : Net) : Prop :=
  Lib.Reaches (fun n (e : Side × Move) => n.step cp lk e.1 e.2) (fun n e => ok n e.1 e.2) n₀ n

/-- The net after a list of steps that meet a condition. -/
abbrev Net.runWhile (ok : Net → Side → Move → Prop) [∀ n x m, Decidable (ok n x m)] (n : Net)
    (moves : List (Side × Move)) : Option Net :=
  Lib.runWhile (fun n e => n.step cp lk e.1 e.2) (fun n e => ok n e.1 e.2) n moves

end net

/-! ### The start -/

/-- The same channel from the other end. -/
def ChannelSetup.exchange (c : ChannelSetup) : ChannelSetup :=
  { c with
    opener := c.opener.other
    config := fun side => c.config side.other
    lowestSpliceAmnt := fun view side => c.lowestSpliceAmnt view.other side.other }

/-- What the other end has of a lane at the start. -/
def otherMsat (setup : ChannelSetup) (localMsat : ℕ → ℕ) (lane : ℕ) : ℕ :=
  symLaneFunding setup lane * 1000 - localMsat lane

/-- Two peers of a new channel. -/
def Net.start (setup : ChannelSetup) (feerate blockheight : ℕ) (localMsat : ℕ → ℕ) :
    Option Net := do
  let c ← newFullChannel setup (newFeeStates setup.opener feerate)
    (newFeeStates setup.opener blockheight) localMsat
  let d ← newFullChannel setup.exchange (newFeeStates setup.opener.other feerate)
    (newFeeStates setup.opener.other blockheight) (otherMsat setup localMsat)
  return {
    peer := fun
      | .LOCAL => ⟨c, false, 0⟩
      | .REMOTE => ⟨d, false, 0⟩
    wire := fun _ => [] }

end SeqLN.Channeld
