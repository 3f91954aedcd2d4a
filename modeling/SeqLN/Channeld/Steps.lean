import SeqLN.Channeld.AddHtlc
import SeqLN.Lib.Runs

/-!
# The operations of a channel

The rest of `channeld/full_channel.c`: removing an HTLC, changing the feerate, swapping between
lanes, and `change_htlcs` with the four calls that commit and revoke. `Channel.apply` runs one
operation (`none` where it is refused or ends the process), and `apply_effect` says once what an
accepted one does to the channel.
-/

namespace SeqLN.Channeld

open HtlcState Option

/-! ### Removing an HTLC -/

/-- Source: `channeld/full_channel_error.h`, `enum channel_remove_err` -/
inductive ChannelRemoveErr where
  | NO_SUCH_ID
  | ALREADY_FULFILLED
  | BAD_PREIMAGE
  | HTLC_UNCOMMITTED
  | HTLC_NOT_IRREVOCABLE
  deriving DecidableEq, Repr

/-- How HTLCs are locked. Source: `sha256`, `common/point_lock.h` -/
structure Locks where
  sha256 : ByteString 32 → ByteString 32
  pointLockOpens : ByteString 33 → ByteString 32 → Bool

/-- A point-locked HTLC opens with the scalar of its point, any other with the preimage of its
hash. -/
def Htlc.opensWith (lk : Locks) (h : Htlc) (preimage : ByteString 32) : Bool :=
  match h.lockPoint with
  | some point => lk.pointLockOpens point preimage
  | none => lk.sha256 preimage == h.rhash

/-- The state of an irrevocably committed HTLC once its removal starts. -/
def removeState : HtlcState → Option HtlcState
  | SENT_ADD_ACK_REVOCATION => some RCVD_REMOVE_HTLC
  | RCVD_ADD_ACK_REVOCATION => some SENT_REMOVE_HTLC
  | _ => none

/-- The checks that fulfilling and failing an HTLC share. -/
def startRemoval (h : Htlc) : Except ChannelRemoveErr HtlcState :=
  if h.has (HTLC_FLAG h.owner.other HTLC_F_COMMITTED) then
    match removeState h.state with
    | some state => .ok state
    | none => .error .HTLC_NOT_IRREVOCABLE
  else .error .HTLC_UNCOMMITTED

/-- An HTLC in place of another. -/
def Channel.replace (c : Channel) (old h : Htlc) : Channel :=
  { c with htlcs := h :: c.htlcs.erase old }

/-- Source: `channel_fulfill_htlc` -/
def channelFulfillHtlc (lk : Locks) (c : Channel) (owner : Side) (id : ℕ)
    (preimage : ByteString 32) : Except ChannelRemoveErr Channel :=
  match htlcGet c.htlcs id owner with
  | none => .error .NO_SUCH_ID
  | some h =>
    if h.r.isSome then .error .ALREADY_FULFILLED
    else if h.opensWith lk preimage then do
      let state ← startRemoval h
      return c.replace h { h with state, r := some preimage }
    else .error .BAD_PREIMAGE

/-- The mark is set by the callers. Source: `channel_fail_htlc` -/
def channelFailHtlc (c : Channel) (owner : Side) (id : ℕ) : Except ChannelRemoveErr Channel :=
  match htlcGet c.htlcs id owner with
  | none => .error .NO_SUCH_ID
  | some h => do
    let state ← startRemoval h
    return c.replace h { h with state, failed := true }

/-! ### The feerate -/

section feerate

variable (cp : ChainParams) (c : Channel)

/-- The HTLCs of the channel's own lane in a view. Source: `gather_htlcs` -/
def gatherOwnLane (side : Side) : Pending :=
  let g := gatherLaneHtlcs c.htlcs side (some 0)
  ⟨g.committed, g.pendingAddition, g.pendingRemoval⟩

/-- Source: `can_opener_afford_feerate` -/
def canOpenerAffordFeerate (feerate : ℕ) : Bool :=
  let opener := c.setup.opener
  let p := gatherOwnLane c opener.other
  let untrimmed := numUntrimmedHtlcs cp c.setup opener.other (c.setup.config opener.other).dustLimit
    feerate p.committed p.adding p.removing
  let fee := commitTxBaseFee cp c.setup feerate untrimmed
  let anchors := c.setup.optionAnchorOutputs || c.setup.optionAnchorsZeroFeeHtlcTx
  let available : Option Bool := do
    let fee ← if anchors then amountAdd fee 660 else some fee
    let reserve ← channelReserveOf c.setup opener
    let needed ← amountAdd fee reserve
    let balance ← toBalance (c.owed opener.other 0 opener)
    let available ← balanceOk (balanceHtlcs p.adding p.removing opener balance)
    return needed * 1000 < 2 ^ 64 && needed * 1000 ≤ available
  available.getD false

/-- Source: `htlc_dust_ok` -/
def htlcDustOk (feerate : ℕ) (side : Side) : Bool :=
  (htlcDust cp c.setup (gatherOwnLane c side) side feerate).1 ≤
    (c.setup.config .LOCAL).maxDustHtlcExposureMsat

/-- Source: `channel_update_feerate` -/
def channelUpdateFeerate (feerate : ℕ) : Option Channel := do
  guard (canOpenerAffordFeerate cp c feerate = true)
  let remoteFeerate ← channelFeerate c .REMOTE
  guard (c.setup.optionAnchorsZeroFeeHtlcTx = true ∨
    (remoteFeerate < feerate → htlcDustOk cp c feerate .REMOTE = true) ∧
      htlcDustOk cp c feerate .LOCAL = true)
  return { c with feeStates := startFeeUpdate c.feeStates c.setup.opener feerate }

/-- Source: `channel_update_blockheight` -/
def channelUpdateBlockheight (blockheight : ℕ) : Channel :=
  { c with blockheightStates := startFeeUpdate c.blockheightStates c.setup.opener blockheight }

end feerate

/-! ### Swaps -/

section swaps

variable (c : Channel)

/-- What a side would have in a lane of a view after what it is adding, what it has promised and an
amount more. -/
def swapBalance (view payer : Side) (lane amount : ℕ) : Option ℤ := do
  let g := gatherLaneHtlcs c.htlcs view (some lane)
  let balance ← toBalance (c.owed view lane payer)
  let promised ← swapPromised c view lane payer
  return wrapS64 (wrapS64 (balanceHtlcs g.pendingAddition [] payer balance - promised) - amount)

/-- The body of the loop of `swap_affordable` over the views. -/
def swapAffordableIn (payer : Side) (lane amount : ℕ) (view : Side) : Option Unit := do
  let balance ← swapBalance c view payer lane amount
  let left ← balanceOk balance
  guard (lane = 0 →
    ((channelReserveOf c.setup payer).bind fun reserve => amountMsatSubSat left reserve).isSome = true)

/-- Can a side pay an amount in a lane in both views? Source: `swap_affordable` -/
def swapAffordable (payer : Side) (lane amount : ℕ) : Bool :=
  (swapAffordableIn c payer lane amount .LOCAL).isSome &&
    (swapAffordableIn c payer lane amount .REMOTE).isSome

/-- Whether a swap may be added. Source: `channel_sym_swap_check` -/
def channelSymSwapCheck (s : SymSwap) : Bool :=
  !c.setup.symLanes.isEmpty && c.symSwap.isNone && s.giveLane != s.takeLane &&
    s.giveLane < symNumLanes c.setup && s.takeLane < symNumLanes c.setup &&
    s.give != 0 && s.take != 0 &&
    swapAffordable c s.owner s.giveLane s.give && swapAffordable c s.owner.other s.takeLane s.take

/-- Source: `channel_sym_swap_add` -/
def channelSymSwapAdd (s : SymSwap) : Option Channel := do
  guard (c.symSwap = none)
  guard (s.state = SENT_ADD_HTLC ∨ s.state = RCVD_ADD_HTLC)
  return { c with symSwap := some s }

/-- Forgets a swap that both sides have committed and revoked. Source: `channel_sym_swap_done` -/
def channelSymSwapDone : Channel :=
  match c.symSwap with
  | some s =>
    if s.state = SENT_ADD_ACK_REVOCATION ∨ s.state = RCVD_ADD_ACK_REVOCATION then
      { c with symSwap := none }
    else c
  | none => c

/-- We ask the peer for a swap, which it will send. Source: `handle_sym_swap_request` -/
def handleSymSwapRequest (s : SymSwap) : Option Channel := do
  let s := { s with state := RCVD_ADD_HTLC }
  guard (c.symSwapReq = none)
  guard (channelSymSwapCheck c s = true)
  return { c with symSwapReq := some s }

/-- Source: `handle_sym_swap_cancel` -/
def handleSymSwapCancel (id : ℕ) : Channel :=
  if c.symSwapReq.any (·.id == id) then { c with symSwapReq := none } else c

/-- We take the peer's swap: ours to send. Source: `handle_sym_swap_accept` -/
def handleSymSwapAccept (s : SymSwap) : Option Channel := do
  let s := { s with state := SENT_ADD_HTLC }
  guard (c.symSwapReq = none)
  guard (channelSymSwapCheck c s = true)
  channelSymSwapAdd c s

/-- The peer's swap, in its commitment: it must be the one we asked for. Source: `take_peer_swap` -/
def takePeerSwap (s : SymSwap) : Option Channel := do
  let s := { s with state := RCVD_ADD_HTLC }
  let req ← c.symSwapReq
  guard (req.id = s.id ∧ req.giveLane = s.giveLane ∧ req.takeLane = s.takeLane ∧
    req.give = s.give ∧ req.take = s.take)
  let c := { c with symSwapReq := none }
  guard (channelSymSwapCheck c s = true)
  channelSymSwapAdd c s

end swaps

/-! ### Committing and revoking -/

/-- The balances of an HTLC's lane, each side's changed. -/
def Owed.onLane (owed : Owed) (lane : ℕ) (f : ℤ → Side → ℤ) : Owed :=
  fun l s => if l = lane then f (owed l s) s else owed l s

/-- One HTLC advances: its balances move when it enters or leaves the view.
Source: `htlc_incstate` -/
def htlcIncstate (sidechanged : Side) (owed : Owed) (h : Htlc) : Htlc × Owed :=
  let h' := { h with state := h.state.succ }
  let committed := HTLC_FLAG sidechanged HTLC_F_COMMITTED
  let owed' :=
    if !h.has committed && h'.has committed then
      owed.onLane h.lane fun b s => balanceAddHtlc b h' s
    else if h.has committed && !h'.has committed then
      owed.onLane h.lane fun b s => balanceRemoveHtlc b h' s
    else owed
  (h', owed')

/-- The loop of `change_htlcs`: the HTLCs that remain, the balances, and the flags that changed. A
dead HTLC is deleted. -/
def changeLoop (st : CommitStep) : List Htlc → Owed → List Htlc × Owed × ℕ
  | [], owed => ([], owed, 0)
  | h :: htlcs, owed =>
    if h.state ∈ st.htlcStates then
      let (h', owed) := htlcIncstate st.sidechanged owed h
      let (rest, owed, cflags) := changeLoop st htlcs owed
      (if h'.state.isDead then rest else h' :: rest, owed,
        cflags ||| (htlcStateFlags h.state ^^^ htlcStateFlags h'.state))
    else
      let (rest, owed, cflags) := changeLoop st htlcs owed
      (h :: rest, owed, cflags)

/-- Once committed on a side, both legs of a swap move in that side's view. -/
def changeSwap (st : CommitStep) (swap : Option SymSwap) (owed : Owed) : Option SymSwap × Owed × ℕ :=
  match swap with
  | none => (none, owed, 0)
  | some s =>
    if s.state ∈ st.htlcStates then
      let s' := { s with state := s.state.succ }
      let committed := HTLC_FLAG st.sidechanged HTLC_F_COMMITTED
      (some s', if !s.state.has committed && s'.state.has committed then balanceSwap owed s' else owed,
        htlcStateFlags s.state ^^^ htlcStateFlags s'.state)
    else (some s, owed, 0)

/-- Every balance of the changed view is in the range of `struct balance`. -/
def BalancesFit (c : Channel) (view : Side) : Prop :=
  ∀ l < symNumLanes c.setup, ∀ s : Side, c.owed view l s < 2 ^ 63

instance (c : Channel) (view : Side) : Decidable (BalancesFit c view) :=
  inferInstanceAs (Decidable (∀ l < symNumLanes c.setup, ∀ s : Side, c.owed view l s < 2 ^ 63))

/-- The balances the changed view would have: HTLCs first, then the swap. -/
def changedOwed (c : Channel) (st : CommitStep) : Owed :=
  (changeSwap st c.symSwap
    (changeLoop st c.htlcs fun l s => c.owed st.sidechanged l s).2.1).2.1

/-- No balance of the changed view underflows. -/
def NoUnderflow (c : Channel) (st : CommitStep) : Prop :=
  ∀ l < symNumLanes c.setup, ∀ s : Side, 0 ≤ changedOwed c st l s

instance (c : Channel) (st : CommitStep) : Decidable (NoUnderflow c st) :=
  inferInstanceAs (Decidable (∀ l < symNumLanes c.setup, ∀ s : Side, 0 ≤ changedOwed c st l s))

/-- The channel, and the flags that changed; `none` is a failed assertion on the balances, or an
underflow (`status_failed`). Source: `change_htlcs` -/
def changeHtlcs (c : Channel) (st : CommitStep) : Option (Channel × ℕ) :=
  if BalancesFit c st.sidechanged ∧ NoUnderflow c st then
    let loop := changeLoop st c.htlcs fun l s => c.owed st.sidechanged l s
    let swap := changeSwap st c.symSwap loop.2.1
    let fees := feeIncstates st.htlcStates c.feeStates
    let heights := feeIncstates st.htlcStates c.blockheightStates
    some ({ c with
        htlcs := loop.1
        owed := fun v l s =>
          if v = st.sidechanged ∧ l < symNumLanes c.setup then (changedOwed c st l s).toNat
          else c.owed v l s
        feeStates := fees.1
        blockheightStates := heights.1
        symSwap := swap.1 },
      loop.2.2 ||| swap.2.2 ||| fees.2 ||| heights.2)
  else none

/-- Source: `channel_sending_commit` -/
def channelSendingCommit (c : Channel) : Option (Channel × Bool) :=
  (changeHtlcs c .sendingCommit).map fun r => (r.1, r.2 != 0)

/-- Source: `channel_rcvd_revoke_and_ack` -/
def channelRcvdRevokeAndAck (c : Channel) : Option (Channel × Bool) :=
  (changeHtlcs c .rcvdRevokeAndAck).map fun r =>
    (r.1, r.2 &&& HTLC_FLAG .LOCAL HTLC_F_PENDING != 0)

/-- Source: `channel_rcvd_commit` -/
def channelRcvdCommit (c : Channel) : Option (Channel × Bool) :=
  (changeHtlcs c .rcvdCommit).map fun r => (r.1, r.2 != 0)

/-- Source: `channel_sending_revoke_and_ack` -/
def channelSendingRevokeAndAck (c : Channel) : Option (Channel × Bool) :=
  (changeHtlcs c .sendingRevokeAndAck).map fun r =>
    (r.1, r.2 &&& HTLC_FLAG .REMOTE HTLC_F_PENDING != 0)

/-! ### Runs -/

/-- An operation of a channel. -/
inductive Op where
  | addHtlc (sender : Side) (a : AddArgs) (errImmediateFailures : Bool)
  | fulfillHtlc (owner : Side) (id : ℕ) (preimage : ByteString 32)
  | failHtlc (owner : Side) (id : ℕ)
  | updateFeerate (feerate : ℕ)
  | updateBlockheight (blockheight : ℕ)
  /-- A swap is added once it passes `channel_sym_swap_check`. -/
  | symSwapAdd (s : SymSwap)
  | symSwapRequest (s : SymSwap)
  | symSwapCancel (id : ℕ)
  | symSwapDone
  | commitStep (st : CommitStep)

section runs

variable (cp : ChainParams) (lk : Locks)

/-- The channel after an operation that is accepted. -/
def Channel.apply (c : Channel) : Op → Option Channel
  | .addHtlc sender a imm => (channelAddHtlc cp c sender a imm).toOption.map (·.1)
  | .fulfillHtlc owner id preimage => (channelFulfillHtlc lk c owner id preimage).toOption
  | .failHtlc owner id => (channelFailHtlc c owner id).toOption
  | .updateFeerate feerate => channelUpdateFeerate cp c feerate
  | .updateBlockheight blockheight => some (channelUpdateBlockheight c blockheight)
  | .symSwapAdd s => if channelSymSwapCheck c s then channelSymSwapAdd c s else none
  | .symSwapRequest s => handleSymSwapRequest c s
  | .symSwapCancel id => some (handleSymSwapCancel c id)
  | .symSwapDone => some (channelSymSwapDone c)
  | .commitStep st => (changeHtlcs c st).map (·.1)

/-- The channels that accepted operations lead to, each meeting a condition on the channel before
it. -/
abbrev Reachable (ok : Channel → Op → Prop) (c₀ c : Channel) : Prop :=
  Lib.Reaches (Channel.apply cp lk) ok c₀ c

/-- The channel after a list of operations that are accepted and meet a condition. -/
abbrev Channel.runWhile (ok : Channel → Op → Prop) [∀ c op, Decidable (ok c op)] (c : Channel)
    (ops : List Op) : Option Channel :=
  Lib.runWhile (Channel.apply cp lk) ok c ops

/-- The operations that move no HTLC, balance or swap. -/
def Op.isQuiet : Op → Bool
  | .updateFeerate _ | .updateBlockheight _ | .symSwapRequest _ | .symSwapCancel _ => true
  | _ => false

/-- A swap that both sides have committed and revoked. -/
def SymSwap.Done (s : SymSwap) : Prop :=
  s.state = SENT_ADD_ACK_REVOCATION ∨ s.state = RCVD_ADD_ACK_REVOCATION

instance (s : SymSwap) : Decidable s.Done := inferInstanceAs (Decidable (_ ∨ _))

/-- What an accepted operation does to the HTLCs, the balances and the swap of a channel. -/
inductive Effect (c : Channel) : Op → Channel → Prop where
  | add (sender : Side) (a : AddArgs) (imm fi : Bool)
      (basic : BasicChecks cp c (newHtlc (addState sender) a) true)
      (room : HasRoom c (newHtlc (addState sender) a)) :
      Effect c (.addHtlc sender a imm)
        { c with htlcs := { newHtlc (addState sender) a with failImmediate := fi } :: c.htlcs }
  | fulfill (owner : Side) (id : ℕ) (preimage : ByteString 32) (h : Htlc) (state : HtlcState)
      (get : htlcGet c.htlcs id owner = some h) (unset : h.r = none)
      (opens : h.opensWith lk preimage = true) (next : removeState h.state = some state) :
      Effect c (.fulfillHtlc owner id preimage)
        (c.replace h { h with state, r := some preimage })
  | fail (owner : Side) (id : ℕ) (h : Htlc) (state : HtlcState)
      (get : htlcGet c.htlcs id owner = some h) (next : removeState h.state = some state) :
      Effect c (.failHtlc owner id) (c.replace h { h with state, failed := true })
  | quiet (op : Op) (feeStates heights : StateTable) (req : Option SymSwap)
      (quiet : op.isQuiet = true)
      (fees : feeStates = c.feeStates ∨ ∃ feerate, op = .updateFeerate feerate ∧
        feeStates = startFeeUpdate c.feeStates c.setup.opener feerate)
      (asked : req = c.symSwapReq ∨ req = none ∨ ∃ s : SymSwap, op = .symSwapRequest s ∧
        req = some { s with state := RCVD_ADD_HTLC } ∧
        channelSymSwapCheck c { s with state := RCVD_ADD_HTLC } = true) :
      Effect c op { c with feeStates, blockheightStates := heights, symSwapReq := req }
  | swapAdd (s : SymSwap) (check : channelSymSwapCheck c s = true) (idle : c.symSwap = none)
      (fresh : s.state = SENT_ADD_HTLC ∨ s.state = RCVD_ADD_HTLC) :
      Effect c (.symSwapAdd s) { c with symSwap := some s }
  | swapDone (s : SymSwap) (swap : c.symSwap = some s) (done : s.Done) :
      Effect c .symSwapDone { c with symSwap := none }
  | swapWaits (wait : ∀ s, c.symSwap = some s → ¬ s.Done) : Effect c .symSwapDone c
  | commitStep (st : CommitStep) (c' : Channel) (flags : ℕ)
      (change : changeHtlcs c st = some (c', flags)) : Effect c (.commitStep st) c'

lemma startRemoval_ok {h : Htlc} {state : HtlcState} (hok : startRemoval h = .ok state) :
    removeState h.state = some state := by
  unfold startRemoval at hok
  split at hok
  · split at hok
    · next hs => exact hs.trans (congrArg some (Except.ok.inj hok))
    · cases hok
  · cases hok

lemma toOption_eq_some {ε α : Type} {x : Except ε α} {a : α} (h : x.toOption = some a) :
    x = .ok a := by
  cases x with
  | error e => cases h
  | ok b => exact congrArg Except.ok (some.inj h)

variable {cp lk}

/-- What an accepted operation does, by its kind. -/
theorem apply_effect {c c' : Channel} {op : Op} (h : c.apply cp lk op = some c') :
    Effect cp lk c op c' := by
  cases op with
  | addHtlc sender a imm =>
    obtain ⟨⟨c₁, h₁⟩, hok, rfl⟩ := map_eq_some_iff.1 h
    obtain ⟨hbasic, hroom, ⟨fi, rfl⟩, rfl⟩ := addHtlc_ok (toOption_eq_some hok)
    exact .add sender a imm fi hbasic (hroom rfl)
  | fulfillHtlc owner id preimage =>
    have hok := toOption_eq_some h
    unfold channelFulfillHtlc at hok
    split at hok
    · cases hok
    · next g hget =>
      split at hok
      · cases hok
      · next hr =>
        split at hok
        · next hopens =>
          obtain ⟨state, hstart, hok⟩ := bind_ok.1 hok
          rw [← Except.ok.inj hok]
          exact .fulfill owner id preimage g state hget (by simpa using hr) hopens
            (startRemoval_ok hstart)
        · cases hok
  | failHtlc owner id =>
    have hok := toOption_eq_some h
    unfold channelFailHtlc at hok
    split at hok
    · cases hok
    · next g hget =>
      obtain ⟨state, hstart, hok⟩ := bind_ok.1 hok
      rw [← Except.ok.inj hok]
      exact .fail owner id g state hget (startRemoval_ok hstart)
  | updateFeerate feerate =>
    simp only [Channel.apply, channelUpdateFeerate, bind_eq_bind,
      bind_eq_some_iff] at h
    obtain ⟨-, -, -, -, -, -, h⟩ := h
    rw [← some.inj h]
    exact .quiet _ _ c.blockheightStates c.symSwapReq rfl (Or.inr ⟨feerate, rfl, rfl⟩) (Or.inl rfl)
  | updateBlockheight blockheight =>
    rw [← some.inj h]
    exact .quiet _ c.feeStates _ c.symSwapReq rfl (Or.inl rfl) (Or.inl rfl)
  | symSwapAdd s =>
    simp only [Channel.apply] at h
    split at h
    · next hcheck =>
      simp only [channelSymSwapAdd, bind_eq_bind, bind_eq_some_iff] at h
      obtain ⟨_, hidle, _, hfresh, h⟩ := h
      rw [← some.inj h]
      exact .swapAdd s hcheck (guard_eq_some.1 hidle) (guard_eq_some.1 hfresh)
    · cases h
  | symSwapRequest s =>
    simp only [Channel.apply, handleSymSwapRequest, bind_eq_bind,
      bind_eq_some_iff] at h
    obtain ⟨_, -, _, hcheck, h⟩ := h
    rw [← some.inj h]
    exact .quiet _ c.feeStates c.blockheightStates _ rfl (Or.inl rfl)
      (Or.inr (Or.inr ⟨s, rfl, rfl, guard_eq_some.1 hcheck⟩))
  | symSwapCancel id =>
    rw [← some.inj h]
    unfold handleSymSwapCancel
    split
    · exact .quiet _ c.feeStates c.blockheightStates none rfl (Or.inl rfl) (Or.inr (Or.inl rfl))
    · exact .quiet _ c.feeStates c.blockheightStates c.symSwapReq rfl (Or.inl rfl) (Or.inl rfl)
  | symSwapDone =>
    rw [← some.inj h]
    unfold channelSymSwapDone
    split
    · next s hs =>
      split
      · next hdone => exact .swapDone s hs hdone
      · next hwait =>
        apply Effect.swapWaits
        intro t ht
        rw [hs] at ht
        exact some.inj ht ▸ hwait
    · next hnone =>
      apply Effect.swapWaits
      intro t ht
      cases hnone.symm.trans ht
  | commitStep st =>
    obtain ⟨⟨c₁, f⟩, hok, rfl⟩ := map_eq_some_iff.1 h
    exact .commitStep st c₁ f hok

end runs

end SeqLN.Channeld
