import SeqLN.Channeld.Conservation

/-!
# What a refused call leaves behind

A call that is refused returns an error, and the object goes on: `Channel.call` is one call with its
reply and the object after it, `Channel.replies` a sequence of calls with what each shows.
`call_of_apply`: an accepted call does what `Channel.apply` says.

Additions and failures check first and write last. `channel_fulfill_htlc` stores the preimage before its
last two checks: refused by one of them it leaves an HTLC that counts as fulfilled.
`refused_call_unseen_iff`: this is the only trace, and it always shows.
-/

namespace SeqLN.Channeld

open HtlcState

/-- What a call returns: an HTLC to be failed at once or not, an error, a step's flag of changes, or
that it was done; `stopped` ends the process. -/
inductive Reply where
  | added (failImmediate : Bool)
  | addErr (e : ChannelAddErr)
  | removeErr (e : ChannelRemoveErr)
  | changed (flags : ℕ)
  | done
  | refused
  | stopped
  deriving DecidableEq

/-- The replies of a refused change of HTLCs. -/
def Reply.isError : Reply → Bool
  | .addErr _ | .removeErr _ => true
  | _ => false

/-- The reply of a call that is accepted or refused as a whole. -/
def replyOf (c : Channel) : Option Channel → Reply × Channel
  | some c' => (.done, c')
  | none => (.refused, c)

section calls

variable (cp : ChainParams) (lk : Locks)

/-- The preimage is stored before the checks on the state. Source: `channel_fulfill_htlc` -/
def fulfillCall (c : Channel) (owner : Side) (id : ℕ) (preimage : ByteString 32) : Reply × Channel :=
  match htlcGet c.htlcs id owner with
  | none => (.removeErr .NO_SUCH_ID, c)
  | some h =>
    if h.r.isSome then (.removeErr .ALREADY_FULFILLED, c)
    else if h.opensWith lk preimage then
      let stored := { h with r := some preimage }
      match startRemoval stored with
      | .ok state => (.done, c.replace h { stored with state })
      | .error e => (.removeErr e, c.replace h stored)
    else (.removeErr .BAD_PREIMAGE, c)

/-- The object after `channel_fail_htlc`, with the mark its callers set.
Source: `channel_fail_htlc` -/
def failCall (c : Channel) (owner : Side) (id : ℕ) : Reply × Channel :=
  match channelFailHtlc c owner id with
  | .ok c' => (.done, c')
  | .error e => (.removeErr e, c)

/-- A new HTLC is put in once every check has passed. Source: `add_htlc` -/
def addCall (c : Channel) (sender : Side) (a : AddArgs) (imm : Bool) : Reply × Channel :=
  match channelAddHtlc cp c sender a imm with
  | .ok (c', h) => (.added h.failImmediate, c')
  | .error e => (.addErr e, c)

/-- The object after a commit or revoke step. Source: `change_htlcs` -/
def stepCall (c : Channel) (st : CommitStep) : Reply × Channel :=
  match changeHtlcs c st with
  | some (c', flags) => (.changed flags, c')
  | none => (.stopped, c)

/-- One call: its reply and the object after it. -/
def Channel.call (c : Channel) : Op → Reply × Channel
  | .addHtlc sender a imm => addCall cp c sender a imm
  | .fulfillHtlc owner id preimage => fulfillCall lk c owner id preimage
  | .failHtlc owner id => failCall c owner id
  | .commitStep st => stepCall c st
  | op => replyOf c (c.apply cp lk op)

/-- What a sequence of calls shows: each reply and the balances after it, up to a call that ends the
process. -/
def Channel.replies (c : Channel) : List Op → List (Reply × (Side → ℕ → Side → ℕ))
  | [] => []
  | op :: ops =>
    let r := c.call cp lk op
    (r.1, r.2.owed) :: if r.1 = .stopped then [] else Channel.replies r.2 ops

end calls

section trace

variable {cp : ChainParams} {lk : Locks} {c c' : Channel} {op : Op}

/-- The checks on the state do not look at the preimage. -/
theorem startRemoval_stored (h : Htlc) (preimage : ByteString 32) :
    startRemoval { h with r := some preimage } = startRemoval h := rfl

/-- An accepted call is an accepted operation, and the other way round. -/
theorem call_of_apply (h : c.apply cp lk op = some c') :
    (c.call cp lk op).2 = c' ∧ (c.call cp lk op).1.isError = false := by
  cases op with
  | addHtlc sender a imm =>
    obtain ⟨⟨d, g⟩, hok, rfl⟩ := Option.map_eq_some_iff.1 h
    simp [Channel.call, addCall, toOption_eq_some hok, Reply.isError]
  | fulfillHtlc owner id preimage =>
    have hok := toOption_eq_some h
    cases hget : htlcGet c.htlcs id owner with
    | none => simp [channelFulfillHtlc, hget] at hok
    | some g =>
      by_cases hr : g.r.isSome = true
      · simp [channelFulfillHtlc, hget, hr] at hok
      by_cases hopens : g.opensWith lk preimage = true
      · simp only [channelFulfillHtlc, hget, hr, hopens, if_true, Bool.false_eq_true, if_false] at hok
        obtain ⟨state, hstart, hok⟩ := bind_ok.1 hok
        cases hok
        simp [Channel.call, fulfillCall, hget, hr, hopens, startRemoval_stored, hstart, Reply.isError]
      · simp [channelFulfillHtlc, hget, hr, hopens] at hok
  | failHtlc owner id =>
    simp [Channel.call, failCall, toOption_eq_some h, Reply.isError]
  | commitStep st =>
    obtain ⟨⟨d, flags⟩, hok, rfl⟩ := Option.map_eq_some_iff.1 h
    simp [Channel.call, stepCall, hok, Reply.isError]
  | updateFeerate _ | updateBlockheight _ | symSwapAdd _ | symSwapRequest _ | symSwapCancel _ | symSwapDone =>
    simp [Channel.call, h, replyOf, Reply.isError]

/-- The call stores a preimage: it fulfils an HTLC that has none, with what opens it. -/
def StoresPreimage (lk : Locks) (c : Channel) : Op → Prop
  | .fulfillHtlc owner id preimage =>
    ∃ h, htlcGet c.htlcs id owner = some h ∧ h.r = none ∧ h.opensWith lk preimage = true
  | _ => False

/-- A call that stores no preimage and is refused leaves the object as it was. -/
theorem call_refused_eq (hrefused : (c.call cp lk op).1.isError = true)
    (hstores : ¬ StoresPreimage lk c op) : (c.call cp lk op).2 = c := by
  cases op with
  | addHtlc sender a imm =>
    simp only [Channel.call, addCall] at hrefused ⊢
    split at hrefused
    · cases hrefused
    · rfl
  | fulfillHtlc owner id preimage =>
    cases hget : htlcGet c.htlcs id owner with
    | none => simp [Channel.call, fulfillCall, hget]
    | some h =>
      by_cases hr : h.r.isSome = true
      · simp [Channel.call, fulfillCall, hget, hr]
      have hopens : ¬ h.opensWith lk preimage = true := fun ho =>
        hstores ⟨h, hget, Option.not_isSome_iff_eq_none.1 hr, ho⟩
      simp [Channel.call, fulfillCall, hget, hr, hopens]
  | failHtlc owner id =>
    simp only [Channel.call, failCall] at hrefused ⊢
    split at hrefused
    · cases hrefused
    · rfl
  | commitStep st =>
    simp only [Channel.call, stepCall] at hrefused
    split at hrefused <;> cases hrefused
  | updateFeerate _ | updateBlockheight _ | symSwapAdd _ | symSwapRequest _ | symSwapCancel _ | symSwapDone =>
    simp only [Channel.call, replyOf] at hrefused
    split at hrefused <;> cases hrefused

/-- The checks on the state do not say that an HTLC was fulfilled. -/
theorem startRemoval_ne_alreadyFulfilled (h : Htlc) :
    startRemoval h ≠ .error .ALREADY_FULFILLED := by
  unfold startRemoval
  split
  · split
    · exact fun h => by cases h
    · exact fun h => by cases h
  · exact fun h => by cases h

/-- An HTLC put in the place of another with its id and owner is found in its place. -/
theorem htlcGet_replace {h h' : Htlc} {id : ℕ} {owner : Side} (hget : htlcGet c.htlcs id owner = some h)
    (hid : h'.id = h.id) (hstate : h'.state = h.state) :
    htlcGet (c.replace h h').htlcs id owner = some h' := by
  have hfound := List.find?_some hget
  refine List.find?_cons_of_pos ?_
  simpa only [Htlc.has, hid, hstate] using hfound

/-- A refused call that stored a preimage shows: repeated, it says that the HTLC is fulfilled
already. -/
theorem replies_ne_of_storesPreimage (hrefused : (c.call cp lk op).1.isError = true)
    (hstores : StoresPreimage lk c op) :
    (c.call cp lk op).2.replies cp lk [op] ≠ c.replies cp lk [op] := by
  cases op with
  | fulfillHtlc owner id preimage =>
    obtain ⟨h, hget, hr, hopens⟩ := hstores
    -- the reply of the first call
    obtain ⟨e, he, hcall⟩ : ∃ e, startRemoval h = .error e ∧
        c.call cp lk (.fulfillHtlc owner id preimage) =
          (.removeErr e, c.replace h { h with r := some preimage }) := by
      cases hs : startRemoval h with
      | ok state =>
        simp [Channel.call, fulfillCall, hget, hr, hopens, startRemoval_stored, hs,
          Reply.isError] at hrefused
      | error e =>
        refine ⟨e, rfl, ?_⟩
        simp [Channel.call, fulfillCall, hget, hr, hopens, startRemoval_stored, hs]
    have hagain : (c.replace h { h with r := some preimage }).call cp lk
        (.fulfillHtlc owner id preimage) =
          (.removeErr .ALREADY_FULFILLED, c.replace h { h with r := some preimage }) := by
      have hget' : htlcGet (c.replace h { h with r := some preimage }).htlcs id owner =
          some { h with r := some preimage } := htlcGet_replace hget rfl rfl
      simp [Channel.call, fulfillCall, hget']
    have hne : e ≠ .ALREADY_FULFILLED := fun h' => startRemoval_ne_alreadyFulfilled h (h' ▸ he)
    simp only [Channel.replies, hcall, hagain]
    intro heq
    have hhead := congrArg Prod.fst (List.cons.inj heq).1
    exact hne (Reply.removeErr.inj hhead).symm
  | addHtlc _ _ _ | failHtlc _ _ | commitStep _ | updateFeerate _ | updateBlockheight _ | symSwapAdd _
  | symSwapRequest _ | symSwapCancel _ | symSwapDone => exact hstores.elim

/-- No later sequence of calls tells a channel after a refused change of HTLCs from one on which the
call was not made, exactly where it stored no preimage. -/
theorem refused_call_unseen_iff (hrefused : (c.call cp lk op).1.isError = true) :
    (∀ ops, (c.call cp lk op).2.replies cp lk ops = c.replies cp lk ops) ↔
      ¬ StoresPreimage lk c op := by
  constructor
  · intro hall hstores
    exact replies_ne_of_storesPreimage hrefused hstores (hall [op])
  · intro hstores ops
    rw [call_refused_eq hrefused hstores]

end trace

namespace Example

/-- The channel after a sequence of calls. -/
def after (c : Channel) (ops : List Op) : Channel :=
  ops.foldl (fun c op => (c.call params locks op).2) c

/-- Our HTLC in the second lane, irrevocably committed on both sides. -/
def payLocked : List Op :=
  [add .LOCAL 0 5000 1, .commitStep .sendingCommit, .commitStep .rcvdRevokeAndAck,
    .commitStep .rcvdCommit, .commitStep .sendingRevokeAndAck]

/-- A second failure of an HTLC that is being removed is refused, and nothing shows of it. -/
theorem refused_failure_unseen :
    ((after openChannel (payLocked ++ [.failHtlc .LOCAL 0])).call params locks
      (.failHtlc .LOCAL 0)).1 = .removeErr .HTLC_NOT_IRREVOCABLE ∧
    ∀ ops, ((after openChannel (payLocked ++ [.failHtlc .LOCAL 0])).call params locks
        (.failHtlc .LOCAL 0)).2.replies params locks ops =
      (after openChannel (payLocked ++ [.failHtlc .LOCAL 0])).replies params locks ops :=
  ⟨by decide +kernel, (refused_call_unseen_iff (by decide +kernel)).2 fun h => h⟩

/-- The peer fails our HTLC and then sends its preimage, which is refused. Once it commits, the
amount is the peer's; without the refused call it would be ours. -/
theorem refused_fulfill_pays_recipient :
    ((after openChannel (payLocked ++ [.failHtlc .LOCAL 0])).call params locks
      (.fulfillHtlc .LOCAL 0 preimage)).1 = .removeErr .HTLC_NOT_IRREVOCABLE ∧
    (after openChannel (payLocked ++ [.failHtlc .LOCAL 0, .fulfillHtlc .LOCAL 0 preimage,
      .commitStep .rcvdCommit])).owed .LOCAL 1 .LOCAL = 499995000 ∧
    (after openChannel (payLocked ++ [.failHtlc .LOCAL 0, .commitStep .rcvdCommit])).owed
      .LOCAL 1 .LOCAL = 500000000 := by
  decide +kernel

end Example

end SeqLN.Channeld
