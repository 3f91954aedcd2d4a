import Mathlib.Data.List.AList
import SeqLN.Lib.Runs
import SeqLN.Plugins.Crossasset

/-!
# The forwards of the cross-asset plugin

`contrib/crossasset-seq/crossasset.py` as a machine: the quotes and forwards that it keeps under its
lock, the records in `lightningd`'s datastore, the calls that are under way, and what `lightningd`
holds: the outgoing HTLCs, and which incoming ones it has acted on. A step is one region under the lock
or one RPC answer, so calls interleave in every way that the plugin's threads allow. A restart drops
everything but the datastore and what `lightningd` holds, which calls the hook again under the short
channel ids that the channels then have.

An exception on the hook's own thread is answered by the dispatcher of `pyln` with `hook_fallbacks`, a
temporary failure; one on the thread of `_wait_out` is not answered.
-/

namespace SeqLN.Crossasset

/-! ### Records -/

/-- What became of a forward; the reason for a failure is only logged. -/
inductive ForwardState where
  | forwarding
  | settled (preimage : Preimage)
  | failed
  deriving DecidableEq

/-- A quote that an HTLC has used. Source: the records of `FORWARDS` -/
structure Forward where
  quoteId : ℕ
  state : ForwardState
  /-- The incoming HTLC, `in` in the source. -/
  inKey : HtlcKey
  assetIn : AssetId
  amountInMsat : ℤ
  assetOut : AssetId
  amountOutMsat : ℤ
  outChannel : Option Scid
  outPeer : ByteString 33

abbrev Quotes := AList fun _ : PaymentHash => Quote

abbrev Forwards := AList fun _ : PaymentHash => Forward

/-- Source: `_open_forwards` -/
def openForwards (forwards : Forwards) (assetOut : AssetId) : ℕ :=
  (forwards.entries.filter fun f =>
    f.2.state = .forwarding ∧ f.2.assetOut = assetOut).length

/-! ### Quoting -/

/-- The arguments of `make_quote`. -/
structure QuoteArgs where
  paymentHash : PaymentHash
  assetIn : AssetId
  assetOut : AssetId
  amountOutMsat : ℤ
  seconds : Option ℤ

/-- How long a quote is good for. Source: `life` in `make_quote` -/
def QuoteArgs.life (cfg : Config) (a : QuoteArgs) : ℤ :=
  match a.seconds with
  | none => cfg.seconds
  | some n => min n cfg.seconds

/-- The checks of a request before and under the first lock, given what is published. Source:
`make_quote` -/
def quoteAllowed (cfg : Config) (forwards : Forwards) (pair : Option Pair) (a : QuoteArgs) :
    Option Pair :=
  if a.amountOutMsat ≤ 0 ∨ a.life cfg ≤ 0 then none
  else
    match pair with
    | none => none
    | some p =>
      if p.maxOutMsat ≠ 0 ∧ p.maxOutMsat < a.amountOutMsat then none
      else if (forwards.lookup a.paymentHash).any (·.state ≠ .failed) then none
      else if cfg.maxOpen ≤ openForwards forwards a.assetOut then none
      else some p

/-- The quote for a request, where the channels can carry it. Source: `make_quote`, between the two
locks -/
def quoteTerms (cfg : Config) (p : Pair) (a : QuoteArgs) (channels : Channels) (quoteId : ℕ)
    (now : ℚ) : Option Quote :=
  let usable := (channels.map Prod.snd).filter (·.normal)
  if usable.all (·.asset ≠ some a.assetIn) then none
  else if usable.all fun c => ¬ (c.asset = some a.assetOut ∧ a.amountOutMsat ≤ c.spendableMsat) then
    none
  else
    (amountInFor a.amountOutMsat p.rate p.feeBaseMsat p.feePpm).map fun amountIn =>
      { quoteId := quoteId, paymentHash := a.paymentHash, assetIn := a.assetIn,
        amountInMsat := amountIn, assetOut := a.assetOut, amountOutMsat := a.amountOutMsat,
        expiry := ⌊now⌋ + a.life cfg, cltvDelta := cfg.cltvDelta, maxOutCltv := cfg.maxOutCltv }

/-- The quotes without those that have expired. Source: the loop under the second lock of
`make_quote` -/
def pruneQuotes (now : ℚ) (quotes : Quotes) : Quotes :=
  ((quotes.entries.filter fun e => (e.2.expiry : ℚ) < now).map (·.1)).foldl
    (fun m k => m.erase k) quotes

/-- The quotes with a new one, and whether there was room for it.
Source: the second lock of `make_quote` -/
def storeQuote (cfg : Config) (now : ℚ) (quotes : Quotes) (q : Quote) : Quotes × Bool :=
  let pruned := pruneQuotes now quotes
  if cfg.maxQuotes ≤ pruned.entries.length ∧ (pruned.lookup q.paymentHash).isNone then
    (pruned, false)
  else (pruned.insert q.paymentHash q, true)

/-! ### Calls -/

/-- How the incoming HTLC is failed. -/
inductive Failure where
  /-- `400f`, with the amount and the height. -/
  | details (amountMsat height : ℤ)
  /-- `2002` -/
  | temporary
  | onion (reply : Bytes)
  deriving DecidableEq

/-- What the hook answers. -/
inductive Answer where
  | cont
  | fail (failure : Failure)
  | resolve (preimage : Preimage)
  deriving DecidableEq

/-- Where a hook call is. -/
inductive Stage where
  /-- Before the answer of `_channels`. -/
  | listing
  /-- Before the second lock, with the channel that the onion names. -/
  | taking (out : ChannelInfo)
  /-- The quote is spent; before `getinfo`. -/
  | measuring (q : Quote) (out : ChannelInfo)
  /-- Before `sendonion`. -/
  | sending (q : Quote) (out : ChannelInfo) (height : ℤ)
  /-- Before the lock in `_finish`, called by the hook after `getinfo` or `sendonion` raised. -/
  | abandoning
  /-- In the loop of `_wait_out`. -/
  | waiting
  /-- Before the lock in `_finish`, called by `_wait_out`. -/
  | finishing (preimage : Option Preimage) (onionreply : Option Bytes)
  /-- Before `request.set_result`. -/
  | answering (a : Answer)
  deriving DecidableEq

/-- A hook call: the `cltv_expiry_relative` it was made with, and where it is. -/
structure Call where
  cltvExpiryRelative : ℤ
  stage : Stage
  deriving DecidableEq

/-! ### Outgoing HTLCs -/

inductive Outcome where
  | pending
  | settled (preimage : Preimage)
  | failed
  deriving DecidableEq

/-- An HTLC that `sendonion` offered: its quote and incoming HTLC, the channel's asset and the
amount. -/
structure Outgoing where
  quote : Quote
  inKey : HtlcKey
  asset : AssetId
  amountMsat : ℤ
  delay : ℤ
  outcome : Outcome
  deriving DecidableEq

/-- Pending or settled: the incoming HTLC must not be failed. -/
def Outgoing.live (o : Outgoing) : Prop := o.outcome ≠ .failed

instance (o : Outgoing) : Decidable o.live := inferInstanceAs (Decidable (_ ≠ _))

/-- An answer, with the outgoing HTLCs that had been sent for the HTLC when it was given. -/
structure Answered where
  key : HtlcKey
  answer : Answer
  outgoing : List Outgoing

/-! ### The machine -/

/-- What does not change: the incoming HTLCs, the channel of each short channel id or alias, and the
channels' assets. -/
structure World where
  htlc : HtlcIn → Htlc
  channelOf : Scid → ℕ
  assetOf : Scid → AssetId

/-- The HTLC that `lightningd` reports under a key. -/
def World.htlcIn (w : World) (k : HtlcKey) : HtlcIn := ⟨w.channelOf k.shortChannelId, k.id⟩

/-- The hash of an incoming HTLC. -/
def World.hash (w : World) (k : HtlcKey) : PaymentHash := (w.htlc (w.htlcIn k)).paymentHash

/-- A listing names the asset of each channel that it gives one for. -/
def World.Lists (w : World) (channels : Channels) : Prop :=
  ∀ e ∈ channels, ∀ c ∈ e.2.scid, ∀ a ∈ e.2.asset, a = w.assetOf c

instance (w : World) (channels : Channels) : Decidable (w.Lists channels) :=
  inferInstanceAs (Decidable (∀ e ∈ channels, _))

structure State where
  quotes : Quotes
  forwards : Forwards
  /-- The datastore. -/
  disk : Forwards
  /-- Requests for quotes between the two locks of `make_quote`. -/
  quoting : List (QuoteArgs × Pair)
  /-- The hook calls under way. -/
  calls : AList fun _ : HtlcKey => Call
  /-- The HTLCs for which the hook was called since the last start. -/
  called : List HtlcIn
  /-- The HTLCs whose call was answered since the last start. -/
  replied : List HtlcIn
  /-- The HTLCs on whose answer `lightningd` has acted. -/
  delivered : List HtlcIn
  /-- The outgoing HTLCs, the newest first. -/
  sent : List Outgoing
  /-- The quotes that were given, the newest first. -/
  issued : List Quote
  answers : List Answered

/-- How a write to the datastore ends: stored, or an `RpcError` or another exception, after the
write or not. -/
inductive Persisted where
  | stored
  | rpcError (written : Bool)
  | exception (written : Bool)
  deriving DecidableEq

/-- Whether the record is in the datastore. -/
def Persisted.written : Persisted → Bool
  | .stored => true
  | .rpcError b => b
  | .exception b => b

/-- How `waitsendpay` ends. An `RpcError` whose error is a text and not a code is a lost
connection. -/
inductive WaitReply where
  | complete (preimage : Preimage)
  /-- Code 200. -/
  | timeout
  | failure (onionreply : Option Bytes)
  | lost
  | exception
  deriving DecidableEq

namespace State

/-- The plugin before its first start. -/
def init : State := ⟨∅, ∅, ∅, [], ∅, [], [], [], [], [], []⟩

section regions

variable (w : World) (cfg : Config) (s : State) (k : HtlcKey)

/-- The call goes on at a stage. -/
def moveTo (c : Call) (stage : Stage) : State :=
  { s with calls := s.calls.insert k { c with stage := stage } }

/-- The call is over. -/
def endCall : State := { s with calls := s.calls.erase k }

/-- A record is put in `FORWARDS` and written to the datastore.
Source: `_persist_forward` and the assignment before it -/
def putForward (ph : PaymentHash) (f : Forward) (r : Persisted) : State :=
  { s with
    forwards := s.forwards.insert ph f
    disk := if r.written then s.disk.insert ph f else s.disk }

/-- A forward gets its final state under the lock. Source: the lock of `_finish` -/
def finishForward (ph : PaymentHash) (st : ForwardState) (r : Persisted) : State :=
  match s.forwards.lookup ph with
  | none => s
  | some f => s.putForward ph { f with state := st } r

/-- The outgoing HTLCs for a hash, the newest first. Source: what `listsendpays` and `waitsendpay`
read -/
def pays (ph : PaymentHash) : List Outgoing := s.sent.filter fun o => w.hash o.inKey = ph

/-- The outgoing HTLCs that were sent for an incoming one, under whatever key. -/
def sentFor : List Outgoing := s.sent.filter fun o => w.htlcIn o.inKey = w.htlcIn k

/-- The dispatcher answers the call: an exception ended its thread. Source: `_dispatch_request` and
`hook_fallbacks` in `pyln/client/plugin.py` -/
def fallBack (c : Call) : State := s.moveTo k c (.answering (.fail .temporary))

/-- A replayed HTLC whose forward is on record; `listed` is whether `listsendpays` answered. Where
nothing was sent the answer does not depend on the datastore: an exception from it is answered as
`_finish` answers. Source: `_resume` -/
def resume (c : Call) (f : Forward) (listed : Bool) (r : Persisted) : State :=
  match f.state with
  | .settled preimage => s.moveTo k c (.answering (.resolve preimage))
  | .failed => s.moveTo k c (.answering (.fail .temporary))
  | .forwarding =>
    if listed = false then s.fallBack k c
    else if s.pays w (w.hash k) = [] then
      (s.finishForward (w.hash k) .failed r).moveTo k c (.answering (.fail .temporary))
    else s.moveTo k c .waiting

/-- The hook is called. Source: the first lock of `on_htlc_accepted` -/
def accept (cltvExpiryRelative : ℤ) (listed : Bool) (r : Persisted) : Option State :=
  if w.htlcIn k ∈ s.called ∨ w.htlcIn k ∈ s.delivered then none
  else
    let s' := { s with called := w.htlcIn k :: s.called }
    let c : Call := ⟨cltvExpiryRelative, .listing⟩
    match s.forwards.lookup (w.hash k) with
    | some f => some (if f.inKey = k then s'.resume w k c f listed r else s'.moveTo k c .listing)
    | none =>
      some (s'.moveTo k c (if (s.quotes.lookup (w.hash k)).isNone then .answering .cont
        else .listing))

/-- `_channels` answers, or raises. Source: `on_htlc_accepted`, between the two locks -/
def listed (c : Call) (reply : Option Channels) : Option State :=
  match reply with
  | none => some (s.fallBack k c)
  | some channels =>
    if w.Lists channels then
      let htlc := w.htlc (w.htlcIn k)
      some (s.moveTo k c
        (match htlc.onion.shortChannelId.bind (channels.lookup ·) with
        | none => .answering .cont
        | some out => if out.asset = htlc.asset then .answering .cont else .taking out))
    else none

/-- The record of a quote that an HTLC uses. Source: `fwd` in `on_htlc_accepted` -/
def newForward (q : Quote) (out : ChannelInfo) : Forward where
  quoteId := q.quoteId
  state := .forwarding
  inKey := k
  assetIn := q.assetIn
  amountInMsat := q.amountInMsat
  assetOut := q.assetOut
  amountOutMsat := q.amountOutMsat
  outChannel := out.scid
  outPeer := out.peerId

/-- What the plugin does with an HTLC that would cross assets. -/
inductive Decision where
  | answer (a : Answer)
  | spend (q : Quote)

/-- Source: the tests under the second lock of `on_htlc_accepted` -/
def decision (cltvExpiryRelative : ℤ) (out : ChannelInfo) (now : ℚ) : Decision :=
  let htlc := w.htlc (w.htlcIn k)
  let details := Failure.details htlc.amountMsat (htlc.cltvExpiry - cltvExpiryRelative)
  let fwd := s.forwards.lookup (w.hash k)
  match s.quotes.lookup (w.hash k) with
  | none => .answer (if fwd.isSome then .fail details else .cont)
  | some q =>
    if fwd.any (·.state ≠ .failed) then .answer (.fail details)
    else if (check now q htlc cltvExpiryRelative out).isSome then .answer (.fail details)
    else if cfg.maxOpen ≤ openForwards s.forwards q.assetOut then .answer (.fail .temporary)
    else .spend q

/-- Source: the second lock of `on_htlc_accepted` -/
def take (c : Call) (out : ChannelInfo) (now : ℚ) (r : Persisted) : State :=
  match s.decision w cfg k c.cltvExpiryRelative out now with
  | .answer a => s.moveTo k c (.answering a)
  | .spend q =>
    let s' := { s with quotes := s.quotes.erase (w.hash k) }
    let s' := s'.putForward (w.hash k) (newForward k q out) r
    if r = .stored then s'.moveTo k c (.measuring q out) else s'.fallBack k c

/-- `getinfo` answers, or raises. -/
def measured (c : Call) (q : Quote) (out : ChannelInfo) (height : Option ℤ) : State :=
  match height with
  | none => s.moveTo k c .abandoning
  | some height => s.moveTo k c (.sending q out height)

/-- `sendonion` answers. `lightningd` starts no second payment for a hash while one is pending, and
answers with a settled one. Source: `check_progress` in `lightningd/pay.c` -/
def sendonion (c : Call) (q : Quote) (out : ChannelInfo) (height : ℤ) (ok : Bool) : Option State :=
  let delay := (w.htlc (w.htlcIn k)).onion.outgoingCltvValue - height
  if ok = false then some (s.moveTo k c .abandoning)
  else if delay < 1 ∨ (s.pays w (w.hash k)).any (·.outcome = .pending) then none
  else if (s.pays w (w.hash k)).any (·.live) then some (s.moveTo k c .waiting)
  else
    out.scid.map fun scid =>
      { s.moveTo k c .waiting with
        sent := ⟨q, k, w.assetOf scid, q.amountOutMsat, delay, .pending⟩ :: s.sent }

/-- `waitsendpay` answers, from the newest payment for the hash. Source: the loop of `_wait_out` -/
def waited (c : Call) (reply : WaitReply) : Option State :=
  let newest := (s.pays w (w.hash k)).head?.map (·.outcome)
  match reply with
  | .complete preimage =>
    if newest = some (.settled preimage) then some (s.moveTo k c (.finishing (some preimage) none))
    else none
  | .timeout => some s
  | .failure onionreply =>
    if newest.all (· = .failed) then some (s.moveTo k c (.finishing none onionreply)) else none
  | .lost => some (s.moveTo k c (.finishing none none))
  | .exception => some s

/-- The lock of `_finish` on the hook's own thread; an exception from the datastore is answered as
`_finish` answers. Source: the handler of `sendonion` in `on_htlc_accepted` -/
def abandoned (c : Call) (r : Persisted) : State :=
  (s.finishForward (w.hash k) .failed r).moveTo k c (.answering (.fail .temporary))

/-- The lock of `_finish` on the thread of `_wait_out`: for a preimage inside the `try` there, so
that an `RpcError` from the datastore is taken for one from `waitsendpay`; without one in the
handler of that `try`, where an exception ends the thread without an answer. Source: `_finish`,
`_wait_out` -/
def finished (c : Call) (preimage : Option Preimage) (onionreply : Option Bytes) (r : Persisted) :
    State :=
  match preimage with
  | some p =>
    (s.finishForward (w.hash k) (.settled p) r).moveTo k c
      (match r with
      | .stored => .answering (.resolve p)
      | .rpcError _ => .finishing none none
      | .exception _ => .waiting)
  | none =>
    let s' := s.finishForward (w.hash k) .failed r
    if r = .stored then
      s'.moveTo k c (.answering (.fail (onionreply.elim .temporary .onion)))
    else s'.endCall k

/-- Source: `request.set_result` -/
def answer (a : Answer) : State :=
  { s.endCall k with
    replied := w.htlcIn k :: s.replied
    answers := ⟨k, a, s.sentFor w k⟩ :: s.answers }

end regions

/-- An outgoing HTLC that is pending settles or fails. -/
def outcome (s : State) (n : ℕ) (o : Outcome) : Option State :=
  match s.sent[n]? with
  | none => none
  | some out =>
    if out.outcome = .pending ∧ o ≠ .pending then
      some { s with sent := s.sent.set n { out with outcome := o } }
    else none

/-- The node stops, and starts again. Source: `init` -/
def restart (s : State) : State :=
  { s with quotes := ∅, forwards := s.disk, quoting := [], calls := ∅, called := [], replied := [] }

end State

/-! ### Steps and runs -/

/-- What a hook call waits for. -/
inductive CallEvent where
  | listed (reply : Option Channels)
  | taken (now : ℚ) (r : Persisted)
  | measured (height : Option ℤ)
  | sendonion (ok : Bool)
  | waited (reply : WaitReply)
  | finished (r : Persisted)
  | answered

inductive Event where
  /-- `make_quote` up to its first lock, with what is published for the pair. -/
  | quoteAsked (pair : Option Pair) (a : QuoteArgs)
  /-- The rest of `make_quote` for the `n`-th request under way; `channels` is `none` where an RPC
  call raises. -/
  | quoteMade (n : ℕ) (channels : Option Channels) (quoteId : ℕ) (signed stored : ℚ)
  | accepted (k : HtlcKey) (cltvExpiryRelative : ℤ) (listed : Bool) (r : Persisted)
  | call (k : HtlcKey) (e : CallEvent)
  | delivered (h : HtlcIn)
  | outcome (n : ℕ) (o : Outcome)
  | restarted

section step

variable (w : World) (cfg : Config)

/-- The rest of `make_quote`; the quote's number was never drawn before. -/
def State.quoteMade (s : State) (a : QuoteArgs) (p : Pair) (n : ℕ) (channels : Option Channels)
    (quoteId : ℕ) (signed stored : ℚ) : Option State :=
  let s' := { s with quoting := s.quoting.eraseIdx n }
  match channels.bind (quoteTerms cfg p a · quoteId signed) with
  | none => some s'
  | some q =>
    if q.quoteId ∈ s.issued.map (·.quoteId) then none
    else
      let quotes := storeQuote cfg stored s.quotes q
      some { s' with quotes := quotes.1, issued := if quotes.2 then q :: s.issued else s.issued }

/-- A hook call goes on. -/
def State.callStep (s : State) (k : HtlcKey) (c : Call) (e : CallEvent) : Option State :=
  match c.stage, e with
  | .listing, .listed reply => s.listed w k c reply
  | .taking out, .taken now r => some (s.take w cfg k c out now r)
  | .measuring q out, .measured height => some (s.measured k c q out height)
  | .sending q out height, .sendonion ok => s.sendonion w k c q out height ok
  | .waiting, .waited reply => s.waited w k c reply
  | .abandoning, .finished r => some (s.abandoned w k c r)
  | .finishing p reply, .finished r => some (s.finished w k c p reply r)
  | .answering a, .answered => some (s.answer w k a)
  | _, _ => none

/-- One step of the plugin or of what is around it. -/
def step (s : State) : Event → Option State
  | .quoteAsked pair a =>
    some (match quoteAllowed cfg s.forwards pair a with
      | none => s
      | some p => { s with quoting := s.quoting ++ [(a, p)] })
  | .quoteMade n channels quoteId signed stored =>
    s.quoting[n]?.bind fun req => s.quoteMade cfg req.1 req.2 n channels quoteId signed stored
  | .accepted k rel listed r => s.accept w k rel listed r
  | .call k e => (s.calls.lookup k).bind fun c => s.callStep w cfg k c e
  | .delivered h =>
    if h ∈ s.replied then some { s with delivered := h :: s.delivered } else none
  | .outcome n o => s.outcome n o
  | .restarted => some s.restart

/-- The state after a list of events. -/
def runFrom (s : State) (es : List Event) : Option State := es.foldlM (step w cfg) s

end step

end SeqLN.Crossasset
