import SeqLN.Channeld.Affordable
import SeqLN.Channeld.Agreement
import SeqLN.Channeld.SwapPromise

/-!
# A swap that two peers agreed on

One peer asks for a swap and the other accepts it; the swap then rides in the accepter's next
commitment, and the asker takes it if it still passes its check. `Net.ops` gives the operations of its
channel that a step of a peer makes.

`asked_swap_is_taken`: in a run in which a request is not cancelled, only what was asked for is
accepted, and `KeepsPromise` holds, the swap is taken. Without the last condition an HTLC that is paid
for by one being removed passes its own check, and the swap fails its second (`asked_swap_is_refused`).
-/

namespace SeqLN.Channeld

open HtlcState Lib List Option Function

/-! ### The operations of a step -/

variable {s : SymSwap} {st : CommitStep} {flags : ℕ} {a : Action} {swap : Option SymSwap}

/-- The operations of its channel that an action makes. -/
def Action.ops (p : Peer) : Action → List Op
  | .offerHtlc a => [.addHtlc .LOCAL { a with id := p.htlcId } true]
  | .fulfillHtlc id preimage => [.fulfillHtlc .REMOTE id preimage]
  | .failHtlc id => [.failHtlc .REMOTE id]
  | .updateFee feerate => [.updateFeerate feerate]
  | .symSwapRequest s => [.symSwapRequest s]
  | .symSwapCancel id => [.symSwapCancel id]
  | .symSwapAccept s => [.symSwapAdd { s with state := SENT_ADD_HTLC }]
  | .sendCommit => [.commitStep .sendingCommit]

/-- Taking the swap of a commitment: the request is dropped and the swap added. -/
def takeOps : Option SymSwap → List Op
  | none => []
  | some s => [.symSwapCancel s.id, .symSwapAdd { s with state := RCVD_ADD_HTLC }]

/-- The operations of the receiver's channel that a message makes. -/
def Msg.ops : Msg → List Op
  | .updateAddHtlc a => [.addHtlc .REMOTE a false]
  | .updateFulfillHtlc id preimage => [.fulfillHtlc .LOCAL id preimage]
  | .updateFailHtlc id => [.failHtlc .LOCAL id]
  | .updateFee feerate => [.updateFeerate feerate]
  | .commitmentSigned swap _ => takeOps swap ++
      [.commitStep .rcvdCommit, .commitStep .sendingRevokeAndAck, .symSwapDone]
  | .revokeAndAck => [.commitStep .rcvdRevokeAndAck, .symSwapDone]

/-- The operations of its channel that a step of peer `x` makes. -/
def Net.ops (n : Net) (x : Side) : Move → List Op
  | .act a => a.ops (n.peer x)
  | .hear => ((n.wire x.other).head?.map Msg.ops).getD []

section ops

variable {cp : ChainParams} {lk : Locks} {c c' : Channel} {p p' : Peer} {ms : List Msg}

/-- A run of operations, without a condition. -/
abbrev Channel.run (cp : ChainParams) (lk : Locks) (c : Channel) (ops : List Op) : Option Channel :=
  ops.foldlM (Channel.apply cp lk) c

/-- The first operation of a run. -/
theorem run_cons_of {op : Op} {ops : List Op} (h : c.apply cp lk op = some c') :
    c.run cp lk (op :: ops) = c'.run cp lk ops := by
  rw [Channel.run, foldlM_cons, h]
  rfl

/-- The first operations of a run. -/
theorem run_append_of {ops ops' : List Op} (h : c.run cp lk ops = some c') :
    c.run cp lk (ops ++ ops') = c'.run cp lk ops' := by
  rw [Channel.run] at h
  rw [Channel.run, foldlM_append, h]
  rfl

variable {ok : Channel → Op → Prop}

/-- A swap is accepted while none is asked for. -/
theorem unasked_of_accept (h : handleSymSwapAccept c s = some c') : c.symSwapReq = none := by
  obtain ⟨_, hreq, -⟩ := bind_eq_some_iff.1 h
  exact guard_eq_some.1 hreq

/-- Accepting a swap adds it. -/
theorem apply_swapAccept (h : handleSymSwapAccept c s = some c') :
    c.apply cp lk (.symSwapAdd { s with state := SENT_ADD_HTLC }) = some c' := by
  simp only [handleSymSwapAccept, bind_eq_bind, bind_eq_some_iff] at h
  obtain ⟨_, -, _, hcheck, h⟩ := h
  rw [Channel.apply, if_pos (guard_eq_some.1 hcheck)]
  exact h

/-- A call that commits or revokes, as an operation. -/
theorem apply_commitStep (h : changeHtlcs c st = some (c', flags)) :
    c.apply cp lk (.commitStep st) = some c' := by
  rw [Channel.apply, h, map_some]

/-- What a peer does on its own account runs the operations of the action. -/
theorem run_act (h : p.act cp lk a = some (p', ms)) :
    p.channel.run cp lk (a.ops p) = some p'.channel := by
  cases a with
  | offerHtlc | fulfillHtlc | failHtlc | symSwapRequest =>
    obtain ⟨c, hc, rfl, rfl⟩ := bind_pair_eq_some.1 h
    exact run_cons_of hc
  | updateFee value =>
    obtain ⟨_, -, h⟩ := bind_eq_some_iff.1 h
    obtain ⟨c, hc, rfl, rfl⟩ := bind_pair_eq_some.1 h
    exact run_cons_of hc
  | symSwapCancel id =>
    obtain ⟨rfl, rfl⟩ := Prod.mk.inj (some.inj h)
    rfl
  | symSwapAccept s =>
    obtain ⟨c, hc, rfl, rfl⟩ := bind_pair_eq_some.1 h
    exact run_cons_of (apply_swapAccept hc)
  | sendCommit =>
    obtain ⟨_, -, h⟩ := bind_eq_some_iff.1 h
    obtain ⟨⟨c, changed⟩, hc, h⟩ := bind_eq_some_iff.1 h
    obtain ⟨_, -, rfl, rfl⟩ := bind_pair_eq_some.1 h
    obtain ⟨flags, hchange⟩ := changed_of_map hc
    exact run_cons_of (apply_commitStep hchange)

/-- Taking a swap drops the request and adds the swap. -/
theorem apply_takePeerSwap (h : takePeerSwap c s = some c') :
    c.apply cp lk (.symSwapCancel s.id) = some { c with symSwapReq := none } ∧
      ({ c with symSwapReq := none } : Channel).apply cp lk
        (.symSwapAdd { s with state := RCVD_ADD_HTLC }) = some c' := by
  simp only [takePeerSwap, bind_eq_bind, bind_eq_some_iff] at h
  obtain ⟨req, hreq, _, hsame, _, hcheck, h⟩ := h
  have hid : c.symSwapReq.any (·.id == s.id) = true := by
    rw [hreq]
    simpa using (guard_eq_some.1 hsame).1
  constructor
  · rw [Channel.apply, handleSymSwapCancel, if_pos hid]
  · rw [Channel.apply, if_pos (guard_eq_some.1 hcheck)]
    exact h

/-- The swap of a commitment, as operations. -/
theorem run_takeSwap (h : takeSwap c swap = some c') : c.run cp lk (takeOps swap) = some c' := by
  cases swap with
  | none => exact h
  | some s =>
    obtain ⟨hcancel, hadd⟩ := apply_takePeerSwap h
    exact (run_cons_of hcancel).trans (run_cons_of hadd)

/-- What a peer does with a message runs the operations of the message. -/
theorem run_hear {m : Msg} (h : p.hear cp lk m = some (p', ms)) :
    p.channel.run cp lk m.ops = some p'.channel := by
  cases m with
  | updateAddHtlc | updateFulfillHtlc | updateFailHtlc =>
    obtain ⟨c, hc, rfl, rfl⟩ := bind_pair_eq_some.1 h
    exact run_cons_of hc
  | updateFee value =>
    obtain ⟨_, -, h⟩ := bind_eq_some_iff.1 h
    obtain ⟨c, hc, rfl, rfl⟩ := bind_pair_eq_some.1 h
    exact run_cons_of hc
  | commitmentSigned swap sent =>
    obtain ⟨c₂, htake, h⟩ := bind_eq_some_iff.1 h
    obtain ⟨⟨c₃, pending⟩, hsend, h⟩ := bind_eq_some_iff.1 h
    obtain ⟨rfl, rfl⟩ := Prod.mk.inj (some.inj h)
    obtain ⟨c₁, hswap, htake⟩ := bind_eq_some_iff.1 htake
    obtain ⟨⟨d, changed⟩, hrcvd, htake⟩ := bind_eq_some_iff.1 htake
    obtain rfl := some.inj htake
    obtain ⟨flags, hchange⟩ := changed_of_map hrcvd
    obtain ⟨flags', hchange'⟩ := changed_of_map hsend
    rw [Msg.ops, run_append_of (run_takeSwap hswap), run_cons_of (apply_commitStep hchange),
      run_cons_of (apply_commitStep hchange')]
    rfl
  | revokeAndAck =>
    obtain ⟨_, -, h⟩ := bind_eq_some_iff.1 h
    obtain ⟨⟨c, pending⟩, hrcvd, h⟩ := bind_eq_some_iff.1 h
    obtain ⟨rfl, rfl⟩ := Prod.mk.inj (some.inj h)
    obtain ⟨flags, hchange⟩ := changed_of_map hrcvd
    rw [Msg.ops, run_cons_of (apply_commitStep hchange)]
    rfl

/-- A step runs the operations of the peer that takes it, and leaves the other. -/
theorem Net.step_run {n n' : Net} {x : Side} {m : Move} (h : n.step cp lk x m = some n') :
    (n.peer x).channel.run cp lk (n.ops x m) = some (n'.peer x).channel ∧
      n'.peer x.other = n.peer x.other := by
  cases m with
  | act a =>
    obtain ⟨⟨p', ms⟩, hact, hn⟩ := bind_eq_some_iff.1 h
    obtain rfl := some.inj hn
    refine ⟨?_, update_of_ne (Side.other_ne x) _ _⟩
    refine (run_act hact).trans (congrArg (fun q : Peer => some q.channel) ?_)
    exact (update_self x p' n.peer).symm
  | hear =>
    obtain ⟨m, rest, p', ms, hwire, hhear, hpeer, -, -⟩ := Net.step_hear h
    rw [hpeer, update_self, update_of_ne (Side.other_ne x)]
    refine ⟨?_, rfl⟩
    rw [Net.ops, hwire]
    exact run_hear hhear

/-- A swap is added while none is asked for. -/
def Unasked (c : Channel) : Op → Prop
  | .symSwapAdd _ => c.symSwapReq = none
  | _ => True

/-- A run that adds no swap. -/
theorem Reachable.run_unasked [∀ c op, Decidable (ok c op)] {c₀ : Channel} {ops : List Op}
    (hno : ∀ op ∈ ops, ∀ c, Unasked c op)
    (hr : Reachable cp lk (fun c op => ok c op ∧ Unasked c op) c₀ c)
    (h : c.runWhile cp lk ok ops = some c') :
    Reachable cp lk (fun c op => ok c op ∧ Unasked c op) c₀ c' := by
  induction ops generalizing c with
  | nil => exact some.inj h ▸ hr
  | cons op ops ih =>
    obtain ⟨hok, d, hd, h⟩ := runWhile_cons h
    exact ih (fun o ho => hno o (mem_cons_of_mem op ho)) (hr.step ⟨hok, hno op mem_cons_self c⟩ hd) h

end ops

/-! ### What the peers keep to -/

variable {c : Channel}

/-- Every operation of a step meets a condition. -/
def Net.Meets (cp : ChainParams) (lk : Locks) (ok : Channel → Op → Prop)
    [∀ c op, Decidable (ok c op)] (n : Net) (x : Side) (m : Move) : Prop :=
  ((n.peer x).channel.runWhile cp lk ok (n.ops x m)).isSome = true

/-- A peer accepts a swap that the other has asked for, and does not cancel its own request. -/
def SwapHonest (n : Net) (x : Side) : Move → Prop
  | .act (.symSwapAccept s) =>
    (n.peer x.other).channel.symSwapReq.map SymSwap.terms = some s.terms
  | .act (.symSwapCancel id) => (n.peer x).channel.symSwapReq.map SymSwap.id ≠ some id
  | _ => True

/-- No check wraps around, and nothing comes back to a payer whose leg is promised. -/
def KeepsRoom (c : Channel) (op : Op) : Prop := ChecksFit c op ∧ KeepsPromise c op

instance (c : Channel) (op : Op) : Decidable (KeepsRoom c op) :=
  inferInstanceAs (Decidable (_ ∧ _))

instance (n : Net) (x : Side) : (m : Move) → Decidable (SwapHonest n x m)
  | .hear => .isTrue trivial
  | .act (.symSwapAccept _) => inferInstanceAs (Decidable (_ = _))
  | .act (.symSwapCancel _) => inferInstanceAs (Decidable (_ ≠ _))
  | .act (.offerHtlc _) | .act (.fulfillHtlc ..) | .act (.failHtlc _) | .act (.updateFee _)
  | .act (.symSwapRequest _) | .act .sendCommit => .isTrue trivial

instance (cp : ChainParams) (lk : Locks) (ok : Channel → Op → Prop)
    [∀ c op, Decidable (ok c op)] (n : Net) (x : Side) (m : Move) :
    Decidable (n.Meets cp lk ok x m) := inferInstanceAs (Decidable (_ = _))

section reach

variable {cp : ChainParams} {lk : Locks} {n n' : Net} {x : Side} {m : Move}
  {ok : Channel → Op → Prop} [∀ c op, Decidable (ok c op)]

/-- The operations of a step that meet a condition lead to the channel after it. -/
theorem Net.Meets.runWhile (hm : n.Meets cp lk ok x m) (h : n.step cp lk x m = some n') :
    (n.peer x).channel.runWhile cp lk ok (n.ops x m) = some (n'.peer x).channel := by
  obtain ⟨d, hd⟩ := isSome_iff_exists.1 hm
  rw [hd, ← foldlM_of_runWhile hd]
  exact (Net.step_run h).1

/-- A swap is added only while none is asked for: an accepter has asked for none, and one that is
taken was asked for. -/
theorem step_reach (hm : n.Meets cp lk ok x m) (h : n.step cp lk x m = some n') :
    Reachable cp lk (fun c op => ok c op ∧ Unasked c op) (n.peer x).channel
      (n'.peer x).channel := by
  have hrun := hm.runWhile h
  have hplain : (∀ op ∈ n.ops x m, ∀ c, Unasked c op) →
      Reachable cp lk (fun c op => ok c op ∧ Unasked c op) (n.peer x).channel
        (n'.peer x).channel := fun hno => Reachable.run_unasked hno .start hrun
  cases m with
  | act a =>
    cases a with
    | symSwapAccept s =>
      obtain ⟨⟨p', ms⟩, hact, hn⟩ := bind_eq_some_iff.1 h
      obtain ⟨c, hc, -⟩ := bind_eq_some_iff.1 hact
      obtain ⟨hok, c', happ, hrest⟩ := runWhile_cons hrun
      rw [← some.inj hrest]
      exact Lib.Reaches.start.step ⟨hok, unasked_of_accept hc⟩ happ
    | _ =>
      apply hplain
      intro op hop c
      rw [mem_singleton.1 hop]
      trivial
  | hear =>
    obtain ⟨m, rest, p', ms, hwire, hhear, -, -, -⟩ := Net.step_hear h
    have hops : n.ops x .hear = m.ops := by rw [Net.ops, hwire]; rfl
    rw [hops] at hplain hrun
    cases m with
    | commitmentSigned swap sent =>
      cases swap with
      | none =>
        apply hplain
        intro op hop c
        simp only [Msg.ops, takeOps, nil_append, mem_cons, not_mem_nil,
          or_false] at hop
        rcases hop with rfl | rfl | rfl <;> trivial
      | some s =>
        obtain ⟨c₂, htake, -⟩ := bind_eq_some_iff.1 hhear
        obtain ⟨c₁, hswap, -⟩ := bind_eq_some_iff.1 htake
        obtain ⟨hok₁, d₁, hd₁, hrun₁⟩ := runWhile_cons hrun
        obtain ⟨hok₂, d₂, hd₂, hrun₂⟩ := runWhile_cons hrun₁
        obtain rfl := some.inj ((apply_takePeerSwap hswap).1.symm.trans hd₁)
        refine Reachable.run_unasked ?_ ((Lib.Reaches.start.step ⟨hok₁, trivial⟩ hd₁).step
          ⟨hok₂, rfl⟩ hd₂) hrun₂
        intro op hop c
        simp only [nil_append, append_eq, mem_cons, not_mem_nil, or_false] at hop
        rcases hop with rfl | rfl | rfl <;> trivial
    | revokeAndAck =>
      apply hplain
      intro op hop c
      simp only [Msg.ops, mem_cons, not_mem_nil, or_false] at hop
      rcases hop with rfl | rfl <;> trivial
    | _ =>
      apply hplain
      intro op hop c
      rw [mem_singleton.1 hop]
      trivial

end reach

/-- Along the operations of a peer that keep the room, the swap asked for stays promised. -/
theorem Reachable.promised {cp : ChainParams} {lk : Locks} {setup : ChannelSetup}
    {feeStates heights : StateTable} {localMsat : ℕ → ℕ} {c₀ c' : Channel}
    (hnew : newFullChannel setup feeStates heights localMsat = some c₀)
    (hs : ∃ past, Sound c₀ past c) (hp : ∀ s ∈ c.symSwapReq, Promised c s)
    (hr : Reachable cp lk (fun c op => KeepsRoom c op ∧ Unasked c op) c c') :
    (∃ past, Sound c₀ past c') ∧ ∀ s ∈ c'.symSwapReq, Promised c' s := by
  induction hr with
  | start => exact ⟨hs, hp⟩
  | step _ hok happ ih =>
    obtain ⟨⟨past, hs⟩, hp⟩ := ih
    obtain ⟨⟨hfit, hkeep⟩, hunasked⟩ := hok
    have heff := apply_effect happ
    refine ⟨⟨_, hs.step hnew hfit heff⟩, fun s hm => ?_⟩
    apply Promised.step hnew hs hp hkeep hfit _ heff hm
    rintro t rfl
    exact hunasked

/-! ### The swap on its way -/

variable {ms : List Msg}

/-- The net after a peer has acted. -/
theorem Net.step_act {cp : ChainParams} {lk : Locks} {n n' : Net} {x : Side}
    (hstep : n.step cp lk x (.act a) = some n') :
    ∃ p' ms, (n.peer x).act cp lk a = some (p', ms) ∧ n'.peer = update n.peer x p' ∧
      n'.wire x.other = n.wire x.other ∧ n'.wire x = n.wire x ++ ms := by
  obtain ⟨⟨p', ms⟩, hact, hn⟩ := bind_eq_some_iff.1 hstep
  obtain rfl := some.inj hn
  exact ⟨p', ms, hact, rfl, update_of_ne (Side.other_ne x) _ _,
    update_self _ _ _⟩

/-- What peer `q` has asked for. -/
def Peer.asked (q : Peer) : Option SwapTerms := q.channel.symSwapReq.map SymSwap.terms

/-- A swap that `p` has accepted and not yet sent is what `q` has asked for. -/
def SwapReady (p q : Peer) : Prop :=
  ∀ s ∈ p.channel.symSwap, s.state = SENT_ADD_HTLC → q.asked = some s.terms

/-- A swap on the wire from `p` is what `q` has asked for, and `p` waits for it. -/
def SwapSent (ms : List Msg) (p q : Peer) : Prop :=
  ∀ s sent, Msg.commitmentSigned (some s) sent ∈ ms →
    q.asked = some s.terms ∧ ∃ t ∈ p.channel.symSwap, t.state = SENT_ADD_COMMIT

/-- Every swap on its way is one that was asked for. -/
def SwapsMatch (n : Net) : Prop :=
  ∀ y, SwapReady (n.peer y) (n.peer y.other) ∧ SwapSent (n.wire y) (n.peer y) (n.peer y.other)

lemma not_mem_of_countP (hno : ms.countP Msg.isCommit = 0) {sent : Channel} :
    Msg.commitmentSigned swap sent ∉ ms := by
  intro hm
  have := countP_eq_zero.1 hno _ hm
  exact this rfl

lemma SwapSent.of_no_commit (hno : ms.countP Msg.isCommit = 0) (p q : Peer) :
    SwapSent ms p q := fun _ _ hm => absurd hm (not_mem_of_countP hno)

lemma SwapSent.append {ms' : List Msg} {p q : Peer} (h : SwapSent ms p q)
    (h' : SwapSent ms' p q) : SwapSent (ms ++ ms') p q := by
  intro s sent hm
  rcases mem_append.1 hm with hm | hm
  · exact h s sent hm
  · exact h' s sent hm

lemma SwapSent.mono {ms' : List Msg} {p q : Peer} (h : SwapSent ms p q) (hsub : ms' ⊆ ms) :
    SwapSent ms' p q := fun s sent hm => h s sent (hsub hm)

/-- The asker may change what nothing on its way depends on. -/
theorem SwapSent.congr {p p' q q' : Peer} (h : SwapSent ms p q)
    (hswap : p'.channel.symSwap = p.channel.symSwap)
    (hreq : ∀ t, q.asked = some t → q'.asked = some t) : SwapSent ms p' q' := by
  intro s sent hm
  obtain ⟨hasked, ht⟩ := h s sent hm
  exact ⟨hreq _ hasked, hswap ▸ ht⟩

lemma SwapReady.congr {p p' q q' : Peer} (h : SwapReady p q)
    (hswap : p'.channel.symSwap = p.channel.symSwap)
    (hreq : ∀ t, q.asked = some t → q'.asked = some t) : SwapReady p' q' := by
  intro s hm hstate
  exact hreq _ (h s (hswap ▸ hm) hstate)

section swaps

variable {cp : ChainParams} {lk : Locks} {n n' : Net} {x : Side} {p' : Peer}

lemma SwapsMatch.update (hpeer : n'.peer = update n.peer x p')
    (hmine : SwapReady p' (n.peer x.other)) (hsent : SwapSent (n'.wire x) p' (n.peer x.other))
    (htheirs : SwapReady (n.peer x.other) p')
    (hcoming : SwapSent (n'.wire x.other) (n.peer x.other) p') : SwapsMatch n' := by
  have hself : n'.peer x = p' := by rw [hpeer, update_self]
  have hother : n'.peer x.other = n.peer x.other := by
    rw [hpeer, update_of_ne (Side.other_ne x)]
  intro y
  rcases y.eq_or_eq_other x with rfl | rfl
  · rw [hself, hother]
    exact ⟨hmine, hsent⟩
  · rw [Side.other_other, hself, hother]
    exact ⟨htheirs, hcoming⟩

lemma SwapsMatch.other (h : SwapsMatch n) (x : Side) :
    SwapReady (n.peer x.other) (n.peer x) ∧
      SwapSent (n.wire x.other) (n.peer x.other) (n.peer x) := by
  have := h x.other
  rwa [Side.other_other] at this

/-- A step that leaves the peer's own swap, and what it has asked for. -/
theorem SwapsMatch.same (h : SwapsMatch n) (hpeer : n'.peer = Function.update n.peer x p')
    (hout : n'.wire x = n.wire x ++ ms) (hno : ms.countP Msg.isCommit = 0)
    (hin : n'.wire x.other ⊆ n.wire x.other)
    (hswap : p'.channel.symSwap = (n.peer x).channel.symSwap)
    (hreq : ∀ t, (n.peer x).asked = some t → p'.asked = some t) : SwapsMatch n' := by
  obtain ⟨hready, hsent⟩ := h x
  obtain ⟨hready', hsent'⟩ := h.other x
  apply SwapsMatch.update hpeer
  · exact hready.congr hswap fun _ ht => ht
  · rw [hout]
    exact (hsent.congr hswap fun _ ht => ht).append (.of_no_commit hno _ _)
  · exact hready'.congr rfl hreq
  · exact (hsent'.mono hin).congr rfl hreq

lemma mem_symSwapDone (h : s ∈ (channelSymSwapDone c).symSwap) : s ∈ c.symSwap := by
  unfold channelSymSwapDone at h
  split at h
  · split at h
    · cases h
    · exact h
  · exact h

lemma mem_symSwapDone_of (h : s ∈ c.symSwap) (hd : ¬ s.Done) :
    s ∈ (channelSymSwapDone c).symSwap := by
  unfold channelSymSwapDone
  rw [show c.symSwap = some s from h]
  dsimp only
  rw [if_neg (c := s.state = SENT_ADD_ACK_REVOCATION ∨ s.state = RCVD_ADD_ACK_REVOCATION) hd]
  exact h

lemma symSwapReq_done (c : Channel) : (channelSymSwapDone c).symSwapReq = c.symSwapReq := by
  unfold channelSymSwapDone
  split
  · split <;> rfl
  · rfl

lemma advance_eq_fresh {s : HtlcState} (h : st.advance s = SENT_ADD_HTLC) :
    s = SENT_ADD_HTLC ∧ st ≠ .sendingCommit := by
  revert st s
  decide

/-- The operations on one HTLC. -/
def Op.isHtlc : Op → Bool
  | .addHtlc .. | .fulfillHtlc .. | .failHtlc .. => true
  | _ => false

/-- An HTLC's steps leave the swap and what is asked for. -/
theorem swaps_of_effect {c' : Channel} {op : Op} (h : Effect cp lk c op c')
    (hop : op.isHtlc = true) : c'.symSwap = c.symSwap ∧ c'.symSwapReq = c.symSwapReq := by
  cases h with
  | add | fulfill | fail => exact ⟨rfl, rfl⟩
  | quiet op _ _ _ quiet =>
    revert quiet hop
    cases op <;> simp [Op.isQuiet, Op.isHtlc]
  | swapAdd | swapDone | swapWaits | commitStep => cases hop

/-- A swap that was asked for is accepted. -/
theorem SwapsMatch.accept (h : SwapsMatch n) (hpeer : n'.peer = Function.update n.peer x p')
    (hout : n'.wire x = n.wire x) (hin : n'.wire x.other = n.wire x.other)
    (hidle : (n.peer x).channel.symSwap = none) (hswap : p'.channel.symSwap = some s)
    (hasked : (n.peer x.other).asked = some s.terms)
    (hreq : p'.channel.symSwapReq = (n.peer x).channel.symSwapReq) : SwapsMatch n' := by
  obtain ⟨-, hsent⟩ := h x
  obtain ⟨hready', hsent'⟩ := h.other x
  have hsame : ∀ t, (n.peer x).asked = some t → p'.asked = some t := fun t ht => by
    rwa [Peer.asked, hreq]
  apply SwapsMatch.update hpeer
  · intro t ht _
    rw [hasked, some.inj (hswap.symm.trans ht)]
  · rw [hout]
    intro t sent hm
    obtain ⟨-, u, hu, -⟩ := hsent t sent hm
    cases hidle.symm.trans hu
  · exact hready'.congr rfl hsame
  · rw [hin]
    exact hsent'.congr rfl hsame

/-- A commitment goes out, with the swap that was ready. -/
theorem SwapsMatch.commit (h : SwapsMatch n) (hpeer : n'.peer = Function.update n.peer x p')
    (hout : n'.wire x = n.wire x ++ [.commitmentSigned (seqSwap p'.channel) p'.channel])
    (hin : n'.wire x.other = n.wire x.other) (hno : (n.wire x).countP Msg.isCommit = 0)
    (hfree : ∀ s ∈ (n.peer x).channel.symSwap, s.state ≠ SENT_ADD_COMMIT)
    (hc : changeHtlcs (n.peer x).channel .sendingCommit = some (p'.channel, flags)) :
    SwapsMatch n' := by
  obtain ⟨hready, -⟩ := h x
  obtain ⟨hready', hsent'⟩ := h.other x
  obtain ⟨-, -, -, -, hswap, hreq, -⟩ := changeHtlcs_spec hc
  have hsame : ∀ t, (n.peer x).asked = some t → p'.asked = some t := fun t ht => by
    rwa [Peer.asked, hreq]
  apply SwapsMatch.update hpeer
  · intro s hs hstate
    obtain ⟨t, -, rfl⟩ := map_eq_some_iff.1 (hswap.symm.trans hs)
    exact absurd rfl (advance_eq_fresh hstate).2
  · rw [hout]
    refine (SwapSent.of_no_commit hno _ _).append ?_
    intro s sent hm
    obtain ⟨hseq, -⟩ := Msg.commitmentSigned.inj (mem_singleton.1 hm)
    obtain ⟨hs, hstate⟩ := filter_eq_some_iff.1 hseq.symm
    refine ⟨?_, s, hs, of_decide_eq_true hstate⟩
    obtain ⟨t, ht, rfl⟩ := map_eq_some_iff.1 (hswap.symm.trans hs)
    rcases advance_eq_sent.1 (of_decide_eq_true hstate) with ⟨hsent, -⟩ | ⟨hfresh, -⟩
    · exact absurd hsent (hfree t ht)
    · exact hready t ht hfresh
  · exact hready'.congr rfl hsame
  · rw [hin]
    exact hsent'.congr rfl hsame

variable {setup : Side → ChannelSetup} {init : Side → ℕ → Side → ℤ} {feerate : ℕ}
  {past : Side → Past} {log : Side → Side → StagedLog Update}

/-- A peer's action keeps the swaps matched. -/
theorem SwapsMatch.act (h : SwapsMatch n) (hl : Linked setup init feerate n past log)
    (hhonest : SwapHonest n x (.act a)) (hstep : n.step cp lk x (.act a) = some n') :
    SwapsMatch n' := by
  obtain ⟨p', ms, hact, hpeer, hin, hout⟩ := Net.step_act hstep
  have hsub : n'.wire x.other ⊆ n.wire x.other := by
    rw [hin]
    exact List.Subset.refl _
  have hsame : ∀ {ms : List Msg}, n'.wire x = n.wire x ++ ms → ms.countP Msg.isCommit = 0 →
      p'.channel.symSwap = (n.peer x).channel.symSwap ∧
        p'.channel.symSwapReq = (n.peer x).channel.symSwapReq → SwapsMatch n' := by
    rintro ms hout hno ⟨hswap, hreq⟩
    refine h.same hpeer hout hno hsub hswap fun t ht => ?_
    rwa [Peer.asked, hreq]
  cases a with
  | offerHtlc | fulfillHtlc | failHtlc =>
    obtain ⟨c, hc, rfl, rfl⟩ := bind_pair_eq_some.1 hact
    exact hsame hout rfl (swaps_of_effect (apply_effect hc) rfl)
  | updateFee value =>
    obtain ⟨_, -, hact⟩ := bind_eq_some_iff.1 hact
    obtain ⟨c, hc, rfl, rfl⟩ := bind_pair_eq_some.1 hact
    obtain rfl := channelUpdateFeerate_eq hc
    exact hsame hout rfl ⟨rfl, rfl⟩
  | symSwapRequest s =>
    obtain ⟨c, hc, rfl, rfl⟩ := bind_pair_eq_some.1 hact
    obtain ⟨_, hnone, hc⟩ := bind_eq_some_iff.1 hc
    obtain ⟨_, -, hc⟩ := bind_eq_some_iff.1 hc
    obtain rfl := some.inj hc
    refine h.same hpeer hout rfl hsub rfl fun t ht => ?_
    -- nothing on its way was asked for before
    rw [Peer.asked, guard_eq_some.1 hnone] at ht
    cases ht
  | symSwapCancel id =>
    obtain ⟨rfl, rfl⟩ := Prod.mk.inj (some.inj hact)
    have hkeep : handleSymSwapCancel (n.peer x).channel id = (n.peer x).channel := by
      unfold handleSymSwapCancel
      rw [if_neg]
      intro hany
      obtain ⟨s, hs, hid⟩ := (Option.any_eq_true _ _).1 hany
      apply hhonest
      rw [hs, map_some, beq_iff_eq.1 hid]
    exact hsame hout rfl ⟨congrArg Channel.symSwap hkeep, congrArg Channel.symSwapReq hkeep⟩
  | symSwapAccept s =>
    obtain ⟨c, hc, rfl, rfl⟩ := bind_pair_eq_some.1 hact
    simp only [handleSymSwapAccept, channelSymSwapAdd, bind_eq_bind,
      bind_eq_some_iff] at hc
    obtain ⟨_, -, _, -, _, hidle, _, -, hc⟩ := hc
    obtain rfl := some.inj hc
    exact h.accept hpeer (hout.trans (append_nil _)) hin (guard_eq_some.1 hidle) rfl hhonest rfl
  | sendCommit =>
    obtain ⟨_, hfree, hact⟩ := bind_eq_some_iff.1 hact
    obtain ⟨⟨c, changed⟩, hc, hact⟩ := bind_eq_some_iff.1 hact
    obtain ⟨_, -, rfl, rfl⟩ := bind_pair_eq_some.1 hact
    obtain ⟨flags, hchange⟩ := changed_of_map hc
    have hfree := guard_eq_some.1 hfree
    have hwaits := hl.waits x
    rw [unrevoked, hfree, if_neg Bool.false_ne_true] at hwaits
    apply h.commit hpeer hout hin (by omega) _ hchange
    intro s hs hstate
    rw [(hl.peers x).waits s hs hstate] at hfree
    cases hfree

lemma change_fresh {c' : Channel} (hc : changeHtlcs c st = some (c', flags))
    (hs : s ∈ (channelSymSwapDone c').symSwap) (hstate : s.state = SENT_ADD_HTLC) :
    ∃ t ∈ c.symSwap, t.state = SENT_ADD_HTLC ∧ t.terms = s.terms := by
  obtain ⟨-, -, -, -, hswap, -⟩ := changeHtlcs_spec hc
  obtain ⟨t, ht, rfl⟩ := map_eq_some_iff.1 (hswap.symm.trans (mem_symSwapDone hs))
  exact ⟨t, ht, (advance_eq_fresh hstate).1, rfl⟩

/-- A commitment is heard: what was sent and what was ready stays so. -/
theorem SwapsMatch.hear_commit (h : SwapsMatch n) {sent : Channel} {rest : List Msg}
    (hwire : n.wire x.other = .commitmentSigned swap sent :: rest)
    (hhear : (n.peer x).hear cp lk (.commitmentSigned swap sent) = some (p', ms))
    (hpeer : n'.peer = Function.update n.peer x p') (hrest : n'.wire x.other = rest)
    (hout : n'.wire x = n.wire x ++ ms) (hno : rest.countP Msg.isCommit = 0) : SwapsMatch n' := by
  obtain ⟨hready, hsent⟩ := h x
  obtain ⟨hready', hsent'⟩ := h.other x
  obtain ⟨c₂, htake, hhear⟩ := bind_eq_some_iff.1 hhear
  obtain ⟨⟨c₃, pending⟩, hsend, hhear⟩ := bind_eq_some_iff.1 hhear
  obtain ⟨rfl, rfl⟩ := Prod.mk.inj (some.inj hhear)
  obtain ⟨c₁, hswap, htake⟩ := bind_eq_some_iff.1 htake
  obtain ⟨⟨d, changed⟩, hrcvd, htake⟩ := bind_eq_some_iff.1 htake
  obtain rfl := some.inj htake
  obtain ⟨flags, hchange⟩ := changed_of_map hrcvd
  obtain ⟨flags', hchange'⟩ := changed_of_map hsend
  obtain ⟨-, -, -, -, hswap₁, hreq₁, -⟩ := changeHtlcs_spec hchange
  obtain ⟨-, -, -, -, hswap₂, hreq₂, -⟩ := changeHtlcs_spec hchange'
  have hfresh : ∀ s ∈ (channelSymSwapDone c₃).symSwap, s.state = SENT_ADD_HTLC →
      ∃ t ∈ c₁.symSwap, t.state = SENT_ADD_HTLC ∧ t.terms = s.terms := by
    intro s hs hstate
    obtain ⟨t, ht, hstate, hterms⟩ := change_fresh hchange' hs hstate
    obtain ⟨u, hu, rfl⟩ := map_eq_some_iff.1 (hswap₁.symm.trans ht)
    exact ⟨u, hu, (advance_eq_fresh hstate).1, hterms⟩
  cases swap with
  | none =>
    obtain rfl := some.inj hswap
    have hreq : (channelSymSwapDone c₃).symSwapReq = (n.peer x).channel.symSwapReq := by
      rw [symSwapReq_done, hreq₂, hreq₁]
    apply SwapsMatch.update hpeer
    · intro s hs hstate
      obtain ⟨t, ht, hstate, hterms⟩ := hfresh s hs hstate
      rw [← hterms]
      exact hready t ht hstate
    · rw [hout]
      refine SwapSent.append ?_ (.of_no_commit rfl _ _)
      intro s sent hm
      obtain ⟨hasked, t, ht, hstate⟩ := hsent s sent hm
      have hmem : CommitStep.sendingRevokeAndAck.advanceSwap
          (CommitStep.rcvdCommit.advanceSwap t) ∈ c₃.symSwap := by
        rw [hswap₂, hswap₁, show (n.peer x).channel.symSwap = some t from ht]
        rfl
      have hsame : (CommitStep.sendingRevokeAndAck.advanceSwap
          (CommitStep.rcvdCommit.advanceSwap t)).state = SENT_ADD_COMMIT := by
        change CommitStep.sendingRevokeAndAck.advance (CommitStep.rcvdCommit.advance t.state) = _
        rw [hstate]
        rfl
      refine ⟨hasked, _, mem_symSwapDone_of hmem ?_, hsame⟩
      rw [SymSwap.Done, hsame]
      decide
    · exact hready'.congr rfl fun t ht => by rwa [Peer.asked, hreq]
    · rw [hrest]
      exact .of_no_commit hno _ _
  | some s =>
    obtain ⟨hidle, -, rfl⟩ := takePeerSwap_spec hswap
    obtain ⟨-, t, ht, hstate⟩ := hsent' s sent (hwire ▸ mem_cons_self)
    apply SwapsMatch.update hpeer
    · intro u hu hfreshState
      obtain ⟨v, hv, hvstate, -⟩ := hfresh u hu hfreshState
      rw [← some.inj hv] at hvstate
      cases hvstate
    · rw [hout]
      refine SwapSent.append ?_ (.of_no_commit rfl _ _)
      intro u sent hm
      obtain ⟨-, v, hv, -⟩ := hsent u sent hm
      cases hidle.symm.trans hv
    -- the other's swap is the one it has just sent
    · intro u hu hfreshState
      rw [some.inj (hu.symm.trans ht), hstate] at hfreshState
      cases hfreshState
    · rw [hrest]
      exact .of_no_commit hno _ _

/-- So does a message that is heard. -/
theorem SwapsMatch.hear (h : SwapsMatch n) (hl : Linked setup init feerate n past log)
    (hstep : n.step cp lk x .hear = some n') : SwapsMatch n' := by
  obtain ⟨m, rest, p', ms, hwire, hhear, hpeer, hrest, hout⟩ := Net.step_hear hstep
  have hwx := hl.waits x
  have hwo := hl.waits_other x
  rw [hwire] at hwx hwo
  have hsub : n'.wire x.other ⊆ n.wire x.other := by
    rw [hrest, hwire]
    exact subset_cons_self m rest
  have hsame : ms = [] → p'.channel.symSwap = (n.peer x).channel.symSwap ∧
      p'.channel.symSwapReq = (n.peer x).channel.symSwapReq → SwapsMatch n' := by
    rintro rfl ⟨hswap, hreq⟩
    refine h.same hpeer hout rfl hsub hswap fun t ht => ?_
    rwa [Peer.asked, hreq]
  cases m with
  | updateAddHtlc | updateFulfillHtlc | updateFailHtlc =>
    obtain ⟨c, hc, rfl, rfl⟩ := bind_pair_eq_some.1 hhear
    exact hsame rfl (swaps_of_effect (apply_effect hc) rfl)
  | updateFee value =>
    obtain ⟨_, -, hhear⟩ := bind_eq_some_iff.1 hhear
    obtain ⟨c, hc, rfl, rfl⟩ := bind_pair_eq_some.1 hhear
    obtain rfl := channelUpdateFeerate_eq hc
    exact hsame rfl ⟨rfl, rfl⟩
  | commitmentSigned swap sent =>
    apply h.hear_commit hwire hhear hpeer hrest hout
    rw [countP_cons_of_pos rfl, unrevoked] at hwo
    split at hwo <;> omega
  | revokeAndAck =>
    obtain ⟨hready, hsent⟩ := h x
    obtain ⟨hready', hsent'⟩ := h.other x
    obtain ⟨_, hwait, hhear⟩ := bind_eq_some_iff.1 hhear
    obtain ⟨⟨c, pending⟩, hrcvd, hhear⟩ := bind_eq_some_iff.1 hhear
    obtain ⟨rfl, rfl⟩ := Prod.mk.inj (some.inj hhear)
    obtain ⟨flags, hchange⟩ := changed_of_map hrcvd
    obtain ⟨-, -, -, -, -, hreq, -⟩ := changeHtlcs_spec hchange
    have hasked : ∀ t, (n.peer x).asked = some t →
        (⟨channelSymSwapDone c, false, (n.peer x).htlcId⟩ : Peer).asked = some t := by
      intro t ht
      rwa [Peer.asked, symSwapReq_done, hreq]
    rw [countP_cons_of_pos rfl, unrevoked, guard_eq_some.1 hwait, if_pos rfl] at hwx
    apply SwapsMatch.update hpeer
    · intro s hs hstate
      obtain ⟨t, ht, hstate, hterms⟩ := change_fresh hchange hs hstate
      rw [← hterms]
      exact hready t ht hstate
    · rw [hout, append_nil]
      exact .of_no_commit (by omega) _ _
    · exact hready'.congr rfl hasked
    · exact (hsent'.mono hsub).congr rfl hasked

lemma SwapsMatch.step (h : SwapsMatch n) (hl : Linked setup init feerate n past log) {m : Move}
    (hhonest : SwapHonest n x m) (hstep : n.step cp lk x m = some n') : SwapsMatch n' := by
  cases m with
  | act a => exact h.act hl hhonest hstep
  | hear => exact h.hear hl hstep

end swaps

/-! ### The swap is taken -/

/-- A step that keeps to what was asked for and whose operations keep the room for it. -/
def SwapStep (cp : ChainParams) (lk : Locks) (n : Net) (x : Side) (m : Move) : Prop :=
  SwapHonest n x m ∧ n.Meets cp lk KeepsRoom x m

instance (cp : ChainParams) (lk : Locks) (n : Net) (x : Side) (m : Move) :
    Decidable (SwapStep cp lk n x m) := inferInstanceAs (Decidable (_ ∧ _))

/-- What a swap that was asked for needs in order to be taken. -/
theorem Promised.taken {req : SymSwap} (hp : Promised c req) (hreq : c.symSwapReq = some req)
    (hterms : req.terms = s.terms) : (takePeerSwap c s).isSome = true := by
  obtain ⟨hid, hgl, htl, hg, ht⟩ := SwapTerms.mk.inj hterms
  have hs : { s with state := RCVD_ADD_HTLC } = req := by
    rw [← hid, ← hgl, ← htl, ← hg, ← ht, ← hp.state]
  have hcheck := hp.check
  rw [hp.idle] at hcheck
  simp [takePeerSwap, channelSymSwapAdd, hreq, hs, hid, hgl, htl, hg, ht, hcheck, hp.idle]

section taken

variable {cp : ChainParams} {lk : Locks} {setup : ChannelSetup} {feerate blockheight : ℕ}
  {localMsat : ℕ → ℕ}

lemma Net.start_new {n₀ : Net}
    (h : Net.start setup feerate blockheight localMsat = some n₀) (x : Side) :
    ∃ s f b m, newFullChannel s f b m = some (n₀.peer x).channel := by
  obtain ⟨c, hc, h⟩ := bind_eq_some_iff.1 h
  obtain ⟨d, hd, h⟩ := bind_eq_some_iff.1 h
  obtain rfl := some.inj h
  cases x
  · exact ⟨_, _, _, _, hc⟩
  · exact ⟨_, _, _, _, hd⟩

lemma newFullChannel_quiet {feeStates heights : StateTable}
    (h : newFullChannel setup feeStates heights localMsat = some c) :
    c.symSwap = none ∧ c.symSwapReq = none := by
  unfold newFullChannel at h
  split at h
  · rw [← some.inj h]
    exact ⟨rfl, rfl⟩
  · cases h

lemma Net.start_quiet {n₀ : Net}
    (h : Net.start setup feerate blockheight localMsat = some n₀) (x : Side) :
    (n₀.peer x).channel.symSwap = none ∧ (n₀.peer x).channel.symSwapReq = none ∧
      n₀.wire x = [] := by
  obtain ⟨_, _, _, _, hnew⟩ := Net.start_new h x
  obtain ⟨c, hc, h⟩ := bind_eq_some_iff.1 h
  obtain ⟨d, hd, h⟩ := bind_eq_some_iff.1 h
  obtain rfl := some.inj h
  obtain ⟨hswap, hreq⟩ := newFullChannel_quiet hnew
  exact ⟨hswap, hreq, rfl⟩

/-- Where no request is cancelled, only what was asked for is accepted, no check wraps around, and
nothing is being returned to the payer of a leg when the swap is asked for or the payer adds an HTLC
in its lane, the asker takes a swap that arrives. -/
theorem asked_swap_is_taken {n₀ n : Net}
    (hstart : Net.start setup feerate blockheight localMsat = some n₀)
    (hreach : Net.Reachable cp lk (SwapStep cp lk) n₀ n) {x : Side} {s : SymSwap}
    {sent : Channel} {rest : List Msg}
    (hwire : n.wire x.other = .commitmentSigned (some s) sent :: rest) :
    (takePeerSwap (n.peer x).channel s).isSome = true := by
  have hrun : (∃ past log, Linked (fun x => (n₀.peer x).channel.setup)
      (fun x => (n₀.peer x).channel.start) feerate n past log) ∧ SwapsMatch n ∧
      ∀ y, (∃ past, Sound (n₀.peer y).channel past (n.peer y).channel) ∧
        ∀ t ∈ (n.peer y).channel.symSwapReq, Promised (n.peer y).channel t := by
    clear hwire
    induction hreach with
    | start =>
      have hnone : ∀ y, (n₀.peer y).channel.symSwap = none ∧
          (n₀.peer y).channel.symSwapReq = none ∧ n₀.wire y = [] := Net.start_quiet hstart
      refine ⟨⟨_, _, (Net.start_spec hstart).linked⟩, fun y => ⟨?_, ?_⟩, fun y => ⟨?_, ?_⟩⟩
      · intro t ht
        cases (hnone y).1.symm.trans ht
      · rw [(hnone y).2.2]
        exact .of_no_commit rfl _ _
      · obtain ⟨_, _, _, _, hnew⟩ := Net.start_new hstart y
        exact ⟨⟨[], []⟩, rfl, Ledger.start hnew, Solvent.start hnew⟩
      · intro t ht
        cases (hnone y).2.1.symm.trans ht
    | @step m m' e _ hok hstep ih =>
      obtain ⟨z, move⟩ := e
      obtain ⟨⟨past, log, hl⟩, hmatch, hpeers⟩ := ih
      obtain ⟨hhonest, hmeets⟩ := hok
      refine ⟨hl.step hstep, hmatch.step hl hhonest hstep, fun y => ?_⟩
      rcases y.eq_or_eq_other z with rfl | rfl
      · obtain ⟨_, _, _, _, hnew⟩ := Net.start_new hstart y
        exact Reachable.promised hnew (hpeers y).1 (hpeers y).2 (step_reach hmeets hstep)
      · rw [(Net.step_run hstep).2]
        exact hpeers z.other
  obtain ⟨-, hmatch, hpeers⟩ := hrun
  obtain ⟨-, hsent⟩ := hmatch.other x
  obtain ⟨hasked, -⟩ := hsent s sent (hwire ▸ mem_cons_self)
  obtain ⟨req, hreq, hterms⟩ := map_eq_some_iff.1 hasked
  exact ((hpeers x).2 req hreq).taken hreq hterms

end taken

/-! ### Two runs -/

namespace Example

/-- The head of a wire carries a swap. -/
def carriesSwap : List Msg → Option SymSwap
  | .commitmentSigned (some s) _ :: _ => some s
  | _ => none

/-- The message that carries it. -/
theorem carriesSwap_eq (h : carriesSwap ms = some s) :
    ∃ sent rest, ms = .commitmentSigned (some s) sent :: rest := by
  unfold carriesSwap at h
  split at h
  · next s' sent rest =>
    obtain rfl := some.inj h
    exact ⟨sent, rest, rfl⟩
  · cases h

/-- Both commit to an HTLC of the first peer in the second lane. It then asks for a swap in which it
pays in that lane, and offers another HTLC there; the other fails the first HTLC and accepts. -/
def payWhileAsked : List (Side × Move) :=
  [(.LOCAL, .act (.offerHtlc (htlc 5000))), (.LOCAL, .act .sendCommit),
    (.REMOTE, .hear), (.REMOTE, .hear), (.REMOTE, .act .sendCommit),
    (.LOCAL, .hear), (.LOCAL, .hear), (.REMOTE, .hear),
    (.LOCAL, .act (.symSwapRequest ⟨3, RCVD_ADD_HTLC, 0, 1, 70000, 90000⟩)),
    (.LOCAL, .act (.offerHtlc (htlc 6000))), (.REMOTE, .act (.failHtlc 0)),
    (.REMOTE, .act (.symSwapAccept ⟨3, SENT_ADD_HTLC, 0, 1, 70000, 90000⟩)),
    (.LOCAL, .act .sendCommit), (.REMOTE, .hear), (.REMOTE, .hear), (.REMOTE, .act .sendCommit),
    (.LOCAL, .hear), (.LOCAL, .hear)]

/-- A run in which the swap is taken with an HTLC being added and another being removed. -/
theorem asked_swap_is_taken_payWhileAsked : ∃ (n : Net) (s : SymSwap) (sent : Channel)
    (rest : List Msg),
    peers.runWhile params locks (SwapStep params locks) payWhileAsked = some n ∧
      n.wire .REMOTE = .commitmentSigned (some s) sent :: rest ∧
      (takePeerSwap (n.peer .LOCAL).channel s).isSome = true := by
  have hrun : ((peers.runWhile params locks (SwapStep params locks) payWhileAsked).any fun n =>
      (carriesSwap (n.wire .REMOTE)).isSome) = true := by
    decide +kernel
  obtain ⟨n, hn, hwire⟩ := (Option.any_eq_true _ _).1 hrun
  obtain ⟨s, hs⟩ := isSome_iff_exists.1 hwire
  obtain ⟨sent, rest, hw⟩ := carriesSwap_eq hs
  exact ⟨n, s, sent, rest, hn, hw,
    asked_swap_is_taken peers_start (Reaches.start.runWhile hn) (x := .LOCAL) hw⟩

/-- The first peer pays 100,000,000 in the second lane and both commit to it. It asks for a swap in
which it takes all but a rest of what the other has of that lane. The other fails the HTLC; before
the first peer's view has dropped it, the first peer pays 120,000,000 against what comes back, and
the other accepts the swap. -/
def payAgainstRemoval : List (Side × Move) :=
  [(.LOCAL, .act (.offerHtlc (htlc 100000000))), (.LOCAL, .act .sendCommit),
    (.REMOTE, .hear), (.REMOTE, .hear), (.REMOTE, .act .sendCommit),
    (.LOCAL, .hear), (.LOCAL, .hear), (.REMOTE, .hear),
    (.LOCAL, .act (.symSwapRequest ⟨3, RCVD_ADD_HTLC, 0, 1, 1000, 350000000⟩)),
    (.REMOTE, .act (.failHtlc 0)), (.REMOTE, .act .sendCommit),
    (.LOCAL, .hear), (.LOCAL, .hear),
    (.LOCAL, .act (.offerHtlc (htlc 120000000))), (.REMOTE, .hear),
    (.REMOTE, .act (.symSwapAccept ⟨3, SENT_ADD_HTLC, 0, 1, 1000, 350000000⟩)),
    (.REMOTE, .act .sendCommit)]

/-- A step that keeps to what was asked for, with no check that wraps around. -/
abbrev HonestStep (n : Net) (x : Side) (m : Move) : Prop :=
  SwapHonest n x m ∧ n.Meets params locks ChecksFit x m

/-- Every check of both peers has passed, and the swap that the first peer asked for is refused. -/
theorem asked_swap_is_refused : ∃ (n : Net) (s : SymSwap) (sent : Channel) (rest : List Msg),
    peers.runWhile params locks HonestStep payAgainstRemoval = some n ∧
      n.wire .REMOTE = .commitmentSigned (some s) sent :: rest ∧
      (n.peer .LOCAL).asked = some s.terms ∧
      channelSymSwapCheck { (n.peer .LOCAL).channel with symSwapReq := none }
        { s with state := RCVD_ADD_HTLC } = false ∧
      takePeerSwap (n.peer .LOCAL).channel s = none := by
  have hrun : ((peers.runWhile params locks HonestStep payAgainstRemoval).any fun n =>
      (carriesSwap (n.wire .REMOTE)).any fun s =>
        decide ((n.peer .LOCAL).asked = some s.terms) &&
        !channelSymSwapCheck { (n.peer .LOCAL).channel with symSwapReq := none }
          { s with state := RCVD_ADD_HTLC } &&
        (takePeerSwap (n.peer .LOCAL).channel s).isNone) = true := by
    decide +kernel
  obtain ⟨n, hn, hany⟩ := (Option.any_eq_true _ _).1 hrun
  obtain ⟨s, hs, hrefused⟩ := (Option.any_eq_true _ _).1 hany
  obtain ⟨sent, rest, hw⟩ := carriesSwap_eq hs
  simp only [Bool.and_eq_true, decide_eq_true_eq, Bool.not_eq_true', isNone_iff_eq_none]
    at hrefused
  exact ⟨n, s, sent, rest, hn, hw, hrefused.1.1, hrefused.1.2, hrefused.2⟩

end Example

end SeqLN.Channeld
