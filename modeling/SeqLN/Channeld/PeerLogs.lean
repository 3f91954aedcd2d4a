import SeqLN.Channeld.Peers

/-!
# What a peer has said and heard

Each peer's channel is the summary of two logs: what it said and what it heard (`PeerTracks`).
`PeerTracks.act` follows what the peer does on its own account, and `hear_update`, `hear_commit` and
`hear_revoke` what it does with each kind of message: a commitment makes it acknowledge all it has
heard, and a revocation acknowledges its own last commitment.
-/

namespace SeqLN.Channeld

open HtlcState Lib List Option

/-! ### What a message says -/

variable {u : Update}

/-- The update a message says. A removal names an HTLC that its offerer knows of. -/
inductive Says (known : List Update) : Msg → Update → Prop where
  | add (a : AddArgs) : Says known (.updateAddHtlc a) (.add a)
  | fulfill (a : AddArgs) (preimage : ByteString 32) (h : a ∈ known.filterMap Update.added) :
      Says known (.updateFulfillHtlc a.id preimage) (.remove a true)
  | fail (a : AddArgs) (h : a ∈ known.filterMap Update.added) :
      Says known (.updateFailHtlc a.id) (.remove a false)
  | fee (feerate : ℕ) : Says known (.updateFee feerate) (.fee feerate)

def Msg.isCommit : Msg → Bool
  | .commitmentSigned _ _ => true
  | _ => false

def Msg.isRevoke : Msg → Bool
  | .revokeAndAck => true
  | _ => false

/-- The update that the swap of a commitment is. -/
def swapUpdates (swap : Option SymSwap) : List Update := swap.toList.map fun s => .swap s.terms

lemma Says.mono {known known' : List Update} {m : Msg} (h : Says known m u)
    (hsub : known ⊆ known') : Says known' m u := by
  cases h with
  | add a => exact .add a
  | fulfill a preimage ha => exact .fulfill a preimage (filterMap_subset _ hsub ha)
  | fail a ha => exact .fail a (filterMap_subset _ hsub ha)
  | fee f => exact .fee f

lemma Says.not_commit {known : List Update} {m : Msg} (h : Says known m u) :
    m.isCommit = false ∧ m.isRevoke = false := by
  cases h <;> exact ⟨rfl, rfl⟩

/-! ### One peer -/

variable {owner : Side}

/-- A peer's channel is the summary of what it has said and heard. Its HTLCs have ids of their own;
a swap of the peer's is taken with its commitment; one it has sent waits for the revocation. -/
structure PeerTracks (init : ℕ → Side → ℤ) (feerate : ℕ) (past : Past) (p : Peer)
    (log : Side → StagedLog Update) : Prop where
  ledger : Ledger init past p.channel
  tracks : Tracks feerate past p.channel log
  ids : (((log .LOCAL).entries.filterMap Update.added).map AddArgs.id).Nodup
  fresh : ∀ a ∈ (log .LOCAL).entries.filterMap Update.added, a.id < p.htlcId
  taken : ∀ s ∈ p.channel.symSwap, s.state ≠ RCVD_ADD_HTLC
  waits : ∀ s ∈ p.channel.symSwap, s.state = SENT_ADD_COMMIT → p.awaitingRevoke = true

lemma htlcGet_spec {htlcs : List Htlc} {id : ℕ} {h : Htlc}
    (hget : htlcGet htlcs id owner = some h) : h ∈ htlcs ∧ h.id = id ∧ h.owner = owner := by
  have hp := List.find?_some hget
  simp only [Htlc.has, has_owner, Bool.and_eq_true, beq_iff_eq, decide_eq_true_eq] at hp
  exact ⟨mem_of_htlcGet hget, hp.1, hp.2⟩

@[simp] lemma entries_say_self (log : Side → StagedLog Update) (o : Side) (us : List Update) :
    (say log o us o).entries = (log o).entries ++ us := by
  rw [say, Function.update_self, StagedLog.entries_append]

@[simp] lemma say_LOCAL_REMOTE (log : Side → StagedLog Update) (us : List Update) :
    say log .LOCAL us .REMOTE = log .REMOTE := Function.update_of_ne (by decide) _ _

@[simp] lemma say_REMOTE_LOCAL (log : Side → StagedLog Update) (us : List Update) :
    say log .REMOTE us .LOCAL = log .LOCAL := Function.update_of_ne (by decide) _ _

lemma upTo_say_of_pos (log : Side → StagedLog Update) (o p : Side) (us : List Update) {k : ℕ}
    (hk : k ≠ 0) : (say log o us p).upTo k = (log p).upTo k := by
  rw [upTo_say, if_neg fun h => hk h.2, append_nil]

section peer

variable {cp : ChainParams} {lk : Locks} {init : ℕ → Side → ℤ} {feerate : ℕ} {past : Past}
  {c c' : Channel} {p p' : Peer} {log : Side → StagedLog Update}

/-- An HTLC of the channel was said by its owner. -/
theorem Tracks.mem_added (ht : Tracks feerate past c log) {h : Htlc} (hh : h ∈ c.htlcs) :
    h.addArgs ∈ (log h.owner).entries.filterMap Update.added := by
  have hperm := ht.added h.owner 0 (by omega)
  rw [StagedLog.upTo_zero] at hperm
  apply hperm.subset
  apply List.mem_map_of_mem
  apply mem_filter.2
  exact ⟨mem_append_right _ hh, by simp [HtlcState.addedAt]⟩

lemma Tracks.offer (ht : Tracks feerate past c log) {sender : Side} {a : AddArgs} {imm : Bool}
    (h : c.apply cp lk (.addHtlc sender a imm) = some c') :
    Tracks feerate past c' (say log sender [.add a]) := by
  cases apply_effect h with
  | add _ _ _ fi basic room =>
    have howner : ({ newHtlc (addState sender) a with failImmediate := fi } : Htlc).owner =
        sender := htlcStateOwner_addState sender
    have := ht.add (h := { newHtlc (addState sender) a with failImmediate := fi })
      (phase_addState sender) rfl
    rwa [howner] at this
  | quiet _ _ _ _ hq _ _ => cases hq

/-- A fulfilled HTLC is one of those its owner offered, and the other side says so. -/
theorem Tracks.fulfill (ht : Tracks feerate past c log) {id : ℕ} {preimage : ByteString 32}
    (h : c.apply cp lk (.fulfillHtlc owner id preimage) = some c') :
    ∃ a ∈ (log owner).entries.filterMap Update.added, a.id = id ∧
      Tracks feerate past c' (say log owner.other [.remove a true]) := by
  cases apply_effect h with
  | fulfill _ _ _ g state get unset opens next =>
    obtain ⟨hg, rfl, rfl⟩ := htlcGet_spec get
    exact ⟨g.addArgs, ht.mem_added hg, rfl,
      ht.remove (h := { g with state, r := some preimage }) hg next rfl⟩
  | quiet _ _ _ _ hq _ _ => cases hq

/-- A failed HTLC is removed in the other side's log. -/
lemma Tracks.fail (ht : Tracks feerate past c log) {id : ℕ}
    (h : c.apply cp lk (.failHtlc owner id) = some c') :
    ∃ a ∈ (log owner).entries.filterMap Update.added, a.id = id ∧
      Tracks feerate past c' (say log owner.other [.remove a false]) := by
  cases apply_effect h with
  | fail _ _ g state get next =>
    obtain ⟨hg, rfl, rfl⟩ := htlcGet_spec get
    have hr : g.r.isSome = false := by rw [ht.unset g hg (removeState_spec next).1.le, isSome_none]
    have hrem := ht.remove (h := { g with state, failed := true }) hg next rfl
    dsimp only at hrem
    rw [hr] at hrem
    exact ⟨g.addArgs, ht.mem_added hg, rfl, hrem⟩
  | quiet _ _ _ _ hq _ _ => cases hq

lemma channelUpdateFeerate_eq {value : ℕ} (h : channelUpdateFeerate cp c value = some c') :
    c' = { c with feeStates := startFeeUpdate c.feeStates c.setup.opener value } := by
  simp only [channelUpdateFeerate, bind_eq_bind, bind_eq_some_iff] at h
  obtain ⟨-, -, -, -, -, -, h⟩ := h
  exact (some.inj h).symm

/-- A swap that has not been committed to is in no log. -/
theorem Tracks.swapAdd (ht : Tracks feerate past c log) (hidle : c.symSwap = none) {s : SymSwap}
    (hp : s.state.phase = 0) (req : Option SymSwap) :
    Tracks feerate past { c with symSwap := some s, symSwapReq := req } log where
  added := ht.added
  removed := ht.removed
  swapped := by
    intro o k hk
    have hsame : swappedBy o (max k 1) (past.swaps ++ [s]) =
        swappedBy o (max k 1) (c.allSwaps past) := by
      have hat : s.state.addedAt (max k 1) = false := by
        simp only [HtlcState.addedAt, hp, decide_eq_false_iff_not]
        omega
      simp [swappedBy, Channel.allSwaps, hidle, filter_append, hat]
    change (swappedBy o (max k 1) (past.swaps ++ [s])).Perm _
    rw [hsame]
    exact ht.swapped o k hk
  fees := ht.fees
  unset := ht.unset

/-- A step that leaves the HTLCs we offered and the swap. -/
theorem PeerTracks.of_same (hp : PeerTracks init feerate past p log) {log' : Side → StagedLog Update}
    (hl : Ledger init past p'.channel) (ht : Tracks feerate past p'.channel log')
    (hlog : ((log' .LOCAL).entries).filterMap Update.added =
      ((log .LOCAL).entries).filterMap Update.added)
    (hid : p'.htlcId = p.htlcId) (hswap : p'.channel.symSwap = p.channel.symSwap)
    (hwait : p'.awaitingRevoke = p.awaitingRevoke) : PeerTracks init feerate past p' log' where
  ledger := hl
  tracks := ht
  ids := hlog ▸ hp.ids
  fresh := by
    rw [hlog, hid]
    exact hp.fresh
  taken := hswap ▸ hp.taken
  waits := by
    rw [hswap, hwait]
    exact hp.waits

lemma symSwap_of_effect {op : Op} (h : Effect cp lk c op c')
    (hop : (∃ sender a imm, op = .addHtlc sender a imm) ∨
      (∃ owner id preimage, op = .fulfillHtlc owner id preimage) ∨
      (∃ owner id, op = .failHtlc owner id) ∨ op.isQuiet = true) : c'.symSwap = c.symSwap := by
  cases h with
  | swapAdd s _ _ _ => simp [Op.isQuiet] at hop
  | swapDone s _ _ => simp [Op.isQuiet] at hop
  | commitStep st _ _ _ => simp [Op.isQuiet] at hop
  | _ => rfl

/-- What a peer does on its own account, in its logs. -/
inductive Acted (p : Peer) (log : Side → StagedLog Update) :
    Peer → List Msg → (Side → StagedLog Update) → Prop where
  | quiet {p' : Peer} (wait : p'.awaitingRevoke = p.awaitingRevoke) : Acted p log p' [] log
  | said {p' : Peer} {m : Msg} {u : Update} (wait : p'.awaitingRevoke = p.awaitingRevoke)
      (hsay : Says (log .REMOTE).entries m u) : Acted p log p' [m] (say log .LOCAL [u])
  | committed {p' : Peer} (free : p.awaitingRevoke = false) (wait : p'.awaitingRevoke = true)
      (swap : swapUpdates (seqSwap p'.channel) = carried p.channel .sendingCommit .LOCAL) :
      Acted p log p' [.commitmentSigned (seqSwap p'.channel) p'.channel]
        (advanceLog log p.channel .sendingCommit)

/-- An HTLC of the peer's own is said with a fresh id. -/
theorem PeerTracks.offer (hp : PeerTracks init feerate past p log) {a : AddArgs}
    (ha : a.id = p.htlcId) (h : p.channel.apply cp lk (.addHtlc .LOCAL a true) = some c) :
    PeerTracks init feerate past { p with channel := c, htlcId := p.htlcId + 1 }
      (say log .LOCAL [.add a]) := by
  have heff := apply_effect h
  have hswap : c.symSwap = p.channel.symSwap :=
    symSwap_of_effect heff (Or.inl ⟨_, _, _, rfl⟩)
  have hadded : ((say log .LOCAL [.add a]) .LOCAL).entries.filterMap Update.added =
      (log .LOCAL).entries.filterMap Update.added ++ [a] := by
    rw [entries_say_self, filterMap_append]
    rfl
  constructor
  case ledger => exact hp.ledger.step heff
  case tracks => exact hp.tracks.offer h
  case ids =>
    -- the new id is the counter, above those used
    rw [hadded, map_append, nodup_append]
    refine ⟨hp.ids, nodup_singleton _, ?_⟩
    intro i hi j hj
    obtain ⟨b, hb, rfl⟩ := List.mem_map.1 hi
    obtain rfl : j = a.id := by simpa using hj
    have := hp.fresh b hb
    omega
  case fresh =>
    intro b hb
    rw [hadded] at hb
    rcases mem_append.1 hb with hb | hb
    · exact (hp.fresh b hb).trans (Nat.lt_succ_self _)
    · rw [mem_singleton.1 hb, ha]
      exact Nat.lt_succ_self _
  case taken => exact hswap ▸ hp.taken
  case waits => exact hswap ▸ hp.waits

variable {s : HtlcState} {st : CommitStep}

lemma advance_eq_sent :
    st.advance s = SENT_ADD_COMMIT ↔
      s = SENT_ADD_COMMIT ∧ st ≠ .rcvdRevokeAndAck ∨ s = SENT_ADD_HTLC ∧ st = .sendingCommit := by
  revert st s
  decide

lemma advance_eq_rcvd (h : st.advance s = RCVD_ADD_HTLC) :
    s = RCVD_ADD_HTLC ∧ st ≠ .rcvdCommit := by
  revert st s
  decide

lemma owner_phase_zero {o : Side} : htlcStateOwner s = o ∧ s.phase = 0 ↔ s = addState o := by
  revert s o
  decide

/-- A commitment carries the swap that its owner had not yet committed to. -/
theorem seqSwap_eq {flags : ℕ}
    (hc : changeHtlcs c .sendingCommit = some (c', flags))
    (hfree : ∀ s ∈ c.symSwap, s.state ≠ SENT_ADD_COMMIT) :
    swapUpdates (seqSwap c') = carried c .sendingCommit .LOCAL := by
  obtain ⟨-, -, -, -, hs, -⟩ := changeHtlcs_spec hc
  rw [seqSwap, hs, carried, if_pos (show CommitStep.sendingCommit.target .LOCAL = 1 from rfl)]
  rcases hswap : c.symSwap with _ | s
  · rfl
  · have hne := hfree s hswap
    have hiff : (decide (s.owner = .LOCAL) && decide (s.state.phase = 0)) =
        decide ((CommitStep.sendingCommit.advanceSwap s).state = SENT_ADD_COMMIT) := by
      rw [Bool.eq_iff_iff, Bool.and_eq_true, decide_eq_true_eq, decide_eq_true_eq,
        decide_eq_true_eq]
      refine owner_phase_zero.trans ?_
      change s.state = SENT_ADD_HTLC ↔ CommitStep.sendingCommit.advance s.state = SENT_ADD_COMMIT
      rw [advance_eq_sent]
      simp [hne]
    rw [map_some, toList_some, filter_singleton, hiff]
    by_cases hstate : CommitStep.sendingCommit.advance s.state = SENT_ADD_COMMIT <;>
      simp [Option.filter, swapUpdates, CommitStep.advanceSwap, SymSwap.terms, hstate]

lemma filterMap_added_advanceLog (log : Side → StagedLog Update) (c : Channel) (st : CommitStep)
    (o : Side) :
    ((advanceLog log c st o).entries).filterMap Update.added =
      ((log o).entries).filterMap Update.added := by
  have h := filterMap_upTo_advanceLog (f := Update.added) (fun _ => rfl) log c st o 0
  have hpre : st.pre o 0 = 0 := Nat.le_zero.1 (st.pre_le o 0)
  rwa [hpre, StagedLog.upTo_zero, StagedLog.upTo_zero] at h

/-- A call that commits or revokes, by a peer. -/
theorem PeerTracks.change (hp : PeerTracks init feerate past p log) {flags : ℕ}
    (hc : changeHtlcs p.channel st = some (c, flags)) (wait : Bool)
    (hwait : ∀ s ∈ p.channel.symSwap, st.advance s.state = SENT_ADD_COMMIT → wait = true) :
    PeerTracks init feerate (past.advance st p.channel)
      { p with channel := c, awaitingRevoke := wait } (advanceLog log p.channel st) := by
  obtain ⟨-, -, -, -, hs, -⟩ := changeHtlcs_spec hc
  constructor
  case ledger => exact hp.ledger.change hc
  case tracks => exact hp.tracks.change hp.ledger.toSorted hc
  case ids =>
    rw [filterMap_added_advanceLog]
    exact hp.ids
  case fresh =>
    rw [filterMap_added_advanceLog]
    exact hp.fresh
  case taken =>
    intro s hm hstate
    change c.symSwap = some s at hm
    rw [hs] at hm
    obtain ⟨t, ht, rfl⟩ := map_eq_some_iff.1 hm
    exact hp.taken t ht (advance_eq_rcvd hstate).1
  case waits =>
    intro s hm hstate
    change c.symSwap = some s at hm
    rw [hs] at hm
    obtain ⟨t, ht, rfl⟩ := map_eq_some_iff.1 hm
    exact hwait t ht hstate

/-- A finished swap moves to the past. -/
theorem PeerTracks.swapDone (cp : ChainParams) (lk : Locks)
    (hp : PeerTracks init feerate past p log) :
    PeerTracks init feerate (past.next p.channel .symSwapDone)
      { p with channel := channelSymSwapDone p.channel } log := by
  have heff : Effect cp lk p.channel .symSwapDone (channelSymSwapDone p.channel) :=
    apply_effect rfl
  have hl := hp.ledger.step heff
  generalize hd : channelSymSwapDone p.channel = d at heff hl
  cases heff with
  | swapWaits wait =>
    rw [Past.next_swapWaits wait]
    exact hp
  | swapDone s swap done =>
    rw [Past.next_swapDone swap done] at hl ⊢
    refine ⟨hl, ?_, hp.ids, hp.fresh, fun s hs => (by cases hs), fun s hs => (by cases hs)⟩
    refine hp.tracks.congr rfl rfl ?_ rfl rfl
    simp [Channel.allSwaps, swap]
  | quiet _ _ _ _ hq _ _ => cases hq

lemma filterMap_added_say (hu : u.added = none) (log : Side → StagedLog Update) (o : Side) :
    ((say log o [u] .LOCAL).entries).filterMap Update.added =
      ((log .LOCAL).entries).filterMap Update.added := by
  have hnone : [u].filterMap Update.added = [] := by simp [hu]
  have h := filterMap_upTo_say hnone log o .LOCAL 0
  rwa [StagedLog.upTo_zero, StagedLog.upTo_zero] at h

variable {ms : List Msg}

/-- What a peer does on its own account. -/
theorem PeerTracks.act (hp : PeerTracks init feerate past p log) {a : Action}
    (h : p.act cp lk a = some (p', ms)) :
    ∃ past' log', PeerTracks init feerate past' p' log' ∧ p'.channel.setup = p.channel.setup ∧
      Acted p log p' ms log' := by
  cases a with
  | offerHtlc a =>
    obtain ⟨c, hc, rfl, rfl⟩ := bind_pair_eq_some.1 h
    exact ⟨_, _, hp.offer rfl hc, (apply_effect hc).setup, .said rfl (.add _)⟩
  | fulfillHtlc id preimage =>
    obtain ⟨c, hc, rfl, rfl⟩ := bind_pair_eq_some.1 h
    have heff := apply_effect hc
    obtain ⟨a, ha, rfl, ht⟩ := hp.tracks.fulfill hc
    refine ⟨past, _, hp.of_same (hp.ledger.step heff) ht (filterMap_added_say rfl log _) rfl ?_ rfl,
      heff.setup, .said rfl (.fulfill a preimage ha)⟩
    exact symSwap_of_effect heff (Or.inr (Or.inl ⟨_, _, _, rfl⟩))
  | failHtlc id =>
    obtain ⟨c, hc, rfl, rfl⟩ := bind_pair_eq_some.1 h
    have heff := apply_effect hc
    obtain ⟨a, ha, rfl, ht⟩ := hp.tracks.fail hc
    refine ⟨past, _, hp.of_same (hp.ledger.step heff) ht (filterMap_added_say rfl log _) rfl ?_ rfl,
      heff.setup, .said rfl (.fail a ha)⟩
    exact symSwap_of_effect heff (Or.inr (Or.inr (Or.inl ⟨_, _, rfl⟩)))
  | updateFee value =>
    obtain ⟨_, hopen, h⟩ := bind_eq_some_iff.1 h
    obtain ⟨c, hc, rfl, rfl⟩ := bind_pair_eq_some.1 h
    have heff : Effect cp lk p.channel (.updateFeerate value) c := apply_effect hc
    have ht := hp.tracks.fee value
    rw [← channelUpdateFeerate_eq hc, guard_eq_some.1 hopen] at ht
    refine ⟨past, _, hp.of_same (hp.ledger.step heff) ht (filterMap_added_say rfl log _) rfl ?_ rfl,
      heff.setup, .said rfl (.fee value)⟩
    exact symSwap_of_effect heff (Or.inr (Or.inr (Or.inr rfl)))
  | symSwapRequest s =>
    obtain ⟨c, hc, rfl, rfl⟩ := bind_pair_eq_some.1 h
    have heff : Effect cp lk p.channel (.symSwapRequest s) c := apply_effect hc
    simp only [handleSymSwapRequest, bind_eq_bind, bind_eq_some_iff] at hc
    obtain ⟨-, -, -, -, hc⟩ := hc
    obtain rfl := some.inj hc
    exact ⟨past, log, hp.of_same (hp.ledger.step heff) (hp.tracks.congr rfl rfl rfl rfl rfl) rfl rfl
      rfl rfl, rfl, .quiet rfl⟩
  | symSwapCancel id =>
    obtain ⟨rfl, rfl⟩ := Prod.mk.inj (some.inj h)
    have heff : Effect cp lk p.channel (.symSwapCancel id) (handleSymSwapCancel p.channel id) :=
      apply_effect rfl
    have hsame : (handleSymSwapCancel p.channel id).htlcs = p.channel.htlcs ∧
        (handleSymSwapCancel p.channel id).symSwap = p.channel.symSwap ∧
        (handleSymSwapCancel p.channel id).feeStates = p.channel.feeStates := by
      unfold handleSymSwapCancel
      split <;> exact ⟨rfl, rfl, rfl⟩
    have ht : Tracks feerate past (handleSymSwapCancel p.channel id) log := by
      apply hp.tracks.congr hsame.1 rfl _ hsame.2.2 heff.setup
      rw [Channel.allSwaps, hsame.2.1]
      rfl
    exact ⟨past, log, hp.of_same (hp.ledger.step heff) ht rfl rfl hsame.2.1 rfl, heff.setup,
      .quiet rfl⟩
  | symSwapAccept s =>
    obtain ⟨c, hc, rfl, rfl⟩ := bind_pair_eq_some.1 h
    simp only [handleSymSwapAccept, bind_eq_bind, bind_eq_some_iff] at hc
    obtain ⟨_, -, _, hcheck, hc⟩ := hc
    have heff : Effect cp lk p.channel (.symSwapAdd { s with state := SENT_ADD_HTLC }) c := by
      apply apply_effect
      rw [Channel.apply, if_pos (guard_eq_some.1 hcheck)]
      exact hc
    simp only [channelSymSwapAdd, bind_eq_bind, bind_eq_some_iff] at hc
    obtain ⟨_, hidle, _, -, hc⟩ := hc
    obtain rfl := some.inj hc
    refine ⟨past, log, ⟨hp.ledger.step heff, ?_, hp.ids, hp.fresh, ?_, ?_⟩, rfl, .quiet rfl⟩
    · exact hp.tracks.swapAdd (guard_eq_some.1 hidle) rfl _
    · rintro t ht
      rw [← some.inj ht]
      exact fun hstate => by cases hstate
    · rintro t ht hstate
      rw [← some.inj ht] at hstate
      cases hstate
  | sendCommit =>
    obtain ⟨_, hfree, h⟩ := bind_eq_some_iff.1 h
    obtain ⟨⟨c, changed⟩, hc, h⟩ := bind_eq_some_iff.1 h
    obtain ⟨_, -, rfl, rfl⟩ := bind_pair_eq_some.1 h
    obtain ⟨flags, hchange⟩ := changed_of_map hc
    have hfree := guard_eq_some.1 hfree
    have hno : ∀ s ∈ p.channel.symSwap, s.state ≠ SENT_ADD_COMMIT := by
      intro s hs hstate
      cases hfree.symm.trans (hp.waits s hs hstate)
    exact ⟨_, _, hp.change hchange true fun _ _ _ => rfl, (changeHtlcs_spec hchange).2.2.1,
      .committed hfree rfl (seqSwap_eq hchange hno)⟩

/-- Two HTLCs a peer offered are told apart by their ids. -/
theorem PeerTracks.eq_of_id (hp : PeerTracks init feerate past p log) {a b : AddArgs}
    (ha : a ∈ (log .LOCAL).entries.filterMap Update.added)
    (hb : b ∈ (log .LOCAL).entries.filterMap Update.added) (hid : a.id = b.id) : a = b :=
  inj_on_of_nodup_map hp.ids ha hb hid

/-- What a peer does with an update: it says nothing, and has heard the update. -/
theorem PeerTracks.hear_update (hp : PeerTracks init feerate past p log) {m : Msg}
    (hsay : Says (log .LOCAL).entries m u) (h : p.hear cp lk m = some (p', ms)) :
    PeerTracks init feerate past p' (say log .REMOTE [u]) ∧
      p'.channel.setup = p.channel.setup ∧ p'.awaitingRevoke = p.awaitingRevoke ∧ ms = [] := by
  have hlog : ((say log .REMOTE [u] .LOCAL).entries).filterMap Update.added =
      ((log .LOCAL).entries).filterMap Update.added := by rw [say_REMOTE_LOCAL]
  cases hsay with
  | add a =>
    obtain ⟨c, hc, rfl, rfl⟩ := bind_pair_eq_some.1 h
    have heff := apply_effect hc
    refine ⟨hp.of_same (hp.ledger.step heff) (hp.tracks.offer hc) hlog rfl ?_ rfl, heff.setup, rfl,
      rfl⟩
    exact symSwap_of_effect heff (Or.inl ⟨_, _, _, rfl⟩)
  | fulfill a preimage ha =>
    obtain ⟨c, hc, rfl, rfl⟩ := bind_pair_eq_some.1 h
    have heff := apply_effect hc
    obtain ⟨b, hb, hid, ht⟩ := hp.tracks.fulfill hc
    obtain rfl := hp.eq_of_id hb ha hid
    refine ⟨hp.of_same (hp.ledger.step heff) ht hlog rfl ?_ rfl, heff.setup, rfl, rfl⟩
    exact symSwap_of_effect heff (Or.inr (Or.inl ⟨_, _, _, rfl⟩))
  | fail a ha =>
    obtain ⟨c, hc, rfl, rfl⟩ := bind_pair_eq_some.1 h
    have heff := apply_effect hc
    obtain ⟨b, hb, hid, ht⟩ := hp.tracks.fail hc
    obtain rfl := hp.eq_of_id hb ha hid
    refine ⟨hp.of_same (hp.ledger.step heff) ht hlog rfl ?_ rfl, heff.setup, rfl, rfl⟩
    exact symSwap_of_effect heff (Or.inr (Or.inr (Or.inl ⟨_, _, rfl⟩)))
  | fee value =>
    obtain ⟨_, hopen, h⟩ := bind_eq_some_iff.1 h
    obtain ⟨c, hc, rfl, rfl⟩ := bind_pair_eq_some.1 h
    have heff : Effect cp lk p.channel (.updateFeerate value) c := apply_effect hc
    have ht := hp.tracks.fee value
    rw [← channelUpdateFeerate_eq hc, guard_eq_some.1 hopen] at ht
    refine ⟨hp.of_same (hp.ledger.step heff) ht hlog rfl ?_ rfl, heff.setup, rfl, rfl⟩
    exact symSwap_of_effect heff (Or.inr (Or.inr (Or.inr rfl)))

lemma takePeerSwap_spec {s : SymSwap} (h : takePeerSwap c s = some c') :
    c.symSwap = none ∧ channelSymSwapCheck { c with symSwapReq := none }
      { s with state := RCVD_ADD_HTLC } = true ∧
      c' = { c with symSwap := some { s with state := RCVD_ADD_HTLC }, symSwapReq := none } := by
  simp only [takePeerSwap, channelSymSwapAdd, bind_eq_bind, bind_eq_some_iff] at h
  obtain ⟨_, -, _, -, _, hcheck, _, hidle, _, -, h⟩ := h
  exact ⟨guard_eq_some.1 hidle, guard_eq_some.1 hcheck, (some.inj h).symm⟩

/-- A commitment is taken: its swap is heard, and every update of the peer's is in our view. -/
theorem PeerTracks.takeCommitment (hp : PeerTracks init feerate past p log) {swap : Option SymSwap}
    (h : takeCommitment p.channel swap = some c) :
    ∃ past' log', PeerTracks init feerate past' { p with channel := c } log' ∧
      c.setup = p.channel.setup ∧
      (∀ k, (log' .LOCAL).upTo k = (log .LOCAL).upTo (CommitStep.rcvdCommit.pre .LOCAL k)) ∧
      (log' .REMOTE).entries = (log .REMOTE).entries ++ swapUpdates swap ∧
      (log' .REMOTE).upTo 1 = (log' .REMOTE).entries := by
  unfold Channeld.takeCommitment at h
  obtain ⟨c₁, htake, h⟩ := bind_eq_some_iff.1 h
  obtain ⟨⟨c₂, changed⟩, hrcvd, h⟩ := bind_eq_some_iff.1 h
  obtain rfl := some.inj h
  obtain ⟨flags, hchange⟩ := changed_of_map hrcvd
  -- the channel with the peer's swap
  have htaken : Ledger init past c₁ ∧ Tracks feerate past c₁ log ∧
      c₁.setup = p.channel.setup ∧
      (∀ s ∈ c₁.symSwap, s.state = SENT_ADD_COMMIT → p.awaitingRevoke = true) ∧
      carried c₁ .rcvdCommit .REMOTE = swapUpdates swap := by
    cases swap with
    | none =>
      obtain rfl := some.inj htake
      refine ⟨hp.ledger, hp.tracks, rfl, hp.waits, ?_⟩
      rw [carried, if_pos (show CommitStep.rcvdCommit.target .REMOTE = 1 from rfl)]
      have hnone : p.channel.symSwap.toList.filter
          (fun s => decide (s.owner = .REMOTE) && decide (s.state.phase = 0)) = [] := by
        apply filter_eq_nil_iff.2
        intro s hs
        have hne := hp.taken s (mem_toList.1 hs)
        rw [Bool.and_eq_true, decide_eq_true_eq, decide_eq_true_eq]
        exact fun hstate => hne (owner_phase_zero.1 hstate)
      rw [hnone]
      rfl
    | some s =>
      obtain ⟨hidle, -, rfl⟩ := takePeerSwap_spec htake
      have ht := hp.tracks.swapAdd hidle (s := { s with state := RCVD_ADD_HTLC }) rfl none
      refine ⟨?_, ht, rfl, ?_, rfl⟩
      · refine hp.ledger.of_owed ?_ rfl rfl ?_
        · refine ⟨hp.ledger.past_dead, hp.ledger.live, hp.ledger.past_done, ?_⟩
          rintro t ht
          rw [← some.inj ht]
          exact Nat.zero_le _
        · intro v l side
          have h₁ := swapTotal_swapAdd past p.channel (viewStage v) l side hidle
            { s with state := RCVD_ADD_HTLC }
          rw [cutSwap_new rfl, if_neg (viewStage_ne_zero _ _), add_zero] at h₁
          exact congrArg (htlcTotal (viewStage v) past p.channel l side + ·) h₁
      · rintro t ht hstate
        rw [← some.inj ht] at hstate
        cases hstate
  obtain ⟨hl₁, ht₁, hsetup₁, hwaits₁, hcarried⟩ := htaken
  obtain ⟨-, -, hsetup₂, -, hs₂, -⟩ := changeHtlcs_spec hchange
  have hlocal : carried c₁ .rcvdCommit .LOCAL = [] := rfl
  refine ⟨past.advance .rcvdCommit c₁, advanceLog log c₁ .rcvdCommit, ⟨hl₁.change hchange,
    ht₁.change hl₁.toSorted hchange, ?_, ?_, ?_, ?_⟩, hsetup₂.trans hsetup₁, ?_, ?_, ?_⟩
  · rw [filterMap_added_advanceLog]
    exact hp.ids
  · rw [filterMap_added_advanceLog]
    exact hp.fresh
  · intro s hm hstate
    change c₂.symSwap = some s at hm
    rw [hs₂] at hm
    obtain ⟨t, -, rfl⟩ := map_eq_some_iff.1 hm
    exact (advance_eq_rcvd hstate).2 rfl
  · intro s hm hstate
    change c₂.symSwap = some s at hm
    rw [hs₂] at hm
    obtain ⟨t, ht, rfl⟩ := map_eq_some_iff.1 hm
    rcases advance_eq_sent.1 hstate with ⟨hstate, -⟩ | ⟨-, hst⟩
    · exact hwaits₁ t ht hstate
    · cases hst
  · intro k
    rw [upTo_advanceLog, hlocal, ite_self, append_nil]
  · rw [← hcarried]
    rfl
  · have hpre : CommitStep.rcvdCommit.pre .REMOTE 1 = 0 := rfl
    rw [upTo_advanceLog, hpre, if_pos rfl, StagedLog.upTo_zero]
    rfl

/-- A commitment: the peer revokes the one before, and so acknowledges all it has heard. -/
theorem PeerTracks.hear_commit (hp : PeerTracks init feerate past p log) {swap : Option SymSwap}
    {sent : Channel} (h : p.hear cp lk (.commitmentSigned swap sent) = some (p', ms)) :
    ∃ past' log', PeerTracks init feerate past' p' log' ∧
      p'.channel.setup = p.channel.setup ∧ p'.awaitingRevoke = p.awaitingRevoke ∧
      ms = [.revokeAndAck] ∧ (∀ k ≤ 2, (log' .LOCAL).upTo k = (log .LOCAL).upTo k) ∧
      (log' .REMOTE).entries = (log .REMOTE).entries ++ swapUpdates swap ∧
      (log' .REMOTE).upTo 2 = (log' .REMOTE).entries := by
  obtain ⟨c, htake, h⟩ := bind_eq_some_iff.1 h
  obtain ⟨⟨c₃, pending⟩, hsend, h⟩ := bind_eq_some_iff.1 h
  obtain ⟨rfl, rfl⟩ := Prod.mk.inj (some.inj h)
  obtain ⟨flags, hchange⟩ := changed_of_map hsend
  obtain ⟨past₁, log₁, hp₁, hsetup, hlocal, hremote, hone⟩ := hp.takeCommitment htake
  have hp₂ := hp₁.change hchange p.awaitingRevoke (by
    intro s hs hstate
    rcases advance_eq_sent.1 hstate with ⟨hstate, -⟩ | ⟨-, hst⟩
    · exact hp₁.waits s hs hstate
    · cases hst)
  have hp₃ := hp₂.swapDone cp lk
  have hcarried : ∀ o, carried c .sendingRevokeAndAck o = [] := fun o => by cases o <;> rfl
  refine ⟨_, _, hp₃, ?_, rfl, rfl, ?_, ?_, ?_⟩
  · have heff : Effect cp lk c₃ .symSwapDone (channelSymSwapDone c₃) := apply_effect rfl
    exact heff.setup.trans ((changeHtlcs_spec hchange).2.2.1.trans hsetup)
  · intro k hk
    have hpre : CommitStep.sendingRevokeAndAck.pre .LOCAL k = k ∧
        CommitStep.rcvdCommit.pre .LOCAL k = k := by
      revert k
      decide
    rw [upTo_advanceLog, hcarried, ite_self, append_nil, hpre.1, hlocal, hpre.2]
  · rw [← hremote]
    change (log₁ .REMOTE).entries ++ carried c .sendingRevokeAndAck .REMOTE = _
    rw [hcarried, append_nil]
  · have hpre : CommitStep.sendingRevokeAndAck.pre .REMOTE 2 = 1 := rfl
    rw [upTo_advanceLog, hcarried, ite_self, append_nil, hpre, hone]
    change (log₁ .REMOTE).entries = (log₁ .REMOTE).entries ++ carried c .sendingRevokeAndAck .REMOTE
    rw [hcarried, append_nil]

/-- What a peer does with a revocation: its commitment is acknowledged. -/
theorem PeerTracks.hear_revoke (hp : PeerTracks init feerate past p log)
    (h : p.hear cp lk .revokeAndAck = some (p', ms)) :
    ∃ past' log', PeerTracks init feerate past' p' log' ∧
      p'.channel.setup = p.channel.setup ∧ p.awaitingRevoke = true ∧ p'.awaitingRevoke = false ∧
      ms = [] ∧ (∀ k ≤ 1, (log' .LOCAL).upTo k = (log .LOCAL).upTo k) ∧
      (log' .LOCAL).upTo 2 = (log .LOCAL).upTo 1 ∧
      ∀ k ≤ 2, (log' .REMOTE).upTo k = (log .REMOTE).upTo k := by
  obtain ⟨_, hwait, h⟩ := bind_eq_some_iff.1 h
  obtain ⟨⟨c₃, pending⟩, hrcvd, h⟩ := bind_eq_some_iff.1 h
  obtain ⟨rfl, rfl⟩ := Prod.mk.inj (some.inj h)
  obtain ⟨flags, hchange⟩ := changed_of_map hrcvd
  have hp₁ := hp.change hchange false (by
    intro s hs hstate
    rcases advance_eq_sent.1 hstate with ⟨-, hst⟩ | ⟨-, hst⟩
    · exact absurd rfl hst
    · cases hst)
  have hcarried : ∀ o, carried p.channel .rcvdRevokeAndAck o = [] := fun o => by cases o <;> rfl
  refine ⟨_, _, hp₁.swapDone cp lk, ?_, guard_eq_some.1 hwait, rfl, rfl, ?_, ?_, ?_⟩
  · have heff : Effect cp lk c₃ .symSwapDone (channelSymSwapDone c₃) := apply_effect rfl
    exact heff.setup.trans (changeHtlcs_spec hchange).2.2.1
  · intro k hk
    have hpre : CommitStep.rcvdRevokeAndAck.pre .LOCAL k = k := by
      revert k
      decide
    rw [upTo_advanceLog, hcarried, ite_self, append_nil, hpre]
  · have hpre : CommitStep.rcvdRevokeAndAck.pre .LOCAL 2 = 1 := rfl
    rw [upTo_advanceLog, hcarried, ite_self, append_nil, hpre]
  · intro k hk
    have hpre : CommitStep.rcvdRevokeAndAck.pre .REMOTE k = k := by
      revert k
      decide
    rw [upTo_advanceLog, hcarried, ite_self, append_nil, hpre]

end peer

end SeqLN.Channeld
