import SeqLN.Channeld.Conservation
import SeqLN.Channeld.PeerLogs

/-!
# Two peers agree on every commitment

What a peer heard is what the other said, but for the messages on the wire, whose commitments and
revocations link the stages of the two peers' logs. `Wire` says how, in the order they will be heard.
`Linked` is the invariant of the net, and `commitment_agrees` reads off that the view a commitment was
sent for is the one its receiver reaches.
-/

namespace SeqLN.Channeld

open HtlcState Lib List Option Function StagedLog

/-! ### What is on the wire -/

variable {swap : Option SymSwap} {sent : Channel}

/-- The messages from a sender to a receiver, in order: from what the receiver has heard, and knows
to be acknowledged, to what the sender has said and acknowledged. `mine` is what the sender has
committed to of its updates, `theirs` what the receiver has; `S` is known of the sender's channel at
a commitment. -/
inductive Wire (S : Channel → List Update → List Update → Prop)
    (mine theirs known : List Update) :
    List Update → List Update → List Msg → List Update → List Update → Prop where
  | nil {heard acked : List Update} : Wire S mine theirs known heard acked [] heard acked
  | update {heard acked said ack : List Update} {m : Msg} {u : Update} {ms : List Msg} :
      Says known m u → Wire S mine theirs known (heard ++ [u]) acked ms said ack →
      Wire S mine theirs known heard acked (m :: ms) said ack
  | commit {heard acked said ack : List Update} {swap : Option SymSwap} {sent : Channel}
      {ms : List Msg} : heard ++ swapUpdates swap = mine → S sent mine acked →
      Wire S mine theirs known mine acked ms said ack →
      Wire S mine theirs known heard acked (.commitmentSigned swap sent :: ms) said ack
  | revoke {heard acked said ack : List Update} {ms : List Msg} :
      Wire S mine theirs known heard theirs ms said ack →
      Wire S mine theirs known heard acked (.revokeAndAck :: ms) said ack

namespace Wire

variable {S : Channel → List Update → List Update → Prop}
  {mine theirs known heard acked said ack : List Update} {ms : List Msg}

lemma heard_subset (h : Wire S mine theirs known heard acked ms said ack) : heard ⊆ said := by
  induction h with
  | nil => exact List.Subset.refl _
  | update _ _ ih => exact List.Subset.trans (subset_append_left _ _) ih
  | commit hmine _ _ ih => exact List.Subset.trans (hmine ▸ subset_append_left _ _) ih
  | revoke _ ih => exact ih

lemma mono (h : Wire S mine theirs known heard acked ms said ack) {known' : List Update}
    (hsub : known ⊆ known') : Wire S mine theirs known' heard acked ms said ack := by
  induction h with
  | nil => exact .nil
  | update hsay _ ih => exact .update (hsay.mono hsub) ih
  | commit hmine hS _ ih => exact .commit hmine hS ih
  | revoke _ ih => exact .revoke ih

/-- Without a commitment on the wire, the sender's commitments are not spoken of. -/
theorem of_no_commit (h : Wire S mine theirs known heard acked ms said ack)
    (hno : ms.countP Msg.isCommit = 0) (mine' : List Update) :
    Wire S mine' theirs known heard acked ms said ack := by
  induction h with
  | nil => exact .nil
  | update hsay _ ih =>
    rw [countP_cons_of_neg (by simp [hsay.not_commit.1])] at hno
    exact .update hsay (ih hno)
  | commit _ _ _ _ => simp [Msg.isCommit] at hno
  | revoke _ ih =>
    rw [countP_cons_of_neg (by simp [Msg.isCommit])] at hno
    exact .revoke (ih hno)

/-- Without a revocation on the wire, the receiver's commitments are not spoken of. -/
theorem of_no_revoke (h : Wire S mine theirs known heard acked ms said ack)
    (hno : ms.countP Msg.isRevoke = 0) (theirs' : List Update) :
    Wire S mine theirs' known heard acked ms said ack := by
  induction h with
  | nil => exact .nil
  | update hsay _ ih =>
    rw [countP_cons_of_neg (by simp [hsay.not_commit.2])] at hno
    exact .update hsay (ih hno)
  | commit hmine hS _ ih =>
    rw [countP_cons_of_neg (by simp [Msg.isRevoke])] at hno
    exact .commit hmine hS (ih hno)
  | revoke _ _ => simp [Msg.isRevoke] at hno

lemma snoc_update (h : Wire S mine theirs known heard acked ms said ack) {m : Msg} {u : Update}
    (hsay : Says known m u) :
    Wire S mine theirs known heard acked (ms ++ [m]) (said ++ [u]) ack := by
  induction h with
  | nil => exact .update hsay .nil
  | update hs _ ih => exact .update hs ih
  | commit hmine hS _ ih => exact .commit hmine hS ih
  | revoke _ ih => exact .revoke ih

lemma snoc_commit (h : Wire S mine theirs known heard acked ms said ack)
    (hmine : said ++ swapUpdates swap = mine) (hS : S sent mine ack) :
    Wire S mine theirs known heard acked (ms ++ [.commitmentSigned swap sent]) mine ack := by
  induction h with
  | nil => exact .commit hmine hS .nil
  | update hs _ ih => exact .update hs (ih hmine hS)
  | commit hm hS' _ ih => exact .commit hm hS' (ih hmine hS)
  | revoke _ ih => exact .revoke (ih hmine hS)

lemma snoc_revoke (h : Wire S mine theirs known heard acked ms said ack) :
    Wire S mine theirs known heard acked (ms ++ [.revokeAndAck]) said theirs := by
  induction h with
  | nil => exact .revoke .nil
  | update hs _ ih => exact .update hs ih
  | commit hmine hS _ ih => exact .commit hmine hS ih
  | revoke _ ih => exact .revoke ih

end Wire

/-! ### The net -/

/-- The updates of either side, from the end of the one that said the first. -/
def bySide (own heard : List Update) : Side → List Update
  | .LOCAL => own
  | .REMOTE => heard

/-- At a commitment the sender's view of the receiver is what it has said and acknowledged. -/
def SentView (setup : ChannelSetup) (init : ℕ → Side → ℤ) (feerate : ℕ) (sent : Channel)
    (own acked : List Update) : Prop :=
  sent.setup = setup ∧ ViewIs init feerate sent .REMOTE (bySide own acked)

/-- The messages from the peer with logs `src` to the one with logs `dst`. -/
def WireOk (S : Channel → List Update → List Update → Prop) (src dst : Side → StagedLog Update)
    (ms : List Msg) : Prop :=
  Wire S ((src .LOCAL).upTo 1) ((dst .LOCAL).upTo 1) (dst .LOCAL).entries (dst .REMOTE).entries
    ((dst .LOCAL).upTo 2) ms (src .LOCAL).entries ((src .REMOTE).upTo 2)

namespace WireOk

variable {S : Channel → List Update → List Update → Prop} {src dst : Side → StagedLog Update}
  {ms : List Msg}

variable {src' : Side → StagedLog Update}

/-- The sender is unchanged where the receiver can tell. -/
theorem congr_src (h : WireOk S src dst ms)
    (hl : ∀ k ≤ 1, (src' .LOCAL).upTo k = (src .LOCAL).upTo k)
    (hr : (src' .REMOTE).upTo 2 = (src .REMOTE).upTo 2) : WireOk S src' dst ms := by
  have h0 := hl 0 (by omega)
  rw [upTo_zero, upTo_zero] at h0
  rw [WireOk, hl 1 le_rfl, h0, hr]
  exact h

lemma src_said (h : WireOk S src dst ms) {m : Msg} {u : Update}
    (hsay : Says (dst .LOCAL).entries m u) : WireOk S (say src .LOCAL [u]) dst (ms ++ [m]) := by
  rw [WireOk, upTo_say_of_pos _ _ _ _ one_ne_zero, entries_say_self, say_LOCAL_REMOTE]
  exact h.snoc_update hsay

lemma dst_said (h : WireOk S src dst ms) (u : Update) :
    WireOk S src (say dst .LOCAL [u]) ms := by
  rw [WireOk, upTo_say_of_pos _ _ _ _ one_ne_zero, upTo_say_of_pos _ _ _ _ two_ne_zero,
    entries_say_self, say_LOCAL_REMOTE]
  exact h.mono (subset_append_left _ _)

lemma src_hears (h : WireOk S src dst ms) (u : Update) :
    WireOk S (say src .REMOTE [u]) dst ms := by
  rw [WireOk, say_REMOTE_LOCAL, upTo_say_of_pos _ _ _ _ two_ne_zero]
  exact h

lemma dst_hears {m : Msg} (hm : m.isCommit = false ∧ m.isRevoke = false)
    (h : WireOk S src dst (m :: ms)) :
    ∃ u, Says (dst .LOCAL).entries m u ∧ WireOk S src (say dst .REMOTE [u]) ms := by
  cases h with
  | @update _ _ _ _ _ u _ hsay hrest =>
    refine ⟨u, hsay, ?_⟩
    rw [WireOk, say_REMOTE_LOCAL, entries_say_self]
    exact hrest
  | commit _ _ _ => cases hm.1
  | revoke _ => cases hm.2

/-- A commitment is sent with all that was said. -/
lemma src_commits (h : WireOk S src dst ms) (hno : ms.countP Msg.isCommit = 0) {c c' : Channel}
    (hswap : swapUpdates (seqSwap c') = carried c .sendingCommit .LOCAL)
    (hS : S c' ((src .LOCAL).entries ++ swapUpdates (seqSwap c')) ((src .REMOTE).upTo 2)) :
    WireOk S (advanceLog src c .sendingCommit) dst
      (ms ++ [.commitmentSigned (seqSwap c') c']) := by
  have hpre : CommitStep.sendingCommit.pre .LOCAL 1 = 0 ∧
      CommitStep.sendingCommit.pre .REMOTE 2 = 2 := by decide
  have hmine : (advanceLog src c .sendingCommit .LOCAL).upTo 1 =
      (src .LOCAL).entries ++ swapUpdates (seqSwap c') := by
    rw [upTo_advanceLog, hpre.1, if_pos rfl, upTo_zero, hswap]
  have hsaid : (advanceLog src c .sendingCommit .LOCAL).entries =
      (src .LOCAL).entries ++ swapUpdates (seqSwap c') := by
    rw [hswap]
    rfl
  have hack : (advanceLog src c .sendingCommit .REMOTE).upTo 2 = (src .REMOTE).upTo 2 := by
    rw [upTo_advanceLog, hpre.2, if_neg two_ne_zero, append_nil]
  rw [WireOk, hmine, hsaid, hack]
  exact (h.of_no_commit hno _).snoc_commit rfl hS

lemma dst_commits (h : WireOk S src dst ms) (hno : ms.countP Msg.isRevoke = 0) (c : Channel) :
    WireOk S src (advanceLog dst c .sendingCommit) ms := by
  have hpre : CommitStep.sendingCommit.pre .LOCAL 2 = 2 := rfl
  have hacked : (advanceLog dst c .sendingCommit .LOCAL).upTo 2 = (dst .LOCAL).upTo 2 := by
    rw [upTo_advanceLog, hpre, if_neg two_ne_zero, append_nil]
  have hknown : (advanceLog dst c .sendingCommit .LOCAL).entries =
      (dst .LOCAL).entries ++ carried c .sendingCommit .LOCAL := rfl
  have hheard : (advanceLog dst c .sendingCommit .REMOTE).entries = (dst .REMOTE).entries :=
    append_nil _
  rw [WireOk, hacked, hknown, hheard]
  exact (h.of_no_revoke hno _).mono (subset_append_left _ _)

/-- The commitment that arrives is of what was said before it. -/
lemma dst_takes (h : WireOk S src dst (.commitmentSigned swap sent :: ms)) :
    (dst .REMOTE).entries ++ swapUpdates swap = (src .LOCAL).upTo 1 ∧
      S sent ((src .LOCAL).upTo 1) ((dst .LOCAL).upTo 2) ∧
      ∀ {dst' : Side → StagedLog Update},
        (∀ k ≤ 2, (dst' .LOCAL).upTo k = (dst .LOCAL).upTo k) →
        (dst' .REMOTE).entries = (dst .REMOTE).entries ++ swapUpdates swap →
        WireOk S src dst' ms := by
  cases h with
  | update hsay _ => cases hsay
  | commit hmine hS hrest =>
    refine ⟨hmine, hS, ?_⟩
    intro dst' hl hr
    have h0 := hl 0 (by omega)
    rw [upTo_zero, upTo_zero] at h0
    rw [WireOk, hl 1 (by omega), hl 2 le_rfl, h0, hr, hmine]
    exact hrest

lemma src_revokes (h : WireOk S src dst ms)
    (hl : ∀ k ≤ 1, (src' .LOCAL).upTo k = (src .LOCAL).upTo k)
    (hr : (src' .REMOTE).upTo 2 = (dst .LOCAL).upTo 1) :
    WireOk S src' dst (ms ++ [.revokeAndAck]) := by
  have h0 := hl 0 (by omega)
  rw [upTo_zero, upTo_zero] at h0
  rw [WireOk, hl 1 le_rfl, h0, hr]
  exact h.snoc_revoke

lemma dst_acked (h : WireOk S src dst (.revokeAndAck :: ms)) {dst' : Side → StagedLog Update}
    (hl : ∀ k ≤ 1, (dst' .LOCAL).upTo k = (dst .LOCAL).upTo k)
    (h2 : (dst' .LOCAL).upTo 2 = (dst .LOCAL).upTo 1)
    (hr : (dst' .REMOTE).entries = (dst .REMOTE).entries) : WireOk S src dst' ms := by
  have h0 := hl 0 (by omega)
  rw [upTo_zero, upTo_zero] at h0
  cases h with
  | update hsay _ => cases hsay
  | revoke hrest =>
    rw [WireOk, hl 1 le_rfl, h0, h2, hr]
    exact hrest

end WireOk

/-- How many of a peer's commitments are unrevoked. -/
def unrevoked (p : Peer) : ℕ := if p.awaitingRevoke then 1 else 0

/-- The peers' channels are summaries of their logs, and the wires hold what lies between. A peer
that waits for a revocation has its commitment or its revocation on the wire. -/
structure Linked (setup : Side → ChannelSetup) (init : Side → ℕ → Side → ℤ) (feerate : ℕ) (n : Net)
    (past : Side → Past) (log : Side → Side → StagedLog Update) : Prop where
  peers : ∀ x, PeerTracks (init x) feerate (past x) (n.peer x) (log x)
  setups : ∀ x, (n.peer x).channel.setup = setup x
  wires : ∀ x, WireOk (SentView (setup x) (init x) feerate) (log x) (log x.other) (n.wire x)
  waits : ∀ x, (n.wire x).countP Msg.isCommit + (n.wire x.other).countP Msg.isRevoke =
    unrevoked (n.peer x)

section linked

variable {cp : ChainParams} {lk : Locks} {setup : Side → ChannelSetup}
  {init : Side → ℕ → Side → ℤ} {feerate : ℕ} {n n' : Net} {past : Side → Past}
  {log : Side → Side → StagedLog Update} {x : Side}

lemma Linked.wires_other (h : Linked setup init feerate n past log) (x : Side) :
    WireOk (SentView (setup x.other) (init x.other) feerate) (log x.other) (log x)
      (n.wire x.other) := by
  have := h.wires x.other
  rwa [Side.other_other] at this

lemma Linked.waits_other (h : Linked setup init feerate n past log) (x : Side) :
    (n.wire x.other).countP Msg.isCommit + (n.wire x).countP Msg.isRevoke =
      unrevoked (n.peer x.other) := by
  have := h.waits x.other
  rwa [Side.other_other] at this

/-- One peer takes a step; the other keeps its channel and its logs. -/
theorem Linked.update (h : Linked setup init feerate n past log) {p' : Peer} {past' : Past}
    {log' : Side → StagedLog Update}
    (hp : PeerTracks (init x) feerate past' p' log')
    (hs : p'.channel.setup = (n.peer x).channel.setup)
    (hpeer : n'.peer = update n.peer x p')
    (hout : WireOk (SentView (setup x) (init x) feerate) log' (log x.other) (n'.wire x))
    (hin : WireOk (SentView (setup x.other) (init x.other) feerate) (log x.other) log'
      (n'.wire x.other))
    (hwx : (n'.wire x).countP Msg.isCommit + (n'.wire x.other).countP Msg.isRevoke =
      unrevoked p')
    (hwo : (n'.wire x.other).countP Msg.isCommit + (n'.wire x).countP Msg.isRevoke =
      unrevoked (n.peer x.other)) :
    Linked setup init feerate n' (update past x past') (update log x log') := by
  have hself : n'.peer x = p' := by rw [hpeer, update_self]
  have hother : n'.peer x.other = n.peer x.other := by
    rw [hpeer, update_of_ne (Side.other_ne x)]
  have hlog : Function.update log x log' x.other = log x.other :=
    update_of_ne (Side.other_ne x) _ _
  have hpast : Function.update past x past' x.other = past x.other :=
    update_of_ne (Side.other_ne x) _ _
  constructor
  case peers =>
    intro y
    rcases y.eq_or_eq_other x with rfl | rfl
    · rw [hself, update_self, update_self]
      exact hp
    · rw [hother, hlog, hpast]
      exact h.peers x.other
  case setups =>
    intro y
    rcases y.eq_or_eq_other x with rfl | rfl
    · rw [hself, hs]
      exact h.setups y
    · rw [hother]
      exact h.setups x.other
  case wires =>
    intro y
    rcases y.eq_or_eq_other x with rfl | rfl
    · rw [hlog, update_self]
      exact hout
    · rw [Side.other_other, hlog, update_self]
      exact hin
  case waits =>
    intro y
    rcases y.eq_or_eq_other x with rfl | rfl
    · rw [hself]
      exact hwx
    · rw [hother, Side.other_other]
      exact hwo

/-- A peer's action keeps the two linked. -/
theorem Linked.act (h : Linked setup init feerate n past log) {a : Action}
    (hstep : n.step cp lk x (.act a) = some n') :
    ∃ past log, Linked setup init feerate n' past log := by
  obtain ⟨⟨p', ms⟩, hact, hn⟩ := bind_eq_some_iff.1 hstep
  obtain rfl := some.inj hn
  obtain ⟨past', log', hp, hs, hacted⟩ := (h.peers x).act hact
  have hwx := h.waits x
  have hwo := h.waits_other x
  have hwire : Function.update n.wire x (n.wire x ++ ms) x.other = n.wire x.other :=
    update_of_ne (Side.other_ne x) _ _
  refine ⟨_, _, h.update (x := x) hp hs rfl ?_ ?_ ?_ ?_⟩ <;>
    simp only [update_self, hwire]
  all_goals cases hacted
  case refine_1.quiet wait =>
    rw [append_nil]
    exact h.wires x
  case refine_1.said m u wait hsay =>
    -- what we remove, the other peer has said
    apply (h.wires x).src_said
    exact hsay.mono (h.wires_other x).heard_subset
  case refine_1.committed free wait swap =>
    have hno : (n.wire x).countP Msg.isCommit = 0 := by
      rw [unrevoked, free, if_neg Bool.false_ne_true] at hwx
      omega
    apply (h.wires x).src_commits hno swap
    refine ⟨hs.trans (h.setups x), ?_⟩
    have hview := hp.tracks.view hp.ledger .REMOTE
    have hsides : (fun o => (advanceLog (log x) (n.peer x).channel .sendingCommit o).upTo
        (viewStage .REMOTE o)) =
        bySide ((log x .LOCAL).entries ++ swapUpdates (seqSwap p'.channel))
          ((log x .REMOTE).upTo 2) := by
      have hpre : CommitStep.sendingCommit.pre .LOCAL (viewStage .REMOTE .LOCAL) = 0 ∧
          CommitStep.sendingCommit.pre .REMOTE (viewStage .REMOTE .REMOTE) = 2 := by decide
      funext o
      cases o
      · rw [upTo_advanceLog, hpre.1, if_pos rfl, upTo_zero, swap]
        rfl
      · rw [upTo_advanceLog, hpre.2, if_neg two_ne_zero, append_nil]
        rfl
    rwa [hsides] at hview
  case refine_2.quiet wait => exact h.wires_other x
  case refine_2.said m u wait hsay => exact (h.wires_other x).dst_said u
  case refine_2.committed free wait swap =>
    apply (h.wires_other x).dst_commits
    rw [unrevoked, free, if_neg Bool.false_ne_true] at hwx
    omega
  case refine_3.quiet wait =>
    rw [append_nil, unrevoked, wait]
    exact hwx
  case refine_3.said m u wait hsay =>
    rw [countP_append, countP_singleton, hsay.not_commit.1, unrevoked, wait]
    exact hwx
  case refine_3.committed free wait swap =>
    rw [unrevoked, free, if_neg Bool.false_ne_true] at hwx
    rw [countP_append, countP_singleton, unrevoked, wait]
    simp only [Msg.isCommit, if_true]
    omega
  case refine_4.quiet wait =>
    rw [append_nil]
    exact hwo
  case refine_4.said m u wait hsay =>
    rw [countP_append, countP_singleton, hsay.not_commit.2]
    exact hwo
  case refine_4.committed free wait swap =>
    rw [countP_append, countP_singleton]
    exact hwo

/-- The net after a peer has heard a message. -/
theorem Net.step_hear (hstep : n.step cp lk x .hear = some n') :
    ∃ m rest p' ms, n.wire x.other = m :: rest ∧ (n.peer x).hear cp lk m = some (p', ms) ∧
      n'.peer = update n.peer x p' ∧ n'.wire x.other = rest ∧
      n'.wire x = n.wire x ++ ms := by
  unfold Net.step at hstep
  dsimp only at hstep
  split at hstep
  · cases hstep
  · next m rest hwire =>
    obtain ⟨⟨p', ms⟩, hhear, hn⟩ := bind_eq_some_iff.1 hstep
    obtain rfl := some.inj hn
    refine ⟨m, rest, p', ms, hwire, hhear, rfl, ?_, update_self _ _ _⟩
    change update (update n.wire x.other rest) x _ x.other = rest
    rw [update_of_ne (Side.other_ne x), update_self]

/-- So does a message that is heard. -/
theorem Linked.hear (h : Linked setup init feerate n past log)
    (hstep : n.step cp lk x .hear = some n') :
    ∃ past log, Linked setup init feerate n' past log := by
  obtain ⟨m, rest, p', ms, hwire, hhear, hpeer, hrest, hout⟩ := Net.step_hear hstep
  have hin := h.wires_other x
  have hwx := h.waits x
  have hwo := h.waits_other x
  rw [hwire] at hin hwx hwo
  have hupdate : m.isCommit = false ∧ m.isRevoke = false →
      ∃ past log, Linked setup init feerate n' past log := by
    intro hm
    obtain ⟨u, hsay, hrestOk⟩ := hin.dst_hears hm
    obtain ⟨hp, hs, hwait, rfl⟩ := (h.peers x).hear_update hsay hhear
    rw [append_nil] at hout
    refine ⟨_, _, h.update hp hs hpeer ?_ ?_ ?_ ?_⟩
    · rw [hout]
      exact (h.wires x).src_hears u
    · rw [hrest]
      exact hrestOk
    · rw [hout, hrest, unrevoked, hwait]
      rwa [countP_cons_of_neg (by simp [hm.2])] at hwx
    · rw [hout, hrest]
      rwa [countP_cons_of_neg (by simp [hm.1])] at hwo
  cases m with
  | updateAddHtlc a => exact hupdate ⟨rfl, rfl⟩
  | updateFulfillHtlc id preimage => exact hupdate ⟨rfl, rfl⟩
  | updateFailHtlc id => exact hupdate ⟨rfl, rfl⟩
  | updateFee value => exact hupdate ⟨rfl, rfl⟩
  | commitmentSigned swap sent =>
    obtain ⟨past', log', hp, hs, hwait, rfl, hlocal, hremote, hack⟩ := (h.peers x).hear_commit hhear
    obtain ⟨hmine, -, hrestOk⟩ := hin.dst_takes
    rw [countP_cons_of_neg (by simp [Msg.isRevoke])] at hwx
    rw [countP_cons_of_pos rfl] at hwo
    refine ⟨_, _, h.update hp hs hpeer ?_ ?_ ?_ ?_⟩
    · rw [hout]
      apply (h.wires x).src_revokes fun k hk => hlocal k (by omega)
      rw [hack, hremote, hmine]
    · rw [hrest]
      exact hrestOk hlocal hremote
    · rw [hout, hrest, countP_append, unrevoked, hwait]
      exact hwx
    · rw [hout, hrest, countP_append, countP_singleton]
      simp only [Msg.isRevoke, if_true]
      omega
  | revokeAndAck =>
    obtain ⟨past', log', hp, hs, hbefore, hafter, rfl, hlocal, htwo, hremote⟩ :=
      (h.peers x).hear_revoke hhear
    have hentries := hremote 0 (by omega)
    rw [upTo_zero, upTo_zero] at hentries
    rw [append_nil] at hout
    rw [countP_cons_of_pos rfl, unrevoked, hbefore, if_pos rfl] at hwx
    rw [countP_cons_of_neg (by simp [Msg.isCommit])] at hwo
    refine ⟨_, _, h.update hp hs hpeer ?_ ?_ ?_ ?_⟩
    · rw [hout]
      exact (h.wires x).congr_src hlocal (hremote 2 le_rfl)
    · rw [hrest]
      exact hin.dst_acked hlocal htwo hentries
    · rw [hout, hrest, unrevoked, hafter, if_neg Bool.false_ne_true]
      omega
    · rw [hout, hrest]
      exact hwo

/-- Every step keeps the peers linked. -/
theorem Linked.step (h : Linked setup init feerate n past log) {m : Move}
    (hstep : n.step cp lk x m = some n') : ∃ past log, Linked setup init feerate n' past log := by
  cases m with
  | act a => exact h.act hstep
  | hear => exact h.hear hstep

/-- A commitment that is linked to its sender's view leads its receiver to the same view. -/
theorem Linked.agree (h : Linked setup init feerate n past log) {c : Channel} {rest : List Msg}
    (hinit : ∀ l < symNumLanes (setup x), ∀ s, init x l s.other = init x.other l s)
    (hlanes : symNumLanes (setup x.other) = symNumLanes (setup x))
    (hopener : (setup x.other).opener = (setup x).opener.other)
    (hwire : n.wire x.other = .commitmentSigned swap sent :: rest)
    (htake : takeCommitment (n.peer x).channel swap = some c) : ViewsAgree sent c := by
  have hin := h.wires_other x
  rw [hwire] at hin
  obtain ⟨hmine, ⟨hsetup, hsent⟩, -⟩ := hin.dst_takes
  obtain ⟨past', log', hp, hs, hlocal, hremote, hone⟩ := (h.peers x).takeCommitment htake
  have hview := hp.tracks.view hp.ledger .LOCAL
  have hsides : (fun o => (log' o).upTo (viewStage .LOCAL o)) =
      fun o => bySide ((log x.other .LOCAL).upTo 1) ((log x .LOCAL).upTo 2) o.other := by
    funext o
    cases o
    · exact hlocal 3
    · exact (hone.trans hremote).trans hmine
  rw [hsides] at hview
  have hsetup' : c.setup = setup x := hs.trans (h.setups x)
  apply hsent.agree hview
  · rw [hsetup']
    exact hinit
  · rw [hsetup, hsetup', hlanes]
  · change c.setup.opener = _
    rw [hsetup, hsetup', hopener, Side.other_other]

end linked

/-! ### Every run -/

section runs

variable {cp : ChainParams} {lk : Locks} {setup : ChannelSetup} {feerate blockheight : ℕ}
  {localMsat : ℕ → ℕ}

/-- A new channel tracks the empty logs. -/
lemma PeerTracks.start {heights : StateTable} {c₀ : Channel}
    (hnew : newFullChannel setup (newFeeStates setup.opener feerate) heights localMsat = some c₀) :
    PeerTracks c₀.start feerate ⟨[], []⟩ ⟨c₀, false, 0⟩ fun _ => empty := by
  obtain ⟨hh, hs, -⟩ := newFullChannel_spec hnew
  have hfees : c₀.feeStates = newFeeStates c₀.setup.opener feerate := by
    unfold newFullChannel at hnew
    split at hnew
    · rw [← some.inj hnew]
    · cases hnew
  refine ⟨Ledger.start hnew, ?_, nodup_nil, fun a ha => (by cases ha), ?_, ?_⟩
  · constructor
    case added =>
      intro o k _
      rw [Channel.allHtlcs, hh]
      exact List.Perm.nil
    case removed =>
      intro o k _
      rw [Channel.allHtlcs, hh]
      exact List.Perm.nil
    case swapped =>
      intro o k _
      rw [Channel.allSwaps, hs]
      exact List.Perm.nil
    case fees =>
      intro k hk
      rw [hfees, valueFrom_newFeeStates _ _ hk]
      rfl
    case unset =>
      rw [hh]
      exact fun h hm => by cases hm
  · rw [hs]
    exact fun s hm => by cases hm
  · rw [hs]
    exact fun s hm => by cases hm

/-- What the peers of a new channel start from. -/
structure StartsAs (setup : ChannelSetup) (feerate : ℕ) (n₀ : Net) : Prop where
  linked : Linked (fun x => (n₀.peer x).channel.setup) (fun x => (n₀.peer x).channel.start) feerate
    n₀ (fun _ => ⟨[], []⟩) fun _ _ => empty
  lanes : ∀ x, symNumLanes (n₀.peer x).channel.setup = symNumLanes setup
  opener : ∀ x, (n₀.peer x.other).channel.setup.opener = (n₀.peer x).channel.setup.opener.other
  init : ∀ x, ∀ l < symNumLanes setup, ∀ s,
    (n₀.peer x).channel.start l s.other = (n₀.peer x.other).channel.start l s

/-- Two new channels start as each other's mirror. -/
lemma Net.start_spec {n₀ : Net} (h : Net.start setup feerate blockheight localMsat = some n₀) :
    StartsAs setup feerate n₀ := by
  obtain ⟨c, hc, h⟩ := bind_eq_some_iff.1 h
  obtain ⟨d, hd, h⟩ := bind_eq_some_iff.1 h
  obtain rfl := some.inj h
  have hset : ∀ {s : ChannelSetup} {f b : StateTable} {m : ℕ → ℕ} {e : Channel},
      newFullChannel s f b m = some e →
        e.setup = { s with lowestSpliceAmnt := fun _ _ => 0 } ∧
        (∀ l, e.start l .LOCAL = m l) ∧
        ∀ l, e.start l .REMOTE = ((symLaneFunding s l * 1000 - m l : ℕ) : ℤ) := by
    intro s f b m e he
    unfold newFullChannel at he
    split at he
    · rw [← some.inj he]
      exact ⟨rfl, fun _ => rfl, fun _ => rfl⟩
    · cases he
  obtain ⟨hcs, hcl, hcr⟩ := hset hc
  obtain ⟨hds, hdl, hdr⟩ := hset hd
  have hle : ∀ l < symNumLanes setup, localMsat l ≤ symLaneFunding setup l * 1000 := by
    intro l hl
    have hsum := start_sides hc (l := l) (by rw [hcs]; exact hl)
    have hfund : symLaneFunding c.setup l = symLaneFunding setup l := by rw [hcs]; rfl
    rw [hcl, hcr, hfund] at hsum
    omega
  constructor
  case linked =>
    refine ⟨?_, fun _ => rfl, fun _ => Wire.nil, fun x => ?_⟩
    · intro x
      cases x
      · exact PeerTracks.start hc
      · exact PeerTracks.start hd
    · cases x <;> rfl
  case lanes =>
    intro x
    cases x
    · exact (congrArg symNumLanes hcs).trans rfl
    · exact (congrArg symNumLanes hds).trans rfl
  case opener =>
    intro x
    cases x
    · change d.setup.opener = c.setup.opener.other
      rw [hcs, hds]
      rfl
    · change c.setup.opener = d.setup.opener.other
      rw [hcs, hds]
      exact (Side.other_other _).symm
  case init =>
    intro x l hl s
    have hl := hle l hl
    have hfund : symLaneFunding setup.exchange l = symLaneFunding setup l := rfl
    cases x <;> cases s <;> simp only [Side.other_LOCAL, Side.other_REMOTE, hcl, hcr, hdl, hdr,
      otherMsat, hfund] <;> omega

/-- In every run, a commitment leads its receiver to the view its sender had of it: the same HTLCs,
balances in every lane, and feerate. -/
theorem commitment_agrees {n₀ n : Net}
    (hstart : Net.start setup feerate blockheight localMsat = some n₀)
    (hreach : Net.Reachable cp lk (fun _ _ _ => True) n₀ n) {x : Side} {swap : Option SymSwap}
    {sent c : Channel} {rest : List Msg}
    (hwire : n.wire x.other = .commitmentSigned swap sent :: rest)
    (htake : takeCommitment (n.peer x).channel swap = some c) : ViewsAgree sent c := by
  obtain ⟨hlinked, hlanes, hopener, hinit⟩ := Net.start_spec hstart
  have hrun : ∃ past log, Linked (fun x => (n₀.peer x).channel.setup)
      (fun x => (n₀.peer x).channel.start) feerate n past log := by
    clear hwire htake
    induction hreach with
    | start => exact ⟨_, _, hlinked⟩
    | step _ _ hstep ih =>
      obtain ⟨past, log, h⟩ := ih
      exact h.step hstep
  obtain ⟨past, log, h⟩ := hrun
  apply h.agree _ _ (hopener x) hwire htake
  · rw [hlanes]
    exact hinit x
  · rw [hlanes, hlanes]

end runs

/-! ### A run -/

namespace Example

/-- Two peers of a channel of two assets, half of each lane with either. -/
def peers : Net :=
  (Net.start (setup 1000000) 1000 0 fun l => symLaneFunding (setup 1000000) l * 500).get
    (by decide +kernel)

lemma peers_start :
    Net.start (setup 1000000) 1000 0 (fun l => symLaneFunding (setup 1000000) l * 500) =
      some peers := (some_get _).symm

/-- What an HTLC of the second lane is offered with; its id is the counter's. -/
def htlc (amount : ℕ) : AddArgs := ⟨0, amount, 500000, locks.sha256 preimage, none, 1⟩

/-- The first peer pays in the second lane and asks for a swap, which the other's commitment
carries. -/
def payAndAsk : List (Side × Move) :=
  [(.LOCAL, .act (.offerHtlc (htlc 5000))),
    (.LOCAL, .act (.symSwapRequest ⟨3, RCVD_ADD_HTLC, 0, 1, 70000, 90000⟩)),
    (.REMOTE, .act (.symSwapAccept ⟨3, SENT_ADD_HTLC, 0, 1, 70000, 90000⟩)),
    (.LOCAL, .act .sendCommit), (.REMOTE, .hear), (.REMOTE, .hear),
    (.REMOTE, .act .sendCommit), (.LOCAL, .hear)]

/-- The commitment that LOCAL is to hear can be taken. -/
def takesNext (n : Net) : Bool :=
  match n.wire .REMOTE with
  | .commitmentSigned (some s) _ :: _ => (takeCommitment (n.peer .LOCAL).channel (some s)).isSome
  | _ => false

/-- The commitment that carries the swap agrees. -/
theorem commitment_agrees_payAndAsk : ∃ (n : Net) (s : SymSwap) (sent c : Channel)
    (rest : List Msg),
    peers.runWhile params locks (fun _ _ _ => True) payAndAsk = some n ∧
      n.wire .REMOTE = .commitmentSigned (some s) sent :: rest ∧
      takeCommitment (n.peer .LOCAL).channel (some s) = some c ∧ ViewsAgree sent c := by
  have hrun : (peers.runWhile params locks (fun _ _ _ => True) payAndAsk).any takesNext = true := by
    decide +kernel
  obtain ⟨n, hn, hwire⟩ := (Option.any_eq_true _ _).1 hrun
  unfold takesNext at hwire
  split at hwire
  · next s sent rest hw =>
    obtain ⟨c, hc⟩ := isSome_iff_exists.1 hwire
    exact ⟨n, s, sent, c, rest, hn, hw, hc,
      commitment_agrees peers_start (Lib.Reaches.start.runWhile hn) (x := .LOCAL) hw hc⟩
  · cases hwire

end Example

end SeqLN.Channeld
