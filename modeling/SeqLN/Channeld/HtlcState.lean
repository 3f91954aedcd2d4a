import SeqLN.Common

/-!
# The states of an HTLC

`common/htlc_state.c` and `common/htlc.h`: the twenty states, their flags, and the four lists of states
that `channeld/full_channel.c` advances.

An HTLC is two updates: the one that adds it, by its owner, and the one that removes it, by the other
side, each passing through five stages. `addedAt` and `removedAt` read the stages off the state,
`viewStage` says from which stage on an update is in a view, and `committed_eq`, `wasCommitted_eq` and
`pending_eq` say that the flags are these stages.
-/

namespace SeqLN.Channeld

/-- The states of an HTLC, ours first.
Source: `common/htlc_state.h`, `enum htlc_state` -/
inductive HtlcState where
  | SENT_ADD_HTLC
  | SENT_ADD_COMMIT
  | RCVD_ADD_REVOCATION
  | RCVD_ADD_ACK_COMMIT
  | SENT_ADD_ACK_REVOCATION
  | RCVD_REMOVE_HTLC
  | RCVD_REMOVE_COMMIT
  | SENT_REMOVE_REVOCATION
  | SENT_REMOVE_ACK_COMMIT
  | RCVD_REMOVE_ACK_REVOCATION
  | RCVD_ADD_HTLC
  | RCVD_ADD_COMMIT
  | SENT_ADD_REVOCATION
  | SENT_ADD_ACK_COMMIT
  | RCVD_ADD_ACK_REVOCATION
  | SENT_REMOVE_HTLC
  | SENT_REMOVE_COMMIT
  | RCVD_REMOVE_REVOCATION
  | RCVD_REMOVE_ACK_COMMIT
  | SENT_REMOVE_ACK_REVOCATION
  deriving DecidableEq, Repr

open HtlcState

/-- The states, in the order of the enumeration. -/
def allHtlcStates : List HtlcState :=
  [SENT_ADD_HTLC, SENT_ADD_COMMIT, RCVD_ADD_REVOCATION, RCVD_ADD_ACK_COMMIT,
    SENT_ADD_ACK_REVOCATION, RCVD_REMOVE_HTLC, RCVD_REMOVE_COMMIT, SENT_REMOVE_REVOCATION,
    SENT_REMOVE_ACK_COMMIT, RCVD_REMOVE_ACK_REVOCATION, RCVD_ADD_HTLC, RCVD_ADD_COMMIT,
    SENT_ADD_REVOCATION, SENT_ADD_ACK_COMMIT, RCVD_ADD_ACK_REVOCATION, SENT_REMOVE_HTLC,
    SENT_REMOVE_COMMIT, RCVD_REMOVE_REVOCATION, RCVD_REMOVE_ACK_COMMIT,
    SENT_REMOVE_ACK_REVOCATION]

instance : Fintype HtlcState := ⟨⟨allHtlcStates, by decide⟩, fun s => by cases s <;> decide⟩

/-! ### The flags -/

/-- Source: `common/htlc.h` -/
def HTLC_ADDING : ℕ := 0x1000

/-- Source: `common/htlc.h` -/
def HTLC_REMOVING : ℕ := 0x2000

/-- An uncommitted change is pending. -/
def HTLC_F_PENDING : ℕ := 0x01

/-- The HTLC is in the commitment transaction. -/
def HTLC_F_COMMITTED : ℕ := 0x02

/-- The previous commitment transaction is revoked. -/
def HTLC_F_REVOKED : ℕ := 0x04

/-- The side offered it. -/
def HTLC_F_OWNER : ℕ := 0x08

/-- The HTLC was ever in a commitment transaction. -/
def HTLC_F_WAS_COMMITTED : ℕ := 0x10

/-- The side needs to send more messages to reach a steady state. -/
def HTLC_F_WILL_SEND : ℕ := 0x20

/-- A flag as it applies to a side. Source: `HTLC_FLAG` -/
def HTLC_FLAG (side : Side) (flag : ℕ) : ℕ :=
  match side with
  | .LOCAL => flag
  | .REMOTE => flag <<< 6

/-- The flags of a side that hold together in a state. -/
def sideBits (side : Side) (flags : List ℕ) : ℕ := HTLC_FLAG side flags.sum

/-- The flags for each state.
Source: `common/htlc_state.c`, `per_state_bits` -/
def htlcStateFlags : HtlcState → ℕ
  | SENT_ADD_HTLC => HTLC_ADDING
    + sideBits .LOCAL [HTLC_F_OWNER, HTLC_F_WILL_SEND]
    + sideBits .REMOTE [HTLC_F_PENDING, HTLC_F_WILL_SEND]
  | SENT_ADD_COMMIT => HTLC_ADDING
    + sideBits .LOCAL [HTLC_F_OWNER, HTLC_F_WILL_SEND]
    + sideBits .REMOTE [HTLC_F_COMMITTED, HTLC_F_WAS_COMMITTED, HTLC_F_WILL_SEND]
  | RCVD_ADD_REVOCATION => HTLC_ADDING
    + sideBits .LOCAL [HTLC_F_OWNER, HTLC_F_PENDING, HTLC_F_WILL_SEND]
    + sideBits .REMOTE [HTLC_F_COMMITTED, HTLC_F_REVOKED, HTLC_F_WAS_COMMITTED, HTLC_F_WILL_SEND]
  | RCVD_ADD_ACK_COMMIT => HTLC_ADDING
    + sideBits .LOCAL [HTLC_F_OWNER, HTLC_F_COMMITTED, HTLC_F_WAS_COMMITTED, HTLC_F_WILL_SEND]
    + sideBits .REMOTE [HTLC_F_COMMITTED, HTLC_F_REVOKED, HTLC_F_WAS_COMMITTED]
  | SENT_ADD_ACK_REVOCATION =>
    sideBits .LOCAL [HTLC_F_OWNER, HTLC_F_COMMITTED, HTLC_F_REVOKED, HTLC_F_WAS_COMMITTED]
    + sideBits .REMOTE [HTLC_F_COMMITTED, HTLC_F_REVOKED, HTLC_F_WAS_COMMITTED]
  | RCVD_REMOVE_HTLC => HTLC_REMOVING
    + sideBits .LOCAL
      [HTLC_F_OWNER, HTLC_F_PENDING, HTLC_F_COMMITTED, HTLC_F_WAS_COMMITTED, HTLC_F_WILL_SEND]
    + sideBits .REMOTE [HTLC_F_COMMITTED, HTLC_F_WAS_COMMITTED, HTLC_F_WILL_SEND]
  | RCVD_REMOVE_COMMIT => HTLC_REMOVING
    + sideBits .LOCAL [HTLC_F_OWNER, HTLC_F_WAS_COMMITTED, HTLC_F_WILL_SEND]
    + sideBits .REMOTE [HTLC_F_COMMITTED, HTLC_F_WAS_COMMITTED, HTLC_F_WILL_SEND]
  | SENT_REMOVE_REVOCATION => HTLC_REMOVING
    + sideBits .LOCAL [HTLC_F_OWNER, HTLC_F_REVOKED, HTLC_F_WAS_COMMITTED, HTLC_F_WILL_SEND]
    + sideBits .REMOTE [HTLC_F_COMMITTED, HTLC_F_PENDING, HTLC_F_WAS_COMMITTED, HTLC_F_WILL_SEND]
  | SENT_REMOVE_ACK_COMMIT => HTLC_REMOVING
    + sideBits .LOCAL [HTLC_F_OWNER, HTLC_F_REVOKED, HTLC_F_WAS_COMMITTED]
    + sideBits .REMOTE [HTLC_F_WAS_COMMITTED, HTLC_F_WILL_SEND]
  | RCVD_REMOVE_ACK_REVOCATION =>
    sideBits .LOCAL [HTLC_F_OWNER, HTLC_F_REVOKED, HTLC_F_WAS_COMMITTED]
    + sideBits .REMOTE [HTLC_F_REVOKED, HTLC_F_WAS_COMMITTED]
  | RCVD_ADD_HTLC => HTLC_ADDING
    + sideBits .LOCAL [HTLC_F_PENDING, HTLC_F_WILL_SEND]
    + sideBits .REMOTE [HTLC_F_OWNER, HTLC_F_WILL_SEND]
  | RCVD_ADD_COMMIT => HTLC_ADDING
    + sideBits .LOCAL [HTLC_F_COMMITTED, HTLC_F_WAS_COMMITTED, HTLC_F_WILL_SEND]
    + sideBits .REMOTE [HTLC_F_OWNER, HTLC_F_WILL_SEND]
  | SENT_ADD_REVOCATION => HTLC_ADDING
    + sideBits .LOCAL [HTLC_F_COMMITTED, HTLC_F_REVOKED, HTLC_F_WAS_COMMITTED, HTLC_F_WILL_SEND]
    + sideBits .REMOTE [HTLC_F_OWNER, HTLC_F_PENDING, HTLC_F_WILL_SEND]
  | SENT_ADD_ACK_COMMIT => HTLC_ADDING
    + sideBits .LOCAL [HTLC_F_COMMITTED, HTLC_F_REVOKED, HTLC_F_WAS_COMMITTED]
    + sideBits .REMOTE [HTLC_F_OWNER, HTLC_F_COMMITTED, HTLC_F_WAS_COMMITTED, HTLC_F_WILL_SEND]
  | RCVD_ADD_ACK_REVOCATION =>
    sideBits .LOCAL [HTLC_F_COMMITTED, HTLC_F_REVOKED, HTLC_F_WAS_COMMITTED]
    + sideBits .REMOTE [HTLC_F_OWNER, HTLC_F_COMMITTED, HTLC_F_REVOKED, HTLC_F_WAS_COMMITTED]
  | SENT_REMOVE_HTLC => HTLC_REMOVING
    + sideBits .LOCAL [HTLC_F_COMMITTED, HTLC_F_WAS_COMMITTED, HTLC_F_WILL_SEND]
    + sideBits .REMOTE
      [HTLC_F_OWNER, HTLC_F_PENDING, HTLC_F_COMMITTED, HTLC_F_WAS_COMMITTED, HTLC_F_WILL_SEND]
  | SENT_REMOVE_COMMIT => HTLC_REMOVING
    + sideBits .LOCAL [HTLC_F_COMMITTED, HTLC_F_WAS_COMMITTED, HTLC_F_WILL_SEND]
    + sideBits .REMOTE [HTLC_F_OWNER, HTLC_F_WAS_COMMITTED, HTLC_F_WILL_SEND]
  | RCVD_REMOVE_REVOCATION => HTLC_REMOVING
    + sideBits .LOCAL [HTLC_F_COMMITTED, HTLC_F_PENDING, HTLC_F_WAS_COMMITTED, HTLC_F_WILL_SEND]
    + sideBits .REMOTE [HTLC_F_OWNER, HTLC_F_REVOKED, HTLC_F_WAS_COMMITTED, HTLC_F_WILL_SEND]
  | RCVD_REMOVE_ACK_COMMIT => HTLC_REMOVING
    + sideBits .LOCAL [HTLC_F_WAS_COMMITTED, HTLC_F_WILL_SEND]
    + sideBits .REMOTE [HTLC_F_OWNER, HTLC_F_REVOKED, HTLC_F_WAS_COMMITTED]
  | SENT_REMOVE_ACK_REVOCATION =>
    sideBits .LOCAL [HTLC_F_REVOKED, HTLC_F_WAS_COMMITTED]
    + sideBits .REMOTE [HTLC_F_OWNER, HTLC_F_REVOKED, HTLC_F_WAS_COMMITTED]

/-- Whether a state has one of some flags. -/
def HtlcState.has (s : HtlcState) (flags : ℕ) : Bool := htlcStateFlags s &&& flags != 0

/-- Who offered an HTLC in this state. Source: `htlc_state_owner` -/
def htlcStateOwner : HtlcState → Side
  | SENT_ADD_HTLC | SENT_ADD_COMMIT | RCVD_ADD_REVOCATION | RCVD_ADD_ACK_COMMIT
  | SENT_ADD_ACK_REVOCATION | RCVD_REMOVE_HTLC | RCVD_REMOVE_COMMIT | SENT_REMOVE_REVOCATION
  | SENT_REMOVE_ACK_COMMIT | RCVD_REMOVE_ACK_REVOCATION => .LOCAL
  | _ => .REMOTE

/-- The next state of the enumeration: `state++` of the source. -/
def HtlcState.succ : HtlcState → HtlcState
  | SENT_ADD_HTLC => SENT_ADD_COMMIT
  | SENT_ADD_COMMIT => RCVD_ADD_REVOCATION
  | RCVD_ADD_REVOCATION => RCVD_ADD_ACK_COMMIT
  | RCVD_ADD_ACK_COMMIT => SENT_ADD_ACK_REVOCATION
  | SENT_ADD_ACK_REVOCATION => RCVD_REMOVE_HTLC
  | RCVD_REMOVE_HTLC => RCVD_REMOVE_COMMIT
  | RCVD_REMOVE_COMMIT => SENT_REMOVE_REVOCATION
  | SENT_REMOVE_REVOCATION => SENT_REMOVE_ACK_COMMIT
  | SENT_REMOVE_ACK_COMMIT => RCVD_REMOVE_ACK_REVOCATION
  | RCVD_REMOVE_ACK_REVOCATION => RCVD_ADD_HTLC
  | RCVD_ADD_HTLC => RCVD_ADD_COMMIT
  | RCVD_ADD_COMMIT => SENT_ADD_REVOCATION
  | SENT_ADD_REVOCATION => SENT_ADD_ACK_COMMIT
  | SENT_ADD_ACK_COMMIT => RCVD_ADD_ACK_REVOCATION
  | RCVD_ADD_ACK_REVOCATION => SENT_REMOVE_HTLC
  | SENT_REMOVE_HTLC => SENT_REMOVE_COMMIT
  | SENT_REMOVE_COMMIT => RCVD_REMOVE_REVOCATION
  | RCVD_REMOVE_REVOCATION => RCVD_REMOVE_ACK_COMMIT
  | RCVD_REMOVE_ACK_COMMIT => SENT_REMOVE_ACK_REVOCATION
  | SENT_REMOVE_ACK_REVOCATION => SENT_REMOVE_ACK_REVOCATION

/-- An HTLC that both sides have forgotten. Source: `channeld/channeld_htlc.h`, `htlc_is_dead` -/
def HtlcState.isDead (s : HtlcState) : Bool :=
  s == RCVD_REMOVE_ACK_REVOCATION || s == SENT_REMOVE_ACK_REVOCATION

/-! ### The stages of the two updates -/

variable {s : HtlcState}

/-- The place of a state among the ten of its owner. -/
def HtlcState.phase : HtlcState → ℕ
  | SENT_ADD_HTLC | RCVD_ADD_HTLC => 0
  | SENT_ADD_COMMIT | RCVD_ADD_COMMIT => 1
  | RCVD_ADD_REVOCATION | SENT_ADD_REVOCATION => 2
  | RCVD_ADD_ACK_COMMIT | SENT_ADD_ACK_COMMIT => 3
  | SENT_ADD_ACK_REVOCATION | RCVD_ADD_ACK_REVOCATION => 4
  | RCVD_REMOVE_HTLC | SENT_REMOVE_HTLC => 5
  | RCVD_REMOVE_COMMIT | SENT_REMOVE_COMMIT => 6
  | SENT_REMOVE_REVOCATION | RCVD_REMOVE_REVOCATION => 7
  | SENT_REMOVE_ACK_COMMIT | RCVD_REMOVE_ACK_COMMIT => 8
  | RCVD_REMOVE_ACK_REVOCATION | SENT_REMOVE_ACK_REVOCATION => 9

/-- The update that adds the HTLC has reached stage `k`. -/
def HtlcState.addedAt (k : ℕ) (s : HtlcState) : Bool := k ≤ s.phase

/-- The update that removes the HTLC has reached stage `k`. -/
def HtlcState.removedAt (k : ℕ) (s : HtlcState) : Bool := k + 5 ≤ s.phase

/-- The stage from which an update is in a view: its maker's peer takes it first, the maker once the
peer has revoked. -/
def viewStage (view originator : Side) : ℕ := if originator = view then 3 else 1

lemma committed_eq (s : HtlcState) (v : Side) :
    s.has (HTLC_FLAG v HTLC_F_COMMITTED) =
      (s.addedAt (viewStage v (htlcStateOwner s)) &&
        !s.removedAt (viewStage v (htlcStateOwner s).other)) := by
  revert s v
  decide

lemma wasCommitted_eq (s : HtlcState) (v : Side) :
    s.has (HTLC_FLAG v HTLC_F_WAS_COMMITTED) = s.addedAt (viewStage v (htlcStateOwner s)) := by
  revert s v
  decide

/-- A change is pending for a view when it is one stage short of it. -/
theorem pending_eq (s : HtlcState) (v : Side) :
    s.has (HTLC_FLAG v HTLC_F_PENDING) =
      (s.addedAt (viewStage v (htlcStateOwner s) - 1) &&
          !s.addedAt (viewStage v (htlcStateOwner s)) ||
        s.removedAt (viewStage v (htlcStateOwner s).other - 1) &&
          !s.removedAt (viewStage v (htlcStateOwner s).other)) := by
  revert s v
  decide

lemma has_owner (s : HtlcState) (o : Side) :
    s.has (HTLC_FLAG o HTLC_F_OWNER) = decide (htlcStateOwner s = o) := by
  revert s o
  decide

/-- What is being removed was added on both sides. -/
theorem HtlcState.addedAt_of_removedAt {j k : ℕ} (hk : k ≤ 5) (h : s.removedAt j = true) :
    s.addedAt k = true := by
  simp only [removedAt, addedAt, decide_eq_true_eq] at h ⊢
  omega

lemma HtlcState.addedAt_mono {j k : ℕ} (hjk : j ≤ k) (h : s.addedAt k = true) :
    s.addedAt j = true := by
  simp only [addedAt, decide_eq_true_eq] at h ⊢
  omega

lemma HtlcState.removedAt_mono {j k : ℕ} (hjk : j ≤ k) (h : s.removedAt k = true) :
    s.removedAt j = true := by
  simp only [removedAt, decide_eq_true_eq] at h ⊢
  omega

lemma HtlcState.isDead_iff (s : HtlcState) : s.isDead = true ↔ s.phase = 9 := by
  revert s
  decide

lemma HtlcState.removedAt_of_isDead (h : s.isDead = true) {k : ℕ} (hk : k ≤ 4) :
    s.removedAt k = true := by
  rw [isDead_iff] at h
  simp only [removedAt, h, decide_eq_true_eq]
  omega

/-! ### The four steps -/

/-- The calls that advance the updates of a channel. -/
inductive CommitStep where
  /-- Source: `channel_sending_commit` -/
  | sendingCommit
  /-- Source: `channel_rcvd_revoke_and_ack` -/
  | rcvdRevokeAndAck
  /-- Source: `channel_rcvd_commit` -/
  | rcvdCommit
  /-- Source: `channel_sending_revoke_and_ack` -/
  | sendingRevokeAndAck
  deriving DecidableEq, Repr

namespace CommitStep

instance : Fintype CommitStep :=
  ⟨{sendingCommit, rcvdRevokeAndAck, rcvdCommit, sendingRevokeAndAck},
    fun s => by cases s <;> simp⟩

/-- The view whose balances the call may move: the second argument of `change_htlcs`. -/
def sidechanged : CommitStep → Side
  | sendingCommit => .REMOTE
  | rcvdRevokeAndAck => .LOCAL
  | rcvdCommit => .LOCAL
  | sendingRevokeAndAck => .REMOTE

/-- The states the call advances: the third argument of `change_htlcs`. -/
def htlcStates : CommitStep → List HtlcState
  | sendingCommit => [SENT_ADD_HTLC, SENT_REMOVE_REVOCATION, SENT_ADD_REVOCATION, SENT_REMOVE_HTLC]
  | rcvdRevokeAndAck =>
    [SENT_ADD_COMMIT, SENT_REMOVE_ACK_COMMIT, SENT_ADD_ACK_COMMIT, SENT_REMOVE_COMMIT]
  | rcvdCommit => [RCVD_ADD_REVOCATION, RCVD_REMOVE_HTLC, RCVD_ADD_HTLC, RCVD_REMOVE_REVOCATION]
  | sendingRevokeAndAck =>
    [RCVD_ADD_ACK_COMMIT, RCVD_REMOVE_COMMIT, RCVD_ADD_COMMIT, RCVD_REMOVE_ACK_COMMIT]

/-- The stage to which the call moves the updates of `originator`. -/
def target : CommitStep → Side → ℕ
  | sendingCommit, .LOCAL => 1
  | sendingCommit, .REMOTE => 3
  | rcvdRevokeAndAck, .LOCAL => 2
  | rcvdRevokeAndAck, .REMOTE => 4
  | rcvdCommit, .LOCAL => 3
  | rcvdCommit, .REMOTE => 1
  | sendingRevokeAndAck, .LOCAL => 4
  | sendingRevokeAndAck, .REMOTE => 2

/-- The stage an update of `originator` had before the call when it has `k` after it. -/
def pre (st : CommitStep) (originator : Side) (k : ℕ) : ℕ :=
  if k = st.target originator then k - 1 else k

/-- What the call makes of a state. -/
def advance (st : CommitStep) (s : HtlcState) : HtlcState :=
  if s ∈ st.htlcStates then s.succ else s

@[simp] lemma htlcStateOwner_advance (st : CommitStep) (s : HtlcState) :
    htlcStateOwner (st.advance s) = htlcStateOwner s := by
  revert st s
  decide

lemma addedAt_advance (st : CommitStep) (s : HtlcState) :
    ∀ k ≤ 4, (st.advance s).addedAt k = s.addedAt (st.pre (htlcStateOwner s) k) := by
  revert st s
  decide

lemma removedAt_advance (st : CommitStep) (s : HtlcState) :
    ∀ k ≤ 4, (st.advance s).removedAt k = s.removedAt (st.pre (htlcStateOwner s).other k) := by
  revert st s
  decide

lemma pre_le (st : CommitStep) (o : Side) (k : ℕ) : st.pre o k ≤ k := by
  unfold pre
  split <;> omega

lemma target_le (st : CommitStep) (o : Side) : 1 ≤ st.target o ∧ st.target o ≤ 4 := by
  revert st o
  decide

end CommitStep

end SeqLN.Channeld
