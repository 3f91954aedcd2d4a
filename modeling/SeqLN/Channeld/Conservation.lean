import SeqLN.Lib.Sha256
import SeqLN.Channeld.Solvent

/-!
# Value is conserved

What the two sides of a view hold in a lane and what its HTLCs carry add up to what the lane was
funded with, and a swap enters a view with both its legs (`conserved_of_checksFit`), where no check
has wrapped around: an HTLC of nearly `2 ^ 64` passes the check of a lane
(`not_conserved_of_wrapped_htlc`).
-/

namespace SeqLN.Channeld

open HtlcState

/-! ### A new channel -/

variable {l : ℕ}

section start

variable {setup : ChannelSetup} {feeStates heights : StateTable} {localMsat : ℕ → ℕ} {c₀ : Channel}

/-- What each side has in each lane of a new channel. -/
def Channel.start (c₀ : Channel) : ℕ → Side → ℤ := fun l s => c₀.owed .LOCAL l s

/-- What a new channel has. -/
lemma newFullChannel_spec (h : newFullChannel setup feeStates heights localMsat = some c₀) :
    c₀.htlcs = [] ∧ c₀.symSwap = none ∧ c₀.symSwapReq = none ∧
      (∀ v s, c₀.setup.lowestSpliceAmnt v s = 0) ∧ (∀ v, c₀.owed v = c₀.owed .LOCAL) ∧
      ∀ l < symNumLanes c₀.setup, symLaneFunding c₀.setup l * 1000 < 2 ^ 64 ∧
        c₀.owed .LOCAL l .LOCAL + c₀.owed .LOCAL l .REMOTE = symLaneFunding c₀.setup l * 1000 := by
  unfold newFullChannel at h
  split at h
  · next hok =>
    rw [← Option.some.inj h]
    refine ⟨rfl, rfl, rfl, fun _ _ => rfl, fun _ => rfl, ?_⟩
    intro l hl
    have hsome := hok.2 l hl
    unfold amountSatSubMsat at hsome
    split at hsome
    · next hfit =>
      obtain ⟨m, hm⟩ := Option.isSome_iff_exists.1 hsome
      have hle := (amountSub_eq_some.1 hm).1
      exact ⟨hfit, Nat.add_sub_of_le hle⟩
    · cases hsome
  · cases h

variable (h : newFullChannel setup feeStates heights localMsat = some c₀)

include h

lemma start_sides (hl : l < symNumLanes c₀.setup) :
    c₀.start l .LOCAL + c₀.start l .REMOTE = symLaneFunding c₀.setup l * 1000 := by
  have := ((newFullChannel_spec h).2.2.2.2.2 l hl).2
  unfold Channel.start
  exact_mod_cast this

lemma start_sides_lt (hl : l < symNumLanes c₀.setup) :
    c₀.start l .LOCAL + c₀.start l .REMOTE < 2 ^ 64 := by
  have := ((newFullChannel_spec h).2.2.2.2.2 l hl).1
  rw [start_sides h hl]
  exact_mod_cast this

lemma start_total (a : Cut) (l : ℕ) (s : Side) :
    htlcTotal a ⟨[], []⟩ c₀ l s = 0 ∧ swapTotal a ⟨[], []⟩ c₀ l s = 0 ∧
      swapSafe a ⟨[], []⟩ c₀ l s = 0 := by
  obtain ⟨hh, hs, -⟩ := newFullChannel_spec h
  simp [htlcTotal, swapTotal, swapSafe, hh, hs]

lemma Ledger.start : Ledger c₀.start ⟨[], []⟩ c₀ := by
  obtain ⟨hh, hs, -, -, hviews, hlanes⟩ := newFullChannel_spec h
  refine ⟨⟨?_, ?_, ?_, ?_⟩, ?_, ?_⟩
  · exact fun g hg => by cases hg
  · rw [hh]
    exact fun g hg => by cases hg
  · exact fun s hs => by cases hs
  · rw [hs]
    exact fun s hs => by cases hs
  · intro v l hl s
    rw [cutTotal, (start_total h _ l s).1, (start_total h _ l s).2.1, add_zero, add_zero, hviews]
    rfl
  · intro v l hl s
    rw [hviews]
    obtain ⟨hfit, hsum⟩ := hlanes l hl
    cases s <;> omega

lemma Solvent.start : Solvent c₀.start ⟨[], []⟩ c₀ := by
  have hzero : ∀ (a b : Cut) (l : ℕ) (s : Side),
      0 ≤ c₀.start l s + htlcTotal a ⟨[], []⟩ c₀ l s + swapSafe b ⟨[], []⟩ c₀ l s := by
    intro a b l s
    rw [(start_total h a l s).1, (start_total h b l s).2.2, add_zero, add_zero]
    exact Int.natCast_nonneg _
  exact ⟨fun _ _ _ _ => hzero _ _ _ _, fun _ _ _ _ => hzero _ _ _ _, fun _ _ _ => hzero _ _ _ _⟩

end start

/-! ### Every run -/

variable {past : Past} {c : Channel}

/-- The ledger of a channel in which no check has wrapped around. -/
structure Sound (c₀ : Channel) (past : Past) (c : Channel) : Prop where
  setup : c.setup = c₀.setup
  ledger : Ledger c₀.start past c
  solvent : Solvent c₀.start past c

section runs

variable {cp : ChainParams} {lk : Locks} {setup : ChannelSetup} {feeStates heights : StateTable}
  {localMsat : ℕ → ℕ} {c₀ : Channel}
  (hnew : newFullChannel setup feeStates heights localMsat = some c₀)

include hnew

lemma Sound.start_lt (hs : Sound c₀ past c) (hl : l < symNumLanes c.setup) :
    c₀.start l .LOCAL + c₀.start l .REMOTE < 2 ^ 64 :=
  start_sides_lt hnew (hs.setup ▸ hl)

lemma Sound.step {c' : Channel} {op : Op} (hs : Sound c₀ past c) (hfit : ChecksFit c op)
    (h : Effect cp lk c op c') : Sound c₀ (past.next c op) c' where
  setup := h.setup.trans hs.setup
  ledger := hs.ledger.step h
  solvent := hs.solvent.step hs.ledger (fun _ hl => hs.start_lt hnew hl) hfit h

lemma Reachable.sound (hreach : Reachable cp lk ChecksFit c₀ c) : ∃ past, Sound c₀ past c := by
  induction hreach with
  | start => exact ⟨⟨[], []⟩, rfl, Ledger.start hnew, Solvent.start hnew⟩
  | step _ hfit happ ih =>
    obtain ⟨past, hs⟩ := ih
    exact ⟨_, hs.step hnew hfit (apply_effect happ)⟩

end runs

/-! ### What an operation moves -/

/-- What an operation moves of a balance for the HTLCs that enter a view or leave it. -/
def htlcMoves (c : Channel) (op : Op) (v : Side) (lane : ℕ) (side : Side) : ℤ :=
  match op with
  | .commitStep st =>
    if v = st.sidechanged then (c.htlcs.map (incMove st · lane side)).sum else 0
  | _ => 0

/-- The swap that enters a view with an operation. -/
def swapEntering (c : Channel) (op : Op) (v : Side) : Option SymSwap :=
  match op with
  | .commitStep st => if v = st.sidechanged then c.symSwap.filter (swapEnters st) else none
  | _ => none

lemma Effect.owed {cp : ChainParams} {lk : Locks} {c' : Channel} {op : Op}
    (h : Effect cp lk c op c') (hop : ∀ st, op ≠ .commitStep st) : c'.owed = c.owed := by
  cases h with
  | commitStep st c' flags hc => exact absurd rfl (hop st)
  | _ => rfl

lemma sum_incSwap (st : CommitStep) (swap : Option SymSwap) (lane : ℕ) (side : Side) :
    (swap.toList.map (incSwap st · lane side)).sum =
      ((swap.filter (swapEnters st)).map (swapMove · lane side)).getD 0 := by
  rcases swap with _ | s
  · rfl
  · rw [Option.toList_some, List.map_singleton, List.sum_singleton, incSwap_eq, Option.filter_some]
    split <;> rfl

section runs

variable {cp : ChainParams} {lk : Locks} {setup : ChannelSetup} {feeStates heights : StateTable}
  {localMsat : ℕ → ℕ} {c₀ : Channel}
  (hnew : newFullChannel setup feeStates heights localMsat = some c₀)

include hnew

/-- A balance moves by what its HTLCs and the swap move it, without wrapping around. -/
theorem Sound.owed_step {c' : Channel} {op : Op} (hs : Sound c₀ past c) (hfit : ChecksFit c op)
    (h : Effect cp lk c op c') (v : Side) (hl : l < symNumLanes c.setup) (p : Side) :
    (c'.owed v l p : ℤ) = c.owed v l p + htlcMoves c op v l p +
      ((swapEntering c op v).map (swapMove · l p)).getD 0 := by
  by_cases hop : ∀ st, op ≠ .commitStep st
  · have hzero : htlcMoves c op v l p = 0 ∧ swapEntering c op v = none := by
      cases op with
      | commitStep st => exact absurd rfl (hop st)
      | _ => exact ⟨rfl, rfl⟩
    rw [h.owed hop, hzero.1, hzero.2]
    simp
  · push Not at hop
    obtain ⟨st, rfl⟩ := hop
    have hs' := hs.step hnew hfit h
    have hl' : l < symNumLanes c'.setup := h.setup ▸ hl
    have hchange : cutTotal (viewStage v) (past.next c (.commitStep st)) c' l p =
        cutTotal (st.preCut (viewStage v)) past c l p := by
      cases h with
      | commitStep st c' flags hc =>
        exact cutTotal_change hs.ledger.toSorted hc (viewStage_le v) l p
      | quiet op feeStates heights req hq fees asked => cases hq
    rw [owed_eq hs.ledger hs.solvent hl (hs.start_lt hnew hl),
      owed_eq hs'.ledger hs'.solvent hl' (hs'.start_lt hnew hl'), hchange]
    unfold htlcMoves swapEntering
    by_cases hv : v = st.sidechanged
    · subst hv
      simp only [if_true]
      rw [cutTotal_preCut hs.ledger.toSorted, sum_incSwap]
      ring
    · simp only [hv, if_false]
      rw [st.preCut_viewStage_of_ne hv]
      simp

/-- Where no check has wrapped around, each lane of each view holds what it was funded with; an
operation moves the HTLCs that enter or leave a view, and a swap with both its legs. -/
theorem conserved_of_checksFit {c : Channel} (hreach : Reachable cp lk ChecksFit c₀ c) :
    (∀ v : Side, ∀ l < symNumLanes c.setup,
      c.owed v l .LOCAL + c.owed v l .REMOTE + committedMsat c v l =
        1000 * symLaneFunding c.setup l) ∧
    ∀ (op : Op) (c' : Channel), ChecksFit c op → c.apply cp lk op = some c' →
      ∀ v : Side, ∀ l < symNumLanes c.setup, ∀ p : Side,
        (c'.owed v l p : ℤ) = c.owed v l p + htlcMoves c op v l p +
          ((swapEntering c op v).map (swapMove · l p)).getD 0 := by
  obtain ⟨past, hs⟩ := hreach.sound hnew
  refine ⟨?_, ?_⟩
  · intro v l hl
    have hsides := owed_sides hs.ledger hs.solvent hl (hs.start_lt hnew hl) v
    rw [start_sides hnew (hs.setup ▸ hl), ← hs.setup] at hsides
    have : c.owed v l .LOCAL + c.owed v l .REMOTE + committedMsat c v l =
        symLaneFunding c.setup l * 1000 := by exact_mod_cast hsides
    rw [this, Nat.mul_comm]
  · intro op c' hfit happ v l hl p
    exact hs.owed_step hnew hfit (apply_effect happ) v hl p

end runs

/-! ### A run -/

namespace Example

/-- The digest of a preimage; the runs below use no point lock. -/
def locks : Locks where
  sha256 preimage := ⟨Sha256.sha256 preimage.bytes, Sha256.length_sha256 _⟩
  pointLockOpens _ _ := false

def params : ChainParams where
  maxPayment := 4294967295
  isElements := true
  hasAnchorHeader := false
  marginalFeerate f := f

def config : ChannelConfig where
  dustLimit := 546
  maxHtlcValueInFlight := 2 ^ 64 - 1
  channelReserve := 10000
  htlcMinimum := 1
  maxAcceptedHtlcs := 30
  maxDustHtlcExposureMsat := 50000000

/-- A channel of two assets, the second lane funded as stated. -/
def setup (lane : ℕ) : ChannelSetup where
  opener := .LOCAL
  fundingSats := 1000000
  symLanes := [lane]
  config _ := config
  creditFloor := 0
  optionAnchorOutputs := false
  optionAnchorsZeroFeeHtlcTx := false
  optionWumbo := true
  lowestSpliceAmnt _ _ := 0

/-- Half of each lane is ours. -/
def newChannel (lane : ℕ) : Option Channel :=
  newFullChannel (setup lane) (newFeeStates .LOCAL 1000) (newFeeStates .LOCAL 0)
    fun l => symLaneFunding (setup lane) l * 500

def preimage : ByteString 32 := ⟨List.replicate 32 7, by decide⟩

def add (sender : Side) (id amount lane : ℕ) : Op :=
  .addHtlc sender ⟨id, amount, 500000, locks.sha256 preimage, none, lane⟩ true

def openChannel : Channel := (newChannel 1000000).get (by decide +kernel)

lemma newChannel_open : newChannel 1000000 = some openChannel := (Option.some_get _).symm

/-- Our HTLC in the second lane and a swap the peer asked us for, both committed on both sides. -/
def payAndSwap : List Op :=
  [add .LOCAL 0 5000 1, .symSwapAdd ⟨3, SENT_ADD_HTLC, 0, 1, 70000, 90000⟩,
    .commitStep .sendingCommit, .commitStep .rcvdRevokeAndAck, .commitStep .rcvdCommit,
    .commitStep .sendingRevokeAndAck, .symSwapDone]

/-- A run with a payment and a swap. -/
theorem conserved_payAndSwap : ∃ c : Channel,
    openChannel.runWhile params locks ChecksFit payAndSwap = some c ∧
      c.owed .LOCAL 1 .LOCAL + c.owed .LOCAL 1 .REMOTE + committedMsat c .LOCAL 1 =
        1000 * symLaneFunding c.setup 1 := by
  have hrun : (openChannel.runWhile params locks ChecksFit payAndSwap).isSome = true := by
    decide +kernel
  obtain ⟨c, hc⟩ := Option.isSome_iff_exists.1 hrun
  have hreach : Reachable params locks ChecksFit openChannel c := Lib.Reaches.start.runWhile hc
  have hlanes : symNumLanes c.setup = 2 := by
    obtain ⟨past, hs⟩ := hreach.sound newChannel_open
    rw [hs.setup]
    decide +kernel
  exact ⟨c, hc, (conserved_of_checksFit newChannel_open hreach).1 .LOCAL 1 (by omega)⟩

/-- The peer adds an HTLC of nearly `2 ^ 64` millisatoshi to the second lane, and commits it. -/
def wrappedHtlc : List Op := [add .REMOTE 0 (2 ^ 64 - 1000) 1, .commitStep .rcvdCommit]

/-- An amount that wraps around breaks the sum of a lane. -/
theorem not_conserved_of_wrapped_htlc : ∃ c : Channel,
    newChannel 1000000 = some openChannel ∧
      Reachable params locks (fun _ _ => True) openChannel c ∧
      c.owed .LOCAL 1 .LOCAL + c.owed .LOCAL 1 .REMOTE + committedMsat c .LOCAL 1 ≠
        1000 * symLaneFunding c.setup 1 := by
  have hrun : ((openChannel.runWhile params locks (fun _ _ => True) wrappedHtlc).any fun c =>
      c.owed .LOCAL 1 .LOCAL + c.owed .LOCAL 1 .REMOTE + committedMsat c .LOCAL 1 !=
        1000 * symLaneFunding c.setup 1) = true := by
    decide +kernel
  obtain ⟨c, hc, hne⟩ := (Option.any_eq_true _ _).1 hrun
  exact ⟨c, newChannel_open, Lib.Reaches.start.runWhile hc, by simpa using hne⟩

end Example

end SeqLN.Channeld
