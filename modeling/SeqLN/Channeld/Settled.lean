import SeqLN.Channeld.Conservation

/-!
# What a side has settled

The balances that `lightningd` keeps lie at the cut where each side's updates have gone all four
stages; a view is ahead of it with the updates of both. `Settled` says that a side's balance is not
negative at any of the cuts of `cuts`, from everything sent (`(0, 0)`) to everything settled
(`(4, 4)`). A call takes each of these cuts to another (`cuts_pre`), so only what is added has to be
looked at.
-/

namespace SeqLN.Channeld

open HtlcState

/-! ### The cuts on the way -/

variable {a : Cut} {x : ℕ × ℕ}

/-- The cut at a stage of a side's updates and a stage of the other's. -/
def sideCut (p : Side) (own other : ℕ) : Cut := fun o => if o = p then own else other

/-- The stages of a side's own updates, and of the other's, at which its balance is not negative. -/
def cuts : List (ℕ × ℕ) :=
  [(0, 0), (0, 1), (0, 2), (1, 0), (1, 1), (1, 2), (1, 3), (2, 0), (2, 1), (2, 2), (2, 3), (2, 4),
    (3, 1), (3, 2), (3, 3), (3, 4), (4, 2), (4, 3), (4, 4)]

@[simp] lemma sideCut_self (p : Side) (k j : ℕ) : sideCut p k j p = k := if_pos rfl

@[simp] lemma sideCut_other (p : Side) (k j : ℕ) : sideCut p k j p.other = j := if_neg p.other_ne

lemma eq_sideCut {p : Side} {k j : ℕ} (hown : a p = k) (hother : a p.other = j) :
    a = sideCut p k j := by
  funext o
  rcases o.eq_or_eq_other p with rfl | rfl
  · rw [hown, sideCut_self]
  · rw [hother, sideCut_other]

lemma viewStage_eq_sideCut (p : Side) :
    viewStage p = sideCut p 3 1 ∧ viewStage p.other = sideCut p 1 3 ∧
      nextCut p = sideCut p 2 0 ∧ nextCut p.other = sideCut p 0 2 := by
  refine ⟨eq_sideCut ?_ ?_, eq_sideCut ?_ ?_, eq_sideCut ?_ ?_, eq_sideCut ?_ ?_⟩ <;>
    cases p <;> rfl

lemma sideCut_le (hx : x ∈ cuts) (p o : Side) : sideCut p x.1 x.2 o ≤ 4 := by
  have : ∀ x ∈ cuts, x.1 ≤ 4 ∧ x.2 ≤ 4 := by decide
  obtain ⟨h1, h2⟩ := this x hx
  unfold sideCut
  split
  · exact h1
  · exact h2

/-- A call takes each of the cuts to another. -/
theorem cuts_pre (st : CommitStep) (p : Side) {x : ℕ × ℕ} (hx : x ∈ cuts) :
    (st.pre p x.1, st.pre p.other x.2) ∈ cuts := by
  revert st p x
  decide

lemma preCut_sideCut (st : CommitStep) (p : Side) (k j : ℕ) :
    st.preCut (sideCut p k j) = sideCut p (st.pre p k) (st.pre p.other j) := by
  apply eq_sideCut
  · rw [CommitStep.preCut, sideCut_self]
  · rw [CommitStep.preCut, sideCut_other]

/-! ### The invariant -/

variable {past : Past} {c : Channel}

/-- No side's balance is negative at any of the cuts. -/
def Settled (init : ℕ → Side → ℤ) (past : Past) (c : Channel) : Prop :=
  ∀ p : Side, ∀ x ∈ cuts, ∀ l < symNumLanes c.setup,
    0 ≤ init l p + cutTotal (sideCut p x.1 x.2) past c l p

section keeps

variable {init : ℕ → Side → ℤ} {past : Past} {c : Channel}

lemma Settled.change {c' : Channel} {st : CommitStep} {flags : ℕ} (hd : Settled init past c)
    (hsort : Sorted past c) (h : changeHtlcs c st = some (c', flags)) :
    Settled init (past.advance st c) c' := by
  intro p x hx l hl
  rw [(changeHtlcs_spec h).2.2.1] at hl
  rw [cutTotal_change hsort h (sideCut_le hx p), preCut_sideCut]
  exact hd p _ (cuts_pre st p hx) l hl

/-- More of the other side's updates never take an HTLC's worth from a side. -/
theorem htlcTotal_sideCut_le (past : Past) (c : Channel) (p : Side) (k : ℕ) {j j' : ℕ} (hj : j ≤ j')
    (l : ℕ) :
    htlcTotal (sideCut p k j') past c l p ≤ htlcTotal (sideCut p k j) past c l p := by
  apply htlcTotal_mono
  · rw [sideCut_self, sideCut_self]
  · rw [sideCut_other, sideCut_other]
    exact hj

lemma safeSwap_le_cutSwap_of_le {b : Cut} (hab : ∀ o, a o ≤ b o) (s : SymSwap) (lane : ℕ)
    (side : Side) : safeSwap b s lane side ≤ cutSwap a s lane side :=
  (safeSwap_mono hab s lane side).trans (safeSwap_le_cutSwap a s lane side)

/-- A side's own addition counts only from its start. -/
theorem cuts_own_zero (hx : x ∈ cuts) (h0 : x.1 = 0) : x.2 ≤ 2 := by
  revert x
  decide

lemma cuts_other_zero (hx : x ∈ cuts) (h0 : x.2 = 0) : x.1 ≤ 2 := by
  revert x
  decide

/-- An HTLC that there is room for keeps what is settled. -/
theorem Settled.add (hd : Settled init past c) {h : Htlc} (hp : h.state.phase = 0)
    (hroom : 0 ≤ init h.lane h.owner + htlcTotal (nextCut h.owner.other) past c h.lane h.owner +
      swapSafe (viewStage h.owner.other) past c h.lane h.owner - h.amount) :
    Settled init past { c with htlcs := h :: c.htlcs } := by
  intro p x hx l hl
  have hold := hd p x hx l hl
  change 0 ≤ _ + (htlcTotal _ past _ l p + swapTotal _ past c l p)
  rw [htlcTotal_add, cutMove_new hp]
  unfold cutTotal at hold
  by_cases hpo : p = h.owner
  · subst hpo
    rw [sideCut_self]
    split
    · next hc =>
      obtain ⟨rfl, hzero⟩ := hc
      have hown : addMove h h.owner = -(h.amount : ℤ) := if_pos rfl
      obtain ⟨-, hview, -, hnext⟩ := viewStage_eq_sideCut h.owner
      have hx2 := cuts_own_zero hx hzero
      have h1 := htlcTotal_sideCut_le past c h.owner 0 hx2 h.lane
      have h2 : swapSafe (sideCut h.owner 1 3) past c h.lane h.owner ≤
          swapTotal (sideCut h.owner 0 x.2) past c h.lane h.owner := by
        refine List.sum_le_sum fun s _ => safeSwap_le_cutSwap_of_le ?_ s _ _
        intro o
        unfold sideCut
        split <;> omega
      rw [hview, hnext] at hroom
      rw [hzero, hown]
      linarith
    · linarith
  · have hzero : addMove h p = 0 := if_neg (Ne.symm hpo)
    rw [hzero, ite_self]
    linarith

lemma Settled.replace (hd : Settled init past c) {g h : Htlc} (hg : g ∈ c.htlcs)
    (hnext : removeState g.state = some h.state) (hlane : h.lane = g.lane)
    (hamt : h.amount = g.amount) : Settled init past (c.replace g h) := by
  intro p x hx l hl
  have hold := hd p x hx l hl
  change 0 ≤ _ + (htlcTotal _ past _ l p + swapTotal _ past c l p)
  rw [htlcTotal_replace past c _ l p hg, cutMove_remove h hnext hlane hamt (sideCut_le hx p)]
  have := removeMove_nonneg h p
  unfold cutTotal at hold
  split <;> linarith

/-- The cuts at which a new swap counts are not behind those it was checked at. -/
theorem htlcTotal_le_of_swap (past : Past) (c : Channel) {p o : Side} (hx : x ∈ cuts)
    (hzero : sideCut p x.1 x.2 o = 0) (l : ℕ) :
    ∃ v : Side, htlcTotal (viewStage v) past c l p ≤ htlcTotal (sideCut p x.1 x.2) past c l p ∨
      htlcTotal (nextCut v) past c l p ≤ htlcTotal (sideCut p x.1 x.2) past c l p := by
  obtain ⟨k, j⟩ := x
  obtain ⟨-, hview, hnextP, hnextO⟩ := viewStage_eq_sideCut p
  have hcase : k = 0 ∧ j ≤ 2 ∨ k = 1 ∧ j ≤ 3 ∨ k = 2 ∧ j = 0 := by
    rcases o.eq_or_eq_other p with rfl | rfl
    · rw [sideCut_self] at hzero
      exact Or.inl ⟨hzero, cuts_own_zero hx hzero⟩
    · rw [sideCut_other] at hzero
      have hk := cuts_other_zero hx hzero
      dsimp only at hzero hk
      omega
  rcases hcase with ⟨rfl, hj⟩ | ⟨rfl, hj⟩ | ⟨rfl, rfl⟩
  · exact ⟨p.other, Or.inr (hnextO ▸ htlcTotal_sideCut_le past c p 0 hj l)⟩
  · exact ⟨p.other, Or.inl (hview ▸ htlcTotal_sideCut_le past c p 1 hj l)⟩
  · exact ⟨p, Or.inr (hnextP ▸ le_rfl)⟩

/-- So does a swap that passes its check. -/
theorem Settled.swapAdd (hl : Ledger init past c) (hs : Solvent init past c)
    (hd : Settled init past c)
    (hT : ∀ l < symNumLanes c.setup, init l .LOCAL + init l .REMOTE < 2 ^ 64) {s : SymSwap}
    (hcheck : channelSymSwapCheck c s = true) (hidle : c.symSwap = none) (hfit : SwapFits c s)
    (hp : s.state.phase = 0) : Settled init past { c with symSwap := some s } := by
  intro p x hx l hlane
  have hold := hd p x hx l hlane
  change 0 ≤ _ + (htlcTotal _ past c l p + swapTotal _ past _ l p)
  rw [swapTotal_swapAdd past c _ l p hidle, cutSwap_new hp]
  have hpast := (swapSafe_of_idle hl.toSorted hidle (sideCut_le hx p) l p).2
  rw [cutTotal, hpast] at hold
  rw [hpast]
  split
  · next hzero =>
    rcases lt_or_ge (swapMove s l p) 0 with hneg | hpos
    · obtain ⟨v, hle | hle⟩ := htlcTotal_le_of_swap past c hx hzero l
      · linarith [swapLeg_view hl hs hT hcheck hidle hfit v hneg]
      · linarith [swapLeg_next hl hs hT hcheck hidle hfit v hneg]
    · linarith
  · linarith

end keeps

/-- Every accepted operation whose check does not wrap around keeps what is settled. -/
theorem Settled.step {cp : ChainParams} {lk : Locks} {init : ℕ → Side → ℤ} {c' : Channel} {op : Op}
    (hl : Ledger init past c) (hs : Solvent init past c) (hd : Settled init past c)
    (hT : ∀ l < symNumLanes c.setup, init l .LOCAL + init l .REMOTE < 2 ^ 64)
    (hfit : ChecksFit c op) (h : Effect cp lk c op c') : Settled init (past.next c op) c' := by
  cases h with
  | add sender a imm fi basic room =>
    have hroom := room_of_hasRoom hl hs basic.lane_lt (hT _ basic.lane_lt) room hfit
    exact hd.add (h := { newHtlc (addState sender) a with failImmediate := fi })
      (phase_addState sender) hroom
  | fulfill owner id preimage g state get unset opens next =>
    exact hd.replace (mem_of_htlcGet get) next rfl rfl
  | fail owner id g state get next => exact hd.replace (mem_of_htlcGet get) next rfl rfl
  | quiet op feeStates heights req hq fees asked =>
    rw [Past.next_quiet hq]
    exact hd
  | swapAdd s check idle fresh =>
    have hp : s.state.phase = 0 := by rcases fresh with h | h <;> rw [h] <;> rfl
    exact hd.swapAdd hl hs hT check idle hfit hp
  | swapDone s swap done =>
    rw [Past.next_swapDone swap done]
    intro p x hx l hlane
    rw [cutTotal, swapTotal_swapDone past c _ l p swap]
    exact hd p x hx l hlane
  | swapWaits wait =>
    rw [Past.next_swapWaits wait]
    exact hd
  | commitStep st c' flags hc => exact hd.change hl.toSorted hc

/-- Every reachable channel is settled. -/
theorem Reachable.settled {cp : ChainParams} {lk : Locks} {setup : ChannelSetup}
    {feeStates heights : StateTable} {localMsat : ℕ → ℕ} {c₀ : Channel}
    (hnew : newFullChannel setup feeStates heights localMsat = some c₀)
    (hreach : Reachable cp lk ChecksFit c₀ c) :
    ∃ past, Sound c₀ past c ∧ Settled c₀.start past c := by
  induction hreach with
  | start =>
    refine ⟨⟨[], []⟩, ⟨rfl, Ledger.start hnew, Solvent.start hnew⟩, ?_⟩
    intro p x _ l _
    rw [cutTotal, (start_total hnew _ l p).1, (start_total hnew _ l p).2.1, add_zero, add_zero]
    exact Int.natCast_nonneg _
  | step _ hfit happ ih =>
    obtain ⟨past, hs, hd⟩ := ih
    have heff := apply_effect happ
    exact ⟨_, hs.step hnew hfit heff,
      hd.step hs.ledger hs.solvent (fun _ hl => hs.start_lt hnew hl) hfit heff⟩

/-! ### The settled balance -/

/-- What the HTLCs and the swap of a channel have done to a balance at a cut. -/
def liveMove (a : Cut) (c : Channel) (lane : ℕ) (side : Side) : ℤ :=
  (c.htlcs.map (cutMove a · lane side)).sum + (c.symSwap.toList.map (cutSwap a · lane side)).sum

/-- A balance of a view with every live HTLC and a swap in flight undone. -/
def settledMsat (c : Channel) (v : Side) (lane : ℕ) (side : Side) : ℤ :=
  c.owed v lane side - liveMove (viewStage v) c lane side

/-- What the HTLCs and swaps a channel has forgotten have done to a balance. -/
def pastMove (past : Past) (lane : ℕ) (side : Side) : ℤ :=
  (past.htlcs.map fun h => if h.lane = lane then addMove h side + removeMove h side else 0).sum +
    (past.swaps.map (swapMove · lane side)).sum

lemma cutMove_of_isDead (ha : ∀ o, a o ≤ 4) {h : Htlc} (hd : h.state.isDead = true) (lane : ℕ)
    (side : Side) :
    cutMove a h lane side = if h.lane = lane then addMove h side + removeMove h side else 0 := by
  have hrem := HtlcState.removedAt_of_isDead hd (ha h.owner.other)
  have hadd : h.state.addedAt (a h.owner) = true :=
    HtlcState.addedAt_of_removedAt (le_trans (ha _) (by omega)) hrem
  rw [cutMove, if_pos hadd, if_pos hrem]

/-- At every cut the forgotten count in full. -/
theorem cutTotal_eq_past_add_live (hsort : Sorted past c) (ha : ∀ o, a o ≤ 4) (lane : ℕ)
    (side : Side) :
    cutTotal a past c lane side = pastMove past lane side + liveMove a c lane side := by
  have hhtlcs : past.htlcs.map (cutMove a · lane side) =
      past.htlcs.map fun h => if h.lane = lane then addMove h side + removeMove h side else 0 :=
    List.map_congr_left fun h hh => cutMove_of_isDead ha (hsort.past_dead h hh) lane side
  have hswaps : past.swaps.map (cutSwap a · lane side) = past.swaps.map (swapMove · lane side) :=
    List.map_congr_left fun s hs => (safeSwap_of_done ha (hsort.past_done s hs) lane side).2
  simp only [cutTotal, htlcTotal, swapTotal, pastMove, liveMove, List.map_append, List.sum_append,
    hhtlcs, hswaps]
  ring

/-- What is past has moved from one side to the other. -/
lemma pastMove_sides (past : Past) (lane : ℕ) :
    pastMove past lane .LOCAL + pastMove past lane .REMOTE = 0 := by
  have hhtlc : ∀ h : Htlc, (if h.lane = lane then addMove h .LOCAL + removeMove h .LOCAL else 0) +
      (if h.lane = lane then addMove h .REMOTE + removeMove h .REMOTE else 0) = 0 := by
    intro h
    split
    · unfold addMove removeMove
      cases h.owner <;> cases h.paidTo <;> simp
    · simp
  have h1 : (past.htlcs.map fun h => (if h.lane = lane then addMove h .LOCAL + removeMove h .LOCAL
      else 0) + (if h.lane = lane then addMove h .REMOTE + removeMove h .REMOTE else 0)).sum = 0 := by
    simp only [hhtlc, List.map_const', List.sum_replicate, smul_zero]
  have h2 : (past.swaps.map fun s => swapMove s lane .LOCAL + swapMove s lane .REMOTE).sum = 0 := by
    simp only [swapMove_add, List.map_const', List.sum_replicate, smul_zero]
  rw [List.sum_map_add] at h1 h2
  unfold pastMove
  linarith

/-- The updates of a live HTLC that are through on both sides only take. -/
theorem liveMove_settled_nonpos (hsort : Sorted past c) (hidle : ∀ s ∈ c.symSwap, ¬ s.Done)
    (p : Side) (lane : ℕ) (side : Side) : liveMove (sideCut p 4 4) c lane side ≤ 0 := by
  have hfour : ∀ o, sideCut p 4 4 o = 4 := fun o => ite_self 4
  have hhtlcs := List.sum_le_sum (l := c.htlcs) (f := fun h => cutMove (sideCut p 4 4) h lane side)
    (g := fun _ => (0 : ℤ)) (by
      intro h hh
      have hrem : h.state.removedAt 4 = false := by
        have hlive := hsort.live h hh
        rw [← Bool.not_eq_true, HtlcState.isDead_iff] at hlive
        have hle : ∀ s : HtlcState, s.phase ≤ 9 := by decide
        have := hle h.state
        simp only [HtlcState.removedAt, decide_eq_false_iff_not]
        omega
      rw [cutMove, hfour, hfour, hrem]
      have := addMove_nonpos h side
      split_ifs <;> simp_all)
  have hswap : (c.symSwap.toList.map (cutSwap (sideCut p 4 4) · lane side)).sum = 0 := by
    rcases hs : c.symSwap with _ | s
    · rfl
    · have hadd : s.state.addedAt 4 = false := by
        have hdone : ∀ s : HtlcState, s.phase ≤ 4 → s.addedAt 4 = true →
            s = SENT_ADD_ACK_REVOCATION ∨ s = RCVD_ADD_ACK_REVOCATION := by decide
        rw [← Bool.not_eq_true]
        exact fun h => hidle s hs (hdone s.state (hsort.swap_phase s hs) h)
      simp [cutSwap, hfour, hadd]
  simp only [List.map_const', List.sum_replicate, smul_zero] at hhtlcs
  rw [liveMove, hswap, add_zero]
  exact hhtlcs

section settledMsat

variable {setup : ChannelSetup} {feeStates heights : StateTable} {localMsat : ℕ → ℕ}
  {c₀ : Channel} (hnew : newFullChannel setup feeStates heights localMsat = some c₀)
  {past : Past} {c : Channel} (hs : Sound c₀ past c) {l : ℕ} (hl : l < symNumLanes c.setup)

include hnew hs hl

/-- Both views give the same settled balance. -/
theorem settledMsat_eq (v p : Side) : settledMsat c v l p = c₀.start l p + pastMove past l p := by
  rw [settledMsat, owed_eq hs.ledger hs.solvent hl (hs.start_lt hnew hl),
    cutTotal_eq_past_add_live hs.ledger.toSorted (viewStage_le v)]
  ring

lemma settledMsat_sides (v : Side) :
    settledMsat c v l .LOCAL + settledMsat c v l .REMOTE = symLaneFunding c.setup l * 1000 := by
  have hsides := start_sides hnew (hs.setup ▸ hl)
  rw [settledMsat_eq hnew hs hl, settledMsat_eq hnew hs hl, hs.setup]
  linarith [pastMove_sides past l]

/-- Between messages, when a swap that is done has been forgotten, no settled balance is
negative. -/
theorem settledMsat_nonneg (hd : Settled c₀.start past c) (hidle : ∀ s ∈ c.symSwap, ¬ s.Done)
    (v p : Side) : 0 ≤ settledMsat c v l p := by
  have h44 := hd p (4, 4) (by decide) l hl
  have hlive := liveMove_settled_nonpos hs.ledger.toSorted hidle p l p
  rw [cutTotal_eq_past_add_live hs.ledger.toSorted (sideCut_le (x := (4, 4)) (by decide) p)] at h44
  rw [settledMsat_eq hnew hs hl]
  linarith

end settledMsat

end SeqLN.Channeld
