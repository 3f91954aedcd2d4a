import SeqLN.Channeld.Conservation

/-!
# A swap that was asked for

When a swap that was asked for comes back in a commitment, `take_peer_swap` checks both legs again. The
check of an HTLC keeps back what is promised (`swap_promised`) and counts what is being removed, in one
view; the check of a swap counts no removal, in both views. While nothing that is being removed goes to
the payer of a leg (`NoReturns`) the views agree on what it will have left, and the one check vouches
for the other (`LegCovered.of_check`, `LegCovered.add`).

`Promised` is what then holds of the swap, `Promised.step` keeps it, and `Promised.check` says that the
second check passes.
-/

namespace SeqLN.Channeld

open HtlcState Option List

/-! ### What the legs need -/

/-- What an HTLC will take from the side that offered it, where a view has not taken it in yet. -/
def notYet (v : Side) (lane : ℕ) (payer : Side) (h : Htlc) : ℤ :=
  if h.lane = lane ∧ h.owner = payer ∧ h.state.addedAt (viewStage v payer) = false then h.amount
  else 0

/-- What a side has left in a lane of a view once every HTLC it offered is in it. What is being
removed is not counted. -/
def leftAfterAll (c : Channel) (v : Side) (lane : ℕ) (payer : Side) : ℤ :=
  c.owed v lane payer - (c.htlcs.map (notYet v lane payer)).sum

/-- What a leg needs: in the channel's own lane the payer keeps its reserve. -/
def legNeeds (c : ChannelSetup) (payer : Side) (lane amount : ℕ) : ℤ :=
  amount + if lane = 0 then ((channelReserveOf c payer).getD 0 * 1000 : ℕ) else 0

/-- The payer of a leg has what it needs, in both views. -/
def LegCovered (c : Channel) (payer : Side) (lane amount : ℕ) : Prop :=
  ∀ v : Side, legNeeds c.setup payer lane amount ≤ leftAfterAll c v lane payer

/-- Nothing that is being removed from a lane goes to a side. -/
def NoReturns (c : Channel) (lane : ℕ) (payer : Side) : Prop :=
  ∀ h ∈ c.htlcs, h.lane = lane → h.state.removedAt 0 = true → h.paidTo ≠ payer

/-- A side pays a leg of a swap in a lane. -/
def SymSwap.HasLeg (s : SymSwap) (payer : Side) (lane : ℕ) : Prop :=
  s.owner = payer ∧ s.giveLane = lane ∨ s.owner ≠ payer ∧ s.takeLane = lane

/-- Nothing is returned to the payer of a leg while the swap is asked for, or while an HTLC that its
payer adds in the leg's lane is checked. The check of the request does not wrap around. -/
def KeepsPromise (c : Channel) : Op → Prop
  | .addHtlc sender a _ => ∀ s ∈ c.symSwapReq, s.HasLeg sender a.lane → NoReturns c a.lane sender
  | .symSwapRequest s => SwapFits c { s with state := RCVD_ADD_HTLC } ∧
      NoReturns c s.giveLane .REMOTE ∧ NoReturns c s.takeLane .LOCAL
  | _ => True

instance (c : Channel) (lane : ℕ) (payer : Side) : Decidable (NoReturns c lane payer) :=
  inferInstanceAs (Decidable (∀ h ∈ c.htlcs, _))

instance (s : SymSwap) (payer : Side) (lane : ℕ) : Decidable (s.HasLeg payer lane) :=
  inferInstanceAs (Decidable (_ ∨ _))

instance (c : Channel) : (op : Op) → Decidable (KeepsPromise c op)
  | .addHtlc .. => inferInstanceAs (Decidable (∀ s ∈ c.symSwapReq, _))
  | .symSwapRequest _ => inferInstanceAs (Decidable (_ ∧ _))
  | .fulfillHtlc .. | .failHtlc .. | .updateFeerate _ | .updateBlockheight _ | .symSwapAdd _
  | .symSwapCancel _ | .symSwapDone | .commitStep _ => .isTrue trivial

/-- A leg of a swap that was asked for. -/
structure Leg (c : Channel) (payer : Side) (lane amount : ℕ) : Prop where
  covered : LegCovered c payer lane amount
  fits : ∀ v, c.owed v lane payer < 2 ^ 63
  reserve : lane = 0 → ∃ r, channelReserveOf c.setup payer = some r ∧ r * 1000 < 2 ^ 64

/-- What holds of a swap that was asked for, until it comes. -/
structure Promised (c : Channel) (s : SymSwap) : Prop where
  state : s.state = RCVD_ADD_HTLC
  idle : c.symSwap = none
  lanes : c.setup.symLanes.isEmpty = false ∧ s.giveLane ≠ s.takeLane ∧
    s.giveLane < symNumLanes c.setup ∧ s.takeLane < symNumLanes c.setup
  moves : s.give ≠ 0 ∧ s.take ≠ 0
  give : Leg c s.owner s.giveLane s.give
  take : Leg c s.owner.other s.takeLane s.take

/-! ### The check -/

variable {h : Htlc} {c : Channel} {payer : Side} {amount lane : ℕ}

/-- What is being added to a view is not in it. -/
theorem not_added_of_pendingAddition {v : Side} (hc : isCommitted v h = false)
    (hp : isPending v h = true) : h.state.addedAt (viewStage v h.owner) = false := by
  rw [isCommitted_eq] at hc
  rw [isPending_eq] at hp
  cases hadd : h.state.addedAt (viewStage v h.owner)
  · rfl
  · rw [hadd] at hc hp
    simp_all

/-- The other side's view takes in what a side offers from its start. -/
theorem pendingAddition_of_not_added
    (hadd : h.state.addedAt (viewStage h.owner.other h.owner) = false) :
    isCommitted h.owner.other h = false ∧ isPending h.owner.other h = true := by
  have hnext : nextCut h.owner.other h.owner = 0 := (nextCut_eq_zero_iff _ _).2 rfl
  rw [isCommitted_eq, isPending_eq, hadd, hnext]
  simp [HtlcState.addedAt]

/-- What is pending addition to a lane of a view, HTLC by HTLC. -/
theorem sum_pendingAddition (c : Channel) (v : Side) (lane : ℕ) (payer : Side) :
    ((gatherLaneHtlcs c.htlcs v (some lane)).pendingAddition.map (addMove · payer)).sum =
      (c.htlcs.map fun h => if lane = h.lane ∧ isCommitted v h = false ∧ isPending v h = true then
        addMove h payer else 0).sum := by
  simp only [gatherLaneHtlcs, gather, List.filter_filter, all_some, sum_map_filter]
  refine congrArg sum (map_congr_left fun h _ => ?_)
  by_cases hl : lane = h.lane <;> cases isCommitted v h <;> cases isPending v h <;> simp [hl]

/-- What is yet to be taken from a side is not negative. -/
theorem notYet_nonneg (v : Side) (lane : ℕ) (payer : Side) (h : Htlc) :
    0 ≤ notYet v lane payer h := by
  unfold notYet
  split <;> simp

/-- What is being added to a view is among what the view has not taken in. -/
theorem pendingAddition_ge (c : Channel) (v : Side) (lane : ℕ) (payer : Side) :
    -(c.htlcs.map (notYet v lane payer)).sum ≤
      ((gatherLaneHtlcs c.htlcs v (some lane)).pendingAddition.map (addMove · payer)).sum := by
  rw [sum_pendingAddition, sum_neg, List.map_map]
  refine sum_le_sum fun h _ => ?_
  split
  · next hp =>
    obtain ⟨hl, hc, hp⟩ := hp
    have hadd := not_added_of_pendingAddition hc hp
    unfold notYet addMove
    by_cases ho : h.owner = payer
    · subst ho
      simp [hl.symm, hadd]
    · simp [ho]
  · exact neg_nonpos.2 (notYet_nonneg v lane payer h)

/-- In the other side's view it is all of that. -/
theorem pendingAddition_eq (c : Channel) (lane : ℕ) (payer : Side) :
    ((gatherLaneHtlcs c.htlcs payer.other (some lane)).pendingAddition.map (addMove · payer)).sum =
      -(c.htlcs.map (notYet payer.other lane payer)).sum := by
  rw [sum_pendingAddition, sum_neg, List.map_map]
  refine congrArg sum (map_congr_left fun h _ => ?_)
  by_cases ho : h.owner = payer
  · subst ho
    have hiff : (isCommitted h.owner.other h = false ∧ isPending h.owner.other h = true) ↔
        h.state.addedAt (viewStage h.owner.other h.owner) = false :=
      ⟨fun hp => not_added_of_pendingAddition hp.1 hp.2, pendingAddition_of_not_added⟩
    simp only [hiff, Function.comp_apply, notYet, addMove, eq_comm (a := lane)]
    by_cases hl : h.lane = lane <;>
      cases h.state.addedAt (viewStage h.owner.other h.owner) <;> simp [hl]
  · simp [notYet, addMove, ho]

/-- What a leg that passes the check leaves its payer in a view, in the channel's own lane its
reserve. -/
theorem swapAffordableIn_spec (h : swapAffordable c payer lane amount = true) (v : Side) :
    ∃ b, swapBalance c v payer lane amount = some b ∧ 0 ≤ b ∧
      (lane = 0 → ∃ r, channelReserveOf c.setup payer = some r ∧ r * 1000 < 2 ^ 64 ∧
        (r * 1000 : ℕ) ≤ b) := by
  have hv : (swapAffordableIn c payer lane amount v).isSome = true := by
    rw [swapAffordable, Bool.and_eq_true] at h
    cases v
    · exact h.1
    · exact h.2
  obtain ⟨u, hu⟩ := isSome_iff_exists.1 hv
  simp only [swapAffordableIn, bind_eq_bind, bind_eq_some_iff] at hu
  obtain ⟨b, hb, m, hm, hguard⟩ := hu
  obtain ⟨hnonneg, rfl⟩ := balanceOk_eq_some.1 hm
  refine ⟨b, hb, hnonneg, fun hl => ?_⟩
  obtain ⟨left, hleft⟩ := isSome_iff_exists.1 (guard_eq_some.1 hguard hl)
  obtain ⟨r, hr, hsub⟩ := bind_eq_some_iff.1 hleft
  obtain ⟨hfit, hle, -⟩ := amountMsatSubSat_eq_some hsub
  exact ⟨r, hr, hfit, by omega⟩

/-- The check of a leg where no amount leaves its range. -/
theorem swapBalance_of_fits {v : Side} (amount : ℕ) {promised : ℕ}
    (hfit : c.owed v lane payer < 2 ^ 63) (hp : swapPromised c v lane payer = some promised) :
    swapBalance c v payer lane amount = some (wrapS64 (swapExact c v payer lane amount)) := by
  have hb : toBalance (c.owed v lane payer) = some (c.owed v lane payer : ℤ) := if_pos hfit
  have hsome : (swapBalance c v payer lane amount).isSome = true := by
    simp [swapBalance, hb, hp]
  obtain ⟨b, hb⟩ := isSome_iff_exists.1 hsome
  rw [hb, (swapBalance_eq hb).2]

section legs

variable {c : Channel} {payer : Side} {lane amount : ℕ}

/-- Nothing is counted as returned to the side. -/
theorem NoReturns.pendingRemoval (hno : NoReturns c lane payer) (v : Side) :
    ((gatherLaneHtlcs c.htlcs v (some lane)).pendingRemoval.map (removeMove · payer)).sum = 0 := by
  refine sum_eq_zero fun x hx => ?_
  obtain ⟨h, hh, rfl⟩ := mem_map.1 hx
  simp only [gatherLaneHtlcs, gather, mem_filter, all_some, beq_iff_eq, Bool.and_eq_true] at hh
  obtain ⟨⟨hmem, hl⟩, hc, hp⟩ := hh
  rw [isCommitted_eq, Bool.and_eq_true] at hc
  rw [isPending_eq, hc.1] at hp
  simp only [Bool.not_true, Bool.and_false, Bool.false_or, Bool.and_eq_true] at hp
  exact if_neg (hno h hmem hl.symm (HtlcState.removedAt_mono (Nat.zero_le _) hp.1))

/-- A covered leg is affordable, once the request is no longer counted as promised. -/
theorem Leg.affordable (hleg : Leg c payer lane amount) (hidle : c.symSwap = none) :
    swapAffordable { c with symSwapReq := none } payer lane amount = true := by
  have hin : ∀ v, (swapAffordableIn { c with symSwapReq := none } payer lane amount v).isSome =
      true := by
    intro v
    have hp : swapPromised { c with symSwapReq := none } v lane payer = some 0 := by
      simp only [swapPromised, hidle]
      rfl
    have hfit := hleg.fits v
    have hge := pendingAddition_ge c v lane payer
    have hcov := hleg.covered v
    have hle : ((gatherLaneHtlcs c.htlcs v (some lane)).pendingAddition.map
        (addMove · payer)).sum ≤ 0 := sum_addMove_nonpos _ _
    have hexact : swapExact { c with symSwapReq := none } v payer lane amount =
        c.owed v lane payer + ((gatherLaneHtlcs c.htlcs v (some lane)).pendingAddition.map
          (addMove · payer)).sum - amount := by
      rw [swapExact, hp]
      simp
    have hneed : (amount : ℤ) ≤ legNeeds c.setup payer lane amount := by
      unfold legNeeds
      split <;> simp
    unfold leftAfterAll at hcov
    have hnonneg : 0 ≤ swapExact { c with symSwapReq := none } v payer lane amount := by
      rw [hexact]
      linarith
    have hword : wrapS64 (swapExact { c with symSwapReq := none } v payer lane amount) =
        swapExact { c with symSwapReq := none } v payer lane amount := by
      apply wrapS64_of_isS64
      rw [hexact] at hnonneg ⊢
      constructor <;> omega
    have hguard : lane = 0 → ((channelReserveOf c.setup payer).bind fun reserve =>
        amountMsatSubSat (swapExact { c with symSwapReq := none } v payer lane amount).toNat
          reserve).isSome = true := by
      intro hl
      obtain ⟨r, hr, hrfit⟩ := hleg.reserve hl
      unfold legNeeds at hcov
      rw [if_pos hl, hr] at hcov
      have hle : r * 1000 ≤
          (swapExact { c with symSwapReq := none } v payer lane amount).toNat := by
        rw [hexact]
        simp only [getD_some] at hcov
        omega
      rw [hr, bind_some, amountMsatSubSat, if_pos hrfit, amountSub_of_le hle]
      rfl
    have hbal := swapBalance_of_fits (c := { c with symSwapReq := none }) amount hfit hp
    simp only [swapAffordableIn, hbal, hword, bind_eq_bind, bind_some, balanceOk,
      if_neg (not_lt.2 hnonneg)]
    exact isSome_iff_exists.2 ⟨(), guard_eq_some.2 hguard⟩
  rw [swapAffordable, hin, hin]
  rfl

/-- A leg that passes the check and is covered. -/
theorem Leg.of_check (h : swapAffordable c payer lane amount = true)
    (hcov : LegCovered c payer lane amount) : Leg c payer lane amount := by
  refine ⟨hcov, ?_, ?_⟩
  · intro v
    obtain ⟨b, hb, -⟩ := swapAffordable_spec h v
    simp only [swapBalance, bind_eq_bind, bind_eq_some_iff] at hb
    obtain ⟨start, hstart, -⟩ := hb
    exact (toBalance_eq_some hstart).1
  · intro hl
    obtain ⟨b, -, -, hreserve⟩ := swapAffordableIn_spec h .LOCAL
    obtain ⟨r, hr, hfit, -⟩ := hreserve hl
    exact ⟨r, hr, hfit⟩

/-- A leg sees only the balances, the HTLCs offered by its payer and the setup. -/
theorem Leg.congr {c' : Channel} (hleg : Leg c payer lane amount) (howed : c'.owed = c.owed)
    (hsetup : c'.setup = c.setup)
    (hsum : ∀ v, (c'.htlcs.map (notYet v lane payer)).sum = (c.htlcs.map (notYet v lane payer)).sum) :
    Leg c' payer lane amount where
  covered := by
    intro v
    rw [leftAfterAll, howed, hsetup, hsum]
    exact hleg.covered v
  fits := howed ▸ hleg.fits
  reserve := hsetup ▸ hleg.reserve

/-- An HTLC that is in both views is in this one. -/
theorem notYet_of_phase (v : Side) (lane : ℕ) (payer : Side) (hp : 4 ≤ h.state.phase) :
    notYet v lane payer h = 0 := by
  have hadd : h.state.addedAt (viewStage v payer) = true := by
    have := viewStage_le v payer
    simp only [HtlcState.addedAt, decide_eq_true_eq]
    omega
  rw [notYet, if_neg]
  rintro ⟨-, -, hnot⟩
  cases hadd.symm.trans hnot

/-- A removal leaves what is yet to be taken in. -/
theorem sum_notYet_replace {g : Htlc} (hg : g ∈ c.htlcs) (hs : removeState g.state = some h.state)
    (v : Side) :
    ((c.replace g h).htlcs.map (notYet v lane payer)).sum =
      (c.htlcs.map (notYet v lane payer)).sum := by
  obtain ⟨hp, hp', -⟩ := removeState_spec hs
  have hperm := ((perm_cons_erase hg).map (notYet v lane payer)).sum_eq
  rw [hperm, Channel.replace, map_cons, map_cons, sum_cons, sum_cons,
    notYet_of_phase v lane payer hp.ge, notYet_of_phase v lane payer (by omega)]

/-- A removal leaves a leg covered. -/
theorem Leg.replace (hleg : Leg c payer lane amount) {g : Htlc} (hg : g ∈ c.htlcs)
    (hs : removeState g.state = some h.state) : Leg (c.replace g h) payer lane amount :=
  hleg.congr rfl rfl (sum_notYet_replace hg hs)

end legs

/-! ### Committing and revoking -/

variable {st : CommitStep}

/-- What a call leaves yet to be taken in of an HTLC. -/
theorem notYet_advance (st : CommitStep) (v : Side) (lane : ℕ) (payer : Side) (h : Htlc) :
    notYet v lane payer (st.advanceHtlc h) =
      if h.lane = lane ∧ h.owner = payer ∧
          h.state.addedAt (st.preCut (viewStage v) payer) = false then (h.amount : ℤ) else 0 := by
  unfold notYet
  rw [st.owner_advanceHtlc]
  by_cases ho : h.owner = payer
  · subst ho
    have hadd : (st.advance h.state).addedAt (viewStage v h.owner) =
        h.state.addedAt (st.preCut (viewStage v) h.owner) :=
      st.addedAt_advance h.state _ (viewStage_le v _)
    change (if h.lane = lane ∧ h.owner = h.owner ∧
      (st.advance h.state).addedAt (viewStage v h.owner) = false then (h.amount : ℤ) else 0) = _
    rw [hadd]
  · rw [if_neg fun hc => ho hc.2.1, if_neg fun hc => ho hc.2.1]

/-- What an HTLC takes from its owner when it enters the view, it was going to take. -/
theorem incMove_ge (st : CommitStep) (lane : ℕ) (payer : Side) (h : Htlc) :
    notYet st.sidechanged lane payer (st.advanceHtlc h) - notYet st.sidechanged lane payer h ≤
      incMove st h lane payer := by
  by_cases hl : h.lane = lane
  · subst hl
    have hleave : 0 ≤ if leaves st h then removeMove h payer else 0 := by
      split
      · exact removeMove_nonneg h payer
      · exact le_rfl
    have hadd := addedAt_preCut st (a := viewStage st.sidechanged) (o := h.owner) (s := h.state)
    rw [incMove_eq, notYet_advance, notYet]
    by_cases ho : h.owner = payer
    · subst ho
      unfold enters addMove
      cases h1 : h.state.addedAt (viewStage st.sidechanged h.owner) <;>
        cases h2 : h.state.addedAt (st.preCut (viewStage st.sidechanged) h.owner) <;>
        simp_all
    · have hzero : (if enters st h then addMove h payer else 0) = 0 := by
        rw [addMove, if_neg ho, ite_self]
      rw [if_neg fun hc => ho hc.2.1, if_neg fun hc => ho hc.2.1, hzero]
      simpa using hleave
  · rw [incMove_of_ne hl, notYet_advance, notYet, if_neg fun hc => hl hc.1,
      if_neg fun hc => hl hc.1, sub_zero]

/-- The same for all HTLCs: those that die were taken in. -/
theorem sum_notYet_change {past : Past} {c' : Channel} {flags : ℕ} (hsort : Sorted past c)
    (h : changeHtlcs c st = some (c', flags)) (v : Side) (lane : ℕ) (payer : Side) :
    (c'.htlcs.map (notYet v lane payer)).sum =
      (c.htlcs.map fun h => notYet v lane payer (st.advanceHtlc h)).sum := by
  rw [changeHtlcs_htlcs hsort h, sum_map_filter, List.map_map]
  congr 1
  apply map_congr_left
  intro g _
  simp only [Function.comp_apply]
  split
  · rfl
  · next hdead =>
    have hphase : (st.advanceHtlc g).state.phase = 9 := by
      apply (HtlcState.isDead_iff _).1
      simpa using hdead
    rw [notYet_of_phase v lane payer (by omega)]

/-- What a call that commits or revokes does. -/
theorem Effect.changeHtlcs {cp : ChainParams} {lk : Locks} {c' : Channel}
    (heff : Effect cp lk c (.commitStep st) c') :
    ∃ flags, Channeld.changeHtlcs c st = some (c', flags) := by
  cases heff with
  | commitStep _ _ flags h => exact ⟨flags, h⟩
  | quiet _ _ _ _ hq _ _ => cases hq

section runs

variable {cp : ChainParams} {lk : Locks} {setup : ChannelSetup} {feeStates heights : StateTable}
  {localMsat : ℕ → ℕ} {c₀ c c' : Channel} {past : Past}
  (hnew : newFullChannel setup feeStates heights localMsat = some c₀)

include hnew

/-- What a side has left once every HTLC it offered is taken in, where nothing being removed goes to
it: the views do not differ. -/
theorem leftAfterAll_of_noReturns (hs : Sound c₀ past c) (hidle : c.symSwap = none)
    (hlane : lane < symNumLanes c.setup) (hno : NoReturns c lane payer) (v : Side) :
    leftAfterAll c v lane payer = c₀.start lane payer +
      (past.htlcs.map (cutMove (fun _ => 4) · lane payer)).sum +
      (c.htlcs.map fun h => if h.lane = lane then addMove h payer else 0).sum +
      (past.swaps.map (swapMove · lane payer)).sum := by
  have hsort := hs.ledger.toSorted
  have hpast : past.htlcs.map (cutMove (viewStage v) · lane payer) =
      past.htlcs.map (cutMove (fun _ => 4) · lane payer) := by
    refine map_congr_left fun h hh => ?_
    have hdead := (HtlcState.isDead_iff _).1 (hsort.past_dead h hh)
    have h1 := viewStage_le v h.owner
    have h2 := viewStage_le v h.owner.other
    have hstages : (h.state.addedAt (viewStage v h.owner) = h.state.addedAt 4) ∧
        h.state.removedAt (viewStage v h.owner.other) = h.state.removedAt 4 := by
      simp only [HtlcState.addedAt, HtlcState.removedAt, hdead, decide_eq_decide]
      omega
    rw [cutMove, cutMove, hstages.1, hstages.2]
  -- an HTLC that is there counts as added, and none of those being removed pays the side
  have hlive : ∀ h ∈ c.htlcs, cutMove (viewStage v) h lane payer =
      (if h.lane = lane then addMove h payer else 0) + notYet v lane payer h := by
    intro h hh
    by_cases hl : h.lane = lane
    · have hrem : (if h.state.removedAt (viewStage v h.owner.other) then removeMove h payer else 0) =
          0 := by
        split
        · next hr =>
          exact if_neg (hno h hh hl (HtlcState.removedAt_mono (Nat.zero_le _) hr))
        · rfl
      rw [cutMove, if_pos hl, if_pos hl, hrem, notYet, addMove]
      by_cases ho : h.owner = payer
      · subst ho
        cases h.state.addedAt (viewStage v h.owner) <;> simp [hl]
      · simp [ho]
    · rw [cutMove, if_neg hl, if_neg hl, notYet, if_neg fun hc => hl hc.1, add_zero]
  have howed := owed_eq hs.ledger hs.solvent hlane (hs.start_lt hnew hlane) v payer
  rw [cutTotal, (swapSafe_of_idle hsort hidle (viewStage_le v) lane payer).2, htlcTotal,
    map_append, sum_append, hpast, map_congr_left hlive, sum_map_add] at howed
  rw [leftAfterAll, howed]
  ring

/-- A leg that is covered in the view of the side that does not pay it is covered in both. -/
theorem LegCovered.of_other (hs : Sound c₀ past c) (hidle : c.symSwap = none)
    (hlane : lane < symNumLanes c.setup) (hno : NoReturns c lane payer)
    (h : legNeeds c.setup payer lane amount ≤ leftAfterAll c payer.other lane payer) :
    LegCovered c payer lane amount := by
  intro v
  rw [leftAfterAll_of_noReturns hnew hs hidle hlane hno] at h ⊢
  exact h

/-- A leg of a request that passes the check is covered. -/
theorem LegCovered.of_check (hs : Sound c₀ past c) (hidle : c.symSwap = none)
    (hlane : lane < symNumLanes c.setup) (hno : NoReturns c lane payer)
    (hcheck : swapAffordable c payer lane amount = true)
    (hfits : -2 ^ 63 ≤ swapExact c payer.other payer lane amount) :
    LegCovered c payer lane amount := by
  apply LegCovered.of_other hnew hs hidle hlane hno
  obtain ⟨b, hb, hnonneg, hreserve⟩ := swapAffordableIn_spec hcheck payer.other
  have hwrap := (swapBalance_eq hb).2
  simp only [swapBalance, bind_eq_bind, bind_eq_some_iff] at hb
  obtain ⟨start, hstart, -⟩ := hb
  have howed := (toBalance_eq_some hstart).1
  have hexact : swapExact c payer.other payer lane amount ≤
      leftAfterAll c payer.other lane payer - amount := by
    rw [swapExact, pendingAddition_eq, leftAfterAll]
    linarith [Int.natCast_nonneg ((swapPromised c payer.other lane payer).getD 0)]
  have hsum := sum_addMove_nonpos
    (gatherLaneHtlcs c.htlcs payer.other (some lane)).pendingAddition payer
  have hb : b = swapExact c payer.other payer lane amount := by
    refine hwrap.trans (wrapS64_eq_of_nonneg (hwrap ▸ hnonneg) hfits ?_)
    rw [swapExact]
    linarith [Int.natCast_nonneg ((swapPromised c payer.other lane payer).getD 0),
      Int.natCast_nonneg amount]
  unfold legNeeds
  split
  · next hl =>
    obtain ⟨r, hr, -, hle⟩ := hreserve hl
    rw [hr, getD_some]
    omega
  · omega

/-- An HTLC of a leg's payer that has room beside what is promised leaves the leg covered. -/
theorem LegCovered.add {fi : Bool} {promised : ℕ}
    (hs : Sound c₀ past { c with htlcs := { h with failImmediate := fi } :: c.htlcs })
    (hidle : c.symSwap = none) (hlane : h.lane < symNumLanes c.setup) (hphase : h.state.phase = 0)
    (hno : NoReturns c h.lane h.owner) (hroom : HasRoom c h) (hfits : AddFits c h)
    (hpromised : swapPromised c h.owner.other h.lane h.owner = some promised)
    (hle : amount ≤ promised) :
    LegCovered { c with htlcs := { h with failImmediate := fi } :: c.htlcs } h.owner h.lane
      amount := by
  have hno' : NoReturns { c with htlcs := { h with failImmediate := fi } :: c.htlcs } h.lane
      h.owner := by
    intro g hg hl hrem
    rcases mem_cons.1 hg with rfl | hg
    · simp [HtlcState.removedAt, hphase] at hrem
    · exact hno g hg hl hrem
  apply LegCovered.of_other hnew hs hidle hlane hno'
  obtain ⟨b, hb, hnonneg, hreserve⟩ := hroom
  have hwrap := (roomBalance_eq hb).2
  simp only [roomBalance, bind_eq_bind, bind_eq_some_iff] at hb
  obtain ⟨start, hstart, -⟩ := hb
  have hspend := (toBalance_eq_some hstart).1
  have howed : spendable c h.owner.other h.lane h.owner ≤ c.owed h.owner.other h.lane h.owner :=
    Nat.sub_le _ _
  have hreturns : ((gatherLaneHtlcs c.htlcs h.owner.other (some h.lane)).pendingRemoval.map
      (removeMove · h.owner)).sum = 0 := hno.pendingRemoval _
  have hnew : notYet h.owner.other h.lane h.owner { h with failImmediate := fi } = h.amount := by
    have hadd : h.state.addedAt (viewStage h.owner.other h.owner) = false := by
      have := viewStage_ne_zero h.owner.other h.owner
      simp only [HtlcState.addedAt, hphase, decide_eq_false_iff_not]
      omega
    exact if_pos ⟨rfl, rfl, hadd⟩
  have hexact : roomExact c h.owner.other h.lane (addPending c h).adding (addPending c h).removing
        h.owner (spendable c h.owner.other h.lane h.owner) =
      spendable c h.owner.other h.lane h.owner -
        (c.htlcs.map (notYet h.owner.other h.lane h.owner)).sum - h.amount - promised := by
    have hown : addMove h h.owner = -(h.amount : ℤ) := if_pos rfl
    rw [roomExact, addPending_adding, addPending_removing, hreturns, hpromised, map_append,
      sum_append, pendingAddition_eq, map_singleton, sum_singleton, hown, getD_some]
    ring
  have hsum := sum_addMove_nonpos
    (gatherLaneHtlcs c.htlcs h.owner.other (some h.lane)).pendingAddition h.owner
  rw [pendingAddition_eq] at hsum
  have hb : b = roomExact c h.owner.other h.lane (addPending c h).adding (addPending c h).removing
      h.owner (spendable c h.owner.other h.lane h.owner) := by
    refine hwrap.trans (wrapS64_eq_of_nonneg (hwrap ▸ hnonneg) hfits ?_)
    rw [hexact]
    omega
  rw [hexact] at hb
  rw [leftAfterAll, map_cons, sum_cons, hnew]
  dsimp only
  unfold legNeeds
  split
  · next hl =>
    obtain ⟨r, hr, hle⟩ := hreserve hl
    rw [hr, getD_some]
    omega
  · omega

/-- A call that commits or revokes leaves a side no less: what enters a view was counted, and what
leaves it is paid out on top. -/
theorem leftAfterAll_change (hs : Sound c₀ past c) (heff : Effect cp lk c (.commitStep st) c')
    (hidle : c.symSwap = none) (v payer : Side) (hlane : lane < symNumLanes c.setup) :
    leftAfterAll c v lane payer ≤ leftAfterAll c' v lane payer := by
  have hfits : ChecksFit c (.commitStep st) := trivial
  have hmove := hs.owed_step hnew hfits heff v hlane payer
  obtain ⟨flags, h⟩ := heff.changeHtlcs
  have hswap : swapEntering c (.commitStep st) v = none := by
    unfold swapEntering
    rw [hidle]
    exact ite_self _
  rw [hswap, map_none, getD_none, add_zero] at hmove
  rw [leftAfterAll, leftAfterAll, hmove, sum_notYet_change hs.ledger.toSorted h]
  by_cases hv : v = st.sidechanged
  · subst hv
    have hsum : (c.htlcs.map fun g => notYet st.sidechanged lane payer (st.advanceHtlc g)).sum ≤
        (c.htlcs.map fun g => incMove st g lane payer +
          notYet st.sidechanged lane payer g).sum := by
      apply sum_le_sum
      intro g _
      linarith [incMove_ge st lane payer g]
    rw [sum_map_add] at hsum
    rw [htlcMoves, if_pos rfl]
    linarith
  · have hsame : ∀ g, notYet v lane payer (st.advanceHtlc g) = notYet v lane payer g := by
      intro g
      rw [notYet_advance, st.preCut_viewStage_of_ne hv]
      rfl
    simp only [htlcMoves, if_neg hv, hsame]
    linarith

/-- A call that commits or revokes leaves a leg covered. -/
theorem Leg.change (hs : Sound c₀ past c) (heff : Effect cp lk c (.commitStep st) c')
    (hidle : c.symSwap = none) (hlane : lane < symNumLanes c.setup)
    (hleg : Leg c payer lane amount) : Leg c' payer lane amount := by
  obtain ⟨flags, h⟩ := heff.changeHtlcs
  obtain ⟨hfit, -, hsetup, -, -, -, -, howed⟩ := changeHtlcs_spec h
  refine ⟨?_, ?_, hsetup ▸ hleg.reserve⟩
  · intro v
    rw [hsetup]
    exact (hleg.covered v).trans (leftAfterAll_change hnew hs heff hidle v payer hlane)
  · intro v
    rw [howed]
    split
    · rw [changedOwed_eq hfit hlane]
      have := isS64_wrapS64 (c.owed st.sidechanged lane payer +
        (c.htlcs.map (incMove st · lane payer)).sum +
        (c.symSwap.toList.map (incSwap st · lane payer)).sum)
      unfold IsS64 at this
      omega
    · exact hleg.fits v

variable {s : SymSwap}

/-- An HTLC that is added leaves a leg of the swap asked for covered: its payer's in the leg's lane,
because the leg is kept back. -/
theorem Leg.add {fi : Bool}
    (hs : Sound c₀ past { c with htlcs := { h with failImmediate := fi } :: c.htlcs })
    (hidle : c.symSwap = none) (hreq : c.symSwapReq = some s) (hlane : lane < symNumLanes c.setup)
    (hphase : h.state.phase = 0) (hpromised : ∀ v, amount ≤ promisedBy v lane payer s)
    (hno : h.owner = payer → h.lane = lane → NoReturns c h.lane h.owner) (hroom : HasRoom c h)
    (hfits : AddFits c h) (hleg : Leg c payer lane amount) :
    Leg { c with htlcs := { h with failImmediate := fi } :: c.htlcs } payer lane amount := by
  by_cases hmine : h.owner = payer ∧ h.lane = lane
  · obtain ⟨rfl, rfl⟩ := hmine
    refine ⟨?_, hleg.fits, hleg.reserve⟩
    obtain ⟨b, hb, -⟩ := id hroom
    obtain ⟨⟨promised, hp⟩, -⟩ := roomBalance_eq hb
    have hle : amount ≤ promised := by
      have hge := (amountAdd_eq_some.1 hp).2
      have hown := hpromised h.owner.other
      simp only [hidle, hreq, map_none, getD_none, map_some, getD_some] at hge
      omega
    exact LegCovered.add hnew hs hidle hlane hphase (hno rfl rfl) hroom hfits hp hle
  · refine hleg.congr rfl rfl fun v => ?_
    rw [map_cons, sum_cons, notYet, if_neg, zero_add]
    rintro ⟨hl, ho, -⟩
    exact hmine ⟨ho, hl⟩

/-- Every operation keeps what holds of the swap asked for. -/
theorem Promised.step {op : Op} (hs : Sound c₀ past c) (hp : ∀ s ∈ c.symSwapReq, Promised c s)
    (hkeep : KeepsPromise c op) (hfit : ChecksFit c op)
    (hreq : ∀ t, op = .symSwapAdd t → c.symSwapReq = none) (heff : Effect cp lk c op c')
    (hm : s ∈ c'.symSwapReq) : Promised c' s := by
  have hsetup := heff.setup
  have hs' := hs.step hnew hfit heff
  cases heff with
  | add sender a imm fi basic room =>
    have hp := hp s hm
    have hcommitted : ∀ v, s.state.has (HTLC_FLAG v HTLC_F_COMMITTED) = false := by
      rw [hp.state]
      decide
    have howner : (newHtlc (addState sender) a).owner = sender := htlcStateOwner_addState sender
    have hreturns : s.HasLeg sender a.lane →
        NoReturns c a.lane (newHtlc (addState sender) a).owner := by
      rw [howner]
      exact hkeep s hm
    refine ⟨hp.state, hp.idle, hp.lanes, hp.moves, ?_, ?_⟩
    · refine Leg.add hnew hs' hp.idle hm hp.lanes.2.2.1 (phase_addState sender) (fun v => ?_)
        (fun ho hl => hreturns (.inl ⟨?_, hl.symm⟩)) room hfit hp.give
      · simp [promisedBy, hcommitted]
      · exact ho.symm.trans howner
    · refine Leg.add hnew hs' hp.idle hm hp.lanes.2.2.2 (phase_addState sender) (fun v => ?_)
        (fun ho hl => hreturns (.inr ⟨?_, hl.symm⟩)) room hfit hp.take
      · simp [promisedBy, hcommitted, s.owner.ne_other]
      · rw [← howner, ho]
        exact s.owner.ne_other
  | fulfill owner id preimage g state get unset opens next =>
    have hp := hp s hm
    have hg := mem_of_htlcGet get
    exact ⟨hp.state, hp.idle, hp.lanes, hp.moves,
      hp.give.replace (h := { g with state, r := some preimage }) hg next,
      hp.take.replace (h := { g with state, r := some preimage }) hg next⟩
  | fail owner id g state get next =>
    have hp := hp s hm
    have hg := mem_of_htlcGet get
    exact ⟨hp.state, hp.idle, hp.lanes, hp.moves,
      hp.give.replace (h := { g with state, failed := true }) hg next,
      hp.take.replace (h := { g with state, failed := true }) hg next⟩
  | quiet op feeStates heights req hq fees asked =>
    rcases asked with rfl | rfl | ⟨t, rfl, rfl, hcheck⟩
    · have hp := hp s hm
      exact ⟨hp.state, hp.idle, hp.lanes, hp.moves, hp.give.congr rfl rfl fun _ => rfl,
        hp.take.congr rfl rfl fun _ => rfl⟩
    · cases hm
    · -- the request itself
      obtain rfl := some.inj hm
      obtain ⟨-, -, -, hgive, htake⟩ := channelSymSwapCheck_spec hcheck
      obtain ⟨hfits, hnogive, hnotake⟩ := hkeep
      simp only [channelSymSwapCheck, Bool.and_eq_true, bne_iff_ne, decide_eq_true_eq,
        Bool.not_eq_true', isNone_iff_eq_none] at hcheck
      obtain ⟨⟨⟨⟨⟨⟨⟨⟨hempty, hidle⟩, hne⟩, hg⟩, ht⟩, hgz⟩, htz⟩, -⟩, -⟩ := hcheck
      exact ⟨rfl, hidle, ⟨hempty, hne, hg, ht⟩, ⟨hgz, htz⟩,
        (Leg.of_check hgive (.of_check hnew hs hidle hg hnogive hgive (hfits _).1)).congr rfl rfl
          fun _ => rfl,
        (Leg.of_check htake (.of_check hnew hs hidle ht hnotake htake (hfits _).2)).congr rfl rfl
          fun _ => rfl⟩
  | swapAdd t check idle fresh => cases (hreq t rfl).symm.trans hm
  | swapDone t swap done => cases (hp s hm).idle.symm.trans swap
  | swapWaits wait => exact hp s hm
  | commitStep st _ flags hc =>
    obtain ⟨-, -, -, -, hswap, hreqs, -⟩ := changeHtlcs_spec hc
    have hp := hp s (hreqs ▸ hm)
    have heff : Effect cp lk c (.commitStep st) c' := .commitStep st c' flags hc
    refine ⟨hp.state, ?_, hsetup ▸ hp.lanes, hp.moves,
      Leg.change hnew hs heff hp.idle hp.lanes.2.2.1 hp.give,
      Leg.change hnew hs heff hp.idle hp.lanes.2.2.2 hp.take⟩
    rw [hswap, hp.idle, map_none]

omit hnew

/-- The swap that was asked for passes the second check. -/
theorem Promised.check (hp : Promised c s) :
    channelSymSwapCheck { c with symSwapReq := none } s = true := by
  have hgive := hp.give.affordable hp.idle
  have htake := hp.take.affordable hp.idle
  obtain ⟨hempty, hne, hg, ht⟩ := hp.lanes
  simp only [hp.idle] at hgive htake
  simp [channelSymSwapCheck, hp.idle, hempty, hne, hg, ht, hp.moves.1, hp.moves.2, hgive, htake]

end runs

end SeqLN.Channeld
