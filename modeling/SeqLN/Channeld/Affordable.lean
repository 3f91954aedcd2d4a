import SeqLN.Channeld.Conservation

/-!
# No accepted update makes a balance negative

Where the balances and amounts are below `2 ^ 62`, the check of an HTLC cannot wrap around
(`addFits_of_small`). The check of a swap can: it leaves pending removals out, which the HTLCs being
added may take. `noUnderflow_of_swapsFit`: where none does, none of the four calls fails;
`underflow_of_wrapped_swap` is a run in which one does.
-/

namespace SeqLN.Channeld

open HtlcState

/-! ### Small amounts -/

variable {c : Channel} {s : SymSwap}

/-- The amounts of an operation are below `2 ^ 62`. -/
def Op.AmountsBelow : Op → Prop
  | .addHtlc _ a _ => a.amount < 2 ^ 62
  | .symSwapAdd s => s.give < 2 ^ 62 ∧ s.take < 2 ^ 62
  | .symSwapRequest s => s.give < 2 ^ 62 ∧ s.take < 2 ^ 62
  | _ => True

/-- The check of a swap does not wrap around. -/
def SwapCheckFits (c : Channel) : Op → Prop
  | .symSwapAdd s => SwapFits c s
  | _ => True

/-- The balances of a channel are below `2 ^ 62`. -/
def BalancesBelow (c : Channel) : Prop :=
  ∀ l < symNumLanes c.setup, ∀ v s : Side, c.owed v l s < 2 ^ 62

instance : (op : Op) → Decidable op.AmountsBelow
  | .addHtlc .. => inferInstanceAs (Decidable (_ < _))
  | .symSwapAdd _ | .symSwapRequest _ => inferInstanceAs (Decidable (_ ∧ _))
  | .fulfillHtlc .. | .failHtlc .. | .updateFeerate _ | .updateBlockheight _
  | .symSwapCancel _ | .symSwapDone | .commitStep _ => .isTrue trivial

instance (c : Channel) : (op : Op) → Decidable (SwapCheckFits c op)
  | .symSwapAdd s => inferInstanceAs (Decidable (SwapFits c s))
  | .addHtlc .. | .fulfillHtlc .. | .failHtlc .. | .updateFeerate _ | .updateBlockheight _
  | .symSwapRequest _ | .symSwapCancel _ | .symSwapDone | .commitStep _ => .isTrue trivial

instance (c : Channel) : Decidable (BalancesBelow c) :=
  inferInstanceAs (Decidable (∀ l < symNumLanes c.setup, ∀ v s : Side, c.owed v l s < 2 ^ 62))

/-- A swap between two lanes, of amounts below `2 ^ 62`. -/
structure SymSwap.Small (s : SymSwap) : Prop where
  lanes : s.giveLane ≠ s.takeLane
  give : s.give < 2 ^ 62
  take : s.take < 2 ^ 62

/-- The swaps of a channel, in flight or asked for, are small. -/
def SwapsSmall (c : Channel) : Prop :=
  (∀ s ∈ c.symSwap, s.Small) ∧ ∀ s ∈ c.symSwapReq, s.Small

lemma SymSwap.Small.of_check (h : channelSymSwapCheck c s = true) (hg : s.give < 2 ^ 62)
    (ht : s.take < 2 ^ 62) : s.Small :=
  ⟨(channelSymSwapCheck_spec h).1, hg, ht⟩

lemma SwapsSmall.step {cp : ChainParams} {lk : Locks} {c' : Channel} {op : Op} (hs : SwapsSmall c)
    (hop : op.AmountsBelow) (h : Effect cp lk c op c') : SwapsSmall c' := by
  cases h with
  | quiet op feeStates heights req hq fees asked =>
    refine ⟨hs.1, ?_⟩
    rcases asked with rfl | rfl | ⟨s, rfl, rfl, hcheck⟩
    · exact hs.2
    · exact fun s hs => by cases hs
    · intro t ht
      rw [← Option.some.inj ht]
      exact .of_check hcheck hop.1 hop.2
  | swapAdd s check idle fresh =>
    refine ⟨?_, hs.2⟩
    intro t ht
    rw [← Option.some.inj ht]
    exact .of_check check hop.1 hop.2
  | swapDone s swap done => exact ⟨fun _ ht => (by cases ht), hs.2⟩
  | commitStep st c' flags hc =>
    obtain ⟨-, -, -, -, hswap, hreq, -⟩ := changeHtlcs_spec hc
    refine ⟨?_, hreq ▸ hs.2⟩
    rw [hswap]
    intro t ht
    obtain ⟨s, hs', rfl⟩ := Option.map_eq_some_iff.1 ht
    obtain ⟨h1, h2, h3⟩ := hs.1 s hs'
    exact ⟨h1, h2, h3⟩
  | _ => exact hs

/-! ### One check -/

section oneCheck

variable {c : Channel} (hbelow : BalancesBelow c)

/-- What the sender of an HTLC has in the view checked, exactly: less what it is adding and has
promised, plus what is being removed. -/
def htlcAvailable (c : Channel) (h : Htlc) : ℤ :=
  let g := gatherLaneHtlcs c.htlcs h.owner.other (some h.lane)
  c.owed h.owner.other h.lane h.owner + (g.pendingRemoval.map (removeMove · h.owner)).sum +
    (g.pendingAddition.map (addMove · h.owner)).sum -
    (swapPromised c h.owner.other h.lane h.owner).getD 0

/-- What the payer of a leg has in a view, exactly: less what it is adding and has promised. -/
def swapAvailable (c : Channel) (view payer : Side) (lane : ℕ) : ℤ :=
  c.owed view lane payer +
    ((gatherLaneHtlcs c.htlcs view (some lane)).pendingAddition.map (addMove · payer)).sum -
    (swapPromised c view lane payer).getD 0

/-- A swap moves each lane of a view by just its legs, and checked arithmetic gives the same. -/
def MovesExactly (c : Channel) (s : SymSwap) (v : Side) : Prop :=
  ∃ owed, symSwapApply s (symNumLanes c.setup) (c.owed v) = some owed ∧
    ∀ l p, (owed l p : ℤ) = c.owed v l p + swapMove s l p ∧
      (l < symNumLanes c.setup → balanceSwap (fun l p => c.owed v l p) s l p = owed l p)

lemma roomExact_eq_available {h : Htlc} (hz : h.lane ≠ 0) :
    roomExact c h.owner.other h.lane (addPending c h).adding (addPending c h).removing h.owner
      (spendable c h.owner.other h.lane h.owner) = htlcAvailable c h - h.amount := by
  have hown : addMove h h.owner = -(h.amount : ℤ) := if_pos rfl
  rw [roomExact, addPending_adding, addPending_removing, List.map_append, List.sum_append,
    List.map_singleton, List.sum_singleton, hown, spendable, if_neg hz, Nat.sub_zero, htlcAvailable]
  ring

lemma nonneg_iff_of_wrapS64 {x : ℤ} (h : 0 ≤ wrapS64 x) : -2 ^ 63 ≤ x ↔ 0 ≤ x := by
  unfold wrapS64 at h
  omega

lemma owedMove_eq {owed : Side → ℕ} {payer : Side} {amount : ℕ} (hle : amount ≤ owed payer)
    (hlt : ∀ s, owed s < 2 ^ 62) :
    owedMove owed payer amount = some fun s =>
      if s = payer then owed payer - amount else owed payer.other + amount := by
  have h1 := hlt payer
  have h2 := hlt payer.other
  rw [owedMove, amountSub_of_le hle, amountAdd_of_lt (by omega)]
  rfl

section legs

variable {s : SymSwap} (hne : s.giveLane ≠ s.takeLane)

include hne

lemma swapMove_giveLane (p : Side) :
    swapMove s s.giveLane p = if p = s.owner then -(s.give : ℤ) else s.give := by
  simp [swapMove, hne.symm, eq_comm]

lemma swapMove_takeLane (p : Side) :
    swapMove s s.takeLane p = if p = s.owner.other then -(s.take : ℤ) else s.take := by
  rcases p.eq_or_eq_other s.owner with rfl | rfl <;> simp [swapMove, hne]

end legs

lemma swapMove_of_ne {l : ℕ} (hg : l ≠ s.giveLane) (ht : l ≠ s.takeLane) (p : Side) :
    swapMove s l p = 0 := by
  simp [swapMove, hg.symm, ht.symm]

include hbelow in
/-- Where both payers have their legs, a swap moves just those. -/
theorem movesExactly_of_le (hne : s.giveLane ≠ s.takeLane) (hgl : s.giveLane < symNumLanes c.setup)
    (htl : s.takeLane < symNumLanes c.setup) {v : Side} (hg : s.give ≤ c.owed v s.giveLane s.owner)
    (ht : s.take ≤ c.owed v s.takeLane s.owner.other) : MovesExactly c s v := by
  have hG := hbelow s.giveLane hgl v
  have hT := hbelow s.takeLane htl v
  -- a leg takes no more than is there, and adds less than `2 ^ 62`
  have hrange : ∀ l p, 0 ≤ (c.owed v l p : ℤ) + swapMove s l p ∧ swapMove s l p < 2 ^ 62 := by
    intro l p
    have hGo := hG s.owner
    have hTo := hT s.owner.other
    by_cases h1 : l = s.giveLane
    · rw [h1, swapMove_giveLane hne]
      split
      · next hp => subst hp; omega
      · omega
    · by_cases h2 : l = s.takeLane
      · rw [h2, swapMove_takeLane hne]
        split
        · next hp => subst hp; omega
        · omega
      · rw [swapMove_of_ne h1 h2]
        omega
  refine ⟨fun l p => (c.owed v l p + swapMove s l p).toNat, ?_, ?_⟩
  · rw [symSwapApply, if_neg (by omega), owedMove_eq hg hG, owedMove_eq ht hT]
    refine congrArg some (funext fun l => funext fun p => ?_)
    by_cases h1 : l = s.giveLane
    · simp only [h1, if_true]
      rw [swapMove_giveLane hne]
      rcases p.eq_or_eq_other s.owner with rfl | rfl <;> simp <;> omega
    · by_cases h2 : l = s.takeLane
      · simp only [h2, if_true, hne.symm, if_false]
        rw [swapMove_takeLane hne]
        rcases p.eq_or_eq_other s.owner with rfl | rfl <;> simp <;> omega
      · simp [h1, h2, swapMove_of_ne h1 h2]
  · intro l p
    obtain ⟨h0, hlt⟩ := hrange l p
    refine ⟨Int.toNat_of_nonneg h0, ?_⟩
    intro hl
    have hb := hbelow l hl v p
    have hfits : IsS64 (c.owed v l p + swapMove s l p) := ⟨by omega, by omega⟩
    have hstart : ((c.owed v l p : ℕ) : ℤ) = wrapS64 (c.owed v l p) := by
      rw [wrapS64_of_isS64]
      constructor <;> omega
    have hswap : balanceSwap (fun l p => c.owed v l p) s l p =
        wrapS64 (c.owed v l p + swapMove s l p) := balanceSwap_eq_wrapS64 hstart s
    rw [hswap, wrapS64_of_isS64 hfits]
    exact (Int.toNat_of_nonneg h0).symm

/-- The check of an HTLC in a further lane, and of a swap, is exact just where it does not wrap
around: each leg is at most what its payer has in each view, and the swap moves each lane by its
leg. -/
theorem check_exact_iff_fits (cp : ChainParams) (c : Channel) (hbelow : BalancesBelow c) :
    (∀ (sender : Side) (a : AddArgs) (imm : Bool) (r : Channel × Htlc), a.lane ≠ 0 →
      channelAddHtlc cp c sender a imm = .ok r →
      (AddFits c (newHtlc (addState sender) a) ↔
        (a.amount : ℤ) ≤ htlcAvailable c (newHtlc (addState sender) a))) ∧
    ∀ s : SymSwap, channelSymSwapCheck c s = true →
      (SwapFits c s ↔ ∀ v : Side,
        (s.give : ℤ) ≤ swapAvailable c v s.owner s.giveLane ∧
        (s.take : ℤ) ≤ swapAvailable c v s.owner.other s.takeLane ∧ MovesExactly c s v) := by
  refine ⟨?_, ?_⟩
  · intro sender a imm r hlane hok
    obtain ⟨-, hroom, -⟩ := addHtlc_ok hok
    obtain ⟨b, hb, hnonneg, -⟩ := hroom rfl
    have hwrap := (roomBalance_eq hb).2
    rw [hwrap] at hnonneg
    rw [AddFits, nonneg_iff_of_wrapS64 hnonneg, roomExact_eq_available hlane, sub_nonneg]
    rfl
  · intro s hcheck
    obtain ⟨hne, hgl, htl, hgive, htake⟩ := channelSymSwapCheck_spec hcheck
    -- a passed check of a leg wraps around or is exact
    have hleg : ∀ {payer lane amount}, swapAffordable c payer lane amount = true → ∀ v,
        (-2 ^ 63 ≤ swapExact c v payer lane amount ↔ (amount : ℤ) ≤ swapAvailable c v payer lane) := by
      intro payer lane amount hok v
      obtain ⟨b, hb, hnonneg⟩ := swapAffordable_spec hok v
      rw [(swapBalance_eq hb).2] at hnonneg
      rw [nonneg_iff_of_wrapS64 hnonneg, swapExact, swapAvailable, sub_nonneg]
    have hle : ∀ v payer lane, swapAvailable c v payer lane ≤ c.owed v lane payer := by
      intro v payer lane
      have := sum_addMove_nonpos (gatherLaneHtlcs c.htlcs v (some lane)).pendingAddition payer
      unfold swapAvailable
      linarith [Int.natCast_nonneg ((swapPromised c v lane payer).getD 0)]
    constructor
    · intro hfits v
      have hg := (hleg hgive v).1 (hfits v).1
      have ht := (hleg htake v).1 (hfits v).2
      refine ⟨hg, ht, movesExactly_of_le hbelow hne hgl htl ?_ ?_⟩
      · exact_mod_cast hg.trans (hle _ _ _)
      · exact_mod_cast ht.trans (hle _ _ _)
    · intro h v
      exact ⟨(hleg hgive v).2 (h v).1, (hleg htake v).2 (h v).2.1⟩

namespace Example

/-- Our HTLC and our swap, each checked on the channel before it. -/
theorem check_exact_payAndSwap :
    (5000 : ℤ) ≤ htlcAvailable openChannel
        (newHtlc (addState .LOCAL) ⟨0, 5000, 500000, locks.sha256 preimage, none, 1⟩) ∧
      ∀ v : Side, MovesExactly openChannel ⟨3, SENT_ADD_HTLC, 0, 1, 70000, 90000⟩ v := by
  have hexact := check_exact_iff_fits params openChannel (by decide +kernel)
  have hok : (channelAddHtlc params openChannel .LOCAL
      ⟨0, 5000, 500000, locks.sha256 preimage, none, 1⟩ true).toOption.isSome = true := by
    decide +kernel
  obtain ⟨r, hr⟩ := Option.isSome_iff_exists.1 hok
  refine ⟨(hexact.1 .LOCAL _ true r (by decide) (toOption_eq_some hr)).1 (by decide +kernel), ?_⟩
  intro v
  exact ((hexact.2 _ (by decide +kernel)).1 (by decide +kernel) v).2.2

/-- The peer, with half of the lane, may add an HTLC of nearly `2 ^ 64`, and ask for a swap of as
much. -/
theorem check_wraps_around : BalancesBelow openChannel ∧
    (channelAddHtlc params openChannel .REMOTE
      ⟨0, 2 ^ 64 - 1000, 500000, locks.sha256 preimage, none, 1⟩ true).toOption.isSome = true ∧
    htlcAvailable openChannel (newHtlc (addState .REMOTE)
      ⟨0, 2 ^ 64 - 1000, 500000, locks.sha256 preimage, none, 1⟩) = 500000000 ∧
    channelSymSwapCheck openChannel ⟨3, RCVD_ADD_HTLC, 1, 0, 2 ^ 64 - 1000, 1000⟩ = true ∧
    swapAvailable openChannel .LOCAL .REMOTE 1 = 500000000 := by
  decide +kernel

end Example

end oneCheck

/-! ### The check of an HTLC -/

variable {past : Past} {init : ℕ → Side → ℤ}

lemma promisedBy_lt (hs : s.Small) (v : Side) (lane : ℕ) (payer : Side) :
    promisedBy v lane payer s < 2 ^ 62 := by
  have hg := hs.give
  have ht := hs.take
  unfold promisedBy
  split_ifs <;> first | omega | simp_all

/-- What a swap that a view has not committed promises is its debit. -/
theorem safeSwap_eq_sub_promisedBy (v : Side) (hp : s.state.phase ≤ 4)
    (hne : s.giveLane ≠ s.takeLane) (lane : ℕ) (side : Side) :
    safeSwap (viewStage v) s lane side =
      cutSwap (viewStage v) s lane side - promisedBy v lane side s := by
  have hcom := committed_eq_addedAt v hp
  unfold cutSwap safeSwap promisedBy
  rw [hcom]
  split
  · simp
  · unfold swapMove
    split_ifs <;> grind

lemma swapSafe_le_sub_promised (hsort : Sorted past c) (hsmall : SwapsSmall c) (v : Side)
    (lane : ℕ) (side : Side) :
    swapSafe (viewStage v) past c lane side ≤ swapTotal (viewStage v) past c lane side -
      ((swapPromised c v lane side).getD 0 : ℕ) + 2 ^ 62 := by
  have hpast : past.swaps.map (safeSwap (viewStage v) · lane side) =
      past.swaps.map (cutSwap (viewStage v) · lane side) := by
    apply List.map_congr_left
    intro s hs
    obtain ⟨h1, h2⟩ := safeSwap_of_done (viewStage_le v) (hsort.past_done s hs) lane side
    rw [h1, h2]
  have hpromised : (swapPromised c v lane side).getD 0 ≤
      (c.symSwap.map (promisedBy v lane side)).getD 0 +
        (c.symSwapReq.map (promisedBy v lane side)).getD 0 := by
    unfold swapPromised amountAdd
    split
    · exact le_rfl
    · exact Nat.zero_le _
  have hreq : (c.symSwapReq.map (promisedBy v lane side)).getD 0 < 2 ^ 62 := by
    rcases hr : c.symSwapReq with _ | s
    · exact Nat.two_pow_pos 62
    · exact promisedBy_lt (hsmall.2 s hr) v lane side
  have hswap : (c.symSwap.toList.map (safeSwap (viewStage v) · lane side)).sum =
      (c.symSwap.toList.map (cutSwap (viewStage v) · lane side)).sum -
        ((c.symSwap.map (promisedBy v lane side)).getD 0 : ℕ) := by
    rcases hs : c.symSwap with _ | s
    · rfl
    · simpa using safeSwap_eq_sub_promisedBy v (hsort.swap_phase s hs) (hsmall.1 s hs).lanes
        lane side
  rw [swapSafe, swapTotal, List.map_append, List.map_append, List.sum_append, List.sum_append, hpast,
    hswap]
  omega

/-- Among small amounts the check of an HTLC does not wrap around. -/
theorem addFits_of_small (hl : Ledger init past c) (hs : Solvent init past c)
    (hsmall : SwapsSmall c) (hsplice : ∀ v s, c.setup.lowestSpliceAmnt v s = 0) {h : Htlc}
    (hlane : h.lane < symNumLanes c.setup) (hT : init h.lane .LOCAL + init h.lane .REMOTE < 2 ^ 64)
    (hamt : h.amount < 2 ^ 62) : AddFits c h := by
  have hspend : spendable c h.owner.other h.lane h.owner = c.owed h.owner.other h.lane h.owner := by
    unfold spendable
    rw [hsplice]
    split <;> simp
  have hown : addMove h h.owner = -(h.amount : ℤ) := if_pos rfl
  have howed := owed_eq hl hs hlane hT h.owner.other h.owner
  have hnext := htlcTotal_nextCut hl.toSorted h.owner.other h.lane h.owner
  have hsafe := swapSafe_le_sub_promised hl.toSorted hsmall h.owner.other h.lane h.owner
  have hroom := hs.room h.owner.other h.lane hlane
  rw [Side.other_other] at hroom
  have hamt' : (h.amount : ℤ) < 2 ^ 62 := by exact_mod_cast hamt
  unfold AddFits roomExact
  rw [hspend, addPending_adding, addPending_removing, List.map_append, List.sum_append,
    List.map_singleton, List.sum_singleton, hown, howed]
  unfold cutTotal
  linarith

/-! ### Runs of small amounts -/

section runs

variable {cp : ChainParams} {lk : Locks} {setup : ChannelSetup} {feeStates heights : StateTable}
  {localMsat : ℕ → ℕ} {c₀ : Channel}
  (hnew : newFullChannel setup feeStates heights localMsat = some c₀)

include hnew

/-- Among small amounts only the check of a swap can wrap around. -/
theorem checksFit_of_small {c' : Channel} {op : Op} (hs : Sound c₀ past c) (hsmall : SwapsSmall c)
    (hop : op.AmountsBelow) (hfit : SwapCheckFits c op) (h : Effect cp lk c op c') :
    ChecksFit c op := by
  cases h with
  | add sender a imm fi basic room =>
    refine addFits_of_small hs.ledger hs.solvent hsmall ?_ basic.lane_lt
      (hs.start_lt hnew basic.lane_lt) hop
    rw [hs.setup]
    exact (newFullChannel_spec hnew).2.2.2.1
  | swapAdd s check idle fresh => exact hfit
  | quiet op feeStates heights req hq fees asked => cases op <;> trivial
  | _ => trivial

/-- Every reachable channel is sound, and its swaps small. -/
lemma Reachable.sound_of_small
    (hreach : Reachable cp lk (fun c op => op.AmountsBelow ∧ SwapCheckFits c op) c₀ c) :
    SwapsSmall c ∧ ∃ past, Sound c₀ past c := by
  induction hreach with
  | start =>
    obtain ⟨-, hs, hr, -⟩ := newFullChannel_spec hnew
    refine ⟨⟨?_, ?_⟩, ⟨[], []⟩, rfl, Ledger.start hnew, Solvent.start hnew⟩
    · rw [hs]
      exact fun s hs => by cases hs
    · rw [hr]
      exact fun s hs => by cases hs
  | step _ hok happ ih =>
    obtain ⟨hsmall, past, hs⟩ := ih
    have heff := apply_effect happ
    have hfit := checksFit_of_small hnew hs hsmall hok.1 hok.2 heff
    exact ⟨hsmall.step hok.1 heff, _, hs.step hnew hfit heff⟩

end runs

/-! ### The four calls -/

/-- At the cut a view has, or will have after a call, every side has what it needs. -/
theorem Solvent.cutTotal_nonneg (hs : Solvent init past c) (st : CommitStep) (v : Side) {l : ℕ}
    (hl : l < symNumLanes c.setup) (p : Side) :
    0 ≤ init l p + cutTotal (st.preCut (viewStage v)) past c l p := by
  have hle := swapSafe_le_swapTotal past c l p
  unfold cutTotal
  rcases preCut_viewStage st v with hc | hc <;> rw [hc]
  · linarith [hs.view v l hl p, hle (viewStage v)]
  · linarith [hs.next v l hl p, hle (nextCut v)]

section calls

variable {init : ℕ → Side → ℤ} {past : Past} {c : Channel} (hl : Ledger init past c)
  (hs : Solvent init past c)
  (hT : ∀ l < symNumLanes c.setup, init l .LOCAL + init l .REMOTE < 2 ^ 63)

include hl hs hT

lemma balancesFit_of_solvent (v : Side) : BalancesFit c v := by
  intro l hlane s
  have h63 := hT l hlane
  have howed := owed_add_committed_le hl hs hlane (by linarith) v s
  have hcom := Int.natCast_nonneg (committedMsat c v l)
  omega

/-- A solvent channel's steps take no balance below zero. -/
lemma noUnderflow_of_solvent (st : CommitStep) : NoUnderflow c st := by
  intro l hlane s
  have h63 := hT l hlane
  rw [changedOwed_eq (balancesFit_of_solvent hl hs hT st.sidechanged) hlane,
    owed_eq hl hs hlane (by linarith), add_assoc, add_assoc, ← add_assoc (cutTotal _ _ _ _ _),
    ← cutTotal_preCut hl.toSorted]
  have hnonneg := hs.cutTotal_nonneg st st.sidechanged hlane
  have hsum := cutTotal_add_nonpos past c (a := st.preCut (viewStage st.sidechanged))
    (fun o => le_trans (st.pre_le o _) (viewStage_le _ o)) l
  rw [wrapS64_of_isS64]
  · exact hnonneg s
  · have hL := hnonneg .LOCAL
    have hR := hnonneg .REMOTE
    constructor
    · linarith [hnonneg s]
    · cases s <;> linarith

end calls

/-- From balances and amounts below `2 ^ 62`, as long as no check of a swap wraps around, none of
the four calls fails. -/
theorem noUnderflow_of_swapsFit {cp : ChainParams} {lk : Locks} {setup : ChannelSetup}
    {feeStates heights : StateTable} {localMsat : ℕ → ℕ} {c₀ c : Channel}
    (hnew : newFullChannel setup feeStates heights localMsat = some c₀)
    (hbelow : BalancesBelow c₀)
    (hreach : Reachable cp lk (fun c op => op.AmountsBelow ∧ SwapCheckFits c op) c₀ c)
    (st : CommitStep) : BalancesFit c st.sidechanged ∧ NoUnderflow c st := by
  obtain ⟨-, past, hs⟩ := hreach.sound_of_small hnew
  have hT : ∀ l < symNumLanes c.setup, c₀.start l .LOCAL + c₀.start l .REMOTE < 2 ^ 63 := by
    intro l hl
    rw [hs.setup] at hl
    have hL := hbelow l hl .LOCAL .LOCAL
    have hR := hbelow l hl .LOCAL .REMOTE
    unfold Channel.start
    omega
  exact ⟨balancesFit_of_solvent hs.ledger hs.solvent hT _,
    noUnderflow_of_solvent hs.ledger hs.solvent hT st⟩

/-! ### Runs -/

namespace Example

/-- A payment and a swap in flight, then a call for which both are pending. -/
theorem noUnderflow_payAndSwap : ∃ c : Channel,
    openChannel.runWhile params locks (fun c op => op.AmountsBelow ∧ SwapCheckFits c op)
      (payAndSwap.take 2) = some c ∧ NoUnderflow c .sendingCommit := by
  have hrun : (openChannel.runWhile params locks (fun c op => op.AmountsBelow ∧ SwapCheckFits c op)
      (payAndSwap.take 2)).isSome = true := by
    decide +kernel
  obtain ⟨c, hc⟩ := Option.isSome_iff_exists.1 hrun
  have hbelow : BalancesBelow openChannel := by decide +kernel
  exact ⟨c, hc, (noUnderflow_of_swapsFit newChannel_open hbelow (Lib.Reaches.start.runWhile hc)
    .sendingCommit).2⟩

/-- The largest lane a channel may have. -/
def wideChannel : Channel := (newChannel 9223372036854775).get (by decide +kernel)

/-- Half of the largest lane. -/
def half : ℕ := 4611686018427387500

/-- Each side pays the other half of the lane; ours fails, the peer's is fulfilled, and before the
peer has seen either we send both halves again, and a swap of 809 more. -/
def wrappedSwap : List Op :=
  [add .REMOTE 0 half 1, add .LOCAL 0 half 1,
    .commitStep .rcvdCommit, .commitStep .sendingRevokeAndAck,
    .commitStep .sendingCommit, .commitStep .rcvdRevokeAndAck,
    .commitStep .rcvdCommit, .commitStep .sendingRevokeAndAck,
    .failHtlc .LOCAL 0, .commitStep .rcvdCommit, .commitStep .sendingRevokeAndAck,
    .fulfillHtlc .REMOTE 0 preimage, add .LOCAL 1 half 1, add .LOCAL 2 half 1,
    .symSwapAdd ⟨3, SENT_ADD_HTLC, 1, 0, 809, 1000⟩]

/-- A swap's amount that wraps around lets a balance go below zero. -/
theorem underflow_of_wrapped_swap : ∃ c : Channel,
    newChannel 9223372036854775 = some wideChannel ∧ BalancesBelow wideChannel ∧
      Reachable params locks (fun c op => op.AmountsBelow ∧ BalancesBelow c) wideChannel c ∧
      BalancesBelow c ∧ ¬ NoUnderflow c .sendingCommit := by
  have hrun : ((wideChannel.runWhile params locks (fun c op => op.AmountsBelow ∧ BalancesBelow c)
      wrappedSwap).any fun c => decide (BalancesBelow c ∧ ¬ NoUnderflow c .sendingCommit)) = true := by
    decide +kernel
  obtain ⟨c, hc, hend⟩ := (Option.any_eq_true _ _).1 hrun
  obtain ⟨hbelow, hunder⟩ := of_decide_eq_true hend
  exact ⟨c, (Option.some_get _).symm, by decide +kernel, Lib.Reaches.start.runWhile hc, hbelow, hunder⟩

end Example

end SeqLN.Channeld
