import SeqLN.Signer.Requests

/-!
# What an accepted request does

One lemma for each request says what the device is after it was accepted, and which checks it
passed. `Touch` lists every way in which a channel's record changes, each with the checks that come
before it; `step_evolves` says that an accepted request changes a record in these ways only.
-/

namespace SeqLN.Signer

open Lib Option List Except ChannelStore

lemma asset_plan (p : PayTrack) (ours : Bool) (n : ℕ) (asset : AssetKey) (value : ℕ)
    (offered : List Offered) (listed : ℕ) :
    (p.plan ours n asset value offered listed).asset = asset := by
  unfold PayTrack.plan
  dsimp only
  split <;> rfl

namespace Device

variable {s s' : Device} {key : ChannelKey}

/-! ### The requests -/

variable {plan : Plan} {q : SymLanesRequest} {keys : SymKeys} {ours : Bool} {st : ChannelState}
  {l : ℕ} {plans : List (Paid × Plan)}

section requests

variable {k : Kernel}

lemma signRemoteCommitmentTx_ok {req : RemoteCommitment}
    (h : s.signRemoteCommitmentTx k req = .ok s') :
    ∃ v plan, s.planRemoteCommitment k req = .ok (v, plan) ∧ s.checkPlan plan = .ok () ∧
      s' = { s with store := s.store.modify req.key (recordRemote req.commitNum v) }.applyPlan
        req.key plan := by
  obtain ⟨_, -, h⟩ := bind_eq_ok.1 h
  obtain ⟨⟨v, plan⟩, hplan, h⟩ := bind_eq_ok.1 h
  obtain ⟨_, hcheck, h⟩ := bind_eq_ok.1 h
  obtain ⟨_, -, h⟩ := bind_eq_ok.1 h
  exact ⟨v, plan, hplan, hcheck, (ok.inj h).symm⟩

lemma validateCommitmentTx_ok {req : LocalCommitment}
    (h : s.validateCommitmentTx k req = .ok s') :
    ∃ v plan, s.planLocalCommitment k req = .ok (v, plan) ∧ s.checkPlan plan = .ok () ∧
      s' = { s with
        store := s.store.modify req.key (recordLocal req.commitNum v req.bt.txid) }.applyPlan
          req.key plan := by
  obtain ⟨_, -, h⟩ := bind_eq_ok.1 h
  obtain ⟨⟨v, plan⟩, hplan, h⟩ := bind_eq_ok.1 h
  obtain ⟨_, hcheck, h⟩ := bind_eq_ok.1 h
  exact ⟨v, plan, hplan, hcheck, (ok.inj h).symm⟩

/-- A commitment of the peer's is planned from the channel's record. -/
theorem planRemoteCommitment_ok {req : RemoteCommitment} {v : Validated}
    (h : s.planRemoteCommitment k req = .ok (v, plan)) :
    ∃ st asset, s.store.get req.key = some st ∧ s.checkRemoteCommitment k req = .ok v ∧
      commitmentAsset req.bt.tx = .ok asset ∧
      plan = st.pay.plan false req.commitNum asset (commitmentValue st req.htlcs v)
        (offeredOf req.htlcs) req.htlcs.length := by
  obtain ⟨v', hv, h⟩ := bind_eq_ok.1 h
  obtain ⟨st, hst, h⟩ := bind_eq_ok.1 h
  obtain ⟨_, -, h⟩ := bind_eq_ok.1 h
  obtain ⟨_, -, h⟩ := bind_eq_ok.1 h
  obtain ⟨plan', hplan, h⟩ := bind_eq_ok.1 h
  obtain ⟨asset, hasset, hplan⟩ := bind_eq_ok.1 hplan
  obtain ⟨rfl, rfl⟩ := Prod.mk.inj (ok.inj h)
  exact ⟨st, asset, fromOption_eq_ok.1 hst, hv, hasset, (ok.inj hplan).symm⟩

/-- A commitment of ours is planned from the channel's record. -/
theorem planLocalCommitment_ok {req : LocalCommitment} {v : Validated}
    (h : s.planLocalCommitment k req = .ok (v, plan)) :
    ∃ st asset, s.store.get req.key = some st ∧ s.checkLocalCommitment k req = .ok v ∧
      commitmentAsset req.bt.tx = .ok asset ∧
      plan = st.pay.plan true req.commitNum asset (commitmentValue st req.htlcs v)
        (offeredOf req.htlcs) req.htlcs.length := by
  obtain ⟨v', hv, h⟩ := bind_eq_ok.1 h
  obtain ⟨st, hst, h⟩ := bind_eq_ok.1 h
  obtain ⟨_, -, h⟩ := bind_eq_ok.1 h
  obtain ⟨_, -, h⟩ := bind_eq_ok.1 h
  obtain ⟨plan', hplan, h⟩ := bind_eq_ok.1 h
  obtain ⟨asset, hasset, hplan⟩ := bind_eq_ok.1 hplan
  obtain ⟨rfl, rfl⟩ := Prod.mk.inj (ok.inj h)
  exact ⟨st, asset, fromOption_eq_ok.1 hst, hv, hasset, (ok.inj hplan).symm⟩

/-- A commitment of ours was signed for broadcast, or a close was signed. -/
theorem signCommitmentTx_ok {req : OwnCommitment} (h : s.signCommitmentTx k req = .ok s') :
    (∃ st n, s.store.get req.key = some st ∧ isCommitmentShaped req.bt.tx = true ∧
      checkBroadcast k st req = .ok (some n) ∧
      s' = { s with store := s.store.modify req.key (recordBroadcast n) }) ∨
    (isCommitmentShaped req.bt.tx = false ∧
      s' = { s with store := s.store.recordClose req.bt.txid }) := by
  obtain ⟨_, -, h⟩ := bind_eq_ok.1 h
  obtain ⟨broadcast, hcheck, h⟩ := bind_eq_ok.1 h
  obtain ⟨_, -, h⟩ := bind_eq_ok.1 h
  obtain ⟨st, hst, hcheck⟩ := bind_eq_ok.1 hcheck
  obtain ⟨_, -, hcheck⟩ := bind_eq_ok.1 hcheck
  by_cases hshape : isCommitmentShaped req.bt.tx = true
  · rw [if_pos hshape] at hcheck
    obtain ⟨_, hrev, hn⟩ := bind_eq_ok.1 hcheck
    obtain ⟨_, hval, hn⟩ := bind_eq_ok.1 hn
    cases ok.inj hn
    exact .inl ⟨st, _, fromOption_eq_ok.1 hst, hshape, hcheck, (ok.inj h).symm⟩
  · rw [if_neg hshape] at hcheck
    right
    have hnone : broadcast = none := by
      split at hcheck
      all_goals
        obtain ⟨_, -, hcheck⟩ := bind_eq_ok.1 hcheck
        obtain ⟨_, -, hcheck⟩ := bind_eq_ok.1 hcheck
        exact (ok.inj hcheck).symm
    subst hnone
    exact ⟨by simpa using hshape, (ok.inj h).symm⟩

lemma revokeCommitmentTx_ok {n : ℕ} (h : s.revokeCommitmentTx key n = .ok s') :
    ∃ st, s.store.get key = some st ∧ checkRevoke st n = .ok () ∧
      s' = { s with store := s.store.modify key (recordRevoked n) } := by
  obtain ⟨_, -, h⟩ := bind_eq_ok.1 h
  obtain ⟨st, hst, h⟩ := bind_eq_ok.1 h
  obtain ⟨_, hcheck, h⟩ := bind_eq_ok.1 h
  exact ⟨st, fromOption_eq_ok.1 hst, hcheck, (ok.inj h).symm⟩

lemma preapprove_ok {hash : Hash} {amountMsat : Option ℕ} {asset : Option AssetKey}
    (h : s.preapprove hash amountMsat asset = .ok s') :
    s' = { s with store := { s.store with
      ledger := (s.store.ledger.prune s.now s.limits.periodSecs).approve hash s.now } } := by
  unfold preapprove at h
  split at h
  · exact (ok.inj h).symm
  · cases h

end requests

section sym

variable {k : SymKernel}

variable {ck : Option SymClockRequest}

lemma signSymState_ok {q : SymRequest} (h : s.signSymState k key q ck = .ok s') :
    ∃ c plan, s.checkSymState k key q ck = .ok (c, plan) ∧ s.checkPlan plan = .ok () ∧
      s' = { s with store := s.store.modify key (recordSymState c) }.applyPlan key plan := by
  obtain ⟨_, -, h⟩ := bind_eq_ok.1 h
  obtain ⟨⟨c, plan⟩, hc, h⟩ := bind_eq_ok.1 h
  obtain ⟨_, hcheck, h⟩ := bind_eq_ok.1 h
  exact ⟨c, plan, hc, hcheck, (ok.inj h).symm⟩

/-- A state's plan comes from its settlement and the channel's record. -/
theorem settlementPlan_ok {fundingSats n : ℕ} {pay : PayTrack} {asset : AssetKey}
    {htlcs : List StateHtlc} {outs : List Out} {paid : Paid}
    (h : settlementPlan k keys fundingSats pay ours n asset htlcs outs = .ok (paid, plan)) :
    checkSettlement k.scripts fundingSats keys htlcs outs = .ok paid ∧
      plan = pay.plan ours n asset (satAdd paid.ours paid.offered) (stateOffered htlcs)
        htlcs.length := by
  obtain ⟨paid', hpaid, h⟩ := bind_eq_ok.1 h
  obtain ⟨rfl, rfl⟩ := Prod.mk.inj (ok.inj h)
  exact ⟨hpaid, rfl⟩

lemma checked_carries {q : SymRequest} {signed : Bool} (hours : checkOwner q = .ok ours)
    (hsig : checkPeerSig k key st q ck = .ok signed) :
    ours = true → signed = true → q.owner = 0 ∧ q.sigRemote.isSome = true := by
  intro ho hs
  obtain ⟨_, -, hours⟩ := bind_eq_ok.1 hours
  obtain ⟨_, -, hours⟩ := bind_eq_ok.1 hours
  obtain ⟨_, -, hsig⟩ := bind_eq_ok.1 hsig
  refine ⟨of_decide_eq_true ((ok.inj hours).trans ho), ?_⟩
  cases hq : q.sigRemote with
  | none =>
    rw [hq] at hsig
    cases (ok.inj hsig).trans hs
  | some sig => rfl

/-- What the check of a state asks. -/
lemma checkSymState_ok {q : SymRequest} {c : SymChecked}
    (h : s.checkSymState k key q ck = .ok (c, plan)) :
    ∃ st asset paid, s.store.get key = some st ∧ checkConstants st q = .ok asset ∧
      settlementPlan k (symKeys k key st) st.fundingSats st.pay c.ours q.commitNum asset
        (stateHtlcs q.htlcs) q.outs = .ok (paid, plan) ∧
      c.commitNum = q.commitNum ∧ c.paidOurs = paid.ours ∧ c.Carries q := by
  obtain ⟨st, hst, h⟩ := bind_eq_ok.1 h
  obtain ⟨_, -, h⟩ := bind_eq_ok.1 h
  obtain ⟨_, -, h⟩ := bind_eq_ok.1 h
  obtain ⟨_, -, h⟩ := bind_eq_ok.1 h
  obtain ⟨asset, hasset, h⟩ := bind_eq_ok.1 h
  obtain ⟨ours, hours, h⟩ := bind_eq_ok.1 h
  obtain ⟨⟨paid, plan'⟩, hplan, h⟩ := bind_eq_ok.1 h
  obtain ⟨peerSigned, hsig, h⟩ := bind_eq_ok.1 h
  obtain ⟨_, -, h⟩ := bind_eq_ok.1 h
  obtain ⟨rfl, rfl⟩ := Prod.mk.inj (ok.inj h)
  exact ⟨st, asset, paid, fromOption_eq_ok.1 hst, hasset, hplan, rfl, rfl, checked_carries hours hsig⟩

/-- What a signed state of several lanes records. -/
lemma signSymLanesState_ok (h : s.signSymLanesState k key q = .ok s') :
    ∃ c swapUsed, s.checkSymLanesState k key q = .ok c ∧ s.lanesBalance key c = .ok swapUsed ∧
      s.checkLanePlans c.plans = .ok () ∧
      s' = (swapUsed.elim id fun i s => s.useSwap c.base.ours i)
        (applyLanePlans key 0 c.plans { s with
          store := (s.store.modify key (pinLanes c.pin)).modify key (recordSymState c.base) }) := by
  obtain ⟨_, -, h⟩ := bind_eq_ok.1 h
  obtain ⟨c, hc, h⟩ := bind_eq_ok.1 h
  obtain ⟨swapUsed, hswap, h⟩ := bind_eq_ok.1 h
  obtain ⟨_, hplans, h⟩ := bind_eq_ok.1 h
  refine ⟨c, swapUsed, hc, hswap, hplans, ?_⟩
  cases swapUsed with
  | some i => exact (ok.inj h).symm
  | none => exact (ok.inj h).symm

/-- What the check of a state of several lanes asks. -/
lemma checkSymLanesState_ok {c : LanesChecked} (h : s.checkSymLanesState k key q = .ok c) :
    ∃ st outLane plans, s.store.get key = some st ∧ (∃ asset, checkConstants st q.base = .ok asset) ∧
      q.lanes.length ≤ maxLanes ∧
      checkLanes st.lanes 0 [q.base.asset] q.lanes = .ok c.pin ∧
      st.lanes.length ≤ q.lanes.length ∧
      lanePlans k (symKeys k key st) st q c.base.ours outLane
        ((q.base.asset, st.fundingSats) :: q.lanes).zipIdx = .ok plans ∧
      c.plans = plans.map Prod.snd ∧
      c.laneAssets = ((q.base.asset, st.fundingSats) :: q.lanes).map Prod.fst ∧
      c.base.Carries q.base := by
  obtain ⟨st, hst, h⟩ := bind_eq_ok.1 h
  obtain ⟨_, -, h⟩ := bind_eq_ok.1 h
  obtain ⟨asset, hasset, h⟩ := bind_eq_ok.1 h
  obtain ⟨_, -, h⟩ := bind_eq_ok.1 h
  obtain ⟨_, hlen, h⟩ := bind_eq_ok.1 h
  obtain ⟨pin, hpin, h⟩ := bind_eq_ok.1 h
  obtain ⟨_, hknown, h⟩ := bind_eq_ok.1 h
  obtain ⟨ours, hours, h⟩ := bind_eq_ok.1 h
  obtain ⟨_, -, h⟩ := bind_eq_ok.1 h
  obtain ⟨outLane, -, h⟩ := bind_eq_ok.1 h
  obtain ⟨plans, hplans, h⟩ := bind_eq_ok.1 h
  obtain ⟨peerSigned, hsig, h⟩ := bind_eq_ok.1 h
  cases ok.inj h
  exact ⟨st, outLane, plans, fromOption_eq_ok.1 hst, ⟨asset, hasset⟩, (require_eq_ok.1 hlen).2, hpin,
    require_eq_ok.1 hknown, hplans, rfl, rfl, checked_carries hours hsig⟩

/-- The lanes that a request may name are in distinct open assets. -/
theorem checkLanes_nodup {known : List Lane} {lanes pin : List (Key × ℕ)} {seen : List Key}
    (h : checkLanes known l seen lanes = .ok pin) (hseen : seen.Nodup) :
    (seen ++ lanes.map Prod.fst).Nodup ∧
      ∀ a ∈ lanes.map Prod.fst, (explicitAsset a).isSome = true := by
  induction lanes generalizing l seen pin with
  | nil => exact ⟨by simpa using hseen, fun _ ha => absurd ha not_mem_nil⟩
  | cons lane lanes ih =>
    obtain ⟨a, v⟩ := lane
    obtain ⟨_, hnew, h⟩ := bind_eq_ok.1 h
    obtain ⟨hexplicit, hnew⟩ := require_eq_ok.1 hnew
    have hseen' : (seen ++ [a]).Nodup := by
      rw [← concat_eq_append]
      exact hseen.concat hnew
    have hrest : ∃ pin, checkLanes known (l + 1) (seen ++ [a]) lanes = .ok pin := by
      split at h
      · obtain ⟨_, -, h⟩ := bind_eq_ok.1 h
        exact ⟨_, h⟩
      · obtain ⟨pin', h, -⟩ := bind_eq_ok.1 h
        exact ⟨pin', h⟩
    obtain ⟨pin', hrest⟩ := hrest
    obtain ⟨hnodup, hall⟩ := ih hrest hseen'
    refine ⟨by simpa using hnodup, ?_⟩
    intro b hb
    rcases mem_cons.1 hb with rfl | hb
    · exact hexplicit
    · exact hall b hb

/-- Each lane's plan is in the lane's asset. -/
theorem lanePlans_assets {outLane : List ℕ} {lanes : List ((Key × ℕ) × ℕ)}
    (h : lanePlans k keys st q ours outLane lanes = .ok plans) :
    plans.map (fun p => some p.2.asset) = lanes.map fun l => assetKey l.1.1 := by
  induction lanes generalizing plans with
  | nil =>
    cases h
    rfl
  | cons lane lanes ih =>
    obtain ⟨⟨a, sats⟩, l⟩ := lane
    obtain ⟨asset, hasset, h⟩ := bind_eq_ok.1 h
    obtain ⟨⟨paid, plan⟩, hplan, h⟩ := bind_eq_ok.1 h
    obtain ⟨plans', hrest, h⟩ := bind_eq_ok.1 h
    cases h
    have hsame : plan.asset = asset := by
      rw [(settlementPlan_ok hplan).2, asset_plan]
    rw [map_cons, map_cons, ih hrest, hsame, ← fromOption_eq_ok.1 hasset]

lemma assetKey_inj {a b : Key} (ha : (assetKey a).isSome = true) (h : assetKey a = assetKey b) :
    a = b := by
  obtain ⟨asset, ha⟩ := isSome_iff_exists.1 ha
  obtain ⟨id, hid, rfl⟩ := map_eq_some_iff.1 ha
  obtain ⟨id', hid', heq⟩ := map_eq_some_iff.1 (h ▸ ha)
  obtain rfl := AssetKey.asset.inj heq
  rw [explicitAsset_eq_some.1 hid, explicitAsset_eq_some.1 hid']

/-- The lanes of a state are charged in distinct assets. -/
theorem checkSymLanesState_nodup {c : LanesChecked} (h : s.checkSymLanesState k key q = .ok c) :
    (c.plans.map Plan.asset).Nodup := by
  obtain ⟨st, outLane, plans, -, ⟨asset, hasset⟩, -, hpin, -, hplans, hc, -⟩ :=
    checkSymLanesState_ok h
  have hfirst : (assetKey q.base.asset).isSome = true := by
    obtain ⟨_, -, hasset⟩ := bind_eq_ok.1 hasset
    obtain ⟨_, -, hasset⟩ := bind_eq_ok.1 hasset
    obtain ⟨_, -, hasset⟩ := bind_eq_ok.1 hasset
    obtain ⟨_, -, hasset⟩ := bind_eq_ok.1 hasset
    obtain ⟨asset, hasset, -⟩ := bind_eq_ok.1 hasset
    rw [fromOption_eq_ok.1 hasset]
    rfl
  obtain ⟨hnodup, hexplicit⟩ := checkLanes_nodup hpin (nodup_singleton _)
  have hassets := lanePlans_assets hplans
  have hkeys : (([q.base.asset] ++ q.lanes.map Prod.fst).map assetKey).Nodup := by
    apply List.Nodup.map_on _ hnodup
    intro a ha b _ heq
    apply assetKey_inj _ heq
    rcases mem_cons.1 ha with rfl | ha
    · exact hfirst
    · rw [assetKey, isSome_map]
      exact hexplicit a ha
  apply List.Nodup.of_map some
  have heq : (c.plans.map Plan.asset).map some =
      ([q.base.asset] ++ q.lanes.map Prod.fst).map assetKey := by
    rw [hc, List.map_map, List.map_map]
    refine Eq.trans hassets ?_
    have hzip : ((q.base.asset, st.fundingSats) :: q.lanes).zipIdx.map (fun l => assetKey l.1.1) =
        (((q.base.asset, st.fundingSats) :: q.lanes).zipIdx.map Prod.fst).map
          (assetKey ∘ Prod.fst) := by
      rw [List.map_map]
      rfl
    rw [hzip, zipIdx_map_fst, map_cons, ← List.map_map]
    rfl
  rw [heq]
  exact hkeys

lemma approveSymSwap_ok {give take : Key} {giveMsat takeMsat : ℕ}
    (h : s.approveSymSwap key give giveMsat take takeMsat = .ok s') :
    ∃ swaps, s' = { s with swaps } := by
  obtain ⟨_, -, h⟩ := bind_eq_ok.1 h
  obtain ⟨_, -, h⟩ := bind_eq_ok.1 h
  obtain ⟨_, -, h⟩ := bind_eq_ok.1 h
  exact ⟨_, (ok.inj h).symm⟩

/-- An accepted kickoff is that of a channel with a settle clock, of a further lane, or of the first
lane. -/
theorem checkSymKickoff_ok {req : KickoffRequest} {lane : Option (ℕ × Key × ℕ)}
    (h : s.checkSymKickoff k req = .ok lane) :
    ∃ st inp o id, s.store.get req.key = some st ∧ req.bt.tx.inputs = [inp] ∧
      req.bt.tx.outputs.head? = some o ∧ o.asset = some id ∧
      (st.optionSymClock = true ∨ req.bt.inputAsset.all (· = (explicitKey id).bytes) = true) ∧
      ((st.optionSymClock = true ∧ lane = none) ∨
        (∃ v, inp.index ≠ st.fundingTxout ∧ o.value = some v ∧
          checkLaneKickoff st inp (explicitKey id) v = .ok () ∧
          checkKickoffScript k st req (explicitKey id) o = .ok () ∧
          lane = some (inp.index, explicitKey id, v)) ∨
        (checkFirstKickoff st inp (explicitKey id) o = .ok () ∧
          checkKickoffScript k st req (explicitKey id) o = .ok () ∧ lane = none)) := by
  obtain ⟨st, hst, h⟩ := bind_eq_ok.1 h
  obtain ⟨_, -, h⟩ := bind_eq_ok.1 h
  obtain ⟨_, -, h⟩ := bind_eq_ok.1 h
  obtain ⟨inp, hinp, h⟩ := bind_eq_ok.1 h
  obtain ⟨o, ho, h⟩ := bind_eq_ok.1 h
  obtain ⟨id, hid, h⟩ := bind_eq_ok.1 h
  obtain ⟨_, hasset, h⟩ := bind_eq_ok.1 h
  refine ⟨st, inp, o, id, fromOption_eq_ok.1 hst, oneInput_eq_ok.1 hinp, fromOption_eq_ok.1 ho,
    fromOption_eq_ok.1 hid, require_eq_ok.1 hasset, ?_⟩
  split at h
  · next hclock =>
    obtain ⟨_, -, h⟩ := bind_eq_ok.1 h
    exact .inl ⟨hclock, (ok.inj h).symm⟩
  · split at h
    · next hfurther =>
      obtain ⟨v, hv, h⟩ := bind_eq_ok.1 h
      obtain ⟨_, hlane, h⟩ := bind_eq_ok.1 h
      obtain ⟨_, hscript, h⟩ := bind_eq_ok.1 h
      exact .inr (.inl ⟨v, hfurther.2.1, fromOption_eq_ok.1 hv, hlane, hscript,
        (ok.inj h).symm⟩)
    · obtain ⟨_, hfirst, h⟩ := bind_eq_ok.1 h
      obtain ⟨_, hscript, h⟩ := bind_eq_ok.1 h
      exact .inr (.inr ⟨hfirst, hscript, (ok.inj h).symm⟩)

lemma signSymKickoff_ok {req : KickoffRequest} (h : s.signSymKickoff k req = .ok s') :
    (s.checkSymKickoff k req = .ok none ∧ s' = s) ∨
    (∃ outnum asset sats, s.checkSymKickoff k req = .ok (some (outnum, asset, sats)) ∧
      s' = { s with store := s.store.modify req.key (pinLane asset sats (some outnum)) }) := by
  obtain ⟨_, -, h⟩ := bind_eq_ok.1 h
  obtain ⟨lane, hlane, h⟩ := bind_eq_ok.1 h
  cases lane with
  | none => exact .inl ⟨hlane, (ok.inj h).symm⟩
  | some lane => exact .inr ⟨lane.1, lane.2.1, lane.2.2, hlane, (ok.inj h).symm⟩

/-- What the check of a clock's funding asks and records. -/
lemma checkSymClockFunding_ok {tx : Tx} {txid fundingTxid : Hash} {vout : ℕ} {issuer : Hash × ℕ}
    (h : s.checkSymClockFunding k key tx txid fundingTxid vout issuer = .ok s') :
    ∃ st seed, s.store.get key = some st ∧ txid = st.fundingTxid ∧ fundingTxid = st.fundingTxid ∧
      k.clockSeed key st tx issuer = some seed ∧
      s' = { s with store := s.store.modify key (recordClock issuer seed) } := by
  obtain ⟨st, hst, h⟩ := bind_eq_ok.1 h
  obtain ⟨_, -, h⟩ := bind_eq_ok.1 h
  obtain ⟨_, hfunding, h⟩ := bind_eq_ok.1 h
  obtain ⟨_, htxid, h⟩ := bind_eq_ok.1 h
  obtain ⟨_, -, h⟩ := bind_eq_ok.1 h
  obtain ⟨seed, hseed, h⟩ := bind_eq_ok.1 h
  exact ⟨st, seed, fromOption_eq_ok.1 hst, require_eq_ok.1 htxid, (require_eq_ok.1 hfunding).1,
    fromOption_eq_ok.1 hseed, (ok.inj h).symm⟩

lemma creditNote_ok {cid : Hash} {note : CreditNote} (h : s.creditNote k key cid note = .ok s') :
    s' = { s with store := s.store.modify key fun st => st.learnCredit note } := by
  obtain ⟨st, -, h⟩ := bind_eq_ok.1 h
  obtain ⟨_, -, h⟩ := bind_eq_ok.1 h
  obtain ⟨_, -, h⟩ := bind_eq_ok.1 h
  obtain ⟨_, -, h⟩ := bind_eq_ok.1 h
  obtain ⟨_, -, h⟩ := bind_eq_ok.1 h
  exact (ok.inj h).symm

lemma signMutualCloseTx_ok {bt : BitcoinTx} (h : s.signMutualCloseTx k key bt = .ok s') :
    s' = { s with store := s.store.recordClose bt.txid } := by
  obtain ⟨_, -, h⟩ := bind_eq_ok.1 h
  obtain ⟨st, -, h⟩ := bind_eq_ok.1 h
  obtain ⟨_, -, h⟩ := bind_eq_ok.1 h
  obtain ⟨_, -, h⟩ := bind_eq_ok.1 h
  obtain ⟨_, -, h⟩ := bind_eq_ok.1 h
  exact (ok.inj h).symm

lemma signMutualCloseLanes_ok {bt : BitcoinTx} {remoteFunding : Key}
    (h : s.signMutualCloseLanes k key bt remoteFunding = .ok s') :
    s' = { s with store := s.store.recordClose bt.txid } := by
  obtain ⟨_, -, h⟩ := bind_eq_ok.1 h
  obtain ⟨st, -, h⟩ := bind_eq_ok.1 h
  obtain ⟨_, -, h⟩ := bind_eq_ok.1 h
  obtain ⟨_, -, h⟩ := bind_eq_ok.1 h
  obtain ⟨_, -, h⟩ := bind_eq_ok.1 h
  obtain ⟨_, -, h⟩ := bind_eq_ok.1 h
  exact (ok.inj h).symm

/-- A spend is charged whole, or it was charged before or lets nothing leave. -/
theorem signWithdrawal_ok {w : Withdrawal} (h : s.signWithdrawal w = .ok s') :
    s.lossesFit w = true ∧
      ((s.withdrawalCharges w = [] ∧ s' = s) ∨
        s' = { s with store := { s.store with
          ledger := (chargeAll s.now (s.withdrawalCharges w)
            (s.store.ledger.prune s.now s.limits.periodSecs)).markChargedTxid w.txid } }) := by
  obtain ⟨_, hfit, h⟩ := bind_eq_ok.1 h
  refine ⟨require_eq_ok.1 hfit, ?_⟩
  split at h
  · next hnil => exact .inl ⟨hnil, (ok.inj h).symm⟩
  · exact .inr (ok.inj h).symm

end sym

/-! ### The ways a record changes -/

variable {req : Request} {k : SymKernel}

/-- A request to sign a symmetric state. -/
def StateRequest (key : ChannelKey) (q : SymRequest) (req : Request) : Prop :=
  (∃ ck, req = .signSymState key q ck) ∨ ∃ lanes, lanes.base = q ∧ req = .signSymLanesState key lanes

/-- A change of the record of `key` by a request, with the checks that come before it. -/
inductive Touch (k : SymKernel) (key : ChannelKey) (req : Request) : ChannelState → ChannelState → Prop
  | setup {c : ChannelSetup} (hreq : req = .setupChannel key c) (st : ChannelState) :
    Touch k key req st (c.fresh.mergeFrom st)
  | remote (n : ℕ) (v : Validated) (st : ChannelState) : Touch k key req st (recordRemote n v st)
  | ours {q : LocalCommitment} (hreq : req = .validateCommitmentTx q) (hkey : q.key = key)
    (v : Validated) (st : ChannelState) :
    Touch k key req st (recordLocal q.commitNum v q.bt.txid st)
  | broadcast {own : OwnCommitment} {n : ℕ} {st : ChannelState}
    (h : checkBroadcast k.toKernel st own = .ok (some n)) : Touch k key req st (recordBroadcast n st)
  | revoked {n : ℕ} {st : ChannelState} (h : checkRevoke st n = .ok ()) :
    Touch k key req st (recordRevoked n st)
  | pay (ours : Bool) (n : ℕ) (asset : AssetKey) (value : ℕ) (offered : List Offered) (listed : ℕ)
    (st : ChannelState) :
    Touch k key req st { st with pay := (st.pay.plan ours n asset value offered listed).track }
  | sym {c : SymChecked} {q : SymRequest} (hreq : StateRequest key q req) (hc : c.Carries q)
    (st : ChannelState) : Touch k key req st (recordSymState c st)
  | pinState {asset : Key} {lanes pin : List (Key × ℕ)} {st : ChannelState}
    (h : checkLanes st.lanes 0 [asset] lanes = .ok pin) (hlen : lanes.length ≤ maxLanes)
    (hknown : st.lanes.length ≤ lanes.length) : Touch k key req st (pinLanes pin st)
  | lanePay (l : ℕ) (ours : Bool) (n : ℕ) (asset : AssetKey) (value : ℕ) (offered : List Offered)
    (listed : ℕ) (st : ChannelState) :
    Touch k key req st { st with lanes := st.lanes.modify (l - 1) fun lane =>
      { lane with pay := ((Device.lanePay st l).plan ours n asset value offered listed).track } }
  | pinKickoff {q : KickoffRequest} {inp : TxIn} {o : TxOut} {id : Hash} {v : ℕ} {st : ChannelState}
    (hreq : req = .signSymKickoff q) (hinp : q.bt.tx.inputs = [inp])
    (ho : q.bt.tx.outputs.head? = some o) (hid : o.asset = some id)
    (h : checkLaneKickoff st inp (explicitKey id) v = .ok ()) :
    Touch k key req st (pinLane (explicitKey id) v (some inp.index) st)
  | credit (note : CreditNote) (st : ChannelState) : Touch k key req st (st.learnCredit note)
  | clock {tx : Tx} {vout : ℕ} {issuer : Hash × ℕ} {seed : ℕ} {st : ChannelState}
    (hreq : req = .checkSymClockFunding key tx st.fundingTxid st.fundingTxid vout issuer)
    (hseed : k.clockSeed key st tx issuer = some seed) : Touch k key req st (recordClock issuer seed st)

/-- Some changes, one after the other. -/
abbrev Touches (k : SymKernel) (key : ChannelKey) (req : Request) : ChannelState → ChannelState → Prop :=
  Relation.ReflTransGen (Touch k key req)

section touches

variable {k : SymKernel} {req : Request} {st : ChannelState} {key' : ChannelKey}

variable {f : ChannelState → ChannelState}

/-- What becomes of a channel's record, where there is one. -/
abbrev Evolves (k : SymKernel) (key : ChannelKey) (req : Request) :
    Option ChannelState → Option ChannelState → Prop :=
  Option.Rel (Touches k key req)

/-- A record that stays. -/
theorem Evolves.of_eq {r r' : Option ChannelState} (h : r' = r) : Evolves k key req r r' := by
  subst h
  cases r' with
  | none => exact .none
  | some st => exact .some .refl

/-- Changes after changes. -/
theorem Evolves.trans {r r' r'' : Option ChannelState} (h : Evolves k key req r r')
    (h' : Evolves k key req r' r'') : Evolves k key req r r'' := by
  cases h with
  | none => exact h'
  | some h =>
    cases h' with
    | some h' => exact .some (Relation.ReflTransGen.trans h h')

/-- A record changed in place. -/
theorem evolves_modify {store : ChannelStore}
    (hf : ∀ st, key' = key → store.get key = some st → Touch k key req st (f st)) :
    Evolves k key req (store.get key) ((store.modify key' f).get key) := by
  by_cases hkey : key' = key
  · subst hkey
    rw [get_modify]
    cases hst : store.get key' with
    | none => exact .none
    | some st => exact .some (.single (hf st rfl hst))
  · exact .of_eq (get_modify_of_ne (Ne.symm hkey))

/-- A record changed and then its payments planned. -/
theorem evolves_applyPlan {n : ℕ} {asset : AssetKey} {value : ℕ} {offered : List Offered}
    {listed : ℕ} (hf : key' = key → Touch k key req st (f st)) (hpay : (f st).pay = st.pay)
    (hst : s.store.get key' = some st)
    (hplan : plan = st.pay.plan ours n asset value offered listed) :
    Evolves k key req (s.store.get key)
      (({ s with store := s.store.modify key' f }.applyPlan key' plan).store.get key) := by
  refine (evolves_modify fun st' hkey hst' => ?_).trans (evolves_modify fun st' hkey hst' => ?_)
  · subst hkey
    cases some.inj (hst.symm.trans hst')
    exact hf rfl
  · subst hkey
    rw [get_modify, hst] at hst'
    cases some.inj hst'
    have hlast : Touch k key' req (f st) _ := .pay ours n asset value offered listed (f st)
    rwa [hpay, ← hplan] at hlast

/-! ### Which fields the records change -/

lemma notePeerBalance_eq (st : ChannelState) (theirs : ℕ) :
    ∃ peerReachedReserve, notePeerBalance st theirs = { st with peerReachedReserve } := by
  unfold notePeerBalance
  split
  · split
    · exact ⟨true, rfl⟩
    · exact ⟨st.peerReachedReserve, rfl⟩
  · exact ⟨st.peerReachedReserve, rfl⟩

lemma recordRemote_eq (n : ℕ) (v : Validated) (st : ChannelState) :
    ∃ remoteSplit peerReachedReserve, recordRemote n v st =
      { st with remoteSplit, peerReachedReserve } := by
  obtain ⟨reached, h⟩ :=
    notePeerBalance_eq { st with remoteSplit := recordSplit st.remoteSplit n v.split } v.theirs
  exact ⟨_, reached, h⟩

lemma recordLocal_eq (n : ℕ) (v : Validated) (txid : Hash) (st : ChannelState) :
    ∃ validatedThrough localSplit peerReachedReserve validated, recordLocal n v txid st =
      { st with validatedThrough, localSplit, peerReachedReserve, validated } := by
  obtain ⟨reached, hreached⟩ := notePeerBalance_eq { st with
    validatedThrough := maxOpt st.validatedThrough (some n)
    localSplit := recordSplit st.localSplit n v.split } v.theirs
  obtain ⟨validated, hvalidated⟩ := ChannelState.recordValidated_eq { st with
    validatedThrough := maxOpt st.validatedThrough (some n)
    localSplit := recordSplit st.localSplit n v.split
    peerReachedReserve := reached } n txid
  refine ⟨maxOpt st.validatedThrough (some n), recordSplit st.localSplit n v.split, reached,
    validated, ?_⟩
  unfold recordLocal
  dsimp only at hreached ⊢
  rw [hreached]
  exact hvalidated

lemma recordRevoked_eq (n : ℕ) (st : ChannelState) :
    ∃ revokedThrough validated, recordRevoked n st = { st with revokedThrough, validated } := by
  unfold recordRevoked
  split
  · exact ⟨st.revokedThrough, st.validated, rfl⟩
  · obtain ⟨validated, h⟩ := ChannelState.dropRevoked_eq { st with revokedThrough := some n }
    exact ⟨some n, validated, h⟩

/-- Our commitment is recorded where the state is ours and the peer signed it. -/
theorem recordSymState_eq (c : SymChecked) (st : ChannelState) :
    ∃ validatedThrough localSplit remoteSplit clockIssuer, recordSymState c st =
      { st with validatedThrough, localSplit, remoteSplit, clockIssuer } ∧
      (localSplit = st.localSplit ∨ (c.ours = true ∧ c.peerSigned = true)) := by
  unfold recordSymState
  dsimp only
  split
  · next hours =>
    split
    · next hsigned => exact ⟨_, _, _, _, rfl, .inr ⟨hours, hsigned⟩⟩
    · exact ⟨_, _, _, _, rfl, .inl rfl⟩
  · exact ⟨_, _, _, _, rfl, .inl rfl⟩

lemma pay_recordRemote (n : ℕ) (v : Validated) (st : ChannelState) :
    (recordRemote n v st).pay = st.pay := by
  obtain ⟨_, _, h⟩ := recordRemote_eq n v st
  rw [h]

lemma pay_recordLocal (n : ℕ) (v : Validated) (txid : Hash) (st : ChannelState) :
    (recordLocal n v txid st).pay = st.pay := by
  obtain ⟨_, _, _, _, h⟩ := recordLocal_eq n v txid st
  rw [h]

lemma pay_recordSymState (c : SymChecked) (st : ChannelState) : (recordSymState c st).pay = st.pay := by
  obtain ⟨_, _, _, _, h, -⟩ := recordSymState_eq c st
  rw [h]

/-! ### Lanes -/

lemma lanes_recordSymState (c : SymChecked) (st : ChannelState) :
    (recordSymState c st).lanes = st.lanes := by
  obtain ⟨_, _, _, _, h, -⟩ := recordSymState_eq c st
  rw [h]

/-- The payments of a list's lane; those of a lane that is not there are new. -/
theorem pay_pinnedLanes (asset : Key) (sats : ℕ) (outnum : Option ℕ) (lanes : List Lane) (i : ℕ) :
    ((pinnedLanes asset sats outnum lanes)[i]?.map Lane.pay).getD PayTrack.new =
      (lanes[i]?.map Lane.pay).getD PayTrack.new := by
  unfold pinnedLanes
  split
  · rw [getElem?_modify]
    cases lanes[i]? with
    | none => rfl
    | some lane =>
      rw [Option.map_eq_map, map_some]
      split <;> rfl
  · split
    · rcases Nat.lt_trichotomy i lanes.length with hlt | heq | hgt
      · rw [getElem?_append_left hlt]
      · rw [getElem?_append_right heq.ge, heq, Nat.sub_self, getElem?_eq_none le_rfl]
        rfl
      · rw [getElem?_eq_none hgt.le, getElem?_eq_none]
        rw [length_append, length_singleton]
        omega
    · rfl

/-- Recording a lane changes no lane's payments. -/
theorem lanePay_pinLane (asset : Key) (sats : ℕ) (outnum : Option ℕ) (st : ChannelState) (l : ℕ) :
    lanePay (pinLane asset sats outnum st) l = lanePay st l := by
  unfold lanePay pinLane
  dsimp only
  rw [pay_pinnedLanes]

lemma lanePay_pinLanes (pin : List (Key × ℕ)) (st : ChannelState) (l : ℕ) :
    lanePay (pinLanes pin st) l = lanePay st l := by
  unfold pinLanes
  induction pin generalizing st with
  | nil => rfl
  | cons p pin ih => rw [foldl_cons, ih, lanePay_pinLane]

/-- Recording lanes changes nothing but the lanes. -/
theorem pinLanes_eq (pin : List (Key × ℕ)) (st : ChannelState) :
    ∃ lanes, pinLanes pin st = { st with lanes } := by
  unfold pinLanes
  induction pin generalizing st with
  | nil => exact ⟨st.lanes, rfl⟩
  | cons p pin ih =>
    obtain ⟨lanes, hlanes⟩ := ih (pinLane p.1 p.2 none st)
    exact ⟨lanes, hlanes⟩

/-- A lane's plan changes the payments of that lane only. -/
theorem lanePay_recordLanePlan {l' : ℕ} (h : l < l') (plan : Plan) (st : ChannelState) :
    lanePay (recordLanePlan l plan st) l' = lanePay st l' := by
  have hpos : l' ≠ 0 := by omega
  unfold lanePay recordLanePlan
  rw [if_neg hpos, if_neg hpos]
  split
  · rfl
  · dsimp only
    have hne : ¬ l - 1 = l' - 1 := by omega
    rw [getElem?_modify]
    simp only [if_neg hne, id_map']

/-- A plan of the record's own payments in a lane. -/
def PlansLane (st : ChannelState) (l : ℕ) (plan : Plan) : Prop :=
  ∃ ours n asset value offered listed,
    plan = (lanePay st l).plan ours n asset value offered listed

lemma touch_recordLanePlan (h : PlansLane st l plan) :
    Touch k key req st (recordLanePlan l plan st) := by
  obtain ⟨ours, n, asset, value, offered, listed, rfl⟩ := h
  unfold recordLanePlan
  split
  · next hl =>
    subst hl
    exact .pay ours n asset value offered listed st
  · exact .lanePay l ours n asset value offered listed st

/-- The plans of the lanes, one after the other. -/
theorem evolves_applyLanePlans (plans : List Plan) (l : ℕ) (s : Device)
    (hplans : ∀ st, key' = key → s.store.get key = some st →
      ∀ i plan, plans[i]? = some plan → PlansLane st (l + i) plan) :
    Evolves k key req (s.store.get key) ((applyLanePlans key' l plans s).store.get key) := by
  induction plans generalizing l s with
  | nil => exact .of_eq rfl
  | cons plan plans ih =>
    refine (evolves_modify fun st hkey hst => ?_).trans
      (ih (l + 1) (s.applyLanePlan key' l plan) fun st' hkey hst' i plan' hi => ?_)
    · exact touch_recordLanePlan (hplans st hkey hst 0 plan rfl)
    · subst hkey
      change (s.store.modify key' (recordLanePlan l plan)).get key' = _ at hst'
      rw [get_modify] at hst'
      obtain ⟨st, hst, rfl⟩ := map_eq_some_iff.1 hst'
      obtain ⟨ours, n, asset, value, offered, listed, rfl⟩ := hplans st rfl hst (i + 1) plan' hi
      refine ⟨ours, n, asset, value, offered, listed, ?_⟩
      rw [lanePay_recordLanePlan (by omega), Nat.add_right_comm, Nat.add_assoc]

/-- The HTLCs of a state in a lane. -/
def laneHtlcs (q : SymLanesRequest) (l : ℕ) : List StateHtlc :=
  inLane l (stateHtlcs q.base.htlcs) q.htlcLanes

/-- Each lane's plan is one of the lane's payments. -/
theorem lanePlans_at {outLane : List ℕ} {lanes : List (Key × ℕ)}
    (h : lanePlans k keys st q ours outLane (lanes.zipIdx l) = .ok plans) :
    ∀ i p, plans[i]? = some p → ∃ asset, p.2 = (lanePay st (l + i)).plan ours q.base.commitNum asset
      (satAdd p.1.ours p.1.offered) (stateOffered (laneHtlcs q (l + i)))
      (laneHtlcs q (l + i)).length := by
  induction lanes generalizing l plans with
  | nil =>
    cases h
    intro i p hp
    cases hp
  | cons lane lanes ih =>
    obtain ⟨a, sats⟩ := lane
    obtain ⟨asset, -, h⟩ := bind_eq_ok.1 h
    obtain ⟨⟨paid, plan⟩, hplan, h⟩ := bind_eq_ok.1 h
    obtain ⟨plans', hrest, h⟩ := bind_eq_ok.1 h
    cases h
    intro i p hp
    cases i with
    | zero =>
      cases hp
      exact ⟨asset, (settlementPlan_ok hplan).2⟩
    | succ i =>
      have := ih hrest i p hp
      rwa [Nat.add_assoc, Nat.add_comm 1 i] at this

end touches

/-- The lanes of an accepted state are planned from the record once it is recorded. -/
theorem plansLane_recorded {c : LanesChecked} (h : s.checkSymLanesState k key q = .ok c)
    (hst : s.store.get key = some st) {i : ℕ} (hi : c.plans[i]? = some plan) :
    PlansLane (recordSymState c.base (pinLanes c.pin st)) (0 + i) plan := by
  obtain ⟨st', outLane, plans, hst', -, -, -, -, hplans, heq, -⟩ := checkSymLanesState_ok h
  cases some.inj (hst.symm.trans hst')
  rw [heq, getElem?_map] at hi
  obtain ⟨p, hp, rfl⟩ := map_eq_some_iff.1 hi
  have hpay : lanePay (recordSymState c.base (pinLanes c.pin st)) (0 + i) = lanePay st (0 + i) := by
    rw [← lanePay_pinLanes c.pin st]
    unfold lanePay
    rw [pay_recordSymState, lanes_recordSymState]
  obtain ⟨asset, hplan⟩ := lanePlans_at hplans i p hp
  rw [← hpay] at hplan
  exact ⟨_, _, _, _, _, _, hplan⟩

/-- An accepted request changes a channel's record as `Touch` lists, where it neither sets the
channel up nor makes the device forget it. -/
theorem step_evolves (h : s.step k req = .ok s') (hsetup : ∀ c, req ≠ .setupChannel key c)
    (hforget : req ≠ .forgetChannel key) :
    Evolves k key req (s.store.get key) (s'.store.get key) := by
  cases req with
  | setNow now =>
    cases h
    exact .of_eq rfl
  | setupChannel key' setup =>
    cases h
    have hkey : key ≠ key' := fun heq => hsetup setup (heq ▸ rfl)
    exact .of_eq (get_insert_of_ne hkey)
  | forgetChannel key' =>
    cases h
    have hkey : key ≠ key' := fun heq => hforget (heq ▸ rfl)
    exact .of_eq (get_remove_of_ne hkey)
  | signRemoteCommitmentTx req =>
    obtain ⟨v, plan, hplan, -, rfl⟩ := signRemoteCommitmentTx_ok h
    obtain ⟨st, asset, hst, -, -, hplan⟩ := planRemoteCommitment_ok hplan
    exact evolves_applyPlan (fun _ => .remote req.commitNum v st) (pay_recordRemote _ _ _) hst hplan
  | validateCommitmentTx req =>
    obtain ⟨v, plan, hplan, -, rfl⟩ := validateCommitmentTx_ok h
    obtain ⟨st, asset, hst, -, -, hplan⟩ := planLocalCommitment_ok hplan
    exact evolves_applyPlan (fun hkey => .ours rfl hkey v st) (pay_recordLocal _ _ _ _) hst hplan
  | signCommitmentTx req =>
    obtain ⟨st, n, hst, -, hcheck, rfl⟩ | ⟨-, rfl⟩ := signCommitmentTx_ok h
    · refine evolves_modify fun st' hkey hst' => ?_
      cases some.inj (hst'.symm.trans (hkey ▸ hst))
      exact .broadcast hcheck
    · exact .of_eq (get_recordClose _)
  | revokeCommitmentTx key' n =>
    obtain ⟨st, hst, hcheck, rfl⟩ := revokeCommitmentTx_ok h
    refine evolves_modify fun st' hkey hst' => ?_
    cases some.inj (hst'.symm.trans (hkey ▸ hst))
    exact .revoked hcheck
  | preapprove hash amountMsat asset =>
    have hget := preapprove_ok h
    subst hget
    exact .of_eq (get_ledger _)
  | signSymState key' q ck =>
    obtain ⟨c, plan, hc, -, rfl⟩ := signSymState_ok h
    obtain ⟨st, asset, paid, hst, -, hplan, -, -, hcarries⟩ := checkSymState_ok hc
    exact evolves_applyPlan (fun hkey => .sym (.inl ⟨ck, hkey ▸ rfl⟩) hcarries st)
      (pay_recordSymState c st) hst (settlementPlan_ok hplan).2
  | signSymLanesState key' q =>
    obtain ⟨c, swapUsed, hc, -, -, rfl⟩ := signSymLanesState_ok h
    obtain ⟨st, outLane, plans, hst, -, hlen, hpin, hknown, -, -, -, hcarries⟩ :=
      checkSymLanesState_ok hc
    have hswap : ∀ d : Device,
        ((swapUsed.elim id fun i s => s.useSwap c.base.ours i) d).store = d.store := by
      intro d
      cases swapUsed <;> rfl
    rw [hswap]
    refine ((evolves_modify (f := pinLanes c.pin) fun st' hkey hst' => ?_).trans
      (evolves_modify fun st' hkey _ => .sym (.inr ⟨q, rfl, hkey ▸ rfl⟩) hcarries st')).trans
      (evolves_applyLanePlans c.plans 0 { s with
        store := (s.store.modify key' (pinLanes c.pin)).modify key' (recordSymState c.base) }
        fun st' hkey hst' i plan hi => ?_)
    · cases some.inj (hst'.symm.trans (hkey ▸ hst))
      exact .pinState hpin hlen hknown
    · subst hkey
      rw [get_modify, get_modify, hst] at hst'
      cases some.inj hst'
      exact plansLane_recorded hc hst hi
  | approveSymSwap key' give giveMsat take takeMsat =>
    obtain ⟨swaps, rfl⟩ := approveSymSwap_ok h
    exact .of_eq rfl
  | signSymKickoff req =>
    obtain ⟨-, rfl⟩ | ⟨outnum, asset, sats, hcheck, rfl⟩ := signSymKickoff_ok h
    · exact .of_eq rfl
    · refine evolves_modify fun st' hkey hst' => ?_
      obtain ⟨st, inp, o, id, hst, hinp, ho, hid, -, ⟨-, hlane⟩ |
        ⟨v, -, -, hcheck, -, hlane⟩ | ⟨-, -, hlane⟩⟩ :=
        checkSymKickoff_ok hcheck
      · cases hlane
      · cases some.inj (hst'.symm.trans (hkey ▸ hst))
        cases hlane
        exact .pinKickoff rfl hinp ho hid hcheck
      · cases hlane
  | checkSymClockFunding key' tx txid fundingTxid vout issuer =>
    obtain ⟨st, seed, hst, rfl, rfl, hseed, rfl⟩ := checkSymClockFunding_ok h
    refine evolves_modify fun st' hkey hst' => ?_
    subst hkey
    cases some.inj (hst.symm.trans hst')
    exact .clock rfl hseed
  | signMutualCloseTx key' bt =>
    cases signMutualCloseTx_ok h
    exact .of_eq (get_recordClose _)
  | signMutualCloseLanes key' bt remoteFunding =>
    cases signMutualCloseLanes_ok h
    exact .of_eq (get_recordClose _)
  | creditNote key' cid note =>
    rw [creditNote_ok h]
    exact evolves_modify fun st _ _ => .credit note st
  | signWithdrawal w =>
    obtain ⟨-, ⟨-, rfl⟩ | rfl⟩ := signWithdrawal_ok h
    · exact .of_eq rfl
    · exact .of_eq (get_ledger _)

/-- A record that the device has is changed, where it does not forget the channel. -/
theorem step_record (h : s.step k req = .ok s') (hst : s.store.get key = some st)
    (hreq : req ≠ .forgetChannel key) :
    ∃ st', s'.store.get key = some st' ∧ Touches k key req st st' := by
  by_cases hsetup : ∃ c, req = .setupChannel key c
  · obtain ⟨c, rfl⟩ := hsetup
    cases h
    refine ⟨c.fresh.mergeFrom st, ?_, .single (.setup rfl st)⟩
    unfold recordSetupChannel
    rw [hst]
    exact get_insert
  · have hstep := step_evolves h (fun c hc => hsetup ⟨c, hc⟩) hreq
    rw [hst] at hstep
    generalize s'.store.get key = r at hstep ⊢
    cases hstep with
    | some htouch => exact ⟨_, rfl, htouch⟩

/-- A record that the device does not have comes from a setup. -/
theorem step_unknown (h : s.step k req = .ok s') (hst : s.store.get key = none) :
    s'.store.get key = none ∨
      ∃ setup, req = .setupChannel key setup ∧ s'.store.get key = some setup.fresh := by
  by_cases hsetup : ∃ c, req = .setupChannel key c
  · obtain ⟨c, rfl⟩ := hsetup
    cases h
    refine .inr ⟨c, rfl, ?_⟩
    unfold recordSetupChannel
    rw [hst]
    exact get_insert
  · left
    by_cases hforget : req = .forgetChannel key
    · subst hforget
      cases h
      exact AList.lookup_erase _ _
    · have hstep := step_evolves h (fun c hc => hsetup ⟨c, hc⟩) hforget
      rw [hst] at hstep
      generalize s'.store.get key = r at hstep ⊢
      cases hstep
      rfl

/-- A property of every record of the device. -/
def Records (P : ChannelState → Prop) (s : Device) : Prop :=
  ∀ key st, s.store.get key = some st → P st

/-- What holds of a new record and is kept by every change holds of the records after an accepted
request. -/
theorem Records.step {P : ChannelState → Prop} (hs : s.Records P) (h : s.step k req = .ok s')
    (hfresh : ∀ c : ChannelSetup, P c.fresh)
    (htouch : ∀ key st st', P st → Touch k key req st st' → P st') : s'.Records P := by
  intro key st' hst'
  cases hst : s.store.get key with
  | none =>
    obtain hnone | ⟨setup, -, hnew⟩ := step_unknown h hst
    · rw [hnone] at hst'
      cases hst'
    · cases some.inj (hnew.symm.trans hst')
      exact hfresh setup
  | some st =>
    by_cases hreq : req = .forgetChannel key
    · subst hreq
      cases h
      have hnone : (s.forgetChannel key).store.get key = none := AList.lookup_erase _ _
      rw [hnone] at hst'
      cases hst'
    · obtain ⟨st'', hst'', htouches⟩ := step_record h hst hreq
      cases some.inj (hst''.symm.trans hst')
      have hP := hs key st hst
      clear hst hst' hst''
      induction htouches with
      | refl => exact hP
      | tail _ hlast ih => exact htouch key _ _ ih hlast

end Device

end SeqLN.Signer
