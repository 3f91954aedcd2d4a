import SeqLN.Channeld.Conservation

/-!
# The cap on dust

`add_htlc` totals the HTLCs that would be trimmed at a feerate above the current one, so that a rise of
the fees does not turn more into dust than we accept. Trimming grows with the feerate
(`htlcIsTrimmed_mono`), so one feerate stands for all below it; but it is computed in 32 bits.
`dust_capped_iff`: the exposure is capped up to the ceiling exactly if that fits in 32 bits, or the
exposure at the largest feerate is within the cap.
-/

namespace SeqLN.Channeld

open HtlcState

variable {f : ℕ} {side : Side}

section dust

variable (cp : ChainParams) (su : ChannelSetup)

/-! ### Trimming and the feerate -/

/-- The total of the HTLCs of a list that a side trims at a feerate. -/
def trimmedMsat (side : Side) (feerate : ℕ) (htlcs : List Htlc) : ℕ :=
  ((htlcs.filter fun h =>
    htlcIsTrimmed cp su h.owner h.amount feerate (su.config side).dustLimit side).map (·.amount)).sum

/-- The least HTLC a side has an output for fits in an amount at every feerate. -/
def DustFits (side : Side) : Prop :=
  ((su.config side).dustLimit + htlcTimeoutFee cp su (2 ^ 32 - 1)) * 1000 < 2 ^ 64 ∧
    ((su.config side).dustLimit + htlcSuccessFee cp su (2 ^ 32 - 1)) * 1000 < 2 ^ 64

instance (side : Side) : Decidable (DustFits cp su side) := inferInstanceAs (Decidable (_ ∧ _))

variable {cp su}

lemma htlcTxFee_mono {anchorBase base g : ℕ} (h : f ≤ g) :
    htlcTxFee cp su anchorBase base f ≤ htlcTxFee cp su anchorBase base g := by
  unfold htlcTxFee
  split
  · exact le_rfl
  · exact amountTxFee_mono cp le_rfl h

/-- The fee of the transaction that takes an HTLC from a side's commitment. -/
def secondStageFee (cp : ChainParams) (su : ChannelSetup) (owner side : Side) (feerate : ℕ) : ℕ :=
  if owner = side then htlcTimeoutFee cp su feerate else htlcSuccessFee cp su feerate

lemma secondStageFee_mono (owner side : Side) {g : ℕ} (h : f ≤ g) :
    secondStageFee cp su owner side f ≤ secondStageFee cp su owner side g := by
  unfold secondStageFee
  split
  · exact htlcTxFee_mono h
  · exact htlcTxFee_mono h

/-- Where the least output fits in an amount, an HTLC is trimmed if it is below it. -/
theorem htlcIsTrimmed_iff {owner : Side} {amount : ℕ} (hfit : DustFits cp su side)
    (hf : f < 2 ^ 32) :
    htlcIsTrimmed cp su owner amount f (su.config side).dustLimit side = true ↔
      amount < ((su.config side).dustLimit + secondStageFee cp su owner side f) * 1000 := by
  have hle : secondStageFee cp su owner side f ≤ secondStageFee cp su owner side (2 ^ 32 - 1) :=
    secondStageFee_mono owner side (by omega)
  have hmax : ((su.config side).dustLimit + secondStageFee cp su owner side (2 ^ 32 - 1)) * 1000 <
      2 ^ 64 := by
    unfold secondStageFee
    split
    · exact hfit.1
    · exact hfit.2
  have hsum : ((su.config side).dustLimit + secondStageFee cp su owner side f) * 1000 < 2 ^ 64 :=
    lt_of_le_of_lt (Nat.mul_le_mul_right _ (Nat.add_le_add_left hle _)) hmax
  have hadd : amountAdd (su.config side).dustLimit
      (if owner = side then htlcTimeoutFee cp su f else htlcSuccessFee cp su f) =
        some ((su.config side).dustLimit + secondStageFee cp su owner side f) :=
    amountAdd_of_lt (lt_of_le_of_lt (Nat.le_mul_of_pos_right _ (by decide)) hsum)
  unfold htlcIsTrimmed
  rw [hadd]
  simp only [amountMsatLessSat, hsum, decide_true, Bool.true_and, decide_eq_true_eq]

/-- What is trimmed at a feerate is trimmed at every larger one. -/
theorem htlcIsTrimmed_mono {owner : Side} {amount g : ℕ} (hfit : DustFits cp su side) (hfg : f ≤ g)
    (hg : g < 2 ^ 32)
    (h : htlcIsTrimmed cp su owner amount f (su.config side).dustLimit side = true) :
    htlcIsTrimmed cp su owner amount g (su.config side).dustLimit side = true := by
  rw [htlcIsTrimmed_iff hfit (by omega)] at h
  rw [htlcIsTrimmed_iff hfit hg]
  refine lt_of_lt_of_le h (Nat.mul_le_mul_right _ (Nat.add_le_add_left ?_ _))
  exact secondStageFee_mono owner side hfg

lemma trimmedMsat_mono {g : ℕ} (hfit : DustFits cp su side) (hfg : f ≤ g) (hg : g < 2 ^ 32)
    (htlcs : List Htlc) : trimmedMsat cp su side f htlcs ≤ trimmedMsat cp su side g htlcs := by
  have hsub : (htlcs.filter fun h =>
        htlcIsTrimmed cp su h.owner h.amount f (su.config side).dustLimit side).Sublist
      (htlcs.filter fun h =>
        htlcIsTrimmed cp su h.owner h.amount g (su.config side).dustLimit side) :=
    List.monotone_filter_right htlcs fun h => htlcIsTrimmed_mono hfit hfg hg
  exact (hsub.map _).sum_le_sum fun _ _ => Nat.zero_le _

/-! ### The total that is checked -/

lemma trimmedMsat_cons (side : Side) (f : ℕ) (h : Htlc) (htlcs : List Htlc) :
    trimmedMsat cp su side f (h :: htlcs) =
      (if htlcIsTrimmed cp su h.owner h.amount f (su.config side).dustLimit side then h.amount else 0) +
        trimmedMsat cp su side f htlcs := by
  unfold trimmedMsat
  rw [List.filter_cons]
  split <;> simp

lemma trimmedMsat_append (side : Side) (f : ℕ) (l l' : List Htlc) :
    trimmedMsat cp su side f (l ++ l') = trimmedMsat cp su side f l + trimmedMsat cp su side f l' := by
  simp [trimmedMsat]

/-- The sum is what is trimmed. -/
lemma total_of_commitTxAmountTrimmed {amt total : ℕ} {htlcs : List Htlc}
    (h : commitTxAmountTrimmed cp su f (su.config side).dustLimit side htlcs amt = (total, true)) :
    total = amt + trimmedMsat cp su side f htlcs := by
  induction htlcs generalizing amt with
  | nil => exact (congrArg Prod.fst h).symm
  | cons x htlcs ih =>
    rw [trimmedMsat_cons]
    unfold commitTxAmountTrimmed at h
    split at h
    · next htrim =>
      rw [if_pos htrim]
      cases hadd : amountAdd amt x.amount with
      | none =>
        rw [hadd] at h
        cases congrArg Prod.snd h
      | some amt' =>
        rw [hadd] at h
        rw [ih h, (amountAdd_eq_some.1 hadd).2]
        omega
    · next htrim =>
      rw [if_neg htrim, ih h]
      omega

/-- Where it could be computed, the total is that of the trimmed HTLCs, less those being removed. -/
theorem htlcDust_eq {p : Pending} {dust : ℕ} (h : htlcDust cp su p side f = (dust, true)) :
    dust + trimmedMsat cp su side f p.removing =
      trimmedMsat cp su side f p.committed + trimmedMsat cp su side f p.adding := by
  unfold htlcDust at h
  obtain ⟨committed, ok₁, hcom⟩ : ∃ n b, commitTxAmountTrimmed cp su f (su.config side).dustLimit side
    p.committed 0 = (n, b) := ⟨_, _, rfl⟩
  obtain ⟨total, ok₂, hadd⟩ : ∃ n b, commitTxAmountTrimmed cp su f (su.config side).dustLimit side
    p.adding committed = (n, b) := ⟨_, _, rfl⟩
  obtain ⟨rmvd, ok₃, hrem⟩ : ∃ n b, commitTxAmountTrimmed cp su f (su.config side).dustLimit side
    p.removing 0 = (n, b) := ⟨_, _, rfl⟩
  simp only [hcom, hadd, hrem] at h
  cases ok₁ with
  | false => cases congrArg Prod.snd h
  | true =>
    cases ok₂ with
    | false => cases congrArg Prod.snd h
    | true =>
      cases ok₃ with
      | false => cases congrArg Prod.snd h
      | true =>
        simp only [Bool.not_true, Bool.false_eq_true, if_false] at h
        cases hsub : amountSub total rmvd with
        | none =>
          rw [hsub] at h
          cases congrArg Prod.snd h
        | some d =>
          rw [hsub] at h
          obtain rfl : d = dust := congrArg Prod.fst h
          obtain ⟨hle, rfl⟩ := amountSub_eq_some.1 hsub
          have h1 := total_of_commitTxAmountTrimmed hcom
          have h2 := total_of_commitTxAmountTrimmed hadd
          have h3 := total_of_commitTxAmountTrimmed hrem
          omega

end dust

/-! ### What remains on the recipient's commitment -/

/-- An HTLC that a view holds once what is pending there is committed. -/
def staysIn (view : Side) (h : Htlc) : Bool := isCommitted view h != isPending view h

/-- The HTLCs of the channel's own lane that remain on the recipient's commitment, with a new one. -/
def remaining (c : Channel) (h : Htlc) : List Htlc :=
  (c.htlcs.filter (·.lane == 0)).filter (staysIn h.owner.other) ++ [h]

/-- How much of what remains a side trims at a feerate. -/
def exposure (cp : ChainParams) (c : Channel) (h : Htlc) (side : Side) (feerate : ℕ) : ℕ :=
  trimmedMsat cp c.setup side feerate (remaining c h)

/-- The larger of 125 percent of a feerate and the feerate plus 2530, in exact numbers. -/
def exactCeiling (feerate : ℕ) : ℕ := max (feerate + feerate / 4) (feerate + 2530)

section cap

variable {cp : ChainParams} {c : Channel} {h : Htlc}

/-- What is held and not lost, and what is got, is what remains. -/
theorem trimmedMsat_stays (cp : ChainParams) (su : ChannelSetup) (side view : Side) (f : ℕ)
    (htlcs : List Htlc) :
    trimmedMsat cp su side f (htlcs.filter (staysIn view)) +
        trimmedMsat cp su side f (gather htlcs view).pendingRemoval =
      trimmedMsat cp su side f (gather htlcs view).committed +
        trimmedMsat cp su side f (gather htlcs view).pendingAddition := by
  unfold gather
  simp only
  induction htlcs with
  | nil => rfl
  | cons x htlcs ih =>
    simp only [List.filter_cons, staysIn] at ih ⊢
    by_cases hc : isCommitted view x = true <;> by_cases hp : isPending view x = true <;>
      simp [hc, hp, trimmedMsat_cons] <;> omega

/-- The total that `add_htlc` checks is the exposure. -/
theorem htlcDust_addPending {dust : ℕ} (hlane : h.lane = 0)
    (hd : htlcDust cp c.setup (addPending c h) side f = (dust, true)) :
    dust = exposure cp c h side f := by
  have heq := htlcDust_eq hd
  have hown : c.htlcs.filter (fun x => (some h.lane).all (· == x.lane)) =
      c.htlcs.filter (·.lane == 0) := by
    apply List.filter_congr
    intro x _
    rw [hlane, Option.all_some]
    exact Bool.beq_comm
  have hstays := trimmedMsat_stays cp c.setup side h.owner.other f (c.htlcs.filter (·.lane == 0))
  simp only [addPending, gatherLaneHtlcs, hown, trimmedMsat_append] at heq
  rw [exposure, remaining, trimmedMsat_append]
  omega

/-- The exposure does not depend on the mark of an HTLC that is to be failed. -/
theorem exposure_failImmediate (side : Side) (f : ℕ) (fi : Bool) :
    exposure cp c { h with failImmediate := fi } side f = exposure cp c h side f := by
  simp only [exposure, remaining, trimmedMsat_append, trimmedMsat_cons]
  rfl

variable {rate : ℕ}

lemma dustExposed_ok_false (hlane : h.lane = 0) (hd : dustExposed cp c h side = .ok false)
    (hrate : channelFeerate c side = some rate) :
    exposure cp c h side (htlcTrimFeerateCeiling rate) ≤
      (c.setup.config .LOCAL).maxDustHtlcExposureMsat := by
  unfold dustExposed at hd
  simp only [hrate] at hd
  obtain ⟨dust, ok, hdust⟩ : ∃ n b, htlcDust cp c.setup (addPending c h) side
    (htlcTrimFeerateCeiling rate) = (n, b) := ⟨_, _, rfl⟩
  rw [hdust] at hd
  cases ok with
  | false => cases hd
  | true =>
    rw [← htlcDust_addPending hlane hdust]
    exact not_lt.1 (of_decide_eq_false (Except.ok.inj hd))

/-- What an HTLC of the channel's own lane that is not to be failed at once has passed. -/
theorem addHtlc_exposure {c' : Channel} {st : HtlcState} {a : AddArgs} {imm : Bool}
    (hok : addHtlc cp c st a true imm = .ok (c', h)) (hlane : a.lane = 0)
    (hfi : h.failImmediate = false) (side : Side) (hrate : channelFeerate c side = some rate) :
    exposure cp c h side (htlcTrimFeerateCeiling rate) ≤
      (c.setup.config .LOCAL).maxDustHtlcExposureMsat := by
  unfold addHtlc at hok
  obtain ⟨u, -, hok⟩ := bind_ok.1 hok
  obtain ⟨fi, hchecks, hok⟩ := bind_ok.1 hok
  obtain ⟨-, rfl⟩ := Prod.mk.inj (Except.ok.inj hok)
  obtain rfl : fi = false := hfi
  have hown : ¬ (newHtlc st a).lane ≠ 0 := not_not.2 hlane
  unfold addLaneChecks at hchecks
  rw [if_neg hown] at hchecks
  obtain ⟨_, -, hchecks⟩ := bind_ok.1 hchecks
  obtain ⟨_, -, hdust⟩ := bind_ok.1 hchecks
  unfold addDustChecks at hdust
  obtain ⟨recipientDust, hrec, hdust⟩ := bind_ok.1 hdust
  obtain ⟨_, -, hdust⟩ := bind_ok.1 hdust
  obtain ⟨senderDust, hsend, hdust⟩ := bind_ok.1 hdust
  obtain ⟨_, -, hdust⟩ := bind_ok.1 hdust
  obtain ⟨rfl, rfl⟩ : recipientDust = false ∧ senderDust = false :=
    Bool.or_eq_false_iff.1 (Except.ok.inj hdust)
  rw [exposure_failImmediate]
  rcases side.eq_or_eq_other (newHtlc st a).owner with rfl | rfl
  · exact dustExposed_ok_false hlane hsend hrate
  · exact dustExposed_ok_false hlane hrec hrate

/-- At every feerate up to the ceiling, both sides trim no more of what remains than we accept. -/
def DustCapped (cp : ChainParams) (c : Channel) (h : Htlc) : Prop :=
  ∀ (side : Side) (rate : ℕ), channelFeerate c side = some rate →
    ∀ f ≤ exactCeiling rate, f < 2 ^ 32 →
      exposure cp c h side f ≤ (c.setup.config .LOCAL).maxDustHtlcExposureMsat

lemma htlcTrimFeerateCeiling_eq (h : exactCeiling rate < 2 ^ 32) :
    htlcTrimFeerateCeiling rate = exactCeiling rate := by
  unfold exactCeiling at h ⊢
  unfold htlcTrimFeerateCeiling
  rw [Nat.mod_eq_of_lt (lt_of_le_of_lt (le_max_left _ _) h),
    Nat.mod_eq_of_lt (lt_of_le_of_lt (le_max_right _ _) h)]

/-- Of an HTLC that is accepted and not to be failed at once, on a channel without lanes: the cap
holds up to either side's ceiling exactly if the ceiling is below `2 ^ 32` or it holds at the
largest feerate. -/
theorem dust_capped_iff {c' : Channel} {sender : Side} {a : AddArgs} {imm : Bool}
    (hok : channelAddHtlc cp c sender a imm = .ok (c', h)) (hfi : h.failImmediate = false)
    (hlanes : c.setup.symLanes = []) (hfit : ∀ side, DustFits cp c.setup side) :
    DustCapped cp c h ↔ ∀ (side : Side) (rate : ℕ), channelFeerate c side = some rate →
      exactCeiling rate < 2 ^ 32 ∨
        exposure cp c h side (2 ^ 32 - 1) ≤ (c.setup.config .LOCAL).maxDustHtlcExposureMsat := by
  have hlane : a.lane = 0 := by
    have hlt := (addHtlc_ok hok).1.lane_lt
    rw [symNumLanes, hlanes] at hlt
    exact Nat.lt_one_iff.1 hlt
  constructor
  · intro hcap side rate hrate
    by_cases hsmall : exactCeiling rate < 2 ^ 32
    · exact .inl hsmall
    · exact .inr (hcap side rate hrate (2 ^ 32 - 1) (by omega) (by decide))
  · intro hcond side rate hrate f hf hlt
    rcases hcond side rate hrate with hsmall | hmax
    · have hchecked := addHtlc_exposure hok hlane hfi side hrate
      rw [htlcTrimFeerateCeiling_eq hsmall] at hchecked
      exact (trimmedMsat_mono (hfit side) hf hsmall _).trans hchecked
    · exact (trimmedMsat_mono (hfit side) (by omega) (by decide) _).trans hmax

end cap

namespace Example

/-- A channel of one asset without anchors, half of it ours, at a feerate. -/
def feeChannel (feerate : ℕ) : Option Channel :=
  let su : ChannelSetup := { setup 0 with fundingSats := 10 ^ 12, symLanes := [] }
  newFullChannel su (newFeeStates .LOCAL feerate) (newFeeStates .LOCAL 0) fun _ => 5 * 10 ^ 14

def quietChannel : Channel := (feeChannel 1000).get (by decide +kernel)

/-- The peer's HTLC of 2000 satoshi, at a feerate of 1000. -/
def smallHtlc : AddArgs := ⟨0, 2000000, 500000, locks.sha256 preimage, none, 0⟩

/-- It is within the cap up to a feerate of 3530, where it is dust. -/
theorem dust_capped_small : ∃ (c' : Channel) (h : Htlc),
    channelAddHtlc params quietChannel .REMOTE smallHtlc true = .ok (c', h) ∧
      DustCapped params quietChannel h ∧ exposure params quietChannel h .LOCAL 3530 = 2000000 := by
  have hok : ((channelAddHtlc params quietChannel .REMOTE smallHtlc true).toOption.any fun r =>
      !r.2.failImmediate && exposure params quietChannel r.2 .LOCAL 3530 == 2000000) = true := by
    decide +kernel
  obtain ⟨⟨c', h⟩, hr, hh⟩ := (Option.any_eq_true _ _).1 hok
  simp only [Bool.and_eq_true, Bool.not_eq_true', beq_iff_eq] at hh
  refine ⟨c', h, toOption_eq_some hr, ?_, hh.2⟩
  refine (dust_capped_iff (toOption_eq_some hr) hh.1 (by decide +kernel) (by decide +kernel)).2 ?_
  intro side rate hrate
  have hthousand : channelFeerate quietChannel side = some 1000 := by cases side <;> decide +kernel
  obtain rfl : rate = 1000 := Option.some.inj (hrate.symm.trans hthousand)
  exact .inl (by decide)

def busyChannel : Channel := (feeChannel 4000000000).get (by decide +kernel)

/-- The peer's HTLC of 42 coins, at a feerate of 4000000000. -/
def largeHtlc : AddArgs := ⟨0, 4200000000000, 500000, locks.sha256 preimage, none, 0⟩

/-- It is accepted, and dust at the largest feerate, below 125 percent of the current one: 42 coins
above a cap of 50000 satoshi. -/
theorem dust_uncapped_large : ∃ (c' : Channel) (h : Htlc),
    channelAddHtlc params busyChannel .REMOTE largeHtlc true = .ok (c', h) ∧
      h.failImmediate = false ∧ busyChannel.setup.symLanes = [] ∧
      (∀ side, DustFits params busyChannel.setup side) ∧
      channelFeerate busyChannel .LOCAL = some 4000000000 ∧ 2 ^ 32 - 1 ≤ exactCeiling 4000000000 ∧
      (busyChannel.setup.config .LOCAL).maxDustHtlcExposureMsat = 50000000 ∧
      exposure params busyChannel h .LOCAL (2 ^ 32 - 1) = 4200000000000 := by
  have hok : ((channelAddHtlc params busyChannel .REMOTE largeHtlc true).toOption.any fun r =>
      !r.2.failImmediate && exposure params busyChannel r.2 .LOCAL (2 ^ 32 - 1) == 4200000000000) =
        true := by
    decide +kernel
  obtain ⟨⟨c', h⟩, hr, hh⟩ := (Option.any_eq_true _ _).1 hok
  simp only [Bool.and_eq_true, Bool.not_eq_true', beq_iff_eq] at hh
  exact ⟨c', h, toOption_eq_some hr, hh.1, by decide +kernel, by decide +kernel, by decide +kernel,
    by decide, by decide +kernel, hh.2⟩

end Example

end SeqLN.Channeld
