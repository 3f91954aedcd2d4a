import SeqLN.Signer.Accepted

/-!
# Charges stay within the limits

What accepted requests charged to an asset with a limit within any window of one period is at most the
limit. The ledger forgets what has left the window and folds the oldest charges together; neither makes
a later window count less (`charge_enforced`), and every charge was checked (`step_enforced`). A limit
saturates at the largest word, and is none then, since the sum compared with it saturates as well.
-/

namespace SeqLN.Signer

open Lib Window List ChannelStore

/-! ### Charges of one asset -/

/-- The charges of an asset. -/
def chargesOf (a : AssetKey) (spends : List Spend) : List Charge :=
  (spends.filter (·.asset = a)).map fun s => ⟨s.time, s.msat⟩

variable {a a' : AssetKey} {period now limit msat : ℕ}

@[simp] lemma chargesOf_nil : chargesOf a [] = [] := rfl

lemma chargesOf_cons_self (s : Spend) (spends : List Spend) :
    chargesOf s.asset (s :: spends) = ⟨s.time, s.msat⟩ :: chargesOf s.asset spends := by
  simp [chargesOf]

lemma chargesOf_cons_of_ne {s : Spend} (h : s.asset ≠ a) (spends : List Spend) :
    chargesOf a (s :: spends) = chargesOf a spends := by
  simp [chargesOf, h]

lemma chargesOf_append (xs ys : List Spend) :
    chargesOf a (xs ++ ys) = chargesOf a xs ++ chargesOf a ys := by
  simp [chargesOf, filter_append]

lemma perm_chargesOf {xs ys : List Spend} (h : xs.Perm ys) :
    (chargesOf a xs).Perm (chargesOf a ys) := (h.filter _).map _

lemma chargesOf_prune (l : Ledger) :
    chargesOf a (l.prune now period).spends =
      (chargesOf a l.spends).filter fun c => Window.within c.time now period := by
  unfold chargesOf Ledger.prune
  rw [List.filter_map, List.filter_filter, List.filter_filter]
  congr 1
  apply filter_congr
  intro s _
  exact Bool.and_comm _ _

lemma spentMsat_eq (l : Ledger) :
    l.spentMsat a now period = min (sum period now (chargesOf a l.spends)) u64Max := by
  unfold Ledger.spentMsat chargesOf Window.sum
  rw [satSum_eq, List.filter_map, List.map_map, List.filter_filter]
  congr 3
  apply filter_congr
  intro s _
  exact Bool.and_comm _ _

/-! ### Folding -/

variable {first : Spend} {rest spends : List Spend}

/-- All of the charges are in the window that ends now. -/
def AllWithin (period now : ℕ) (spends : List Spend) : Prop :=
  ∀ s ∈ spends, Window.within s.time now period = true

/-- Folding keeps the times of the charges it folds into. -/
theorem foldInto_times (h : foldInto first rest = some spends) :
    spends.map Spend.time = rest.map Spend.time := by
  induction rest generalizing spends with
  | nil => cases h
  | cons s rest ih =>
    unfold foldInto at h
    split at h
    · cases h
      rfl
    · obtain ⟨tail, htail, rfl⟩ := Option.map_eq_some_iff.1 h
      rw [map_cons, map_cons, ih htail]

lemma foldInto_other (hne : first.asset ≠ a) (h : foldInto first rest = some spends) :
    chargesOf a spends = chargesOf a rest := by
  induction rest generalizing spends with
  | nil => cases h
  | cons s rest ih =>
    unfold foldInto at h
    split at h
    · next heq =>
      cases h
      have hs : s.asset ≠ a := heq.trans_ne hne
      rw [chargesOf_cons_of_ne hs]
      exact chargesOf_cons_of_ne (s := ⟨s.asset, s.time, satAdd s.msat first.msat⟩) hs rest
    · obtain ⟨tail, htail, rfl⟩ := Option.map_eq_some_iff.1 h
      unfold chargesOf at ih ⊢
      simp only [filter_cons]
      split <;> simp [ih htail]

/-- The first charge goes into the next one of its asset. -/
theorem foldInto_self (h : foldInto first rest = some spends) :
    ∃ d more, chargesOf first.asset rest = d :: more ∧
      chargesOf first.asset spends = ⟨d.time, satAdd d.amount first.msat⟩ :: more := by
  induction rest generalizing spends with
  | nil => cases h
  | cons s rest ih =>
    unfold foldInto at h
    split at h
    · next heq =>
      cases h
      refine ⟨⟨s.time, s.msat⟩, chargesOf first.asset rest, ?_, ?_⟩
      · rw [← heq, chargesOf_cons_self]
      · rw [← heq]
        exact chargesOf_cons_self ⟨s.asset, s.time, satAdd s.msat first.msat⟩ rest
    · next hne =>
      obtain ⟨tail, htail, rfl⟩ := Option.map_eq_some_iff.1 h
      rw [chargesOf_cons_of_ne hne, chargesOf_cons_of_ne hne]
      exact ih htail

/-- One charge folded into the next counts the same now and no less later. -/
theorem foldInto_sum (h : foldInto first rest = some spends)
    (hold : ∀ s ∈ rest, first.time ≤ s.time) (hin : AllWithin period now (first :: rest))
    (hfits : sum period now (chargesOf a (first :: rest)) < u64Max) :
    (∀ t, now ≤ t → sum period t (chargesOf a (first :: rest)) ≤ sum period t (chargesOf a spends)) ∧
      sum period now (chargesOf a spends) = sum period now (chargesOf a (first :: rest)) := by
  by_cases hne : first.asset = a
  · subst hne
    obtain ⟨d, more, hd, hspends⟩ := foldInto_self h
    have hmem : d ∈ chargesOf first.asset rest := by
      rw [hd]
      exact mem_cons_self
    obtain ⟨s, hs, rfl⟩ := List.mem_map.1 hmem
    have hs' : s ∈ rest := mem_of_mem_filter hs
    have hfirst : Window.within first.time now period = true := hin first mem_cons_self
    have hnext : Window.within s.time now period = true := hin s (mem_cons_of_mem _ hs')
    rw [chargesOf_cons_self, hd] at hfits ⊢
    rw [hspends]
    -- both are in the window, so the sum of the two is a word
    have hadd : satAdd s.msat first.msat = s.msat + first.msat := by
      apply satAdd_of_lt
      simp only [sum_cons, hfirst, hnext, if_true] at hfits
      omega
    rw [hadd]
    constructor
    · intro t _
      exact sum_join ⟨first.time, first.msat⟩ ⟨s.time, s.msat⟩ (hold s hs') more
    · simp only [sum_cons, hfirst, hnext, if_true]
      omega
  · rw [foldInto_other hne h, chargesOf_cons_of_ne hne]
    exact ⟨fun _ _ => le_rfl, rfl⟩

/-- Charges in the order of their times. -/
abbrev Ordered (spends : List Spend) : Prop := spends.Pairwise fun x y => x.time ≤ y.time

lemma ordered_iff :
    Ordered spends ↔ (spends.map Spend.time).Pairwise (· ≤ ·) := pairwise_map.symm

lemma allWithin_iff :
    AllWithin period now spends ↔
      ∀ t ∈ spends.map Spend.time, Window.within t now period = true := by
  simp [AllWithin]

/-- Folding the oldest charges together never lowers a later sum. -/
lemma foldOldest_sum (n : ℕ) (hord : Ordered spends) (hin : AllWithin period now spends)
    (hfits : sum period now (chargesOf a spends) < u64Max) :
    (∀ t, now ≤ t →
      sum period t (chargesOf a spends) ≤ sum period t (chargesOf a (foldOldest n spends))) ∧
      sum period now (chargesOf a (foldOldest n spends)) = sum period now (chargesOf a spends) ∧
      AllWithin period now (foldOldest n spends) := by
  induction n generalizing spends with
  | zero => exact ⟨fun _ _ => le_rfl, rfl, hin⟩
  | succ n ih =>
    cases spends with
    | nil => exact ⟨fun _ _ => le_rfl, rfl, hin⟩
    | cons first rest =>
      unfold foldOldest
      split
      · next spends h =>
        have hrest : ∀ s ∈ rest, first.time ≤ s.time := (pairwise_cons.1 hord).1
        obtain ⟨hle, hnow⟩ := foldInto_sum (a := a) h hrest hin hfits
        have htimes := foldInto_times h
        have hord' : Ordered spends := by
          rw [ordered_iff, htimes, ← ordered_iff]
          exact (pairwise_cons.1 hord).2
        have hin' : AllWithin period now spends := by
          rw [allWithin_iff, htimes, ← allWithin_iff]
          exact fun s hs => hin s (mem_cons_of_mem _ hs)
        obtain ⟨hle', hnow', hall⟩ := ih hord' hin' (by rw [hnow]; exact hfits)
        exact ⟨fun t ht => (hle t ht).trans (hle' t ht), hnow'.trans hnow, hall⟩
      · exact ⟨fun _ _ => le_rfl, rfl, hin⟩

/-! ### The ledger -/

variable {spent : List Charge} {l : Ledger}

lemma perm_byTime (spends : List Spend) : (byTime spends).Perm spends :=
  perm_insertionSort _ _

lemma ordered_byTime (spends : List Spend) : Ordered (byTime spends) := by
  have : Std.Total (fun x y : Spend => x.time ≤ y.time) := ⟨fun x y => Nat.le_total _ _⟩
  have : IsTrans Spend (fun x y : Spend => x.time ≤ y.time) := ⟨fun _ _ _ => Nat.le_trans⟩
  exact pairwise_insertionSort _ _

lemma sum_byTime (spends : List Spend) (t : ℕ) :
    sum period t (chargesOf a (byTime spends)) = sum period t (chargesOf a spends) :=
  sum_perm (perm_chargesOf (perm_byTime spends))

lemma charge_zero (l : Ledger) : l.charge a' 0 now = l := if_pos rfl

lemma spends_charge (l : Ledger) (a : AssetKey) (now : ℕ) (hmsat : msat ≠ 0) :
    ∃ n, (l.charge a msat now).spends = foldOldest n (byTime (l.spends ++ [⟨a, now, msat⟩])) := by
  refine ⟨(byTime (l.spends ++ [⟨a, now, msat⟩])).length - maxSpends, ?_⟩
  rw [Ledger.charge, if_neg hmsat]

/-- What is kept covers a charge at the end of the list, before the list is sorted and folded. -/
theorem append_enforced (h : Enforced period limit now (chargesOf a spends) spent)
    (hfit : a' = a → sum period now (chargesOf a spends) + msat ≤ limit) :
    Enforced period limit now (chargesOf a (spends ++ [⟨a', now, msat⟩]))
      (spent ++ chargesOf a [⟨a', now, msat⟩]) := by
  rw [chargesOf_append]
  by_cases heq : a' = a
  · subst heq
    rw [chargesOf_cons_self ⟨a', now, msat⟩]
    exact h.charge (hfit rfl)
  · rw [chargesOf_cons_of_ne heq, chargesOf_nil, append_nil, append_nil]
    exact h

/-- A charge keeps the limit of an asset that is enforced, where it fits if it is in that asset;
another's leaves what counts now as it is. -/
theorem charge_enforced (hperiod : 0 < period) (hlimit : limit < u64Max)
    (hin : AllWithin period now l.spends)
    (h : Enforced period limit now (chargesOf a l.spends) spent) (hmsat : msat ≠ 0)
    (hfit : a' = a → sum period now (chargesOf a l.spends) + msat ≤ limit) :
    AllWithin period now (l.charge a' msat now).spends ∧
      Enforced period limit now (chargesOf a (l.charge a' msat now).spends)
        (spent ++ chargesOf a [⟨a', now, msat⟩]) ∧
      (a' ≠ a → sum period now (chargesOf a (l.charge a' msat now).spends) =
        sum period now (chargesOf a l.spends)) := by
  have hlast := append_enforced h hfit
  have hall : AllWithin period now (byTime (l.spends ++ [⟨a', now, msat⟩])) := by
    intro s hs
    rcases mem_append.1 ((perm_byTime _).subset hs) with hs | hs
    · exact hin s hs
    · rw [mem_singleton.1 hs]
      simp [Window.within, hperiod]
  have hfits : sum period now (chargesOf a (byTime (l.spends ++ [⟨a', now, msat⟩]))) < u64Max := by
    rw [sum_byTime]
    exact hlast.fits.trans_lt hlimit
  obtain ⟨n, hn⟩ := spends_charge l a' now hmsat
  obtain ⟨hle, heq, hall'⟩ := foldOldest_sum n (ordered_byTime _) hall hfits
  rw [← hn] at hle heq hall'
  rw [sum_byTime] at heq
  refine ⟨hall', hlast.replace (fun t ht => ?_) heq, fun hne => ?_⟩
  · rw [← sum_byTime]
    exact hle t ht
  · rw [heq, chargesOf_append, chargesOf_cons_of_ne hne, chargesOf_nil, append_nil]

lemma allWithin_prune (l : Ledger) : AllWithin period now (l.prune now period).spends :=
  fun _ hs => (mem_filter.1 hs).2

lemma prune_enforced (h : Enforced period limit now (chargesOf a l.spends) spent) :
    Enforced period limit now (chargesOf a (l.prune now period).spends) spent := by
  rw [chargesOf_prune]
  exact h.prune

lemma sum_prune (l : Ledger) : sum period now (chargesOf a (l.prune now period).spends) =
    sum period now (chargesOf a l.spends) := by
  rw [chargesOf_prune]
  exact sum_filter_within le_rfl _

/-- A charge after the ledger is pruned keeps the limit; of another asset it leaves what counts now
as it is. -/
theorem pruneAndCharge_enforced (hperiod : 0 < period) (hlimit : limit < u64Max)
    (h : Enforced period limit now (chargesOf a l.spends) spent)
    (hfit : a' = a → sum period now (chargesOf a l.spends) + msat ≤ limit) :
    Enforced period limit now (chargesOf a (l.pruneAndCharge a' msat now period).spends)
        (spent ++ chargesOf a [⟨a', now, msat⟩]) ∧
      (a' ≠ a → sum period now (chargesOf a (l.pruneAndCharge a' msat now period).spends) =
        sum period now (chargesOf a l.spends)) := by
  unfold Ledger.pruneAndCharge
  split
  · next hpos =>
    rw [← sum_prune l] at hfit ⊢
    exact (charge_enforced hperiod hlimit (allWithin_prune l) (prune_enforced h) hpos.ne' hfit).2
  · next hpos =>
    obtain rfl : msat = 0 := Nat.eq_zero_of_not_pos hpos
    refine ⟨?_, fun _ => rfl⟩
    by_cases heq : a' = a
    · subst heq
      rw [chargesOf_cons_self ⟨a', now, 0⟩]
      exact h.charge_zero
    · rw [chargesOf_cons_of_ne heq, chargesOf_nil, append_nil]
      exact h

/-- An amount that was checked fits in what the asset's charges leave. -/
theorem fits_of_checkSpend {limits : Limits} (hlim : limits.limitMsat a = some limit)
    (hlimit : limit < u64Max)
    (h : Enforced limits.periodSecs limit now (chargesOf a l.spends) spent)
    (hcheck : l.checkSpend limits a msat now = true) :
    sum limits.periodSecs now (chargesOf a l.spends) + msat ≤ limit := by
  unfold Ledger.checkSpend at hcheck
  rw [hlim, spentMsat_eq] at hcheck
  have hfits := h.fits
  rcases Bool.or_eq_true_iff.1 hcheck with hzero | hle
  · have := of_decide_eq_true hzero
    omega
  · have := of_decide_eq_true hle
    unfold satAdd at this
    omega

/-! ### Several charges -/

/-- Charges of distinct assets that each fit before any of them is made keep the limit. -/
theorem pruneAndCharges_enforced (hperiod : 0 < period) (hlimit : limit < u64Max)
    (charges : List Spend) (hnodup : (charges.map Spend.asset).Nodup)
    (hnow : ∀ c ∈ charges, c.time = now)
    (h : Enforced period limit now (chargesOf a l.spends) spent)
    (hfit : ∀ c ∈ charges, c.asset = a → sum period now (chargesOf a l.spends) + c.msat ≤ limit) :
    Enforced period limit now (chargesOf a
      (charges.foldl (fun l c => l.pruneAndCharge c.asset c.msat now period) l).spends)
      (spent ++ chargesOf a charges) := by
  induction charges generalizing l spent with
  | nil =>
    rw [chargesOf_nil, append_nil]
    exact h
  | cons c charges ih =>
    obtain ⟨hnot, hnodup⟩ := nodup_cons.1 hnodup
    obtain ⟨hstep, hsame⟩ := pruneAndCharge_enforced hperiod hlimit h (hfit c mem_cons_self)
    have htime : c = ⟨c.asset, now, c.msat⟩ := by
      rw [← hnow c mem_cons_self]
    rw [foldl_cons, ← singleton_append, chargesOf_append, ← append_assoc]
    apply ih hnodup (fun d hd => hnow d (mem_cons_of_mem _ hd))
    · rw [htime]
      exact hstep
    · intro d hd heq
      -- no other charge is in this asset
      have hne : c.asset ≠ a := fun hc =>
        hnot (hc.trans heq.symm ▸ List.mem_map_of_mem hd)
      rw [hsame hne]
      exact hfit d (mem_cons_of_mem _ hd) heq

/-- The same for charges made at once on a ledger that was pruned. -/
theorem chargeAll_enforced (hperiod : 0 < period) (hlimit : limit < u64Max)
    (charges : List (AssetKey × ℕ)) (hnodup : (charges.map Prod.fst).Nodup)
    (hin : AllWithin period now l.spends)
    (h : Enforced period limit now (chargesOf a l.spends) spent)
    (hfit : ∀ c ∈ charges, c.1 = a → sum period now (chargesOf a l.spends) + c.2 ≤ limit) :
    Enforced period limit now (chargesOf a (Device.chargeAll now charges l).spends)
      (spent ++ chargesOf a (charges.map fun c => ⟨c.1, now, c.2⟩)) := by
  induction charges generalizing l spent with
  | nil =>
    rw [map_nil, chargesOf_nil, append_nil]
    exact h
  | cons c charges ih =>
    obtain ⟨hnot, hnodup⟩ := nodup_cons.1 hnodup
    have hcharge : AllWithin period now (l.charge c.1 c.2 now).spends ∧
        Enforced period limit now (chargesOf a (l.charge c.1 c.2 now).spends)
          (spent ++ chargesOf a [⟨c.1, now, c.2⟩]) ∧
        (c.1 ≠ a → sum period now (chargesOf a (l.charge c.1 c.2 now).spends) =
          sum period now (chargesOf a l.spends)) := by
      by_cases hzero : c.2 = 0
      · have hsame := pruneAndCharge_enforced hperiod hlimit h (hfit c mem_cons_self)
        rw [hzero] at hsame ⊢
        rw [charge_zero]
        exact ⟨hin, hsame.1, fun _ => rfl⟩
      · exact charge_enforced hperiod hlimit hin h hzero (hfit c mem_cons_self)
    obtain ⟨hin', hstep, hsame⟩ := hcharge
    have hsplit : chargesOf a ((c :: charges).map fun c => ⟨c.1, now, c.2⟩) =
        chargesOf a [⟨c.1, now, c.2⟩] ++ chargesOf a (charges.map fun c => ⟨c.1, now, c.2⟩) :=
      chargesOf_append [_] _
    rw [hsplit, ← append_assoc]
    apply ih hnodup hin' hstep
    intro d hd heq
    have hne : c.1 ≠ a := fun hc => hnot (hc.trans heq.symm ▸ List.mem_map_of_mem hd)
    rw [hsame hne]
    exact hfit d (mem_cons_of_mem _ hd) heq

/-! ### Requests -/

/-- What a plan charges. -/
def Plan.charge (now : ℕ) (plan : Plan) : Spend := ⟨plan.asset, now, plan.chargeMsat⟩

namespace Device

section charges

variable (k : SymKernel) (s : Device)

/-- The plans of a request, one for each lane. -/
def plans : Request → List Plan
  | .signRemoteCommitmentTx req =>
    ((s.planRemoteCommitment k.toKernel req).toOption.map Prod.snd).toList
  | .validateCommitmentTx req =>
    ((s.planLocalCommitment k.toKernel req).toOption.map Prod.snd).toList
  | .signSymState key q ck => ((s.checkSymState k key q ck).toOption.map Prod.snd).toList
  | .signSymLanesState key q =>
    ((s.checkSymLanesState k key q).toOption.map LanesChecked.plans).getD []
  | _ => []

/-- What a request charges where it is accepted. -/
def charges (req : Request) : List Spend :=
  match req with
  | .signWithdrawal w => (s.withdrawalCharges w).map fun c => ⟨c.1, s.now, c.2⟩
  | req => (s.plans k req).map (Plan.charge s.now)

/-- What a request charges: nothing where it is refused. -/
def charged (req : Request) : List Spend :=
  match s.step k req with
  | .ok _ => s.charges k req
  | .error _ => []

/-- What a run charges. -/
def history : Device → List Request → List Spend
  | _, [] => []
  | s, req :: reqs => s.charged k req ++ history (s.after k req) reqs

/-- The clock after a request. -/
def nowAfter (now : ℕ) : Request → ℕ
  | .setNow now' => now'
  | _ => now

/-- The clock never goes back in a run. -/
def ClockForward : ℕ → List Request → Prop
  | _, [] => True
  | now, req :: reqs => now ≤ nowAfter now req ∧ ClockForward (nowAfter now req) reqs

instance decidableClockForward : ∀ now reqs, Decidable (ClockForward now reqs)
  | _, [] => inferInstanceAs (Decidable True)
  | now, req :: reqs =>
    have := decidableClockForward (nowAfter now req) reqs
    inferInstanceAs (Decidable (_ ∧ _))

end charges

variable {k : SymKernel} {s s' : Device}

/-! ### What an accepted request charges -/

/-- The ledger after a plan was applied. -/
theorem ledger_applyPlan (key : ChannelKey) (plan : Plan) :
    (s.applyPlan key plan).store.ledger = s.store.ledger.pruneAndCharge plan.asset plan.chargeMsat
      s.now s.limits.periodSecs := by
  simp only [applyPlan, chargeLedger, ledger_modify]

lemma ledger_applyLanePlan (key : ChannelKey) (l : ℕ) (plan : Plan) :
    (s.applyLanePlan key l plan).store.ledger = s.store.ledger.pruneAndCharge plan.asset
      plan.chargeMsat s.now s.limits.periodSecs := by
  simp only [applyLanePlan, chargeLedger, ledger_modify]

lemma now_applyLanePlans (key : ChannelKey) (plans : List Plan) (l : ℕ) (s : Device) :
    (applyLanePlans key l plans s).now = s.now ∧
      (applyLanePlans key l plans s).limits = s.limits := by
  induction plans generalizing l s with
  | nil => exact ⟨rfl, rfl⟩
  | cons plan plans ih =>
    exact ih (l + 1) (s.applyLanePlan key l plan)

lemma ledger_applyLanePlans (key : ChannelKey) (plans : List Plan) (l : ℕ) (s : Device) :
    (applyLanePlans key l plans s).store.ledger = (plans.map (Plan.charge s.now)).foldl
      (fun l c => l.pruneAndCharge c.asset c.msat s.now s.limits.periodSecs) s.store.ledger := by
  induction plans generalizing l s with
  | nil => rfl
  | cons plan plans ih =>
    rw [applyLanePlans, ih, ledger_applyLanePlan]
    rfl

/-- A plan that was checked fits. -/
theorem fits_of_checkPlan (plan : Plan) (hlim : s.limits.limitMsat a = some limit)
    (hlimit : limit < u64Max)
    (h : Enforced s.limits.periodSecs limit s.now (chargesOf a s.store.ledger.spends) spent)
    (hcheck : s.checkPlan plan = .ok ()) (heq : plan.asset = a) :
    sum s.limits.periodSecs s.now (chargesOf a s.store.ledger.spends) + plan.chargeMsat ≤ limit := by
  obtain ⟨_, -, hcheck⟩ := bind_eq_ok.1 hcheck
  split at hcheck
  · cases hcheck
  · subst heq
    exact fits_of_checkSpend hlim hlimit h (require_eq_ok.1 hcheck)

lemma checkPlan_of_checkLanePlans {plans : List Plan} (h : s.checkLanePlans plans = .ok ()) :
    ∀ plan ∈ plans, s.checkPlan { plan with balance := none } = .ok () := by
  induction plans with
  | nil => exact fun _ hp => absurd hp not_mem_nil
  | cons plan plans ih =>
    obtain ⟨_, hplan, h⟩ := bind_eq_ok.1 h
    intro p hp
    rcases mem_cons.1 hp with rfl | hp
    · exact hplan
    · exact ih h p hp

/-- A limit is enforced on a device that has charged `spent`. -/
def Keeps (a : AssetKey) (limit : ℕ) (s : Device) (spent : List Spend) : Prop :=
  Enforced s.limits.periodSecs limit s.now (chargesOf a s.store.ledger.spends) (chargesOf a spent)

variable {spent : List Spend}

/-- A request that leaves the charges, the limits and the clock as they are. -/
theorem Keeps.same (h : Keeps a limit s spent) (hnow : s'.now = s.now)
    (hlimits : s'.limits = s.limits) (hledger : s'.store.ledger = s.store.ledger) :
    Keeps a limit s' (spent ++ []) ∧ s'.limits = s.limits ∧ s'.now = s.now := by
  refine ⟨?_, hlimits, hnow⟩
  unfold Keeps
  rw [hnow, hlimits, hledger, append_nil]
  exact h

/-- A request that charges its plans, after each was checked. -/
theorem Keeps.plans (h : Keeps a limit s spent) (hperiod : 0 < s.limits.periodSecs)
    (hlim : s.limits.limitMsat a = some limit) (hlimit : limit < u64Max) (hnow : s'.now = s.now)
    (hlimits : s'.limits = s.limits) {plans : List Plan} (hnodup : (plans.map Plan.asset).Nodup)
    (hcheck : ∀ plan ∈ plans, ∃ balance, s.checkPlan { plan with balance } = .ok ())
    (hledger : s'.store.ledger = (plans.map (Plan.charge s.now)).foldl
      (fun l c => l.pruneAndCharge c.asset c.msat s.now s.limits.periodSecs) s.store.ledger) :
    Keeps a limit s' (spent ++ plans.map (Plan.charge s.now)) ∧ s'.limits = s.limits ∧
      s'.now = s.now := by
  refine ⟨?_, hlimits, hnow⟩
  unfold Keeps
  rw [hnow, hlimits, hledger, chargesOf_append]
  apply pruneAndCharges_enforced hperiod hlimit _ _ _ h
  · intro c hc heq
    obtain ⟨plan, hplan, rfl⟩ := List.mem_map.1 hc
    obtain ⟨balance, hplan⟩ := hcheck plan hplan
    exact fits_of_checkPlan { plan with balance } hlim hlimit h hplan heq
  · rw [List.map_map]
    exact hnodup
  · intro c hc
    obtain ⟨plan, -, rfl⟩ := List.mem_map.1 hc
    rfl

/-- The case of one plan. -/
theorem Keeps.plan (h : Keeps a limit s spent) (hperiod : 0 < s.limits.periodSecs)
    (hlim : s.limits.limitMsat a = some limit) (hlimit : limit < u64Max) {plan : Plan}
    (hcheck : s.checkPlan plan = .ok ()) {key : ChannelKey} {f : ChannelState → ChannelState} :
    Keeps a limit ({ s with store := s.store.modify key f }.applyPlan key plan)
        (spent ++ [plan.charge s.now]) ∧
      ({ s with store := s.store.modify key f }.applyPlan key plan).limits = s.limits ∧
      ({ s with store := s.store.modify key f }.applyPlan key plan).now = s.now := by
  have hnodup : ([plan].map Plan.asset).Nodup := nodup_singleton _
  refine Keeps.plans h hperiod hlim hlimit ?_ ?_ hnodup ?_ ?_
  · rfl
  · rfl
  · intro p hp
    rw [mem_singleton.1 hp]
    exact ⟨plan.balance, hcheck⟩
  · rw [ledger_applyPlan]
    simp only [ledger_modify]
    rfl

/-- What a spend is charged for is in distinct assets. -/
theorem nodup_withdrawalCharges (w : Withdrawal) :
    ((s.withdrawalCharges w).map Prod.fst).Nodup := by
  unfold withdrawalCharges
  split
  · exact nodup_nil
  · rw [List.map_map]
    exact w.losses.nodupKeys

/-- What a spend is charged for was checked against what the period has left. -/
theorem fits_of_lossesFit {w : Withdrawal} (h : Keeps a limit s spent)
    (hlim : s.limits.limitMsat a = some limit) (hlimit : limit < u64Max)
    (hfit : s.lossesFit w = true) :
    ∀ c ∈ s.withdrawalCharges w, c.1 = a →
      sum s.limits.periodSecs s.now (chargesOf a s.store.ledger.spends) + c.2 ≤ limit := by
  have hfits := h.fits
  unfold withdrawalCharges
  split
  · exact fun _ hc => absurd hc not_mem_nil
  · next hnew =>
    intro c hc heq
    obtain ⟨loss, hloss, rfl⟩ := List.mem_map.1 hc
    have hone := List.all_eq_true.1 hfit loss hloss
    have hnew' : s.store.ledger.isChargedTxid w.txid = false := by
      rw [Bool.or_eq_true, not_or] at hnew
      exact Bool.eq_false_iff.2 hnew.1
    unfold lossFits at hone
    rw [hnew', Bool.or_false] at hone
    rcases Bool.or_eq_true_iff.1 hone with hzero | hle
    · rw [of_decide_eq_true hzero]
      simpa [satMul] using hfits
    · have heq' : loss.1 = a := heq
      rw [heq', hlim, spentMsat_eq] at hle
      have := of_decide_eq_true hle
      dsimp only
      omega

/-- A request keeps the limit of an asset, and is charged for what it was checked for. -/
theorem step_enforced (hperiod : 0 < s.limits.periodSecs)
    (hlim : s.limits.limitMsat a = some limit) (hlimit : limit < u64Max)
    (h : Keeps a limit s spent) {req : Request} (hclock : s.now ≤ nowAfter s.now req)
    (hstep : s.step k req = .ok s') :
    Keeps a limit s' (spent ++ s.charges k req) ∧ s'.limits = s.limits ∧
      s'.now = nowAfter s.now req := by
  cases req with
  | setNow now =>
    cases hstep
    refine ⟨?_, rfl, rfl⟩
    have hlater : Enforced s.limits.periodSecs limit now (chargesOf a s.store.ledger.spends)
        (chargesOf a spent) := Enforced.later h hclock
    simpa [Keeps, charges, plans] using hlater
  | setupChannel key setup =>
    cases hstep
    exact h.same rfl rfl rfl
  | forgetChannel key =>
    cases hstep
    exact h.same rfl rfl rfl
  | signRemoteCommitmentTx req =>
    obtain ⟨v, plan, hplan, hcheck, rfl⟩ := signRemoteCommitmentTx_ok hstep
    have hcharges : s.charges k (.signRemoteCommitmentTx req) = [plan.charge s.now] := by
      simp [charges, plans, hplan, Except.toOption]
    rw [hcharges]
    exact h.plan hperiod hlim hlimit hcheck
  | validateCommitmentTx req =>
    obtain ⟨v, plan, hplan, hcheck, rfl⟩ := validateCommitmentTx_ok hstep
    have hcharges : s.charges k (.validateCommitmentTx req) = [plan.charge s.now] := by
      simp [charges, plans, hplan, Except.toOption]
    rw [hcharges]
    exact h.plan hperiod hlim hlimit hcheck
  | signCommitmentTx req =>
    obtain ⟨st, n, -, -, -, rfl⟩ | ⟨-, rfl⟩ := signCommitmentTx_ok hstep
    · exact h.same rfl rfl ledger_modify
    · exact h.same rfl rfl (ledger_recordClose _)
  | revokeCommitmentTx key n =>
    obtain ⟨st, -, -, rfl⟩ := revokeCommitmentTx_ok hstep
    exact h.same rfl rfl ledger_modify
  | preapprove hash amountMsat asset =>
    rw [preapprove_ok hstep]
    refine ⟨?_, rfl, rfl⟩
    have hpruned := prune_enforced h
    simpa [Keeps, charges, plans, Ledger.approve] using hpruned
  | signSymState key q ck =>
    obtain ⟨c, plan, hplan, hcheck, rfl⟩ := signSymState_ok hstep
    have hcharges : s.charges k (.signSymState key q ck) = [plan.charge s.now] := by
      simp [charges, plans, hplan, Except.toOption]
    rw [hcharges]
    exact h.plan hperiod hlim hlimit hcheck
  | signSymLanesState key q =>
    obtain ⟨c, swapUsed, hc, -, hcheck, rfl⟩ := signSymLanesState_ok hstep
    have hcharges : s.charges k (.signSymLanesState key q) = c.plans.map (Plan.charge s.now) := by
      simp [charges, plans, hc, Except.toOption]
    rw [hcharges]
    refine h.plans hperiod hlim hlimit ?_ ?_ (checkSymLanesState_nodup hc) ?_ ?_
    · cases swapUsed <;> exact (now_applyLanePlans key c.plans 0 _).1
    · cases swapUsed <;> exact (now_applyLanePlans key c.plans 0 _).2
    · exact fun plan hplan => ⟨none, checkPlan_of_checkLanePlans hcheck plan hplan⟩
    · have hledger := ledger_applyLanePlans key c.plans 0 { s with
        store := (s.store.modify key (pinLanes c.pin)).modify key (recordSymState c.base) }
      simp only [ledger_modify] at hledger
      cases swapUsed <;> exact hledger
  | approveSymSwap key give giveMsat take takeMsat =>
    obtain ⟨swaps, rfl⟩ := approveSymSwap_ok hstep
    exact h.same rfl rfl rfl
  | signSymKickoff req =>
    obtain ⟨-, rfl⟩ | ⟨outnum, asset, sats, -, rfl⟩ := signSymKickoff_ok hstep
    · exact h.same rfl rfl rfl
    · exact h.same rfl rfl ledger_modify
  | checkSymClockFunding key tx txid fundingTxid vout issuer =>
    obtain ⟨st, seed, -, -, -, -, rfl⟩ := checkSymClockFunding_ok hstep
    exact h.same rfl rfl ledger_modify
  | signMutualCloseTx key bt =>
    rw [signMutualCloseTx_ok hstep]
    exact h.same rfl rfl (ledger_recordClose _)
  | signMutualCloseLanes key bt remoteFunding =>
    rw [signMutualCloseLanes_ok hstep]
    exact h.same rfl rfl (ledger_recordClose _)
  | creditNote key cid note =>
    rw [creditNote_ok hstep]
    exact h.same rfl rfl ledger_modify
  | signWithdrawal w =>
    obtain ⟨hfit, ⟨hnil, rfl⟩ | rfl⟩ := signWithdrawal_ok hstep
    · have hcharges : s'.charges k (.signWithdrawal w) = [] := by
        simp [charges, hnil]
      rw [hcharges]
      exact h.same rfl rfl rfl
    · refine ⟨?_, rfl, rfl⟩
      have hall := chargeAll_enforced hperiod hlimit (s.withdrawalCharges w)
        (nodup_withdrawalCharges w) (allWithin_prune s.store.ledger) (prune_enforced h) (by
          rw [sum_prune]
          exact fits_of_lossesFit h hlim hlimit hfit)
      have hmark : ∀ (l : Ledger) (txid : Hash), (l.markChargedTxid txid).spends = l.spends := by
        intro l txid
        unfold Ledger.markChargedTxid
        split <;> rfl
      unfold Keeps
      rw [hmark, chargesOf_append]
      exact hall

/-- A request that is refused does not move the clock. -/
theorem nowAfter_of_error {req : Request} {why : Refusal} (h : s.step k req = .error why) :
    nowAfter s.now req = s.now := by
  cases req with
  | setNow now => cases h
  | _ => rfl

/-- A run keeps the limit of an asset. -/
theorem run_enforced (hperiod : 0 < s.limits.periodSecs)
    (hlim : s.limits.limitMsat a = some limit) (hlimit : limit < u64Max)
    (h : Keeps a limit s spent) {reqs : List Request} (hclock : ClockForward s.now reqs) :
    Keeps a limit (s.run k reqs) (spent ++ s.history k reqs) ∧ (s.run k reqs).limits = s.limits := by
  induction reqs generalizing s spent with
  | nil =>
    rw [history, append_nil]
    exact ⟨h, rfl⟩
  | cons req reqs ih =>
    obtain ⟨hforward, hclock⟩ := hclock
    rw [run_cons, history, ← append_assoc]
    unfold after charged
    cases hstep : s.step k req with
    | ok s' =>
      obtain ⟨hkeeps, hlimits, hnow⟩ := step_enforced hperiod hlim hlimit h hforward hstep
      rw [← hlimits] at hperiod hlim
      obtain ⟨hrun, hsame⟩ := ih hperiod hlim hkeeps (hnow ▸ hclock)
      exact ⟨hrun, hsame.trans hlimits⟩
    | error why =>
      rw [nowAfter_of_error hstep] at hclock
      rw [append_nil]
      exact ih hperiod hlim h hclock

/-- What a run charges to an asset within any window of one period is at most its limit, where that
in millisatoshi is a word. -/
theorem charged_within_limit (k : SymKernel) (s : Device) (reqs : List Request) (a : AssetKey)
    (limit : ℕ) (hempty : s.store.ledger.spends = []) (hclock : ClockForward s.now reqs)
    (hlim : s.limits.limitAtoms a = some limit) (hword : limit * 1000 ≤ u64Max) (start : ℕ) :
    held s.limits.periodSecs start (chargesOf a (s.history k reqs)) ≤ limit * 1000 := by
  rcases Nat.eq_zero_or_pos s.limits.periodSecs with hzero | hperiod
  · rw [hzero, held_zero]
    exact Nat.zero_le _
  · have hmsat : s.limits.limitMsat a = some (limit * 1000) := by
      rw [Limits.limitMsat, hlim, Option.map_some, satMul, min_eq_left hword]
    have hlt : limit * 1000 < u64Max := by
      unfold u64Max at hword ⊢
      omega
    have hstart : Keeps a (limit * 1000) s [] := by
      unfold Keeps
      rw [hempty]
      exact Enforced.nil
    obtain ⟨hkeeps, hlimits⟩ := run_enforced (k := k) hperiod hmsat hlt hstart hclock
    unfold Keeps at hkeeps
    rw [hlimits] at hkeeps
    exact hkeeps.bounded start

end Device

namespace Example

/-- Two payments of 10^19 msat, one after the other in one day. -/
def payTwice : List Request :=
  [.setupChannel channel (setup 1000), .preapprove (bytes 32 7) none none,
    .preapprove (bytes 32 8) none none, signRemote 0 1000 [],
    signRemote 1 1000 [offer 10000000000000000000 7],
    signRemote 2 1000 [offer 10000000000000000000 7, offer 10000000000000000000 8]]

/-- A small payment, and one that the limit refuses. -/
def payOnce : List Request :=
  [.setupChannel channel (setup 1000), .preapprove (bytes 32 7) none none,
    .preapprove (bytes 32 8) none none, signRemote 0 1000 [], .setNow 10,
    signRemote 1 1000 [offer 60000 7], signRemote 2 1000 [offer 60000 7, offer 60000 8]]

theorem charged_within_limit_payOnce :
    chargesOf .btc ((device (some 100)).history kernel payOnce) = [⟨0, 0⟩, ⟨10, 60000⟩] ∧
      ∀ start, held 86400 start (chargesOf .btc ((device (some 100)).history kernel payOnce)) ≤
        100000 :=
  ⟨by decide +kernel, Device.charged_within_limit kernel (device (some 100)) payOnce .btc 100 rfl
    (by decide) rfl (by decide)⟩

/-- A limit of `2 ^ 64 / 1000` atoms or more is none: the day's charges pass it. -/
theorem charged_over_limit :
    (device (some 18446744073709552)).limits.limitAtoms .btc = some 18446744073709552 ∧
      18446744073709552 * 1000 < held 86400 0
        (chargesOf .btc ((device (some 18446744073709552)).history kernel payTwice)) := by
  constructor
  · rfl
  · decide +kernel

end Example

end SeqLN.Signer
