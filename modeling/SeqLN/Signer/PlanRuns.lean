import SeqLN.Lib.Adjacent
import SeqLN.Signer.PeerCommitments

/-!
# Commitment after commitment

`PayTrack::plan` holds a commitment to the latest one of its side, with a tolerance for rounding that is
given anew at each, so that over a channel's life it adds up (`planned_run_accounts`).

* `Call`, `PayTrack.takes`, `PayTrack.after` — a planned commitment, that it is accepted, and what the
  device tracks after a sequence of them.
* `Tracks` — the device has the latest commitment of either side, as long as no list is cut.
-/

namespace SeqLN.Signer

open Lib Device List

/-! ### The lists as multisets -/

lemma coe_minus (a b : List Offered) : (↑(minus a b) : Multiset Offered) = ↑a - ↑b := by
  ext x
  rw [Multiset.count_sub, Multiset.coe_count, Multiset.coe_count, Multiset.coe_count, count_minus]

lemma coe_maxUnion (a b : List Offered) : (↑(maxUnion a b) : Multiset Offered) = ↑a ∪ ↑b := by
  ext x
  rw [Multiset.count_union, maxUnion, Multiset.coe_count, count_append, count_minus,
    Multiset.coe_count, Multiset.coe_count]
  omega

lemma coe_keptOffered {offered : List Offered} (h : offered.length ≤ maxOffered) :
    (↑(keptOffered offered) : Multiset Offered) = ↑offered := by
  have hlen : (offered.insertionSort fun a b => (Offered.cmp a b).isLE = true).length ≤ maxOffered := by
    rwa [length_insertionSort]
  rw [keptOffered, take_of_length_le hlen]
  exact Multiset.coe_eq_coe.2 (perm_insertionSort _ _)

/-- The whole atoms of the HTLCs. -/
def atoms (m : Multiset Offered) : ℕ := (m.map fun h => h.amountMsat / 1000).sum

lemma offeredAtoms_le (offered : List Offered) : offeredAtoms offered ≤ atoms offered := by
  unfold atoms
  rw [Multiset.map_coe, Multiset.sum_coe]
  exact satSum_le_sum _

/-! ### Planned commitments -/

/-- A commitment that is planned: whether it is ours, its number and asset, what it leaves this side,
and the HTLCs it carries. -/
structure Call where
  ours : Bool
  n : ℕ
  asset : AssetKey
  value : ℕ
  htlcs : List Htlc

/-- The HTLCs we offered. -/
def Call.offered (c : Call) : Multiset Offered := offeredOf c.htlcs

namespace PayTrack

/-- The plan of a commitment. -/
def planCall (p : PayTrack) (c : Call) : Plan :=
  p.plan c.ours c.n c.asset c.value (offeredOf c.htlcs) c.htlcs.length

/-- The commitment is not older than the latest on its side, and not short. -/
def takes (p : PayTrack) (c : Call) : Bool :=
  (p.side c.ours).all (·.n ≤ c.n) && (p.planCall c).balance.all (·.short = 0)

/-- What is tracked once the commitments are planned and applied. -/
def after (p : PayTrack) (calls : List Call) : PayTrack :=
  calls.foldl (fun p c => (p.planCall c).track) p

/-- Every commitment of the sequence passes a test when its turn comes. -/
def allCalls (f : PayTrack → Call → Bool) (p : PayTrack) : List Call → Bool
  | [] => true
  | c :: calls => f p c && allCalls f (p.planCall c).track calls

lemma after_append (p : PayTrack) (calls : List Call) (c : Call) :
    p.after (calls ++ [c]) = ((p.after calls).planCall c).track := by
  rw [after, foldl_append]
  rfl

lemma of_allCalls {f : PayTrack → Call → Bool} {p : PayTrack} {before after' : List Call} {c : Call}
    (h : allCalls f p (before ++ c :: after') = true) :
    allCalls f p before = true ∧ f (p.after before) c = true := by
  induction before generalizing p with
  | nil => exact ⟨rfl, (Bool.and_eq_true_iff.1 h).1⟩
  | cons b before ih =>
    obtain ⟨hb, h⟩ := Bool.and_eq_true_iff.1 h
    obtain ⟨hall, hc⟩ := ih h
    exact ⟨Bool.and_eq_true_iff.2 ⟨hb, hall⟩, hc⟩

lemma side_setSide (p : PayTrack) (ours s : Bool) (t : SideTrack) :
    (p.setSide ours t).side s = if s = ours then some t else p.side s := by
  cases ours <;> cases s <;> rfl

end PayTrack

/-! ### What the device has of the sequence -/

/-- The commitments of one side. -/
def callsOf (s : Bool) (calls : List Call) : List Call := calls.filter (·.ours == s)

/-- The record has the commitment, and nothing was lost. -/
structure Records (t : SideTrack) (c : Call) : Prop where
  n : t.n = c.n
  value : t.value = c.value
  offered : (↑t.offered : Multiset Offered) = c.offered
  lost : t.lost = 0

/-- The record of each side has its latest commitment. -/
structure Tracks (calls : List Call) (p : PayTrack) : Prop where
  sides : ∀ s, Option.Rel Records (p.side s) (callsOf s calls).getLast?
  chargedLost : p.chargedLost = 0

/-- The HTLCs of a side's latest commitment. -/
def latest (s : Bool) (calls : List Call) : Multiset Offered :=
  ((callsOf s calls).getLast?.map Call.offered).getD 0

lemma callsOf_append_self (calls : List Call) (c : Call) :
    callsOf c.ours (calls ++ [c]) = callsOf c.ours calls ++ [c] := by
  simp [callsOf]

lemma callsOf_append_of_ne {s : Bool} (calls : List Call) {c : Call} (h : s ≠ c.ours) :
    callsOf s (calls ++ [c]) = callsOf s calls := by
  have : (c.ours == s) = false := beq_eq_false_iff_ne.2 (Ne.symm h)
  simp [callsOf, this]

lemma Tracks.new : Tracks [] PayTrack.new where
  sides s := by
    cases s <;> exact .none
  chargedLost := rfl

section step

variable {calls : List Call} {p : PayTrack} {c : Call}

lemma Tracks.lost (h : Tracks calls p) (s : Bool) : ((p.side s).map SideTrack.lost).getD 0 = 0 := by
  have hside := h.sides s
  generalize p.side s = t at hside ⊢
  generalize (callsOf s calls).getLast? = o at hside
  cases hside with
  | none => rfl
  | some hr => exact hr.lost

lemma Tracks.offered (h : Tracks calls p) (s : Bool) :
    (↑(((p.side s).map SideTrack.offered).getD []) : Multiset Offered) = latest s calls := by
  have hside := h.sides s
  unfold latest
  generalize p.side s = t at hside ⊢
  generalize (callsOf s calls).getLast? = o at hside ⊢
  cases hside with
  | none => rfl
  | some hr => exact hr.offered

/-- A commitment that is accepted loses nothing. -/
theorem short_of_takes (htakes : p.takes c = true) {t : SideTrack} (ht : p.side c.ours = some t) :
    t.n ≤ c.n ∧
      (balanceCheck t c.value (keptOffered (offeredOf c.htlcs)) c.htlcs.length).short = 0 := by
  obtain ⟨hn, hshort⟩ := Bool.and_eq_true_iff.1 htakes
  rw [ht] at hn
  have hn : t.n ≤ c.n := of_decide_eq_true hn
  rw [PayTrack.planCall, balance_plan ht hn] at hshort
  exact ⟨hn, of_decide_eq_true hshort⟩

/-- What an accepted commitment is charged, and what is tracked after it. -/
theorem planCall_of_takes (h : Tracks calls p) (htakes : p.takes c = true) :
    (p.planCall c).chargeMsat = satSum ((p.planCall c).newOffered.map Offered.amountMsat) ∧
      (p.planCall c).track.chargedLost = 0 ∧
      ∀ s, (p.planCall c).track.side s =
        if s = c.ours then some ⟨c.n, c.value, keptOffered (offeredOf c.htlcs), 0⟩ else p.side s := by
  have hold : ¬ (p.side c.ours).any (c.n < ·.n) = true := by
    cases ht : p.side c.ours with
    | none => exact Bool.false_ne_true
    | some t => simpa using (short_of_takes htakes ht).1
  have hother := h.lost !c.ours
  have hle : satSum ((p.newOffered c.ours (keptOffered (offeredOf c.htlcs))).map Offered.amountMsat) ≤
      u64Max := by
    rw [satSum_eq]
    exact min_le_right _ _
  have hcharge : satAdd (satSum ((p.newOffered c.ours
      (keptOffered (offeredOf c.htlcs))).map Offered.amountMsat)) (satMul (max 0 0 - 0) 1000) =
      satSum ((p.newOffered c.ours (keptOffered (offeredOf c.htlcs))).map Offered.amountMsat) := by
    show satAdd _ 0 = _
    rw [satAdd_of_lt (by simpa using hle), Nat.add_zero]
  have hset := fun s => PayTrack.side_setSide ⟨some c.asset, p.localSide, p.remoteSide, 0⟩ c.ours s
    ⟨c.n, c.value, keptOffered (offeredOf c.htlcs), 0⟩
  unfold PayTrack.planCall PayTrack.plan
  dsimp only
  rw [if_neg hold, hother, h.chargedLost]
  cases ht : p.side c.ours with
  | none => exact ⟨hcharge, rfl, hset⟩
  | some t =>
    have hlost : t.lost = 0 := by
      have := h.lost c.ours
      rwa [ht] at this
    simp only [hlost, (short_of_takes htakes ht).2]
    exact ⟨hcharge, rfl, hset⟩

/-- The device tracks the sequence with the commitment. -/
theorem Tracks.planCall (h : Tracks calls p) (htakes : p.takes c = true)
    (hlist : (offeredOf c.htlcs).length ≤ maxOffered) :
    Tracks (calls ++ [c]) (p.planCall c).track := by
  obtain ⟨-, hcharged, hside⟩ := planCall_of_takes h htakes
  refine ⟨fun s => ?_, hcharged⟩
  rw [hside s]
  by_cases hs : s = c.ours
  · subst hs
    rw [if_pos rfl, callsOf_append_self, List.getLast?_append, List.getLast?_singleton]
    exact .some ⟨rfl, rfl, coe_keptOffered hlist, rfl⟩
  · rw [if_neg hs, callsOf_append_of_ne calls hs]
    exact h.sides s

/-- What a commitment newly offers is what neither side's latest commitment carries. -/
theorem newOffered_planCall (h : Tracks calls p) (hcalls : calls ≠ [])
    (hlist : (offeredOf c.htlcs).length ≤ maxOffered) :
    (↑(p.planCall c).newOffered : Multiset Offered) =
      c.offered - (latest c.ours calls ∪ latest (!c.ours) calls) := by
  have hnew : (p.planCall c).newOffered = p.newOffered c.ours (keptOffered (offeredOf c.htlcs)) := by
    unfold PayTrack.planCall PayTrack.plan
    dsimp only
    split <;> rfl
  have hbase : ¬ (p.localSide.isNone && p.remoteSide.isNone) = true := by
    intro hnone
    obtain ⟨hlocal, hremote⟩ := Bool.and_eq_true_iff.1 hnone
    obtain ⟨d, hd⟩ : ∃ d, d ∈ calls := exists_mem_of_ne_nil calls hcalls
    have hside := h.sides d.ours
    have hnil : p.side d.ours = none := by
      cases d.ours
      · exact Option.isNone_iff_eq_none.1 hremote
      · exact Option.isNone_iff_eq_none.1 hlocal
    have hmem : d ∈ callsOf d.ours calls := mem_filter.2 ⟨hd, beq_self_eq_true _⟩
    rw [hnil, List.getLast?_eq_some_getLast (ne_nil_of_mem hmem)] at hside
    cases hside
  rw [hnew, PayTrack.newOffered, if_neg hbase, coe_minus, coe_keptOffered hlist, coe_maxUnion,
    h.offered, h.offered]
  rfl

end step

/-! ### Whole sequences -/

/-- Every commitment of the sequence is accepted. -/
def AllTaken (calls : List Call) : Prop := PayTrack.new.allCalls PayTrack.takes calls = true

/-- No list of the sequence is cut. -/
def ListsFit (calls : List Call) : Prop := ∀ c ∈ calls, (offeredOf c.htlcs).length ≤ maxOffered

lemma tracks_after {calls : List Call} (htakes : AllTaken calls) (hlists : ListsFit calls) :
    Tracks calls (PayTrack.new.after calls) := by
  induction calls using List.reverseRecOn with
  | nil => exact Tracks.new
  | append_singleton calls c ih =>
    obtain ⟨hall, hc⟩ := PayTrack.of_allCalls htakes
    rw [PayTrack.after_append]
    exact (ih hall fun d hd => hlists d (mem_append_left _ hd)).planCall hc
      (hlists c (mem_append_right _ (mem_singleton_self c)))

lemma tracks_before {before after' : List Call} {c : Call} (htakes : AllTaken (before ++ c :: after'))
    (hlists : ListsFit (before ++ c :: after')) : Tracks before (PayTrack.new.after before) :=
  tracks_after (PayTrack.of_allCalls htakes).1 fun d hd => hlists d (mem_append_left _ hd)

/-- What holds of each commitment and the one of its side before it holds along the side. -/
theorem isChain_callsOf {R : Call → Call → Prop} {calls : List Call} (s : Bool)
    (h : ∀ before c after', calls = before ++ c :: after' → c.ours = s →
      ∀ d ∈ (callsOf s before).getLast?, R d c) :
    (callsOf s calls).IsChain R := by
  induction calls using List.reverseRecOn with
  | nil => exact .nil
  | append_singleton calls c ih =>
    have hchain := ih fun before d after' heq => by
      refine h before d (after' ++ [c]) ?_
      rw [heq, append_assoc, cons_append]
    by_cases hs : s = c.ours
    · subst hs
      rw [callsOf_append_self]
      refine isChain_append.2 ⟨hchain, .singleton c, ?_⟩
      intro d hd e he
      obtain rfl : c = e := by simpa using he
      exact h calls c [] rfl rfl d hd
    · rwa [callsOf_append_of_ne calls hs]

/-- The atoms of the HTLCs that a commitment no longer carries. -/
def removedAtoms (a b : Call) : ℕ := atoms (a.offered - b.offered)

/-- What one commitment may leave less for rounding. -/
def roundingOf (a b : Call) : ℕ :=
  2 + b.htlcs.length + a.offered.card + (a.offered - b.offered).card

/-- The HTLCs that a commitment newly carries. -/
def added (a b : Call) : ℕ := ((↑b.htlcs : Multiset Htlc) - ↑a.htlcs).card

/-- The HTLCs that were ever carried, one that stays counted once. -/
def carried : List Call → ℕ
  | [] => 0
  | a :: calls => a.htlcs.length + adjSum added (a :: calls)

section sequence

variable {before after' : List Call} {c d : Call}

/-- The record that a commitment is held to is the one of its side's latest commitment. -/
theorem exists_records (h : Tracks before (PayTrack.new.after before))
    (hd : d ∈ (callsOf c.ours before).getLast?) :
    ∃ t, (PayTrack.new.after before).side c.ours = some t ∧ Records t d := by
  have hside := h.sides c.ours
  rw [Option.mem_def.1 hd] at hside
  generalize (PayTrack.new.after before).side c.ours = o at hside ⊢
  cases hside with
  | some hr => exact ⟨_, rfl, hr⟩

/-- An accepted commitment leaves what the latest one left, less the HTLCs that go and the tolerance. -/
theorem value_le_of_takes (h : Tracks before (PayTrack.new.after before))
    (htakes : (PayTrack.new.after before).takes c = true)
    (hlist : (offeredOf c.htlcs).length ≤ maxOffered) (hd : d ∈ (callsOf c.ours before).getLast?) :
    d.value ≤ c.value + (removedAtoms d c + roundingOf d c) := by
  obtain ⟨t, ht, hr⟩ := exists_records h hd
  have hshort := (short_of_takes htakes ht).2
  rw [short_eq_zero, hr.value] at hshort
  have hremoved : (↑(minus t.offered (keptOffered (offeredOf c.htlcs))) : Multiset Offered) =
      d.offered - c.offered := by
    rw [coe_minus, coe_keptOffered hlist, hr.offered]
    rfl
  have hatoms := offeredAtoms_le (minus t.offered (keptOffered (offeredOf c.htlcs)))
  have hlen : t.offered.length = d.offered.card := by rw [← hr.offered, Multiset.coe_card]
  have hgone : (minus t.offered (keptOffered (offeredOf c.htlcs))).length =
      (d.offered - c.offered).card := by rw [← hremoved, Multiset.coe_card]
  rw [hremoved] at hatoms
  unfold slack tolerance at hshort
  unfold removedAtoms roundingOf
  omega

/-- What is charged is the HTLCs that neither side's latest commitment carries, each at its amount. -/
theorem charge_of_takes (h : Tracks before (PayTrack.new.after before))
    (htakes : (PayTrack.new.after before).takes c = true)
    (hlist : (offeredOf c.htlcs).length ≤ maxOffered)
    (hamounts : (c.offered.map Offered.amountMsat).sum < 2 ^ 64) :
    let plan := (PayTrack.new.after before).planCall c
    (↑plan.newOffered : Multiset Offered) =
        (if before = [] then 0 else c.offered - (latest c.ours before ∪ latest (!c.ours) before)) ∧
      plan.chargeMsat = (plan.newOffered.map Offered.amountMsat).sum := by
  intro plan
  have hnew : (↑plan.newOffered : Multiset Offered) =
      if before = [] then 0 else c.offered - (latest c.ours before ∪ latest (!c.ours) before) := by
    split
    · next hnil =>
      subst hnil
      -- the baseline: what it carries is taken as charged
      have hbase : plan.newOffered = [] := by
        show (PayTrack.new.planCall c).newOffered = []
        unfold PayTrack.planCall PayTrack.plan
        dsimp only
        split <;> rfl
      rw [hbase]
      rfl
    · next hne => exact newOffered_planCall h hne hlist
  refine ⟨hnew, ?_⟩
  have hle : (↑plan.newOffered : Multiset Offered) ≤ c.offered := by
    rw [hnew]
    split
    · exact Multiset.zero_le _
    · exact tsub_le_self
  have hsum : (plan.newOffered.map Offered.amountMsat).sum ≤ (c.offered.map Offered.amountMsat).sum := by
    rw [← Multiset.sum_coe, ← Multiset.map_coe]
    obtain ⟨u, hu⟩ := Multiset.le_iff_exists_add.1 hle
    rw [hu, Multiset.map_add, Multiset.sum_add]
    exact Nat.le_add_right _ _
  have hmax : (plan.newOffered.map Offered.amountMsat).sum ≤ u64Max := by
    unfold u64Max
    omega
  rw [(planCall_of_takes h htakes).1, satSum_eq]
  exact min_eq_left hmax

end sequence

/-- Of a sequence of commitments that are accepted, none of which has a list that is cut: each side's
first value less its last is at most the HTLCs removed and the tolerance of every step; so it is at most
the HTLCs removed, two atoms, and two for each HTLC ever carried, where the side's lists are such that
the tolerances do not add up to more; and an HTLC is charged exactly when neither side's latest
commitment carries it. -/
theorem planned_run_accounts (calls : List Call) (htakes : AllTaken calls) (hlists : ListsFit calls)
    (hamounts : ∀ c ∈ calls, (c.offered.map Offered.amountMsat).sum < 2 ^ 64) :
    (∀ s (hs : callsOf s calls ≠ []),
      ((callsOf s calls).head hs).value ≤ ((callsOf s calls).getLast hs).value +
        (adjSum removedAtoms (callsOf s calls) + adjSum roundingOf (callsOf s calls))) ∧
    (∀ s (hs : callsOf s calls ≠ []),
      adjSum roundingOf (callsOf s calls) ≤ 2 + 2 * carried (callsOf s calls) →
      ((callsOf s calls).head hs).value ≤ ((callsOf s calls).getLast hs).value +
        (adjSum removedAtoms (callsOf s calls) + (2 + 2 * carried (callsOf s calls)))) ∧
    ∀ before c after', calls = before ++ c :: after' →
      let plan := (PayTrack.new.after before).planCall c
      (↑plan.newOffered : Multiset Offered) =
          (if before = [] then 0 else c.offered - (latest c.ours before ∪ latest (!c.ours) before)) ∧
        plan.chargeMsat = (plan.newOffered.map Offered.amountMsat).sum := by
  have hfall : ∀ s (hs : callsOf s calls ≠ []),
      ((callsOf s calls).head hs).value ≤ ((callsOf s calls).getLast hs).value +
        (adjSum removedAtoms (callsOf s calls) + adjSum roundingOf (callsOf s calls)) := by
    intro s hs
    rw [← adjSum_add]
    refine le_last_add_adjSum Call.value _ hs (isChain_callsOf s ?_)
    rintro before c after' rfl rfl d hd
    exact value_le_of_takes (tracks_before htakes hlists) (PayTrack.of_allCalls htakes).2
      (hlists c (by simp)) hd
  refine ⟨hfall, fun s hs htol => ?_, ?_⟩
  · have := hfall s hs
    omega
  · rintro before c after' rfl
    exact charge_of_takes (tracks_before htakes hlists) (PayTrack.of_allCalls htakes).2
      (hlists c (by simp)) (hamounts c (by simp))

/-! ### Two atoms at a time -/

namespace Example

/-- A commitment of the peer's without HTLCs. -/
def bare (n value : ℕ) : Call := ⟨false, n, .btc, value, []⟩

/-- An HTLC that the peer offers. -/
def receive (amountMsat : ℕ) (n : UInt8) : Htlc := { offer amountMsat n with side := 1 }

/-- Two HTLCs that the peer offers come and go on its side, an HTLC of 5 atoms and a half that we
offer is on ours, and goes. -/
def payment : List Call :=
  [bare 0 1000, ⟨true, 0, .btc, 1000, [offer 5500 7]⟩,
    ⟨false, 1, .btc, 996, [receive 5500 8, receive 6500 9]⟩, ⟨true, 1, .btc, 991, []⟩, bare 2 994]

/-- Both sides fall by all that their tolerances allow, and the bound holds. -/
theorem planned_run_accounts_payment :
    (callsOf false payment).map Call.value = [1000, 996, 994] ∧
      (1000 : ℕ) ≤ 994 + (adjSum removedAtoms (callsOf false payment) +
        (2 + 2 * carried (callsOf false payment))) ∧
      (callsOf true payment).map Call.value = [1000, 991] ∧
      (1000 : ℕ) ≤ 991 + (adjSum removedAtoms (callsOf true payment) +
        (2 + 2 * carried (callsOf true payment))) := by
  have hlists : ListsFit payment := by
    unfold ListsFit
    decide
  have hrun := (planned_run_accounts payment (by unfold AllTaken; decide +kernel) hlists
    (by decide)).2.1
  exact ⟨rfl, hrun false (by decide) (by decide +kernel), rfl,
    hrun true (by decide) (by decide +kernel)⟩

/-- Four commitments without HTLCs take two atoms each: all are accepted, and six atoms are gone where
two may go. -/
theorem bare_run_drains :
    AllTaken [bare 0 1000, bare 1 998, bare 2 996, bare 3 994] ∧
      994 + (adjSum removedAtoms [bare 0 1000, bare 1 998, bare 2 996, bare 3 994] +
        (2 + 2 * carried [bare 0 1000, bare 1 998, bare 2 996, bare 3 994])) < 1000 := by
  unfold AllTaken
  decide +kernel

end Example

end SeqLN.Signer
