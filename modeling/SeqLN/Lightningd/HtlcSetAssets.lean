import SeqLN.Lib.Runs
import SeqLN.Lightningd.HtlcSet

/-!
# The assets of a payment

`Sound`: the parts of a set are of one asset, which the invoice takes, have one total, and add up to
what is counted; a set that the hook is asked about is complete. Every event that is `Allowed` keeps
this. Not allowed is a part for a set that is complete: it finds the set complete again, and frees its
timer a second time; nor a payment to ourselves, which has no asset.
-/

namespace SeqLN.Mpp

open SeqLN.Forward List Option

/-! ### Every set is sound -/

section sound

variable (invoices : ByteString 32 → Option Details)

/-- The parts are of one asset, which the invoice takes, and of one total; each passed the invoice's
checks. -/
structure PartsSound (set : HtlcSet) : Prop where
  nonempty : set.inpays ≠ []
  invoice : ∃ details, invoices set.paymentHash = some details ∧
    ∀ part ∈ set.inpays, invoiceCheckPayment details part = true
  asset : ∃ a, set.asset = some a ∧ ∀ part ∈ set.inpays, part.asset = some a

/-- A set between two events. -/
structure SetSound (set : HtlcSet) : Prop extends PartsSound invoices set where
  total : ∀ part ∈ set.inpays, part.totalMsat = set.totalMsat
  soFar : set.soFar = (set.inpays.map (·.msat)).sum
  complete : set.timeout = false → set.totalMsat ≤ set.soFar

/-- The sets, the calls of the hook and the sets that were fulfilled. -/
structure Sound (s : State) : Prop where
  sets : ∀ set ∈ s.sets, SetSound invoices set
  sid_lt : ∀ set ∈ s.sets, set.sid < s.next
  sid_nodup : (s.sets.map (·.sid)).Nodup
  payloads : ∀ p ∈ s.payloads, ∀ sid, p.set = some sid →
    ∃ set ∈ s.sets, set.sid = sid ∧ set.timeout = false
  paid : ∀ set ∈ s.paid, SetSound invoices set ∧ set.totalMsat ≤ set.soFar
  defined : s.undefined = false

variable {invoices} {s : State} {set : HtlcSet} {part : Part}

lemma Sound.start : Sound invoices start where
  sets _ h := absurd h not_mem_nil
  sid_lt _ h := absurd h not_mem_nil
  sid_nodup := nodup_nil
  payloads _ h := absurd h not_mem_nil
  paid _ h := absurd h not_mem_nil
  defined := rfl

/-- A set that is freed is lost to the calls of the hook. -/
theorem Sound.freeSet (hs : Sound invoices s) : Sound invoices (s.freeSet set) where
  sets a h := hs.sets a (mem_of_mem_erase h)
  sid_lt a h := hs.sid_lt a (mem_of_mem_erase h)
  sid_nodup := hs.sid_nodup.sublist (erase_sublist.map _)
  payloads p hp sid hsid := by
    obtain ⟨q, hq, rfl⟩ := List.mem_map.1 hp
    split at hsid
    · cases hsid
    · next hne =>
      obtain ⟨a, ha, rfl, hdone⟩ := hs.payloads q hq sid hsid
      have hset : a ≠ set := fun h => hne (h ▸ hsid)
      exact ⟨a, (mem_erase_of_ne hset).2 ha, rfl, hdone⟩
  paid := hs.paid
  defined := hs.defined

lemma Sound.resolve (hs : Sound invoices s) (parts : List Part) (outcome : Outcome) :
    Sound invoices (s.resolve parts outcome) :=
  ⟨hs.sets, hs.sid_lt, hs.sid_nodup, hs.payloads, hs.paid, hs.defined⟩

lemma Sound.htlcSetFail (hs : Sound invoices s) : Sound invoices (s.htlcSetFail set) :=
  (hs.resolve _ _).freeSet

lemma Sound.htlcSetFulfill (hs : Sound invoices s) (hset : SetSound invoices set)
    (hpaid : set.totalMsat ≤ set.soFar) : Sound invoices (s.htlcSetFulfill set) := by
  have hfreed : Sound invoices ((s.resolve set.inpays .fulfilled).freeSet set) :=
    (hs.resolve _ _).freeSet
  refine ⟨hfreed.sets, hfreed.sid_lt, hfreed.sid_nodup, hfreed.payloads, ?_, hfreed.defined⟩
  intro a ha
  obtain ha | ha := mem_append.1 ha
  · exact hs.paid a ha
  · exact mem_singleton.1 ha ▸ ⟨hset, hpaid⟩

lemma Sound.withStatus (hs : Sound invoices s) (status : ByteString 32 → InvoiceState) :
    Sound invoices { s with status } :=
  ⟨hs.sets, hs.sid_lt, hs.sid_nodup, hs.payloads, hs.paid, hs.defined⟩

lemma Sound.hooksDone {set : Option HtlcSet} {paymentHash : ByteString 32} (hs : Sound invoices s)
    (hset : ∀ a, set = some a → SetSound invoices a ∧ a.totalMsat ≤ a.soFar)
    (hdeleted : set = none → s.status paymentHash ≠ .deleted) :
    Sound invoices (s.hooksDone paymentHash set) := by
  unfold State.hooksDone
  split
  · next hstatus => exact absurd hstatus (hdeleted rfl)
  · exact hs.htlcSetFail
  · exact hs
  · exact hs.htlcSetFail
  · exact hs.withStatus _
  · obtain ⟨hsound, hpaid⟩ := hset _ rfl
    exact (hs.htlcSetFulfill hsound hpaid).withStatus _

/-- A set that is put among others. -/
theorem Sound.cons (hs : Sound invoices s) (hset : SetSound invoices set) (hlt : set.sid < s.next)
    (hnew : set.sid ∉ s.sets.map (·.sid)) : Sound invoices { s with sets := set :: s.sets } where
  sets a ha := by
    obtain rfl | ha := mem_cons.1 ha
    · exact hset
    · exact hs.sets a ha
  sid_lt a ha := by
    obtain rfl | ha := mem_cons.1 ha
    · exact hlt
    · exact hs.sid_lt a ha
  sid_nodup := nodup_cons.2 ⟨hnew, hs.sid_nodup⟩
  payloads p hp sid hsid := by
    obtain ⟨a, ha, heq⟩ := hs.payloads p hp sid hsid
    exact ⟨a, mem_cons_of_mem _ ha, heq⟩
  paid := hs.paid
  defined := hs.defined

/-- A set that is failed as soon as it is put among others need not be sound. -/
theorem Sound.failFront (hs : Sound invoices s) :
    Sound invoices (({ s with sets := set :: s.sets } : State).htlcSetFail set) := by
  have hsets : (({ s with sets := set :: s.sets } : State).htlcSetFail set).sets = s.sets :=
    erase_cons_head _ _
  refine ⟨?_, ?_, ?_, ?_, hs.paid, hs.defined⟩
  · rw [hsets]
    exact hs.sets
  · rw [hsets]
    exact hs.sid_lt
  · rw [hsets]
    exact hs.sid_nodup
  · rw [hsets]
    intro p hp sid hsid
    obtain ⟨q, hq, rfl⟩ := List.mem_map.1 hp
    split at hsid
    · cases hsid
    · exact hs.payloads q hq sid hsid

variable {hooked : Bool}

lemma Sound.complete (hs : Sound invoices s) (hset : SetSound invoices set)
    (harmed : set.timeout = true) (hpaid : set.totalMsat ≤ set.soFar) (hlt : set.sid < s.next)
    (hnew : set.sid ∉ s.sets.map (·.sid)) : Sound invoices (s.complete hooked set) := by
  have hnow : SetSound invoices { set with timeout := false } :=
    ⟨⟨hset.nonempty, hset.invoice, hset.asset⟩, hset.total, hset.soFar, fun _ => hpaid⟩
  have hdefined : (s.undefined || !set.timeout) = false := by rw [hs.defined, harmed]; rfl
  have hcons := hs.cons hnow hlt hnew
  have hfreed : Sound invoices { s with
      sets := { set with timeout := false } :: s.sets, undefined := s.undefined || !set.timeout } :=
    ⟨hcons.sets, hcons.sid_lt, hcons.sid_nodup, hcons.payloads, hcons.paid, hdefined⟩
  unfold State.complete
  dsimp only
  split
  · refine ⟨hfreed.sets, fun a ha => (hfreed.sid_lt a ha).trans (Nat.lt_succ_self _),
      hfreed.sid_nodup, ?_, hfreed.paid, hfreed.defined⟩
    intro p hp sid hsid
    obtain rfl | hp := mem_cons.1 hp
    · cases hsid
      exact ⟨_, mem_cons_self, rfl, rfl⟩
    · exact hfreed.payloads p hp sid hsid
  · refine hfreed.hooksDone ?_ nofun
    intro a ha
    obtain rfl := some.inj ha
    exact ⟨hnow, hpaid⟩

/-- Counting a part keeps the sets sound, if the set's timer runs. -/
theorem Sound.count (hs : Sound invoices s) (hparts : PartsSound invoices set)
    (hothers : ∀ other ∈ set.inpays, other = part ∨ other.totalMsat = set.totalMsat)
    (hsoFar : set.soFar + part.msat = (set.inpays.map (·.msat)).sum) (harmed : set.timeout = true)
    (hlt : set.sid < s.next) (hnew : set.sid ∉ s.sets.map (·.sid)) :
    Sound invoices (s.count hooked set part) := by
  unfold State.count
  dsimp only
  split
  · exact hs.failFront
  · next htotal =>
    split
    · exact hs.failFront
    · next soFar hadd =>
      have hsum : soFar = (set.inpays.map (·.msat)).sum := (amountAdd_eq_some.1 hadd).2.trans hsoFar
      have hset : SetSound invoices { set with soFar } := by
        refine ⟨⟨hparts.nonempty, hparts.invoice, hparts.asset⟩, ?_, hsum, ?_⟩
        · intro other hother
          obtain rfl | h := hothers other hother
          · exact not_not.1 htotal
          · exact h
        · intro hfreed
          exact absurd (harmed.symm.trans hfreed) Bool.noConfusion
      split
      · next hle => exact hs.complete hset harmed (not_not.1 htotal ▸ hle) hlt hnew
      · split
        · exact hs.failFront
        · exact hs.cons hset hlt hnew

/-- Without one of the sets whose timer runs the others are sound still. -/
theorem Sound.eraseArmed (hs : Sound invoices s) (hset : set ∈ s.sets) (harmed : set.timeout = true) :
    Sound invoices { s with sets := s.sets.erase set } ∧
      set.sid ∉ (s.sets.erase set).map (·.sid) := by
  refine ⟨⟨fun a h => hs.sets a (mem_of_mem_erase h),
    fun a h => hs.sid_lt a (mem_of_mem_erase h),
    hs.sid_nodup.sublist (erase_sublist.map _), ?_, hs.paid, hs.defined⟩, ?_⟩
  · intro p hp sid hsid
    obtain ⟨a, ha, heq, hdone⟩ := hs.payloads p hp sid hsid
    -- the hook is not asked about the set, whose timer runs
    have hne : a ≠ set := by
      rintro rfl
      exact absurd (harmed.symm.trans hdone) Bool.noConfusion
    exact ⟨a, (mem_erase_of_ne hne).2 ha, heq, hdone⟩
  · have hperm := (perm_cons_erase hset).map (·.sid)
    exact (nodup_cons.1 (hperm.nodup_iff.1 hs.sid_nodup)).1

lemma eq_of_sameAsset {a b : Option AssetTag} {x y : AssetTag} (ha : a = some x) (hb : b = some y)
    (h : sameAsset a b = true) : x = y := by
  subst ha hb
  exact of_decide_eq_true h

lemma Sound.withNext (hs : Sound invoices s) : Sound invoices { s with next := s.next + 1 } :=
  ⟨hs.sets, fun a ha => (hs.sid_lt a ha).trans (Nat.lt_succ_self _), hs.sid_nodup, hs.payloads,
    hs.paid, hs.defined⟩

/-- An HTLC that arrives keeps the sets sound, if the set that it joins is not complete. -/
theorem Sound.htlcSetAdd (hs : Sound invoices s) (hasset : part.asset.isSome = true)
    (harmed : ∀ set, s.setOf part.paymentHash = some set → set.timeout = true) :
    Sound invoices (s.htlcSetAdd invoices hooked part) := by
  obtain ⟨a, ha⟩ := isSome_iff_exists.1 hasset
  unfold State.htlcSetAdd
  split
  · exact hs.resolve _ _
  · next details hdetails =>
    split
    · exact hs.resolve _ _
    · next hchecked =>
      have hok : invoiceCheckPayment details part = true :=
        Bool.not_eq_false _ ▸ (not_or.1 hchecked).2
      split
      · -- the first part of a set
        refine hs.withNext.count ⟨cons_ne_nil _ _, ⟨details, hdetails, ?_⟩, a, ha, ?_⟩ ?_
          (by simp [newHtlcSet]) rfl (Nat.lt_succ_self _) ?_
        · intro other h
          exact mem_singleton.1 h ▸ hok
        · intro other h
          exact mem_singleton.1 h ▸ ha
        · intro other h
          exact .inl (mem_singleton.1 h)
        · intro h
          obtain ⟨other, hother, hsid⟩ := List.mem_map.1 h
          exact absurd hsid (hs.sid_lt other hother).ne
      · next set hset =>
        have hmem := List.mem_of_find?_eq_some hset
        have hhash : set.paymentHash = part.paymentHash := by simpa using List.find?_some hset
        have hsound := hs.sets set hmem
        split
        · exact hs.resolve _ _
        · next hsame =>
          split
          · exact hs.resolve _ _
          · obtain ⟨herased, hnew⟩ := hs.eraseArmed hmem (harmed set hset)
            obtain ⟨b, hb, hparts⟩ := hsound.asset
            have hab : a = b := eq_of_sameAsset ha hb (Bool.not_eq_false _ ▸ hsame)
            obtain ⟨details', hdetails', hchecks⟩ := hsound.invoice
            have hsameInvoice : details' = details :=
              some.inj (hdetails'.symm.trans (hhash ▸ hdetails))
            refine herased.count ⟨concat_ne_nil _ _, ⟨details, hhash ▸ hdetails, ?_⟩, b, hb, ?_⟩
              ?_ ?_ (harmed set hset) (hs.sid_lt set hmem) hnew
            · intro other h
              obtain h | h := mem_append.1 h
              · exact hsameInvoice ▸ hchecks other h
              · exact mem_singleton.1 h ▸ hok
            · intro other h
              obtain h | h := mem_append.1 h
              · exact hparts other h
              · exact mem_singleton.1 h ▸ hab ▸ ha
            · intro other h
              obtain h | h := mem_append.1 h
              · exact .inr (hsound.total other h)
              · exact .inl (mem_singleton.1 h)
            · simp [hsound.soFar]

end sound

/-! ### Runs -/

section runs

variable (invoices : ByteString 32 → Option Details)

/-- The events that keep the sets sound: an arrival is of an HTLC, in its channel's asset, and not
for an invoice whose set is complete; a hook whose set is gone does not end by a plugin's death
after the invoice was deleted. -/
def Allowed (s : State) : Event → Prop
  | .arrive _ part =>
    part.asset.isSome = true ∧ ∀ set, s.setOf part.paymentHash = some set → set.timeout = true
  | .done p died =>
    s.payloadSet p = none → died = true → s.status p.paymentHash ≠ .deleted
  | _ => True

/-- A state that events lead to, each of them allowed. -/
abbrev AllowedRun (s t : State) : Prop := Lib.Reaches (step invoices) Allowed s t

variable {invoices} {s t : State} {e : Event}

/-- The set that a call of the hook is about is complete. -/
theorem Sound.payloadSet (hs : Sound invoices s) {p : Payload} {set : HtlcSet} (hp : p ∈ s.payloads)
    (h : s.payloadSet p = some set) : SetSound invoices set ∧ set.totalMsat ≤ set.soFar := by
  obtain ⟨sid, hsid, hfind⟩ := bind_eq_some_iff.1 h
  have hmem := List.mem_of_find?_eq_some hfind
  have heq : set.sid = sid := by simpa using List.find?_some hfind
  obtain ⟨a, ha, hasid, hdone⟩ := hs.payloads p hp sid hsid
  have hsame : a = set := inj_on_of_nodup_map hs.sid_nodup ha hmem (hasid.trans heq.symm)
  subst hsame
  exact ⟨hs.sets a ha, (hs.sets a ha).complete hdone⟩

lemma Sound.erasePayload (hs : Sound invoices s) (p : Payload) :
    Sound invoices { s with payloads := s.payloads.erase p } :=
  ⟨hs.sets, hs.sid_lt, hs.sid_nodup, fun q hq => hs.payloads q (mem_of_mem_erase hq), hs.paid,
    hs.defined⟩

/-- Every allowed event keeps the sets sound. -/
theorem Sound.step (hs : Sound invoices s) (hallowed : Allowed s e)
    (h : step invoices s e = some t) : Sound invoices t := by
  cases e with
  | arrive hooked part =>
    obtain ⟨_, h⟩ := ite_none_right_eq_some.1 h
    cases h
    have hseen : Sound invoices { s with seen := part.id :: s.seen } :=
      ⟨hs.sets, hs.sid_lt, hs.sid_nodup, hs.payloads, hs.paid, hs.defined⟩
    exact hseen.htlcSetAdd hallowed.1 hallowed.2
  | timeout set =>
    obtain ⟨_, h⟩ := ite_none_right_eq_some.1 h
    cases h
    exact hs.htlcSetFail
  | destroyed set part =>
    obtain ⟨_, h⟩ := ite_none_right_eq_some.1 h
    cases h
    have hgone : Sound invoices { s with gone := part.id :: s.gone } :=
      ⟨hs.sets, hs.sid_lt, hs.sid_nodup, hs.payloads, hs.paid, hs.defined⟩
    exact (hgone.resolve _ _).freeSet
  | reject p =>
    obtain ⟨_, h⟩ := ite_none_right_eq_some.1 h
    split at h
    · cases h
      exact hs.erasePayload p
    · cases h
      exact (hs.erasePayload p).htlcSetFail
  | done p died =>
    obtain ⟨⟨_, hp⟩, h⟩ := ite_none_right_eq_some.1 h
    split at h
    · cases h
      exact hs.erasePayload p
    · next hnot =>
      cases h
      refine (hs.erasePayload p).hooksDone (fun a ha => hs.payloadSet hp ha) ?_
      intro hnone
      refine hallowed hnone ?_
      cases died with
      | false => exact absurd ⟨rfl, hnone⟩ hnot
      | true => rfl
  | close paymentHash deleted =>
    obtain ⟨_, h⟩ := ite_none_right_eq_some.1 h
    cases h
    exact hs.withStatus _

/-- A run of allowed events keeps the sets sound and accounts for every HTLC. -/
theorem AllowedRun.keeps (h : AllowedRun invoices s t) (hs : Sound invoices s) (ha : Accounted s) :
    Sound invoices t ∧ Accounted t :=
  Lib.Reaches.keeps (P := fun s => Sound invoices s ∧ Accounted s) h ⟨hs, ha⟩
    fun _ _ _ ih hallowed hstep => ⟨ih.1.step hallowed hstep, ih.2.step hstep⟩

/-- What a paid invoice has received: parts of one asset, the invoice's if it names one, that add up
to their common total, which is what was expected of each part and not more than twice that. -/
def PaidInOneAsset (invoices : ByteString 32 → Option Details) (set : HtlcSet) : Prop :=
  ∃ details asset, invoices set.paymentHash = some details ∧
    (∀ part ∈ set.inpays, part.asset = some asset) ∧
    (∀ named, details.asset = some named → named = asset) ∧
    set.totalMsat ≤ (set.inpays.map (·.msat)).sum ∧
    ∀ part ∈ set.inpays, part.totalMsat = set.totalMsat ∧
      ∀ expected, expectedMsat details part = some expected →
        expected ≤ set.totalMsat ∧ set.totalMsat ≤ 2 * expected

/-- The total of a part that passed the checks. -/
theorem bounds_of_totalOk {details : Details} {part : Part} {expected : ℕ}
    (h : totalOk details part = true) (he : expectedMsat details part = some expected) :
    expected ≤ part.totalMsat ∧ part.totalMsat ≤ 2 * expected := by
  unfold totalOk at h
  rw [he] at h
  dsimp only at h
  rw [Bool.and_eq_true, decide_eq_true_eq] at h
  refine ⟨h.1, ?_⟩
  have htwice := h.2
  split at htwice
  · next twice hadd =>
    have := (amountAdd_eq_some.1 hadd).2
    have := of_decide_eq_true htwice
    omega
  · next hadd =>
    -- twice the amount does not fit, and so is above any total
    have hbig : ¬ expected + expected < 2 ^ 64 := fun hlt => by
      rw [amountAdd_of_lt hlt] at hadd
      cases hadd
    have := part.totalMsat_lt
    omega

/-- A sound set that is full is paid in the invoice's asset. -/
theorem SetSound.paidInOneAsset {set : HtlcSet} (h : SetSound invoices set)
    (hpaid : set.totalMsat ≤ set.soFar) : PaidInOneAsset invoices set := by
  obtain ⟨details, hdetails, hchecks⟩ := h.invoice
  obtain ⟨a, _, hparts⟩ := h.asset
  refine ⟨details, a, hdetails, hparts, ?_, h.soFar ▸ hpaid, ?_⟩
  · intro named hnamed
    obtain ⟨part, hpart⟩ := exists_mem_of_ne_nil _ h.nonempty
    have hcheck := hchecks part hpart
    unfold invoiceCheckPayment at hcheck
    simp only [Bool.and_eq_true] at hcheck
    exact (eq_of_sameAsset (hparts part hpart) hnamed hcheck.1.1.1.1).symm
  · intro part hpart
    have hcheck := hchecks part hpart
    unfold invoiceCheckPayment at hcheck
    simp only [Bool.and_eq_true] at hcheck
    refine ⟨h.total part hpart, fun expected he => ?_⟩
    rw [← h.total part hpart]
    exact bounds_of_totalOk hcheck.1.2 he

/-- A forward keeps its asset. In every run of allowed events each set that was fulfilled is of one
asset and pays what was expected, and each HTLC that arrived is waiting, gone, or failed or
fulfilled once. -/
theorem assets_never_mix (invoices : ByteString 32 → Option Details) (s : State)
    (h : AllowedRun invoices start s) :
    (∀ ld hin cltvExpiry ask hout, forwardHtlc ld hin cltvExpiry ask = .ok hout →
      channelLaneAsset hout.channel hout.lane = htlcInAsset hin) ∧
    s.undefined = false ∧
    (∀ set ∈ s.paid, PaidInOneAsset invoices set) ∧
    ∀ id ∈ s.seen,
      s.waiting.count id + ((s.outcomes.map Prod.fst).count id + s.gone.count id) = 1 := by
  obtain ⟨hsound, haccounted⟩ := AllowedRun.keeps h Sound.start Accounted.start
  refine ⟨fun _ _ _ _ _ => lane_of_forwardHtlc, hsound.defined, ?_, ?_⟩
  · intro set hset
    obtain ⟨hset, hpaid⟩ := hsound.paid set hset
    exact hset.paidInOneAsset hpaid
  · intro id hid
    have hcount := congrArg (Multiset.count id) haccounted.ids_eq
    rw [Multiset.coe_count, count_eq_one_of_mem haccounted.nodup hid] at hcount
    rw [← hcount]
    unfold State.ids
    rw [Multiset.count_add, Multiset.count_add, Multiset.coe_count, Multiset.coe_count]

end runs

/-! ### An invoice of 100 msat -/

namespace PartsExample

def gold : AssetTag := .replicate 33 1

def silver : AssetTag := .replicate 33 2

def secret : ByteString 32 := .replicate 32 3

/-- One invoice, which names no asset. -/
def invoices (_ : ByteString 32) : Option Details := some ⟨none, some 100, true, true, secret⟩

/-- A part of the payment. -/
def part (id msat : ℕ) (asset : Option AssetTag) : Part where
  id
  msat
  totalMsat := 100
  totalMsat_lt := by decide
  invoiceMsatOverride := none
  paymentHash := .replicate 32 4
  paymentSecret := some secret
  asset

instance (s : State) (e : Event) : Decidable (Allowed s e) :=
  match e with
  | .arrive _ p =>
    decidable_of_iff (p.asset.isSome = true ∧ (s.setOf p.paymentHash).all (·.timeout) = true)
      (by simp [Allowed, Option.all_eq_true])
  | .timeout _ => isTrue trivial
  | .destroyed _ _ => isTrue trivial
  | .reject _ => isTrue trivial
  | .done p died =>
    inferInstanceAs
      (Decidable (s.payloadSet p = none → died = true → s.status p.paymentHash ≠ .deleted))
  | .close _ _ => isTrue trivial

/-- Two parts in one asset, and the hook. -/
def events : List Event :=
  [.arrive true (part 0 60 (some gold)), .arrive true (part 1 40 (some gold)),
    .done ⟨1, .replicate 32 4, some 0⟩ false]

/-- Both parts are fulfilled. -/
theorem assets_never_mix_two_parts :
    ∃ s, Lib.runWhile (step invoices) Allowed start events = some s ∧
      s.outcomes = [(0, .fulfilled), (1, .fulfilled)] ∧
      ∀ set ∈ s.paid, PaidInOneAsset invoices set := by
  have hsome : (Lib.runWhile (step invoices) Allowed start events).map (·.outcomes) =
      some [(0, .fulfilled), (1, .fulfilled)] := by decide +kernel
  obtain ⟨s, hrun, houtcomes⟩ := map_eq_some_iff.1 hsome
  exact ⟨s, hrun, houtcomes,
    (assets_never_mix invoices s (Lib.Reaches.start.runWhile hrun)).2.2.1⟩

/-- A part that arrives while the hook is asked has the set's timer freed again. After a payment to
ourselves, without an asset, parts in two assets are taken for one payment. -/
theorem late_part_and_mixed_assets :
    (([.arrive true (part 0 100 (some gold)), .arrive true (part 1 100 (some gold))].foldlM
      (step invoices) start).map (·.undefined) = some true) ∧
    ([.arrive false (part 0 10 none), .arrive false (part 1 40 (some gold)),
        .arrive false (part 2 50 (some silver))].foldlM (step invoices) start).map
          (fun s => s.paid.map fun set => set.inpays.map (·.asset)) =
      some [[none, some gold, some silver]] := by
  constructor <;> decide +kernel

end PartsExample

end SeqLN.Mpp
