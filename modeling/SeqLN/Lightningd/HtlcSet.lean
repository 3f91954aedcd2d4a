import SeqLN.Lightningd.Forward

/-!
# The parts of a payment

`lightningd/htlc_set.c` and `lightningd/invoice.c`: the HTLCs that pay an invoice are gathered in a set
until they reach the total, when the `invoice_payment` hook is asked and the set fulfilled. `Accounted`:
every HTLC that arrived is waiting in one set, or was failed or fulfilled once, or is gone; every step
keeps this, as long as freed memory is not used.
-/

namespace SeqLN.Mpp

open SeqLN.Forward

/-! ### Invoices and parts -/

/-- Source: `struct invoice_details` -/
structure Details where
  asset : Option AssetTag
  msat : Option ℕ
  /-- A secret must come with a payment: a compulsory `var_onion`, or an invoice of an offer. -/
  wantsSecret : Bool
  /-- Source: the compulsory `payment_secret` feature -/
  compulsorySecret : Bool
  secret : ByteString 32

/-- An HTLC that pays an invoice, or a payment to ourselves, which has no asset.
Source: the arguments of `htlc_set_add_`, `struct incoming_payment` -/
structure Part where
  id : ℕ
  msat : ℕ
  totalMsat : ℕ
  totalMsat_lt : totalMsat < 2 ^ 64
  invoiceMsatOverride : Option ℕ
  paymentHash : ByteString 32
  paymentSecret : Option (ByteString 32)
  asset : Option AssetTag
  deriving DecidableEq

/-- Two assets, where both are given, are one. -/
def sameAsset (a b : Option AssetTag) : Bool :=
  match a, b with
  | some a, some b => a = b
  | _, _ => true

/-- What a part is expected to pay in all. -/
def expectedMsat (details : Details) (part : Part) : Option ℕ :=
  details.msat.map fun msat => part.invoiceMsatOverride.getD msat

/-- The total is not less than expected, and not more than twice that, where twice it fits. Source:
`invoice_check_payment` -/
def totalOk (details : Details) (part : Part) : Bool :=
  match expectedMsat details part with
  | none => true
  | some expected =>
    expected ≤ part.totalMsat &&
      match amountAdd expected expected with
      | some twice => part.totalMsat ≤ twice
      | none => true

/-- The part may pay an unpaid invoice. Source: `invoice_check_payment`, and `htlc_set_add_` for a
compulsory secret -/
def invoiceCheckPayment (details : Details) (part : Part) : Bool :=
  sameAsset part.asset details.asset &&
    !(details.wantsSecret && part.paymentSecret.isNone) &&
    (match part.paymentSecret with
    | some secret => secret = details.secret
    | none => true) &&
    totalOk details part &&
    !(details.compulsorySecret && part.paymentSecret.isNone)

/-! ### Sets -/

/-- Source: `struct htlc_set` -/
structure HtlcSet where
  /-- Which set it is. -/
  sid : ℕ
  paymentHash : ByteString 32
  totalMsat : ℕ
  soFar : ℕ
  asset : Option AssetTag
  inpays : List Part
  /-- The timer has not been freed. -/
  timeout : Bool
  deriving DecidableEq

/-- What happened to a part. -/
inductive Outcome where
  | failed
  | fulfilled
  deriving DecidableEq

/-- An invoice that was not paid: it can be, it has expired or was paid otherwise, or it was
deleted. -/
inductive InvoiceState where
  | unpaid
  | closed
  | deleted
  deriving DecidableEq

/-- A call of the hook. Source: `struct invoice_payment_hook_payload` -/
structure Payload where
  pid : ℕ
  paymentHash : ByteString 32
  /-- The set, until it is freed. -/
  set : Option ℕ
  deriving DecidableEq

/-- Source: `struct lightningd` -/
structure State where
  status : ByteString 32 → InvoiceState
  sets : List HtlcSet
  payloads : List Payload
  outcomes : List (ℕ × Outcome)
  /-- HTLCs that went away while their set waited. -/
  gone : List ℕ
  /-- The sets that were fulfilled. -/
  paid : List HtlcSet
  /-- Every HTLC that arrived. -/
  seen : List ℕ
  /-- Freed memory was used. -/
  undefined : Bool
  next : ℕ

/-- At start. -/
def start : State where
  status _ := .unpaid
  sets := []
  payloads := []
  outcomes := []
  gone := []
  paid := []
  seen := []
  undefined := false
  next := 0

/-- The set is freed, and calls of the hook lose it. Source: `tal_free` of a set, with
`destroy_htlc_set` and `invoice_payload_remove_set` -/
def State.freeSet (s : State) (set : HtlcSet) : State :=
  { s with
    sets := s.sets.erase set
    payloads := s.payloads.map fun p => if p.set = some set.sid then { p with set := none } else p }

/-- The parts of a set have an outcome. -/
def State.resolve (s : State) (parts : List Part) (outcome : Outcome) : State :=
  { s with outcomes := s.outcomes ++ parts.map fun p => (p.id, outcome) }

/-- Source: `htlc_set_fail_` -/
def State.htlcSetFail (s : State) (set : HtlcSet) : State :=
  (s.resolve set.inpays .failed).freeSet set

/-- Source: `htlc_set_fulfill` -/
def State.htlcSetFulfill (s : State) (set : HtlcSet) : State :=
  { (s.resolve set.inpays .fulfilled).freeSet set with paid := s.paid ++ [set] }

/-- The other parts of a set are failed. Source: `htlc_set_inpay_destroyed` -/
def State.inpayDestroyed (s : State) (set : HtlcSet) (part : Part) : State :=
  (({ s with gone := part.id :: s.gone } : State).resolve (set.inpays.erase part) .failed).freeSet set

/-- The part alone is failed. Source: `fail` in `htlc_set_add_` -/
def State.failPart (s : State) (part : Part) : State := s.resolve [part] .failed

/-- Source: `invoice_payment_hooks_done`, for the set of a call -/
def State.hooksDone (s : State) (paymentHash : ByteString 32) (set : Option HtlcSet) : State :=
  match s.status paymentHash, set with
  -- the label is not there, and the set is failed whether there is one or not
  | .deleted, none => { s with undefined := true }
  | .deleted, some set => s.htlcSetFail set
  | .closed, none => s
  | .closed, some set => s.htlcSetFail set
  | .unpaid, none => { s with status := Function.update s.status paymentHash .closed }
  | .unpaid, some set =>
    { s.htlcSetFulfill set with status := Function.update s.status paymentHash .closed }

/-- The set is complete: the timer is freed and the hook called, if there is one. Source: the end of
`htlc_set_add_`, `invoice_try_pay` -/
def State.complete (s : State) (hooked : Bool) (set : HtlcSet) : State :=
  let now := { set with timeout := false }
  let t := { s with sets := now :: s.sets, undefined := s.undefined || !set.timeout }
  if hooked then
    { t with payloads := ⟨t.next, set.paymentHash, some set.sid⟩ :: t.payloads, next := t.next + 1 }
  else t.hooksDone set.paymentHash (some now)

/-- A part that is in a set is counted. Source: the second half of `htlc_set_add_`; `s` is without the
set -/
def State.count (s : State) (hooked : Bool) (set : HtlcSet) (part : Part) : State :=
  let fail := ({ s with sets := set :: s.sets } : State).htlcSetFail set
  if part.totalMsat ≠ set.totalMsat then fail
  else
    match amountAdd set.soFar part.msat with
    | none => fail
    | some soFar =>
      let set := { set with soFar }
      if part.totalMsat ≤ soFar then s.complete hooked set
      else if part.paymentSecret = none then
        ({ s with sets := set :: s.sets } : State).htlcSetFail set
      else { s with sets := set :: s.sets }

/-- Source: `new_htlc_set` -/
def newHtlcSet (sid : ℕ) (part : Part) : HtlcSet where
  sid
  paymentHash := part.paymentHash
  totalMsat := part.totalMsat
  soFar := 0
  asset := part.asset
  inpays := [part]
  timeout := true

/-- The set that gathers an invoice's parts. Source: `htlc_set_map_get` -/
def State.setOf (s : State) (paymentHash : ByteString 32) : Option HtlcSet :=
  s.sets.find? (·.paymentHash = paymentHash)

/-- Source: `htlc_set_add_` -/
def State.htlcSetAdd (invoices : ByteString 32 → Option Details) (s : State) (hooked : Bool)
    (part : Part) : State :=
  match invoices part.paymentHash with
  | none => s.failPart part
  | some details =>
    if s.status part.paymentHash ≠ .unpaid ∨ invoiceCheckPayment details part = false then
      s.failPart part
    else
      match s.setOf part.paymentHash with
      | none => { s with next := s.next + 1 }.count hooked (newHtlcSet s.next part) part
      | some set =>
        if sameAsset part.asset set.asset = false then s.failPart part
        else if part.paymentSecret = none then s.failPart part
        else
          { s with sets := s.sets.erase set }.count hooked
            { set with inpays := set.inpays ++ [part] } part

/-- What can happen. -/
inductive Event where
  /-- A part arrives; `hooked`: a plugin has the `invoice_payment` hook. -/
  | arrive (hooked : Bool) (part : Part)
  /-- The timer of a set runs out. -/
  | timeout (set : HtlcSet)
  /-- An HTLC that waits in a set goes away. -/
  | destroyed (set : HtlcSet) (part : Part)
  /-- A plugin refuses the payment. -/
  | reject (payload : Payload)
  /-- The last plugin has agreed, or has died. -/
  | done (payload : Payload) (died : Bool)
  /-- The invoice expires, is paid otherwise, or is deleted. -/
  | close (paymentHash : ByteString 32) (deleted : Bool)

/-- The set of a call, while it is there. -/
def State.payloadSet (s : State) (p : Payload) : Option HtlcSet :=
  p.set.bind fun sid => s.sets.find? (·.sid = sid)

/-- One event, where it can happen. Nothing is said of what follows the use of freed memory. -/
def step (invoices : ByteString 32 → Option Details) (s : State) : Event → Option State
  | .arrive hooked part =>
    if s.undefined = false ∧ part.id ∉ s.seen then
      some ({ s with seen := part.id :: s.seen }.htlcSetAdd invoices hooked part)
    else none
  | .timeout set =>
    if s.undefined = false ∧ set ∈ s.sets ∧ set.timeout = true then some (s.htlcSetFail set) else none
  | .destroyed set part =>
    if s.undefined = false ∧ set ∈ s.sets ∧ part ∈ set.inpays then
      some (s.inpayDestroyed set part)
    else none
  | .reject p =>
    if s.undefined = false ∧ p ∈ s.payloads then
      let t := { s with payloads := s.payloads.erase p }
      match s.payloadSet p with
      -- `invoice_payment_deserialize`: the set has gone
      | none => some t
      | some set => some (t.htlcSetFail set)
    else none
  | .done p died =>
    if s.undefined = false ∧ p ∈ s.payloads then
      let t := { s with payloads := s.payloads.erase p }
      if died = false ∧ s.payloadSet p = none then some t
      else some (t.hooksDone p.paymentHash (s.payloadSet p))
    else none
  | .close paymentHash deleted =>
    if s.undefined = false then
      some { s with
        status := Function.update s.status paymentHash (if deleted then .deleted else .closed) }
    else none

/-! ### Every HTLC once -/

variable {s : State} {set : HtlcSet}

/-- The HTLCs of some parts. -/
def partIds (parts : List Part) : Multiset ℕ := (parts.map (·.id) : List ℕ)

/-- The HTLCs that wait in a set. -/
def State.waiting (s : State) : Multiset ℕ := (s.sets.map fun set => partIds set.inpays).sum

/-- The HTLCs that wait, that have an outcome, and that are gone. -/
def State.ids (s : State) : Multiset ℕ :=
  s.waiting + ((s.outcomes.map Prod.fst : List ℕ) + (s.gone : Multiset ℕ))

lemma partIds_append (a b : List Part) : partIds (a ++ b) = partIds a + partIds b := by
  unfold partIds
  rw [List.map_append, Multiset.coe_add]

lemma ids_resolve (s : State) (parts : List Part) (outcome : Outcome) :
    (s.resolve parts outcome).ids = s.ids + partIds parts := by
  have hids : (parts.map fun p => (p.id, outcome)).map Prod.fst = parts.map (·.id) := by
    rw [List.map_map]
    rfl
  unfold State.ids State.resolve
  dsimp only
  rw [List.map_append, hids, ← Multiset.coe_add]
  unfold partIds State.waiting
  abel

/-- A set that is freed takes its parts with it. -/
theorem ids_freeSet (h : set ∈ s.sets) : (s.freeSet set).ids + partIds set.inpays = s.ids := by
  have hsum := List.sum_map_erase (fun set : HtlcSet => partIds set.inpays) h
  unfold State.ids State.freeSet State.waiting
  dsimp only
  rw [← hsum]
  abel

lemma ids_htlcSetFail (h : set ∈ s.sets) : (s.htlcSetFail set).ids = s.ids := by
  have hfree := ids_freeSet (s := s.resolve set.inpays .failed) h
  rw [ids_resolve] at hfree
  exact add_right_cancel hfree

/-- The part that went away is gone, and the others are failed. -/
theorem ids_inpayDestroyed {part : Part} (h : set ∈ s.sets) (hpart : part ∈ set.inpays) :
    (s.inpayDestroyed set part).ids = s.ids := by
  have hparts : partIds set.inpays = {part.id} + partIds (set.inpays.erase part) :=
    Multiset.coe_eq_coe.2 ((List.perm_cons_erase hpart).map _)
  have hgone : ({ s with gone := part.id :: s.gone } : State).ids = s.ids + {part.id} := by
    unfold State.ids State.waiting
    dsimp only
    rw [← Multiset.cons_coe, ← Multiset.singleton_add]
    abel
  have hfree := ids_freeSet
    (s := ({ s with gone := part.id :: s.gone } : State).resolve (set.inpays.erase part) .failed) h
  rw [ids_resolve, hgone, hparts, ← add_assoc] at hfree
  exact add_right_cancel (add_right_cancel hfree)

lemma ids_htlcSetFulfill (h : set ∈ s.sets) : (s.htlcSetFulfill set).ids = s.ids := by
  have hfree := ids_freeSet (s := s.resolve set.inpays .fulfilled) h
  rw [ids_resolve] at hfree
  exact add_right_cancel hfree

lemma ids_hooksDone {paymentHash : ByteString 32} {set : Option HtlcSet}
    (h : ∀ a, set = some a → a ∈ s.sets) : (s.hooksDone paymentHash set).ids = s.ids := by
  unfold State.hooksDone
  split
  · rfl
  · exact ids_htlcSetFail (h _ rfl)
  · rfl
  · exact ids_htlcSetFail (h _ rfl)
  · rfl
  · exact ids_htlcSetFulfill (h _ rfl)

lemma ids_cons (s : State) (set : HtlcSet) :
    ({ s with sets := set :: s.sets } : State).ids = s.ids + partIds set.inpays := by
  unfold State.ids State.waiting
  dsimp only
  rw [List.map_cons, List.sum_cons]
  abel

lemma ids_complete (s : State) (hooked : Bool) (set : HtlcSet) :
    (s.complete hooked set).ids = s.ids + partIds set.inpays := by
  unfold State.complete
  dsimp only
  split
  · exact ids_cons s { set with timeout := false }
  · rw [ids_hooksDone fun a ha => Option.some.inj ha ▸ List.mem_cons_self]
    exact ids_cons s { set with timeout := false }

lemma ids_count (s : State) (hooked : Bool) (set : HtlcSet) (part : Part) :
    (s.count hooked set part).ids = s.ids + partIds set.inpays := by
  have hfail (set : HtlcSet) :
      (({ s with sets := set :: s.sets } : State).htlcSetFail set).ids = s.ids + partIds set.inpays := by
    rw [ids_htlcSetFail List.mem_cons_self, ids_cons]
  unfold State.count
  dsimp only
  split
  · exact hfail set
  · split
    · exact hfail set
    · next soFar _ =>
      split
      · exact ids_complete s hooked { set with soFar }
      · split
        · exact hfail { set with soFar }
        · exact ids_cons s { set with soFar }

/-- An arrival accounts for its own HTLC, and for no other. -/
theorem ids_htlcSetAdd (invoices : ByteString 32 → Option Details) (s : State) (hooked : Bool)
    (part : Part) : (s.htlcSetAdd invoices hooked part).ids = s.ids + {part.id} := by
  have hfail : (s.failPart part).ids = s.ids + {part.id} := ids_resolve s [part] .failed
  unfold State.htlcSetAdd
  split
  · exact hfail
  · split
    · exact hfail
    · split
      · rw [ids_count]
        rfl
      · next set hset =>
        split
        · exact hfail
        · split
          · exact hfail
          · have herase : ({ s with sets := s.sets.erase set } : State).ids + partIds set.inpays =
                s.ids := ids_freeSet (s := s) (List.mem_of_find?_eq_some hset)
            rw [ids_count, partIds_append, ← add_assoc, herase]
            rfl

lemma seen_hooksDone (s : State) (paymentHash : ByteString 32) (set : Option HtlcSet) :
    (s.hooksDone paymentHash set).seen = s.seen := by
  unfold State.hooksDone
  split <;> rfl

lemma seen_complete (s : State) (hooked : Bool) (set : HtlcSet) :
    (s.complete hooked set).seen = s.seen := by
  unfold State.complete
  dsimp only
  split
  · rfl
  · exact seen_hooksDone _ _ _

lemma seen_count (s : State) (hooked : Bool) (set : HtlcSet) (part : Part) :
    (s.count hooked set part).seen = s.seen := by
  unfold State.count
  dsimp only
  split
  · rfl
  · split
    · rfl
    · split
      · exact seen_complete _ _ _
      · split <;> rfl

lemma seen_htlcSetAdd (invoices : ByteString 32 → Option Details) (s : State) (hooked : Bool)
    (part : Part) : (s.htlcSetAdd invoices hooked part).seen = s.seen := by
  unfold State.htlcSetAdd
  split
  · rfl
  · split
    · rfl
    · split
      · exact seen_count _ _ _ _
      · split
        · rfl
        · split
          · rfl
          · exact seen_count _ _ _ _

/-- Every HTLC that arrived is accounted for once. -/
structure Accounted (s : State) : Prop where
  ids_eq : s.ids = (s.seen : Multiset ℕ)
  nodup : s.seen.Nodup

lemma Accounted.start : Accounted start := ⟨rfl, List.nodup_nil⟩

lemma mem_of_payloadSet {p : Payload} (h : s.payloadSet p = some set) : set ∈ s.sets := by
  obtain ⟨_, _, h⟩ := Option.bind_eq_some_iff.1 h
  exact List.mem_of_find?_eq_some h

/-- Every event keeps the parts accounted for. -/
theorem Accounted.step {invoices : ByteString 32 → Option Details} {t : State} {e : Event}
    (hs : Accounted s) (h : step invoices s e = some t) : Accounted t := by
  have keep {u : State} (hids : u.ids = s.ids) (hseen : u.seen = s.seen) : Accounted u :=
    ⟨by rw [hids, hseen, hs.ids_eq], hseen ▸ hs.nodup⟩
  cases e with
  | arrive hooked part =>
    obtain ⟨⟨_, hnew⟩, h⟩ := Option.ite_none_right_eq_some.1 h
    cases h
    have hids := ids_htlcSetAdd invoices { s with seen := part.id :: s.seen } hooked part
    have hseen : ({ s with seen := part.id :: s.seen }.htlcSetAdd invoices hooked part).seen =
        part.id :: s.seen := seen_htlcSetAdd _ _ _ _
    refine ⟨?_, ?_⟩
    · rw [hids, hseen, ← Multiset.cons_coe, ← hs.ids_eq, add_comm, Multiset.singleton_add]
      rfl
    · rw [hseen]
      exact List.nodup_cons.2 ⟨hnew, hs.nodup⟩
  | timeout set =>
    obtain ⟨⟨_, hset, _⟩, h⟩ := Option.ite_none_right_eq_some.1 h
    cases h
    exact keep (ids_htlcSetFail hset) rfl
  | destroyed set part =>
    obtain ⟨⟨_, hset, hpart⟩, h⟩ := Option.ite_none_right_eq_some.1 h
    cases h
    exact keep (ids_inpayDestroyed hset hpart) rfl
  | reject p =>
    obtain ⟨_, h⟩ := Option.ite_none_right_eq_some.1 h
    split at h
    · cases h
      exact keep rfl rfl
    · next set hset =>
      cases h
      exact keep (ids_htlcSetFail (s := { s with payloads := s.payloads.erase p })
        (mem_of_payloadSet hset)) rfl
  | done p died =>
    obtain ⟨_, h⟩ := Option.ite_none_right_eq_some.1 h
    split at h
    · cases h
      exact keep rfl rfl
    · cases h
      exact keep (ids_hooksDone (s := { s with payloads := s.payloads.erase p })
        fun a ha => mem_of_payloadSet ha) (seen_hooksDone _ _ _)
  | close paymentHash deleted =>
    obtain ⟨_, h⟩ := Option.ite_none_right_eq_some.1 h
    cases h
    exact keep rfl rfl

end SeqLN.Mpp
