import SeqLN.Lib.Runs
import SeqLN.Plugins.Holdinvoice

/-!
# What a hold is settled for

No hook call is answered twice, in any run (`Answering`). That a preimage is given only for the whole
amount holds in the runs in which `holdinvoicesettle` is called for a hold that is accepted, or settled
already: the plugin does not refuse it for a hold without any part, nor for a cancelled one. `Backed`:
a hold is accepted or settled only if since its registration it had HTLCs of its asset for the whole
amount.
-/

namespace SeqLN.Holdinvoice

open List

variable {κ : Type} {w : World κ} {s : State κ}

/-! ### Lookups -/

/-- What a restart finds. -/
theorem State.lookup_restart (w : World κ) (s : State κ) (ph : PaymentHash) :
    (s.restart w).held.lookup ph = (s.disk.lookup ph).map (State.restored w) :=
  dlookup_map₂ (f := fun _ => State.restored w) ph

/-- A property of all entries is kept by a change of one of them. -/
theorem forall_lookup_insert {β : Type} {l : AList fun _ : PaymentHash => β} {ph : PaymentHash} {b : β}
    {Φ : PaymentHash → β → Prop} (h : ∀ ph' b', ph' ≠ ph → l.lookup ph' = some b' → Φ ph' b')
    (hb : Φ ph b) : ∀ ph' b', (l.insert ph b).lookup ph' = some b' → Φ ph' b' := by
  intro ph' b' hlook
  by_cases hph : ph' = ph
  · subst hph
    rw [AList.lookup_insert, Option.some.injEq] at hlook
    exact hlook ▸ hb
  · rw [AList.lookup_insert_ne hph] at hlook
    exact h ph' b' hph hlook

section count

variable [DecidableEq κ] {e : Hold κ} {k : κ} {n : ℕ}

/-- What counting an HTLC leaves as it is. -/
theorem Hold.count_fields : (e.count k n).requests = e.requests ∧ (e.count k n).state = e.state ∧
    (e.count k n).amountMsat = e.amountMsat ∧ (e.count k n).asset = e.asset := by
  unfold Hold.count
  split <;> exact ⟨rfl, rfl, rfl, rfl⟩

end count

/-! ### Answers -/

variable {usable : List (Option AssetId)}

/-- The hook call that a note answers. -/
def Note.call : Note κ → Option ℕ
  | .answered call _ _ => some call
  | _ => none

/-- The hook calls that were answered. -/
def answeredCalls (log : List (Note κ)) : List ℕ := log.filterMap Note.call

@[simp] lemma answeredCalls_answered (call : ℕ) (ph : PaymentHash) (a : Answer)
    (log : List (Note κ)) : answeredCalls (.answered call ph a :: log) = call :: answeredCalls log :=
  rfl

@[simp] lemma answeredCalls_registered (ph : PaymentHash) (amountMsat : ℤ)
    (asset : Option HoldAsset) (log : List (Note κ)) :
    answeredCalls (.registered ph amountMsat asset :: log) = answeredCalls log :=
  rfl

@[simp] lemma answeredCalls_answerAll (ph : PaymentHash) (a : Answer) (requests : List ℕ)
    (log : List (Note κ)) :
    answeredCalls (answerAll ph a requests ++ log) = requests.reverse ++ answeredCalls log := by
  simp [answeredCalls, answerAll, ← map_reverse, Note.call, Function.comp_def]

/-- The hook calls that a hold has are its own, and not answered. -/
structure Hold.Waits (w : World κ) (calls : List κ) (answered : List ℕ) (ph : PaymentHash)
    (e : Hold κ) : Prop where
  nodup : e.requests.Nodup
  unanswered : ∀ c ∈ e.requests, c ∉ answered
  own : ∀ c ∈ e.requests, ∃ k ∈ calls[c]?, (w.htlc k).paymentHash = ph

/-- No hook call is answered twice. -/
structure Answering (w : World κ) (s : State κ) : Prop where
  once : (answeredCalls s.log).Nodup
  lt : ∀ c ∈ answeredCalls s.log, c < s.calls.length
  held : ∀ ph e, s.held.lookup ph = some e → e.Waits w s.calls (answeredCalls s.log) ph

namespace Answering

variable {ph : PaymentHash} {e e' : Hold κ}

/-- All hook calls of one hold are answered. -/
theorem answerAll (h : Answering w s) (he : s.held.lookup ph = some e) (he' : e'.requests = [])
    (a : Answer) :
    Answering w { s with
      held := s.held.insert ph e', log := Holdinvoice.answerAll ph a e.requests ++ s.log } := by
  have hw := h.held ph e he
  constructor
  · show (answeredCalls (Holdinvoice.answerAll ph a e.requests ++ s.log)).Nodup
    rw [answeredCalls_answerAll, nodup_append]
    refine ⟨nodup_reverse.2 hw.nodup, h.once, ?_⟩
    rintro c hc _ hans rfl
    exact hw.unanswered c (mem_reverse.1 hc) hans
  · show ∀ c ∈ answeredCalls (Holdinvoice.answerAll ph a e.requests ++ s.log), c < s.calls.length
    intro c hc
    rw [answeredCalls_answerAll, mem_append, mem_reverse] at hc
    rcases hc with hc | hc
    · obtain ⟨k, hk, _⟩ := hw.own c hc
      exact (List.getElem?_eq_some_iff.1 hk).1
    · exact h.lt c hc
  · refine forall_lookup_insert (fun ph' e₁ hne he₁ => ?_) ⟨?_, ?_, ?_⟩
    · have hw₁ := h.held ph' e₁ he₁
      refine ⟨hw₁.nodup, fun c hc => ?_, hw₁.own⟩
      rw [answeredCalls_answerAll, mem_append, mem_reverse, not_or]
      refine ⟨fun hc' => hne ?_, hw₁.unanswered c hc⟩
      -- a call of both holds would be for both hashes
      obtain ⟨k, hk, rfl⟩ := hw₁.own c hc
      obtain ⟨k', hk', rfl⟩ := hw.own c hc'
      rw [Option.mem_def] at hk hk'
      rw [hk, Option.some.injEq] at hk'
      rw [hk']
    all_goals simp [he']

/-- A hook call comes and is answered. -/
theorem answer (h : Answering w s) (k : κ) (a : Answer) :
    Answering w { s with
      calls := s.calls ++ [k], log := .answered s.calls.length ph a :: s.log } := by
  constructor
  · show (s.calls.length :: answeredCalls s.log).Nodup
    refine nodup_cons.2 ⟨fun hmem => ?_, h.once⟩
    exact absurd (h.lt _ hmem) (lt_irrefl _)
  · intro c hc
    rw [answeredCalls_answered, mem_cons] at hc
    rw [length_append, length_singleton]
    rcases hc with rfl | hc
    · omega
    · have := h.lt c hc
      omega
  · intro ph' e he
    have hw := h.held ph' e he
    refine ⟨hw.nodup, fun c hc => ?_, fun c hc => ?_⟩
    · rw [answeredCalls_answered, mem_cons, not_or]
      refine ⟨?_, hw.unanswered c hc⟩
      rintro rfl
      obtain ⟨k', hk', _⟩ := hw.own _ hc
      simp at hk'
    · obtain ⟨k', hk', hph⟩ := hw.own c hc
      exact ⟨k', List.getElem?_append_left (List.getElem?_eq_some_iff.1 hk').1 ▸ hk', hph⟩

/-- A hook call comes and is held. -/
theorem hold [DecidableEq κ] {k : κ} {amountMsat : ℕ} {ks : List κ} (h : Answering w s)
    (he : s.held.lookup (w.htlc k).paymentHash = some e) :
    Answering w { s with
      calls := s.calls ++ [k]
      held := s.held.insert (w.htlc k).paymentHash (e.add k amountMsat s.calls.length)
      log := .holding ph ks :: s.log } := by
  have hgrow : ∀ {ph' : PaymentHash} {c : ℕ}, (∃ k' ∈ s.calls[c]?, (w.htlc k').paymentHash = ph') →
      ∃ k' ∈ (s.calls ++ [k])[c]?, (w.htlc k').paymentHash = ph' := by
    rintro ph' c ⟨k', hk', hph⟩
    exact ⟨k', List.getElem?_append_left (List.getElem?_eq_some_iff.1 hk').1 ▸ hk', hph⟩
  refine ⟨h.once, fun c hc => ?_, forall_lookup_insert (fun ph' e₁ _ he₁ => ?_) ?_⟩
  · have hlt := h.lt c hc
    rw [length_append]
    omega
  · have hw₁ := h.held ph' e₁ he₁
    exact ⟨hw₁.nodup, hw₁.unanswered, fun c hc => hgrow (hw₁.own c hc)⟩
  · have hw := h.held _ e he
    have hreq : (e.add k amountMsat s.calls.length).requests = e.requests ++ [s.calls.length] :=
      congrArg (· ++ [s.calls.length]) Hold.count_fields.1
    refine ⟨?_, ?_, ?_⟩
    · rw [hreq, nodup_append]
      refine ⟨hw.nodup, nodup_singleton _, ?_⟩
      rintro c hc _ hc' rfl
      obtain ⟨k', hk', _⟩ := hw.own c hc
      rw [mem_singleton.1 hc'] at hk'
      simp at hk'
    · intro c hc
      rw [hreq, mem_append, mem_singleton] at hc
      rcases hc with hc | rfl
      · exact hw.unanswered c hc
      · exact fun hans => absurd (h.lt _ hans) (lt_irrefl _)
    · intro c hc
      rw [hreq, mem_append, mem_singleton] at hc
      rcases hc with hc | rfl
      · exact hgrow (hw.own c hc)
      · exact ⟨k, by simp, rfl⟩

/-- The log and the calls stay, and new holds have no calls. -/
theorem of_holds {s' : State κ} (h : Answering w s) (hcalls : s'.calls = s.calls)
    (hlog : answeredCalls s'.log = answeredCalls s.log)
    (hheld : ∀ ph e, s'.held.lookup ph = some e → e.requests = [] ∨ s.held.lookup ph = some e) :
    Answering w s' := by
  refine ⟨hlog ▸ h.once, fun c hc => ?_, fun ph e he => ?_⟩
  · rw [hcalls]
    exact h.lt c (hlog ▸ hc)
  · rw [hcalls, hlog]
    rcases hheld ph e he with hnil | he
    · constructor <;> simp [hnil]
    · exact h.held ph e he

lemma holdinvoice {amountMsat mppTimeout : ℤ} {asset : AssetArg} (h : Answering w s) :
    Answering w (s.holdinvoice w ph amountMsat mppTimeout asset usable) := by
  unfold State.holdinvoice
  split
  · exact h
  split
  · exact h
  split
  · exact h
  next hold _ =>
  dsimp only
  cases he : s.held.lookup ph with
  | none =>
    refine h.of_holds rfl (by simp [Holdinvoice.answerAll, State.put]) ?_
    exact forall_lookup_insert (fun _ _ _ he₁ => .inr he₁) (.inl rfl)
  | some e =>
    have hnew : (Hold.new ⟨.waiting, none, amountMsat, hold⟩ : Hold κ).requests = [] := rfl
    exact (h.answerAll he hnew (.fail .temporary)).of_holds rfl (by simp [State.put])
      fun _ _ he₁ => .inr he₁

/-- No event answers a hook call twice. -/
theorem step [DecidableEq κ] (h : Answering w s) (ev : Event κ) : Answering w (step w s ev) := by
  cases ev with
  | holdinvoice ph amountMsat mppTimeout asset usable => exact h.holdinvoice
  | holdinvoicesettle ph preimage =>
    show Answering w (s.holdinvoicesettle w ph preimage)
    unfold State.holdinvoicesettle
    split
    · exact h
    · next e he =>
      split_ifs
      · exact h
      · exact h
      · exact (h.answerAll he rfl (.resolve (some preimage))).of_holds rfl rfl
          fun _ _ he₁ => .inr he₁
  | holdinvoicecancel ph =>
    show Answering w (s.holdinvoicecancel ph)
    unfold State.holdinvoicecancel
    split
    · exact h
    · next e he =>
      exact (h.answerAll he rfl (.fail .temporary)).of_holds rfl rfl fun _ _ he₁ => .inr he₁
  | htlcAccepted k rel =>
    show Answering w (s.htlcAccepted w k rel)
    unfold State.htlcAccepted
    dsimp only
    split
    · exact h.answer k _
    · next e he =>
      split_ifs
      · exact h.answer k _
      · split
        · exact h.answer k _
        · exact h.answer k _
        · exact h.hold he
        · exact h.hold he
  | timeOut ph =>
    show Answering w (s.timeOut ph)
    unfold State.timeOut
    split
    · exact h
    · next e he =>
      split_ifs
      · exact h
      · exact h.answerAll he rfl (.fail .mppTimeout)
  | restarted =>
    refine h.of_holds rfl rfl fun ph e he => .inl ?_
    rw [Holdinvoice.step, State.lookup_restart] at he
    obtain ⟨r, _, rfl⟩ := Option.map_eq_some_iff.1 he
    rfl

lemma init : Answering w State.init where
  once := nodup_nil
  lt _ hc := by cases hc
  held _ _ he := by cases he

end Answering

/-! ### Registrations -/

/-- The amount and the asset of a hash's registration, and its hold's HTLCs at the moments since,
from a log with the newest note first. -/
def since (ph : PaymentHash) : List (Note κ) → Option ((ℤ × Option HoldAsset) × List (List κ))
  | [] => none
  | .registered ph' amountMsat asset :: log =>
    if ph' = ph then some ((amountMsat, asset), []) else since ph log
  | .holding ph' htlcs :: log =>
    if ph' = ph then (since ph log).map fun r => (r.1, htlcs :: r.2) else since ph log
  | .answered _ _ _ :: log => since ph log

/-- At one of the moments, distinct HTLCs of one asset came to an amount. -/
def Reached (w : World κ) (amountMsat : ℤ) (asset : AssetId) (moments : List (List κ)) : Prop :=
  ∃ ks ∈ moments, ks.Nodup ∧ (∀ k ∈ ks, (w.htlc k).asset = some asset) ∧
    amountMsat ≤ (ks.map fun k => (w.htlc k).amountMsat).sum

/-- A registration, if it is for an amount in an asset, has been paid in full at some moment. -/
def Paid (w : World κ) (r : (ℤ × Option HoldAsset) × List (List κ)) : Prop :=
  ∀ asset, 0 < r.1.1 → r.1.2 = some (.id asset) → Reached w r.1.1 asset r.2

/-- A preimage was given only after the registration was paid in full. -/
def Note.Earned (w : World κ) (log : List (Note κ)) : Note κ → Prop
  | .answered _ ph (.resolve _) => ∃ r, since ph log = some r ∧ Paid w r
  | _ => True

@[simp] lemma since_answerAll (ph ph' : PaymentHash) (a : Answer) (requests : List ℕ)
    (log : List (Note κ)) : since ph (answerAll ph' a requests ++ log) = since ph log := by
  unfold answerAll
  rw [← map_reverse]
  induction requests.reverse with
  | nil => rfl
  | cons call calls ih => exact ih

/-- What is known of a hold or a record, from its state, its amount and its asset. -/
def Standing (w : World κ) (log : List (Note κ)) (ph : PaymentHash) (state : HoldState)
    (amountMsat : ℤ) (asset : Option HoldAsset) : Prop :=
  ∃ moments, since ph log = some ((amountMsat, asset), moments) ∧ asset ≠ some .legacyPolicy ∧
    (state = .accepted ∨ state = .settled → Paid w ((amountMsat, asset), moments))

section standing

variable {log log' : List (Note κ)} {ph ph' : PaymentHash} {state state' : HoldState}
  {amountMsat : ℤ} {asset : Option HoldAsset} {ks : List κ}

lemma Standing.of_since (h : Standing w log ph state amountMsat asset)
    (hsince : since ph log' = since ph log) : Standing w log' ph state amountMsat asset := by
  unfold Standing
  rw [hsince]
  exact h

lemma Standing.of_state (h : Standing w log ph state amountMsat asset)
    (hstate : state' = .accepted ∨ state' = .settled → state = .accepted ∨ state = .settled) :
    Standing w log ph state' amountMsat asset := by
  obtain ⟨moments, hsince, hasset, hpaid⟩ := h
  exact ⟨moments, hsince, hasset, fun hst => hpaid (hstate hst)⟩

lemma Standing.holding (h : Standing w log ph state amountMsat asset) :
    Standing w (.holding ph' ks :: log) ph state amountMsat asset := by
  by_cases hph : ph' = ph
  · obtain ⟨moments, hsince, hasset, hpaid⟩ := h
    refine ⟨ks :: moments, ?_, hasset, fun hst a hpos ha => ?_⟩
    · rw [since, if_pos hph, hsince, Option.map_some]
    · obtain ⟨ks', hmem, hreach⟩ := hpaid hst a hpos ha
      exact ⟨ks', mem_cons_of_mem ks hmem, hreach⟩
  · exact h.of_since (by rw [since, if_neg hph])

lemma Standing.registered_ne {amountMsat' : ℤ} {asset' : Option HoldAsset}
    (h : Standing w log ph state amountMsat asset) (hph : ph' ≠ ph) :
    Standing w (.registered ph' amountMsat' asset' :: log) ph state amountMsat asset :=
  h.of_since (by rw [since, if_neg hph])

end standing

/-- What a hold has counted is what its HTLCs, all in its asset, come to. -/
structure Hold.Counts (w : World κ) (e : Hold κ) : Prop where
  nodup : e.htlcs.Nodup
  asset : ∀ k ∈ e.htlcs, e.assetMatches (w.htlc k) = true
  received : e.receivedMsat = (e.htlcs.map fun k => (w.htlc k).amountMsat).sum

/-- A hold is accepted or settled only if its registration was paid in full. -/
structure Backed (w : World κ) (s : State κ) : Prop where
  held : ∀ ph e, s.held.lookup ph = some e →
    e.Counts w ∧ Standing w s.log ph e.state e.amountMsat e.asset
  disk : ∀ ph r, s.disk.lookup ph = some r → Standing w s.log ph r.state r.amountMsat r.asset
  log : ∀ n log, n :: log <:+ s.log → n.Earned w log

/-! ### One step -/

/-- The preimage is asked for a hold that is accepted or settled, or has no amount. -/
def Guarded (s : State κ) : Event κ → Prop
  | .holdinvoicesettle ph _ =>
    ∀ e ∈ s.held.lookup ph, e.state = .accepted ∨ e.state = .settled ∨ e.amountMsat ≤ 0
  | _ => True

instance (s : State κ) : (e : Event κ) → Decidable (Guarded s e)
  | .holdinvoicesettle _ _ => inferInstanceAs (Decidable (∀ _ ∈ _, _))
  | .holdinvoice _ _ _ _ _ | .holdinvoicecancel _ | .htlcAccepted _ _ | .timeOut _ | .restarted =>
    isTrue trivial

lemma holdAsset_ne_legacyPolicy {arg : AssetArg} {asset : Option HoldAsset}
    (h : holdAsset w usable arg = some asset) : asset ≠ some .legacyPolicy := by
  unfold holdAsset at h
  split at h
  · cases arg with
    | absent =>
      obtain ⟨a, _, rfl⟩ := Option.map_eq_some_iff.1 h
      simp
    | id a =>
      cases h
      simp
    | malformed => cases h
  · cases h
    simp

section add

variable [DecidableEq κ] {e : Hold κ} {k : κ} {call : ℕ}

lemma Hold.Counts.count (h : e.Counts w) (hk : e.assetMatches (w.htlc k) = true) :
    (e.count k (w.htlc k).amountMsat).Counts w := by
  unfold Hold.count
  split
  · exact h
  · next hnew =>
    refine ⟨nodup_cons.2 ⟨hnew, h.nodup⟩, fun k' hk' => ?_, ?_⟩
    · rcases mem_cons.1 hk' with rfl | hk'
      · exact hk
      · exact h.asset k' hk'
    · rw [map_cons, List.sum_cons, h.received, add_comm]

lemma Hold.Counts.add (h : e.Counts w) (hk : e.assetMatches (w.htlc k) = true) :
    (e.add k (w.htlc k).amountMsat call).Counts w :=
  ⟨(h.count hk).nodup, (h.count hk).asset, (h.count hk).received⟩

/-- A hold is accepted by what it has received. -/
theorem Hold.add_state {n : ℕ}
    (h : (e.add k n call).state = .accepted ∨ (e.add k n call).state = .settled) :
    (e.state = .accepted ∨ e.state = .settled) ∨
      e.amountMsat ≤ (e.add k n call).receivedMsat := by
  unfold Hold.add at h ⊢
  dsimp only at h ⊢
  rw [Hold.count_fields.2.1, Hold.count_fields.2.2.1] at h
  split at h
  · next hacc => exact hacc.imp_left .inl
  · exact .inl h

end add

/-- The notes that a hold's answers add are earned if the preimage they give is. -/
theorem earned_answerAll {ph : PaymentHash} {a : Answer} {requests : List ℕ} {log : List (Note κ)}
    (h : ∀ n log', n :: log' <:+ log → n.Earned w log')
    (ha : ∀ p, a = .resolve p → ∃ r, since ph log = some r ∧ Paid w r) :
    ∀ n log', n :: log' <:+ answerAll ph a requests ++ log → n.Earned w log' := by
  unfold answerAll
  rw [← map_reverse]
  generalize requests.reverse = calls
  induction calls with
  | nil => exact h
  | cons call calls ih =>
    intro n log' hn
    rw [map_cons, cons_append, suffix_cons_iff] at hn
    rcases hn with heq | hn
    · obtain ⟨rfl, rfl⟩ := List.cons.inj heq
      cases a with
      | resolve p =>
        obtain ⟨r, hr, hpaid⟩ := ha p rfl
        refine ⟨r, ?_, hpaid⟩
        have hsame := since_answerAll ph ph (.resolve p) calls.reverse log
        rw [answerAll, map_reverse, reverse_reverse] at hsame
        rw [hsame, hr]
      | _ => trivial
    · exact ih n log' hn

/-- A note that is no preimage needs nothing. -/
theorem earned_cons {n : Note κ} {log : List (Note κ)} (h : ∀ n' log', n' :: log' <:+ log → n'.Earned w log')
    (hn : n.Earned w log) : ∀ n' log', n' :: log' <:+ n :: log → n'.Earned w log' := by
  intro n' log' hsuf
  rcases suffix_cons_iff.1 hsuf with heq | hsuf
  · obtain ⟨rfl, rfl⟩ := List.cons.inj heq
    exact hn
  · exact h n' log' hsuf

namespace Backed

variable {ph : PaymentHash} {e e' : Hold κ}

/-- The answers that a hold gives leave the registrations. -/
theorem answerAll {a : Answer} {requests : List ℕ} (h : Backed w s)
    (he' : e'.Counts w ∧ Standing w s.log ph e'.state e'.amountMsat e'.asset)
    (ha : ∀ p, a = .resolve p → ∃ r, since ph s.log = some r ∧ Paid w r) :
    Backed w { s with
      held := s.held.insert ph e', log := Holdinvoice.answerAll ph a requests ++ s.log } := by
  refine ⟨forall_lookup_insert (fun ph' e₁ _ he₁ => ?_) ?_, fun ph' r hr => ?_,
    earned_answerAll h.log ha⟩
  · obtain ⟨hcounts, hst⟩ := h.held ph' e₁ he₁
    exact ⟨hcounts, hst.of_since (since_answerAll ..)⟩
  · exact ⟨he'.1, he'.2.of_since (since_answerAll ..)⟩
  · exact (h.disk ph' r hr).of_since (since_answerAll ..)

/-- The hold is written to the datastore. -/
theorem persist (h : Backed w s) (he : s.held.lookup ph = some e) :
    Backed w { s with disk := s.disk.insert ph e.record } :=
  ⟨h.held, forall_lookup_insert (fun ph' r _ hr => h.disk ph' r hr) (h.held ph e he).2, h.log⟩

lemma counts_dropped (h : e'.htlcs = []) (hreceived : e'.receivedMsat = 0) : e'.Counts w := by
  constructor <;> simp [h, hreceived]

lemma holdinvoice {amountMsat mppTimeout : ℤ} {arg : AssetArg} (h : Backed w s) :
    Backed w (s.holdinvoice w ph amountMsat mppTimeout arg usable) := by
  unfold State.holdinvoice
  split
  · exact h
  split
  · exact h
  split
  · exact h
  next asset hasset =>
  dsimp only
  generalize ((s.held.lookup ph).map (·.requests)).getD [] = drops
  have hnew : Standing w
      (.registered ph amountMsat asset ::
        (Holdinvoice.answerAll ph (.fail .temporary) drops ++ s.log)) ph .waiting amountMsat asset :=
    ⟨[], by rw [since, if_pos rfl], holdAsset_ne_legacyPolicy hasset, nofun⟩
  have hother : ∀ {ph' state amountMsat' asset'}, ph' ≠ ph →
      Standing w s.log ph' state amountMsat' asset' →
      Standing w (.registered ph amountMsat asset ::
        (Holdinvoice.answerAll ph (.fail .temporary) drops ++ s.log)) ph' state amountMsat' asset' :=
    fun hne hst => (hst.of_since (since_answerAll ..)).registered_ne hne.symm
  refine ⟨forall_lookup_insert (fun ph' e₁ hne he₁ => ?_) ?_,
    forall_lookup_insert (fun ph' r hne hr => hother hne (h.disk ph' r hr)) hnew,
    earned_cons (earned_answerAll h.log nofun) trivial⟩
  · obtain ⟨hcounts, hst⟩ := h.held ph' e₁ he₁
    exact ⟨hcounts, hother hne hst⟩
  · exact ⟨counts_dropped rfl rfl, hnew⟩

lemma holdinvoicesettle {preimage : Preimage} (h : Backed w s)
    (hguard : Guarded s (.holdinvoicesettle ph preimage)) :
    Backed w (s.holdinvoicesettle w ph preimage) := by
  unfold State.holdinvoicesettle
  split
  · exact h
  next e he =>
  split_ifs
  · exact h
  · exact h
  obtain ⟨hcounts, moments, hsince, hasset, hpaid⟩ := h.held ph e he
  have hfull : Paid w ((e.amountMsat, e.asset), moments) := by
    rcases hguard e he with hst | hst | hle
    · exact hpaid (.inl hst)
    · exact hpaid (.inr hst)
    · intro a hpos _
      exact absurd hpos (not_lt.2 hle)
  have hsettled : Backed w { s with
      held := s.held.insert ph { e with preimage := some preimage, state := .settled, requests := [] }
      log := Holdinvoice.answerAll ph (.resolve (some preimage)) e.requests ++ s.log } :=
    h.answerAll
      ⟨⟨hcounts.nodup, hcounts.asset, hcounts.received⟩, moments, hsince, hasset, fun _ => hfull⟩
      fun _ _ => ⟨_, hsince, hfull⟩
  exact hsettled.persist (AList.lookup_insert _)

lemma holdinvoicecancel (h : Backed w s) : Backed w (s.holdinvoicecancel ph) := by
  unfold State.holdinvoicecancel
  split
  · exact h
  next e he =>
  have hcancelled : Backed w { s with
      held := s.held.insert ph { e.dropped with state := .cancelled }
      log := Holdinvoice.answerAll ph (.fail .temporary) e.requests ++ s.log } :=
    h.answerAll ⟨counts_dropped rfl rfl, (h.held ph e he).2.of_state nofun⟩ nofun
  exact hcancelled.persist (AList.lookup_insert _)

lemma timeOut (h : Backed w s) : Backed w (s.timeOut ph) := by
  unfold State.timeOut
  split
  · exact h
  next e he =>
  split_ifs
  · exact h
  · exact h.answerAll ⟨counts_dropped rfl rfl, (h.held ph e he).2⟩ nofun

lemma answer {calls : List κ} {n : Note κ} (h : Backed w s)
    (hsince : ∀ ph, since ph (n :: s.log) = since ph s.log) (hn : n.Earned w s.log) :
    Backed w { s with calls := calls, log := n :: s.log } := by
  refine ⟨fun ph e he => ?_, fun ph r hr => (h.disk ph r hr).of_since (hsince ph),
    earned_cons h.log hn⟩
  obtain ⟨hcounts, hst⟩ := h.held ph e he
  exact ⟨hcounts, hst.of_since (hsince ph)⟩

/-- An HTLC is held: if that makes the hold accepted, then this is the moment. -/
theorem hold [DecidableEq κ] {k : κ} {calls : List κ} {call : ℕ} (h : Backed w s)
    (he : s.held.lookup ph = some e) (hk : e.assetMatches (w.htlc k) = true) :
    Backed w { s with
      calls := calls
      held := s.held.insert ph (e.add k (w.htlc k).amountMsat call)
      log := .holding ph (e.add k (w.htlc k).amountMsat call).htlcs :: s.log } := by
  refine ⟨forall_lookup_insert (fun ph' e₁ _ he₁ => ?_) ?_,
    fun ph' r hr => (h.disk ph' r hr).holding, earned_cons h.log trivial⟩
  · obtain ⟨hcounts, hst⟩ := h.held ph' e₁ he₁
    exact ⟨hcounts, hst.holding⟩
  obtain ⟨hcounts, moments, hsince, hasset, hpaid⟩ := h.held ph e he
  have hadd : (e.add k (w.htlc k).amountMsat call).Counts w := hcounts.add hk
  have hamount : (e.add k (w.htlc k).amountMsat call).amountMsat = e.amountMsat :=
    Hold.count_fields.2.2.1
  have hasset' : (e.add k (w.htlc k).amountMsat call).asset = e.asset := Hold.count_fields.2.2.2
  refine ⟨hadd, (e.add k (w.htlc k).amountMsat call).htlcs :: moments, ?_, by rwa [hasset'],
    fun hst a hpos ha => ?_⟩
  · rw [since, if_pos rfl, hsince, hamount, hasset', Option.map_some]
  dsimp only at hpos ha ⊢
  rw [hamount] at hpos ⊢
  rcases Hold.add_state hst with hst | hreceived
  · obtain ⟨ks, hmem, hreach⟩ := hpaid hst a hpos (hasset' ▸ ha)
    exact ⟨ks, mem_cons_of_mem _ hmem, hreach⟩
  · refine ⟨_, mem_cons_self, hadd.nodup, fun k' hk' => ?_, hadd.received ▸ hreceived⟩
    have hmatch := hadd.asset k' hk'
    rw [Hold.assetMatches, ha] at hmatch
    exact of_decide_eq_true hmatch

lemma htlcAccepted [DecidableEq κ] {k : κ} {rel : ℤ} (h : Backed w s) :
    Backed w (s.htlcAccepted w k rel) := by
  unfold State.htlcAccepted
  dsimp only
  split
  · exact h.answer (fun _ => rfl) trivial
  next e he =>
  split_ifs with hmatch
  · exact h.answer (fun _ => rfl) trivial
  have hk := Bool.eq_true_of_not_eq_false hmatch
  split
  · next hst =>
    obtain ⟨_, moments, hsince, _, hpaid⟩ := h.held _ e he
    exact h.answer (fun _ => rfl) ⟨_, hsince, hpaid (.inr hst)⟩
  · exact h.answer (fun _ => rfl) trivial
  · exact h.hold he hk
  · exact h.hold he hk

lemma restart (h : Backed w s) : Backed w (s.restart w) := by
  refine ⟨fun ph e he => ?_, h.disk, h.log⟩
  rw [State.lookup_restart] at he
  obtain ⟨r, hr, rfl⟩ := Option.map_eq_some_iff.1 he
  have hst := h.disk ph r hr
  have hlegacy : r.asset ≠ some .legacyPolicy := hst.choose_spec.2.1
  refine ⟨counts_dropped rfl rfl, ?_⟩
  unfold State.restored Hold.new
  dsimp only
  rw [if_neg hlegacy]
  refine hst.of_state fun hstate => ?_
  split at hstate
  · rcases hstate with hstate | hstate <;> cases hstate
  · exact hstate

lemma step [DecidableEq κ] {ev : Event κ} (h : Backed w s) (hguard : Guarded s ev) :
    Backed w (step w s ev) := by
  cases ev with
  | holdinvoice ph amountMsat mppTimeout asset usable => exact h.holdinvoice
  | holdinvoicesettle ph preimage => exact h.holdinvoicesettle hguard
  | holdinvoicecancel ph => exact h.holdinvoicecancel
  | htlcAccepted k rel => exact h.htlcAccepted
  | timeOut ph => exact h.timeOut
  | restarted => exact h.restart

lemma init : Backed w State.init where
  held _ _ he := by cases he
  disk _ _ hr := by cases hr
  log n log h := by
    have hnil := suffix_nil.1 h
    cases hnil

end Backed

/-! ### Runs -/

section run

variable [DecidableEq κ]

/-- Every event of a run meets the condition in the state that it finds. -/
abbrev GuardedRun (w : World κ) (s : State κ) (evs : List (Event κ)) : Prop :=
  Lib.Along (fun s ev => some (step w s ev)) Guarded s evs

/-- No run answers a hook call twice. -/
theorem answering_of_run (h : Answering w s) (evs : List (Event κ)) :
    Answering w (runFrom w s evs) :=
  evs.foldlRecOn (step w) h fun _ hs ev _ => hs.step ev

/-- A run that meets the condition keeps holds backed. -/
theorem backed_of_run {evs : List (Event κ)} (h : Backed w s) (hguard : GuardedRun w s evs) :
    Backed w (runFrom w s evs) :=
  hguard.keeps_foldl h fun _ _ hs hev => hs.step hev

end run

/-- No hook call is answered twice in any run; where `holdinvoicesettle` is only called for holds
that are accepted or settled, or have no amount, every preimage is given for a registration that was
paid in full, in its asset, at some moment since it was made. -/
theorem hold_paid_in_full [DecidableEq κ] (w : World κ) (evs : List (Event κ)) :
    (answeredCalls (runFrom w State.init evs).log).Nodup ∧
      (GuardedRun w State.init evs →
        ∀ call ph p log, .answered call ph (.resolve p) :: log <:+ (runFrom w State.init evs).log →
          ∃ r, since ph log = some r ∧ ∀ asset, 0 < r.1.1 → r.1.2 = some (.id asset) →
            Reached w r.1.1 asset r.2) := by
  refine ⟨(answering_of_run Answering.init evs).once, fun hguard call ph p log hlog => ?_⟩
  exact (backed_of_run Backed.init hguard).log _ log hlog

namespace PaidExample

def asset : AssetId := ByteString.replicate 32 1

def hash : PaymentHash := ByteString.replicate 32 9

def preimage : Preimage := List.replicate 32 3

/-- HTLCs of one hash and asset, each for as much as its number says. -/
def world : World ℕ where
  htlc n := ⟨hash, some asset, n, 1200⟩
  onSequentia := true
  policyAsset := none
  sha256 _ := hash

/-- A hold for 1000 is registered. -/
def registered : Event ℕ := .holdinvoice hash 1000 60 (.id asset) []

def settled : Event ℕ := .holdinvoicesettle hash preimage

/-- Two parts come, the node restarts, they are replayed, and the hold is settled. -/
def paid : List (Event ℕ) :=
  [registered, .htlcAccepted 400 100, .restarted, .htlcAccepted 400 100, .htlcAccepted 600 100,
    settled]

theorem hold_paid_in_full_parts :
    ∃ log, (runFrom world State.init paid).log =
        .answered 2 hash (.resolve (some preimage)) :: log ∧
      ∃ r, since hash log = some r ∧
        ∀ a, 0 < r.1.1 → r.1.2 = some (.id a) → Reached world r.1.1 a r.2 := by
  have hlog : (runFrom world State.init paid).log =
      .answered 2 hash (.resolve (some preimage)) :: (runFrom world State.init paid).log.tail := by
    decide +kernel
  exact ⟨_, hlog, (hold_paid_in_full world paid).2 (by decide +kernel) 2 hash _ _ ⟨[], hlog.symm⟩⟩

/-- The hold is settled before any HTLC comes, and then one of 1 is resolved. -/
def settledEmpty : List (Event ℕ) := [registered, settled, .htlcAccepted 1 100]

/-- The hold has 1 of 1000, the node restarts, the hold is settled before the HTLC is replayed, and
it is resolved. -/
def settledReplayed : List (Event ℕ) :=
  [registered, .htlcAccepted 1 100, .restarted, settled, .htlcAccepted 1 100]

/-- The newest note of a run gives the preimage, for a registration that was never paid in full. -/
def GivenAway (evs : List (Event ℕ)) : Prop :=
  ∃ call p log moments,
    (runFrom world State.init evs).log = .answered call hash (.resolve p) :: log ∧
      since hash log = some ((1000, some (.id asset)), moments) ∧ ¬ Reached world 1000 asset moments

theorem hold_given_away : GivenAway settledEmpty ∧ GivenAway settledReplayed := by
  constructor
  · refine ⟨0, some preimage, [.registered hash 1000 (some (.id asset))], [], by decide +kernel,
      by decide +kernel, ?_⟩
    rintro ⟨ks, hks, _⟩
    cases hks
  · refine ⟨1, some preimage, [.holding hash [1], .registered hash 1000 (some (.id asset))], [[1]],
      by decide +kernel, by decide +kernel, ?_⟩
    rintro ⟨ks, hks, _, _, hsum⟩
    rw [mem_singleton.1 hks] at hsum
    exact absurd hsum (by decide)

end PaidExample

end SeqLN.Holdinvoice
