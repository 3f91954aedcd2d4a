import SeqLN.Plugins.CrossassetExact

/-!
# Cross-asset forwards and losses

The plugin takes a lost connection, or an error of the datastore, for the failure of the outgoing HTLC,
and then fails an HTLC whose payment went out; so does the dispatcher where `listsendpays` raises. And
it does not know a replayed HTLC again that is reported under another key, or whose record was
replaced. In a run without these (`Guarded`), the records tell what became of each outgoing HTLC
(`Records`), and no incoming HTLC is failed while its outgoing one can still be paid (`Honest`).
-/

namespace SeqLN.Crossasset

open List Option

variable {w : World} {cfg : Config} {s s' : State}

/-! ### Answers -/

variable {o : Outgoing} {ph : PaymentHash}

/-- An answer that fits the outgoing HTLCs that were sent for the HTLC. -/
def Answer.Fits (outgoing : List Outgoing) : Answer → Prop
  | .cont => outgoing = []
  | .fail _ => ∀ o ∈ outgoing, ¬ o.live
  | .resolve p => ∃ o ∈ outgoing, o.outcome = .settled p

instance (outgoing : List Outgoing) : (a : Answer) → Decidable (a.Fits outgoing)
  | .cont => inferInstanceAs (Decidable (outgoing = []))
  | .fail _ => inferInstanceAs (Decidable (∀ o ∈ outgoing, ¬ o.live))
  | .resolve p => inferInstanceAs (Decidable (∃ o ∈ outgoing, o.outcome = .settled p))

/-- Membership form of `State.sentFor`. -/
theorem State.mem_sentFor {k : HtlcKey} :
    o ∈ s.sentFor w k ↔ o ∈ s.sent ∧ w.htlcIn o.inKey = w.htlcIn k := by
  simp [State.sentFor]

/-- What was sent under a key was sent for its HTLC. -/
theorem State.mem_sentFor_of_eq {k : HtlcKey} (ho : o ∈ s.sent) (hk : o.inKey = k) :
    o ∈ s.sentFor w k :=
  State.mem_sentFor.2 ⟨ho, by rw [hk]⟩

/-- Membership form of `State.pays`. -/
theorem State.mem_pays : o ∈ s.pays w ph ↔ o ∈ s.sent ∧ w.hash o.inKey = ph := by
  simp [State.pays]

/-! ### Records -/

/-- HTLCs of one identity have one hash. -/
theorem World.hash_eq {k k' : HtlcKey} (h : w.htlcIn k = w.htlcIn k') : w.hash k = w.hash k' := by
  rw [World.hash, World.hash, h]

/-- The records of `FORWARDS`, or of the datastore, tell the truth about the outgoing HTLCs. -/
structure Records (w : World) (sent : List Outgoing) (delivered : List HtlcIn) (m : Forwards) :
    Prop where
  /-- An HTLC that may be paid has its forward on record, not as failed. -/
  live : ∀ o ∈ sent, o.live →
    ∃ f, m.lookup (w.hash o.inKey) = some f ∧ f.inKey = o.inKey ∧ f.state ≠ .failed
  /-- A preimage on record is the one that the outgoing HTLC returned. -/
  settled : ∀ ph f p, m.lookup ph = some f → f.state = .settled p →
    ∃ o ∈ sent, o.inKey = f.inKey ∧ o.outcome = .settled p
  /-- The record for a hash is that of the HTLC which `lightningd` still holds. -/
  own : ∀ o ∈ sent, w.htlcIn o.inKey ∉ delivered →
    ∃ f, m.lookup (w.hash o.inKey) = some f ∧ f.inKey = o.inKey

/-- The record of an HTLC's hash is its own, and not as failed. -/
def Owned (w : World) (m : Forwards) (k : HtlcKey) : Prop :=
  ∃ f, m.lookup (w.hash k) = some f ∧ f.inKey = k ∧ f.state ≠ .failed

section records

variable {sent : List Outgoing} {delivered : List HtlcIn} {m : Forwards} {ph : PaymentHash}
  {f : Forward} {k k' : HtlcKey}

/-- Of the HTLCs of one hash at most one has the record. -/
theorem Owned.eq (h : Owned w m k) (h' : Owned w m k') (hph : w.hash k = w.hash k') : k = k' := by
  obtain ⟨f, hf, rfl, _⟩ := h
  obtain ⟨f', hf', rfl, _⟩ := h'
  rw [hph, hf', some.injEq] at hf
  rw [hf]

/-- A record for another hash changes nothing. -/
theorem Owned.insert_ne (h : Owned w m k) (hph : w.hash k ≠ ph) : Owned w (m.insert ph f) k := by
  obtain ⟨f', hf', hk⟩ := h
  exact ⟨f', by rwa [AList.lookup_insert_ne hph], hk⟩

/-- The HTLC of the record that is put has it. -/
theorem Owned.insert_self (hk : f.inKey = k) (hst : f.state ≠ .failed) :
    Owned w (m.insert (w.hash k) f) k :=
  ⟨f, AList.lookup_insert _, hk, hst⟩

namespace Records

/-- The HTLC with a record of its own is the only one of its hash that may be paid. -/
theorem key_eq (h : Records w sent delivered m) (hk : Owned w m k) (ho : o ∈ sent) (hlive : o.live)
    (hph : w.hash o.inKey = w.hash k) : o.inKey = k :=
  Owned.eq (h.live o ho hlive) hk hph

/-- A record is put that is true of what was sent for its hash. -/
theorem insert (h : Records w sent delivered m)
    (hlive : ∀ o ∈ sent, w.hash o.inKey = ph → o.live → f.inKey = o.inKey ∧ f.state ≠ .failed)
    (hsettled : ∀ p, f.state = .settled p → ∃ o ∈ sent, o.inKey = f.inKey ∧ o.outcome = .settled p)
    (hown : ∀ o ∈ sent, w.hash o.inKey = ph → w.htlcIn o.inKey ∉ delivered → f.inKey = o.inKey) :
    Records w sent delivered (m.insert ph f) where
  live o ho hl := by
    by_cases hph : w.hash o.inKey = ph
    · subst hph
      exact ⟨f, AList.lookup_insert _, hlive o ho rfl hl⟩
    · exact Owned.insert_ne (h.live o ho hl) hph
  settled ph' f' p hf' hp := by
    by_cases hph : ph' = ph
    · subst hph
      rw [AList.lookup_insert, some.injEq] at hf'
      subst hf'
      exact hsettled p hp
    · rw [AList.lookup_insert_ne hph] at hf'
      exact h.settled ph' f' p hf' hp
  own o ho hd := by
    by_cases hph : w.hash o.inKey = ph
    · subst hph
      exact ⟨f, AList.lookup_insert _, hown o ho rfl hd⟩
    · rw [AList.lookup_insert_ne hph]
      exact h.own o ho hd

/-- An HTLC is sent for the one that has the record. -/
theorem cons (h : Records w sent delivered m) (ho : Owned w m o.inKey) :
    Records w (o :: sent) delivered m where
  live o' ho' hl := by
    rcases mem_cons.1 ho' with rfl | ho'
    · exact ho
    · exact h.live o' ho' hl
  settled ph f p hf hp := by
    obtain ⟨o', ho', heq⟩ := h.settled ph f p hf hp
    exact ⟨o', mem_cons_of_mem o ho', heq⟩
  own o' ho' hd := by
    rcases mem_cons.1 ho' with rfl | ho'
    · obtain ⟨f, hf, hkey, _⟩ := ho
      exact ⟨f, hf, hkey⟩
    · exact h.own o' ho' hd

/-- HTLCs that were pending settle or fail. -/
theorem evolve {sent' : List Outgoing} (h : Records w sent delivered m)
    (hback : ∀ o' ∈ sent', ∃ o ∈ sent, o.inKey = o'.inKey ∧ (o'.live → o.live))
    (hforth : ∀ o ∈ sent, ∀ p, o.outcome = .settled p → o ∈ sent') :
    Records w sent' delivered m where
  live o' ho' hl := by
    obtain ⟨o, ho, hkey, hlive⟩ := hback o' ho'
    rw [← hkey]
    exact h.live o ho (hlive hl)
  settled ph f p hf hp := by
    obtain ⟨o, ho, hkey, hout⟩ := h.settled ph f p hf hp
    exact ⟨o, hforth o ho p hout, hkey, hout⟩
  own o' ho' hd := by
    obtain ⟨o, ho, hkey, _⟩ := hback o' ho'
    rw [← hkey] at hd ⊢
    exact h.own o ho hd

/-- `lightningd` acts on more answers. -/
theorem deliver {delivered' : List HtlcIn} (h : Records w sent delivered m)
    (hsub : delivered ⊆ delivered') : Records w sent delivered' m :=
  ⟨h.live, h.settled, fun o ho hd => h.own o ho fun hmem => hd (hsub hmem)⟩

end Records

end records

/-! ### The invariant -/

variable {f : Forward} {r : Persisted}

/-- What a stage knows of the outgoing HTLCs and of the records. -/
def Stage.Honest (w : World) (s : State) (k : HtlcKey) : Stage → Prop
  | .listing => s.sentFor w k = []
  | .taking _ => s.sentFor w k = []
  | .measuring _ _ => s.sentFor w k = [] ∧ Owned w s.forwards k ∧ Owned w s.disk k
  | .sending _ _ _ => s.sentFor w k = [] ∧ Owned w s.forwards k ∧ Owned w s.disk k
  | .abandoning => Owned w s.forwards k ∧ ∀ o ∈ s.pays w (w.hash k), ¬ o.live
  | .waiting => Owned w s.forwards k
  | .finishing (some p) _ => Owned w s.forwards k ∧ ∃ o ∈ s.sentFor w k, o.outcome = .settled p
  | .finishing none _ => Owned w s.forwards k ∧ ∀ o ∈ s.pays w (w.hash k), ¬ o.live
  | .answering a => a.Fits (s.sentFor w k)

/-- The records tell the truth, of the payments for a hash only the newest may be live, every answer
and stage of the calls in `who` fits what was sent, and no HTLC has two calls. -/
structure HonestFor (w : World) (s : State) (who : HtlcKey → Prop) : Prop where
  memory : Records w s.sent s.delivered s.forwards
  disk : Records w s.sent s.delivered s.disk
  newest : s.sent.Pairwise fun a b => w.hash a.inKey = w.hash b.inKey → ¬ b.live
  calls : ∀ k c, who k → s.calls.lookup k = some c → c.stage.Honest w s k
  called : ∀ k c, s.calls.lookup k = some c → w.htlcIn k ∈ s.called
  apart : ∀ k c k' c', s.calls.lookup k = some c → s.calls.lookup k' = some c' →
    w.htlcIn k = w.htlcIn k' → k = k'
  answers : ∀ a ∈ s.answers, a.answer.Fits a.outgoing

/-- The invariant, with every call. -/
abbrev Honest (w : World) (s : State) : Prop := HonestFor w s fun _ => True

/-- The invariant while one call is at work. -/
abbrev HonestBut (w : World) (s : State) (k : HtlcKey) : Prop := HonestFor w s (· ≠ k)

/-- The hook was called for an HTLC, and no other call is for it. -/
structure State.AtWork (w : World) (s : State) (k : HtlcKey) : Prop where
  called : w.htlcIn k ∈ s.called
  alone : ∀ k' c', s.calls.lookup k' = some c' → w.htlcIn k' = w.htlcIn k → k' = k

/-- The call is about to store the preimage that its outgoing HTLC returned. -/
def Stage.hasPreimage : Stage → Bool
  | .finishing (some _) _ => true
  | _ => false

/-- What a call must not meet: a lost connection while the outgoing HTLC may be paid, an `RpcError`
of the datastore that is to store a preimage, and a new quote for a payment of which a sent HTLC has
failed without `lightningd` having acted on the answer for its incoming one. -/
def CallEvent.Guarded (w : World) (s : State) (k : HtlcKey) : CallEvent → Prop
  | .taken _ _ => (s.quotes.lookup (w.hash k)).isSome →
      ∀ o ∈ s.pays w (w.hash k), ¬ o.live → w.htlcIn o.inKey ∈ s.delivered
  | .waited reply => reply = .lost → ∀ o ∈ s.pays w (w.hash k), ¬ o.live
  | .finished r => r = .rpcError r.written → ∀ c ∈ s.calls.lookup k, ¬ c.stage.hasPreimage
  | _ => True

/-- What a step must not meet; of the hook calls, a replay under another key than that of the
sending, and one where `listsendpays` raises while that HTLC may be paid. -/
def Guarded (w : World) (s : State) : Event → Prop
  | .accepted k _ listed _ =>
    (∀ o ∈ s.sentFor w k, o.inKey = k) ∧ (listed = false → ∀ o ∈ s.sentFor w k, ¬ o.live)
  | .call k e => e.Guarded w s k
  | _ => True

instance (w : World) (s : State) (k : HtlcKey) : (e : CallEvent) → Decidable (e.Guarded w s k)
  | .taken _ _ => inferInstanceAs (Decidable (_ → _))
  | .waited _ => inferInstanceAs (Decidable (_ = _ → _))
  | .finished _ => inferInstanceAs (Decidable (_ = _ → _))
  | .listed _ | .measured _ | .sendonion _ | .answered => isTrue trivial

instance (w : World) (s : State) : (e : Event) → Decidable (Guarded w s e)
  | .accepted _ _ _ _ => inferInstanceAs (Decidable (_ ∧ _))
  | .call k e => inferInstanceAs (Decidable (e.Guarded w s k))
  | .quoteAsked _ _ | .quoteMade _ _ _ _ _ | .delivered _ | .outcome _ _ | .restarted =>
    isTrue trivial

namespace Stage.Honest

variable {k : HtlcKey} {stage : Stage}

/-- Only these parts of a state matter. -/
theorem of_eq (h : stage.Honest w s k) (hsent : s'.sent = s.sent)
    (hforwards : s'.forwards = s.forwards) (hdisk : s'.disk = s.disk) : stage.Honest w s' k := by
  have hfor : s'.sentFor w k = s.sentFor w k := by rw [State.sentFor, State.sentFor, hsent]
  have hpays : s'.pays w (w.hash k) = s.pays w (w.hash k) := by
    rw [State.pays, State.pays, hsent]
  unfold Stage.Honest at h ⊢
  rw [hfor, hpays, hforwards, hdisk]
  exact h

/-- A record of another hash, or one that this call does not have, is put. -/
theorem putForward (h : stage.Honest w s k) (hother : Owned w s.forwards k → w.hash k ≠ ph) :
    stage.Honest w (s.putForward ph f r) k := by
  have howned : Owned w s.forwards k → Owned w (s.putForward ph f r).forwards k :=
    fun ho => ho.insert_ne (hother ho)
  have hdisk : Owned w s.forwards k → Owned w s.disk k →
      Owned w (s.putForward ph f r).disk k := by
    intro ho hd
    unfold State.putForward
    dsimp only
    split
    · exact hd.insert_ne (hother ho)
    · exact hd
  cases stage with
  | listing => exact h
  | taking out => exact h
  | measuring q out => exact ⟨h.1, howned h.2.1, hdisk h.2.1 h.2.2⟩
  | sending q out height => exact ⟨h.1, howned h.2.1, hdisk h.2.1 h.2.2⟩
  | abandoning => exact ⟨howned h.1, h.2⟩
  | waiting => exact howned h
  | finishing p reply =>
    cases p with
    | some p => exact ⟨howned h.1, h.2⟩
    | none => exact ⟨howned h.1, h.2⟩
  | answering a => exact h

/-- Another HTLC is sent, for a hash of which this call has not the record. -/
theorem cons (h : stage.Honest w s k) (hkey : w.htlcIn o.inKey ≠ w.htlcIn k)
    (hother : Owned w s.forwards k → w.hash k ≠ w.hash o.inKey) :
    stage.Honest w { s with sent := o :: s.sent } k := by
  have hfor : State.sentFor w { s with sent := o :: s.sent } k = s.sentFor w k := by
    simp [State.sentFor, hkey]
  have hpays : Owned w s.forwards k →
      State.pays w { s with sent := o :: s.sent } (w.hash k) = s.pays w (w.hash k) := by
    intro ho
    have hne := (hother ho).symm
    simp [State.pays, hne]
  cases stage with
  | abandoning => exact ⟨h.1, by rw [hpays h.1]; exact h.2⟩
  | waiting => exact h
  | finishing p reply =>
    cases p with
    | some p => exact ⟨h.1, by rw [hfor]; exact h.2⟩
    | none => exact ⟨h.1, by rw [hpays h.1]; exact h.2⟩
  | measuring q out => exact ⟨by rw [hfor]; exact h.1, h.2⟩
  | sending q out height => exact ⟨by rw [hfor]; exact h.1, h.2⟩
  | listing => exact hfor.trans h
  | taking out => exact hfor.trans h
  | answering a =>
    show a.Fits (State.sentFor w { s with sent := o :: s.sent } k)
    rw [hfor]
    exact h

/-- HTLCs that were pending settle or fail. -/
theorem evolve {sent : List Outgoing} (h : stage.Honest w s k)
    (hback : ∀ o' ∈ sent, ∃ o ∈ s.sent, o.inKey = o'.inKey ∧ (o'.live → o.live))
    (hforth : ∀ o ∈ s.sent, ∀ p, o.outcome = .settled p → o ∈ sent) :
    stage.Honest w { s with sent := sent } k := by
  have hnil : s.sentFor w k = [] → State.sentFor w { s with sent := sent } k = [] := by
    intro hnone
    refine List.eq_nil_iff_forall_not_mem.2 fun o' ho' => ?_
    obtain ⟨ho', hin⟩ := State.mem_sentFor.1 ho'
    obtain ⟨o, ho, hkey, _⟩ := hback o' ho'
    refine List.eq_nil_iff_forall_not_mem.1 hnone o (State.mem_sentFor.2 ⟨ho, ?_⟩)
    rw [hkey, hin]
  have hsettled : ∀ p, (∃ o ∈ s.sentFor w k, o.outcome = .settled p) →
      ∃ o ∈ State.sentFor w { s with sent := sent } k, o.outcome = .settled p := by
    rintro p ⟨o, ho, hp⟩
    obtain ⟨ho, hkey⟩ := State.mem_sentFor.1 ho
    exact ⟨o, State.mem_sentFor.2 ⟨hforth o ho p hp, hkey⟩, hp⟩
  have hdead : ∀ {q : HtlcKey → Prop}, (∀ o ∈ s.sent, q o.inKey → ¬ o.live) →
      ∀ o ∈ sent, q o.inKey → ¬ o.live := by
    intro q hnone o' ho' hq hl
    obtain ⟨o, ho, hkey, hlive⟩ := hback o' ho'
    rw [← hkey] at hq
    exact hnone o ho hq (hlive hl)
  have hpays : (∀ o ∈ s.pays w (w.hash k), ¬ o.live) →
      ∀ o ∈ State.pays w { s with sent := sent } (w.hash k), ¬ o.live := by
    intro hnone o ho
    obtain ⟨ho, hph⟩ := State.mem_pays.1 ho
    exact hdead (q := fun k' => w.hash k' = w.hash k)
      (fun o ho hph => hnone o (State.mem_pays.2 ⟨ho, hph⟩)) o ho hph
  cases stage with
  | listing => exact hnil h
  | taking out => exact hnil h
  | measuring q out => exact ⟨hnil h.1, h.2⟩
  | sending q out height => exact ⟨hnil h.1, h.2⟩
  | abandoning => exact ⟨h.1, hpays h.2⟩
  | waiting => exact h
  | finishing p reply =>
    cases p with
    | some p => exact ⟨h.1, hsettled p h.2⟩
    | none => exact ⟨h.1, hpays h.2⟩
  | answering a =>
    cases a with
    | cont => exact hnil h
    | fail f =>
      intro o ho
      obtain ⟨ho, hkey⟩ := State.mem_sentFor.1 ho
      exact hdead (q := fun k' => w.htlcIn k' = w.htlcIn k)
        (fun o ho hkey => h o (State.mem_sentFor.2 ⟨ho, hkey⟩)) o ho hkey
    | resolve p => exact hsettled p h

end Stage.Honest

/-- A final state leaves the calls as they are. -/
theorem State.AtWork.finishForward {k : HtlcKey} {st : ForwardState} (hat : s.AtWork w k) :
    (s.finishForward ph st r).AtWork w k := by
  unfold State.finishForward
  split
  · exact hat
  · exact ⟨hat.called, hat.alone⟩

namespace HonestFor

variable {k : HtlcKey} {c : Call} {stage : Stage} {who : HtlcKey → Prop}

/-- Only these parts of a state matter. -/
theorem of_eq (h : HonestFor w s who) (hsent : s'.sent = s.sent) (hforwards : s'.forwards = s.forwards)
    (hdisk : s'.disk = s.disk) (hcalls : s'.calls = s.calls) (hcalled : s.called ⊆ s'.called)
    (hdelivered : s.delivered ⊆ s'.delivered) (hanswers : s'.answers = s.answers) :
    HonestFor w s' who where
  memory := by
    rw [hsent, hforwards]
    exact h.memory.deliver hdelivered
  disk := by
    rw [hsent, hdisk]
    exact h.disk.deliver hdelivered
  newest := by
    rw [hsent]
    exact h.newest
  calls k c hw hc := by
    rw [hcalls] at hc
    exact (h.calls k c hw hc).of_eq hsent hforwards hdisk
  called k c hc := by
    rw [hcalls] at hc
    exact hcalled (h.called k c hc)
  apart := by
    rw [hcalls]
    exact h.apart
  answers := by
    rw [hanswers]
    exact h.answers

/-- A call comes to work. -/
theorem but (h : Honest w s) (k : HtlcKey) : HonestBut w s k :=
  ⟨h.memory, h.disk, h.newest, fun k' c _ hc => h.calls k' c trivial hc, h.called, h.apart,
    h.answers⟩

/-- The call at work goes on at a stage that fits. -/
theorem moveTo (h : HonestBut w s k) (hk : stage.Honest w s k) (hat : s.AtWork w k) :
    Honest w (s.moveTo k c stage) where
  memory := h.memory
  disk := h.disk
  newest := h.newest
  calls k' c' _ hc' :=
    State.forall_calls_moveTo (fun k' st => st.Honest w s k')
      (fun k' c' hne hc' => h.calls k' c' hne hc') hk k' c' hc'
  called k' c' hc' :=
    State.forall_calls_moveTo (fun k' _ => w.htlcIn k' ∈ s.called)
      (fun k' c' _ hc' => h.called k' c' hc') hat.called k' c' hc'
  apart k₁ c₁ k₂ c₂ h₁ h₂ := by
    intro heq
    rcases State.lookup_of_moveTo h₁ with hk₁ | hc₁
    · rcases State.lookup_of_moveTo h₂ with hk₂ | hc₂
      · rw [hk₁, hk₂]
      · rw [hk₁] at heq ⊢
        exact (hat.alone k₂ c₂ hc₂ heq.symm).symm
    · rcases State.lookup_of_moveTo h₂ with hk₂ | hc₂
      · rw [hk₂] at heq ⊢
        exact hat.alone k₁ c₁ hc₁ heq
      · exact h.apart k₁ c₁ k₂ c₂ hc₁ hc₂ heq
  answers := h.answers

/-- The call at work ends. -/
theorem endCall (h : HonestBut w s k) : Honest w (s.endCall k) where
  memory := h.memory
  disk := h.disk
  newest := h.newest
  calls k' c' _ hc' :=
    State.forall_calls_endCall (fun k' st => st.Honest w s k')
      (fun k' c' hne hc' => h.calls k' c' hne hc') k' c' hc'
  called k' c' hc' :=
    State.forall_calls_endCall (fun k' _ => w.htlcIn k' ∈ s.called)
      (fun k' c' _ hc' => h.called k' c' hc') k' c' hc'
  apart k₁ c₁ k₂ c₂ h₁ h₂ := by
    exact h.apart k₁ c₁ k₂ c₂ (State.lookup_of_endCall h₁) (State.lookup_of_endCall h₂)
  answers := h.answers

/-- The call at work puts a record for its hash, of which no other call has the record. -/
theorem putForward (h : HonestBut w s k)
    (hlive : ∀ o ∈ s.sent, w.hash o.inKey = w.hash k → o.live →
      f.inKey = o.inKey ∧ f.state ≠ .failed)
    (hsettled : ∀ p, f.state = .settled p →
      ∃ o ∈ s.sent, o.inKey = f.inKey ∧ o.outcome = .settled p)
    (hown : ∀ o ∈ s.sent, w.hash o.inKey = w.hash k → w.htlcIn o.inKey ∉ s.delivered →
      f.inKey = o.inKey)
    (hother : ∀ k', k' ≠ k → Owned w s.forwards k' → w.hash k' ≠ w.hash k) :
    HonestBut w (s.putForward (w.hash k) f r) k where
  memory := h.memory.insert hlive hsettled hown
  disk := by
    unfold State.putForward
    dsimp only
    split
    · exact h.disk.insert hlive hsettled hown
    · exact h.disk
  newest := h.newest
  calls k' c' hne hc' := (h.calls k' c' hne hc').putForward (hother k' hne)
  called := h.called
  apart := h.apart
  answers := h.answers

variable {st : ForwardState}

/-- The call at work gives its forward a final state that fits. -/
theorem finishForward (h : HonestBut w s k) (hf : s.forwards.lookup (w.hash k) = some f)
    (hk : f.inKey = k) (hlive : ∀ o ∈ s.pays w (w.hash k), o.live → st ≠ .failed)
    (hsettled : ∀ p, st = .settled p → ∃ o ∈ s.pays w (w.hash k), o.outcome = .settled p) :
    HonestBut w (s.finishForward (w.hash k) st r) k := by
  have hown : ∀ k', Owned w s.forwards k' → w.hash k' = w.hash k → k' = k := by
    rintro k' ⟨f', hf', rfl, _⟩ hph
    rw [hph, hf, some.injEq] at hf'
    rw [← hf', hk]
  unfold State.finishForward
  rw [hf]
  refine h.putForward (fun o ho hph hl => ?_) (fun p hp => ?_) (fun o ho hph hd => ?_)
    fun k' hne ho hph => ?_
  · exact ⟨hk.trans (hown _ (h.memory.live o ho hl) hph).symm,
      hlive o (State.mem_pays.2 ⟨ho, hph⟩) hl⟩
  · obtain ⟨o, ho, hout⟩ := hsettled p hp
    obtain ⟨ho, hph⟩ := State.mem_pays.1 ho
    have hl : o.live := by
      rw [Outgoing.live, hout]
      exact nofun
    exact ⟨o, ho, (hown _ (h.memory.live o ho hl) hph).trans hk.symm, hout⟩
  · obtain ⟨f', hf', hkey⟩ := h.memory.own o ho hd
    rw [hph, hf, some.injEq] at hf'
    exact (congrArg Forward.inKey hf').trans hkey
  · exact hne (hown k' ho hph)

/-- A final state sends nothing. -/
@[simp] theorem sentFor_finishForward : (s.finishForward ph st r).sentFor w k = s.sentFor w k := by
  simp [State.sentFor]

/-- The call at work fails, where nothing that was sent for its hash may be paid. -/
theorem failForward (h : HonestBut w s k) (hat : s.AtWork w k)
    (hf : s.forwards.lookup (w.hash k) = some f) (hk : f.inKey = k)
    (hdead : ∀ o ∈ s.pays w (w.hash k), ¬ o.live) (failure : Failure) :
    Honest w ((s.finishForward (w.hash k) .failed r).moveTo k c (.answering (.fail failure))) := by
  have hfin : HonestBut w (s.finishForward (w.hash k) .failed r) k :=
    h.finishForward hf hk (fun o ho hl => absurd hl (hdead o ho)) fun p hp => by cases hp
  refine hfin.moveTo (fun o ho => ?_) hat.finishForward
  rw [sentFor_finishForward] at ho
  obtain ⟨ho, hin⟩ := State.mem_sentFor.1 ho
  exact hdead o (State.mem_pays.2 ⟨ho, World.hash_eq hin⟩)

/-! ### One step -/

variable {out : ChannelInfo}

/-- A replay is answered from the record of the HTLC. -/
theorem resume {listed : Bool} (h : HonestBut w s k) (hat : s.AtWork w k)
    (hlisted : listed = false → ∀ o ∈ s.sentFor w k, ¬ o.live)
    (hf : s.forwards.lookup (w.hash k) = some f) (hk : f.inKey = k) :
    Honest w (s.resume w k c f listed r) := by
  unfold State.resume
  split
  · next p hst =>
    obtain ⟨o, ho, hkey, hout⟩ := h.memory.settled _ f p hf hst
    exact h.moveTo ⟨o, State.mem_sentFor_of_eq ho (hkey.trans hk), hout⟩ hat
  · next hst =>
    refine h.moveTo (fun o ho hl => ?_) hat
    obtain ⟨ho, hin⟩ := State.mem_sentFor.1 ho
    obtain ⟨f', hf', _, hne⟩ := h.memory.live o ho hl
    rw [World.hash_eq hin, hf, some.injEq] at hf'
    exact hne (hf' ▸ hst)
  · next hst =>
    split
    · next hraised => exact h.moveTo (hlisted hraised) hat
    split
    · next hpays => exact h.failForward hat hf hk (fun o ho => by simp [hpays] at ho) .temporary
    · refine h.moveTo ⟨f, hf, hk, ?_⟩ hat
      rw [hst]
      exact nofun

/-- The hook is called: for an HTLC for which one was sent, the record is its own. -/
theorem accept {rel : ℤ} {listed : Bool} (h : Honest w s)
    (hguard : Guarded w s (.accepted k rel listed r)) (hs : s.accept w k rel listed r = some s') :
    Honest w s' := by
  unfold State.accept at hs
  split at hs
  · cases hs
  next hnew =>
  rw [not_or] at hnew
  have hat : State.AtWork w { s with called := w.htlcIn k :: s.called } k := by
    refine ⟨mem_cons_self, fun k' c' hc' hin => absurd ?_ hnew.1⟩
    rw [← hin]
    exact h.called k' c' hc'
  have hbut : HonestBut w { s with called := w.htlcIn k :: s.called } k :=
    (h.but k).of_eq rfl rfl rfl rfl (subset_cons_self _ _) (List.Subset.refl _) rfl
  -- what was sent for it has left its record, since `lightningd` holds it
  have hunsent : (∀ f, s.forwards.lookup (w.hash k) = some f → f.inKey ≠ k) →
      s.sentFor w k = [] := by
    refine fun hne => List.eq_nil_iff_forall_not_mem.2 fun o ho => ?_
    obtain rfl := hguard.1 o ho
    obtain ⟨f, hf, hkey⟩ := h.memory.own o (State.mem_sentFor.1 ho).1 hnew.2
    exact hne f hf hkey
  dsimp only at hs
  split at hs <;> cases hs
  · next f hf =>
    split
    · next hk => exact hbut.resume hat hguard.2 hf hk
    · next hk =>
      refine hbut.moveTo (hunsent fun f' hf' => ?_) hat
      rw [hf, some.injEq] at hf'
      rwa [← hf']
  · next hf =>
    have hnone : s.sentFor w k = [] := hunsent fun f hf' => by simp [hf] at hf'
    split
    · exact hbut.moveTo hnone hat
    · exact hbut.moveTo hnone hat

/-- The HTLC takes the quote of its hash, and with it the record. -/
theorem spend {q : Quote} (h : Honest w s)
    (hfailed : ∀ f, s.forwards.lookup (w.hash k) = some f → f.state = .failed)
    (hdelivered : ∀ o ∈ s.pays w (w.hash k), ¬ o.live → w.htlcIn o.inKey ∈ s.delivered) :
    HonestBut w ({ s with quotes := s.quotes.erase (w.hash k) }.putForward (w.hash k)
      (State.newForward k q out) r) k := by
  have hfree : ∀ k', Owned w s.forwards k' → w.hash k' ≠ w.hash k := by
    rintro k' ⟨f, hf, _, hne⟩ hph
    rw [hph] at hf
    exact hne (hfailed f hf)
  have hquotes : HonestBut w { s with quotes := s.quotes.erase (w.hash k) } k :=
    (h.but k).of_eq rfl rfl rfl rfl (List.Subset.refl _) (List.Subset.refl _) rfl
  refine hquotes.putForward (fun o ho hph hl => ?_) (fun p hp => ?_) (fun o ho hph hd => ?_)
    fun k' _ ho => hfree k' ho
  · exact absurd hph (hfree _ (h.memory.live o ho hl))
  · cases hp
  · refine absurd (hdelivered o (State.mem_pays.2 ⟨ho, hph⟩) fun hl => ?_) hd
    exact hfree _ (h.memory.live o ho hl) hph

/-- If the newest payment for a hash has failed, all have. -/
theorem pays_dead (h : Honest w s)
    (hnewest : (((s.pays w ph).head?.map (·.outcome)).all (· = .failed)) = true) :
    ∀ o ∈ s.pays w ph, ¬ o.live := by
  have hpair : (s.pays w ph).Pairwise fun a b => w.hash a.inKey = w.hash b.inKey → ¬ b.live :=
    h.newest.filter _
  have hph : ∀ o ∈ s.pays w ph, w.hash o.inKey = ph := fun o ho => (State.mem_pays.1 ho).2
  cases hp : s.pays w ph with
  | nil => simp
  | cons o os =>
    rw [hp] at hpair hph hnewest
    intro o' ho'
    rcases mem_cons.1 ho' with rfl | hmem
    · simpa [Outgoing.live] using hnewest
    · refine (pairwise_cons.1 hpair).1 o' hmem ?_
      rw [hph o mem_cons_self, hph o' ho']

/-- Where the HTLC has the record and nothing was sent for it, nothing of its hash may be paid. -/
theorem pays_dead_of_unsent (h : Honest w s) (hunsent : s.sentFor w k = [])
    (hmem : Owned w s.forwards k) :
    ∀ o ∈ s.pays w (w.hash k), ¬ o.live := by
  intro o ho hl
  obtain ⟨ho, hph⟩ := State.mem_pays.1 ho
  refine List.eq_nil_iff_forall_not_mem.1 hunsent o ?_
  exact State.mem_sentFor_of_eq ho (h.memory.key_eq hmem ho hl hph)

section call

variable (h : Honest w s) (hat : s.AtWork w k)

include h hat

/-- Nothing was sent before the second lock. -/
theorem listed {reply : Option Channels} (hunsent : s.sentFor w k = [])
    (hs : s.listed w k c reply = some s') : Honest w s' := by
  unfold State.listed at hs
  split at hs
  · cases hs
    refine (h.but k).moveTo (fun o ho => ?_) hat
    rw [hunsent] at ho
    cases ho
  · split_ifs at hs
    cases hs
    refine (h.but k).moveTo ?_ hat
    split
    · exact hunsent
    · split
      · exact hunsent
      · exact hunsent

/-- The second lock refuses the HTLC, or gives it the quote and the record. -/
theorem take {now : ℚ} (hguard : Guarded w s (.call k (.taken now r)))
    (hunsent : s.sentFor w k = []) : Honest w (s.take w cfg k c out now r) := by
  have hnone : ∀ o ∈ s.sentFor w k, ¬ o.live := by simp [hunsent]
  unfold State.take
  split
  · next a hd =>
    refine (h.but k).moveTo ?_ hat
    rcases State.decision_answer hd with rfl | ⟨f, rfl⟩
    · exact hunsent
    · exact hnone
  · next q hd =>
    obtain ⟨hq, hfailed, _⟩ := State.decision_spend hd
    have hput : HonestBut w ({ s with quotes := s.quotes.erase (w.hash k) }.putForward (w.hash k)
        (State.newForward k q out) r) k := h.spend hfailed (hguard (by simp [hq]))
    dsimp only
    split
    · next hr =>
      subst hr
      exact hput.moveTo ⟨hunsent, Owned.insert_self rfl nofun, Owned.insert_self rfl nofun⟩
        ⟨hat.called, hat.alone⟩
    · exact hput.moveTo hnone ⟨hat.called, hat.alone⟩

/-- The outgoing HTLC is sent for the HTLC that has the record. -/
theorem sendonion {q : Quote} {height : ℤ} {ok : Bool} (hunsent : s.sentFor w k = [])
    (hmem : Owned w s.forwards k) (hdisk : Owned w s.disk k)
    (hs : s.sendonion w k c q out height ok = some s') : Honest w s' := by
  have hdead := h.pays_dead_of_unsent hunsent hmem
  unfold State.sendonion at hs
  dsimp only at hs
  split_ifs at hs
  · cases hs
    exact (h.but k).moveTo ⟨hmem, hdead⟩ hat
  · cases hs
    exact (h.but k).moveTo hmem hat
  · obtain ⟨scid, _, rfl⟩ := map_eq_some_iff.1 hs
    have hwaits : Honest w (s.moveTo k c .waiting) := (h.but k).moveTo hmem hat
    refine ⟨hwaits.memory.cons hmem, hwaits.disk.cons hdisk, ?_, ?_, hwaits.called, hwaits.apart,
      hwaits.answers⟩
    · refine pairwise_cons.2 ⟨fun o ho hph => ?_, h.newest⟩
      exact hdead o (State.mem_pays.2 ⟨ho, hph.symm⟩)
    · intro k' c' _ hc'
      by_cases hkk : k' = k
      · subst hkk
        rw [State.moveTo, AList.lookup_insert, some.injEq] at hc'
        subst hc'
        exact hmem
      · have hother := (State.lookup_of_moveTo hc').resolve_left hkk
        refine (hwaits.calls k' c' trivial hc').cons (fun hin => hkk ?_) fun ho hph => hkk ?_
        · exact hat.alone k' c' hother hin.symm
        · exact Owned.eq ho hmem hph

/-- What `waitsendpay` says of the newest payment is true of all of its hash. -/
theorem waited {reply : WaitReply} (hguard : Guarded w s (.call k (.waited reply)))
    (hmem : Owned w s.forwards k) (hs : s.waited w k c reply = some s') : Honest w s' := by
  unfold State.waited at hs
  dsimp only at hs
  split at hs
  · next p =>
    split_ifs at hs with hnewest
    cases hs
    obtain ⟨o, ho, hout⟩ := map_eq_some_iff.1 hnewest
    obtain ⟨ho, hph⟩ := State.mem_pays.1 (List.mem_of_head? ho)
    have hlive : o.live := by
      rw [Outgoing.live, hout]
      exact nofun
    have hkey := h.memory.key_eq hmem ho hlive hph
    exact (h.but k).moveTo ⟨hmem, o, State.mem_sentFor_of_eq ho hkey, hout⟩ hat
  · cases hs
    exact h
  · split_ifs at hs with hnewest
    cases hs
    exact (h.but k).moveTo ⟨hmem, h.pays_dead hnewest⟩ hat
  · cases hs
    exact (h.but k).moveTo ⟨hmem, hguard rfl⟩ hat
  · cases hs
    exact h

/-- A preimage is stored and the HTLC resolved with it, or a failure that is true is stored. -/
theorem finished {preimage : Option Preimage} {reply : Option Bytes}
    (hstage : Stage.Honest w s k (.finishing preimage reply))
    (hguard : ∀ b p, r = .rpcError b → preimage ≠ some p) :
    Honest w (s.finished w k c preimage reply r) := by
  unfold State.finished
  split
  · next p =>
    obtain ⟨⟨f, hf, hk, hne⟩, o, ho, hout⟩ := hstage
    have hfin : HonestBut w (s.finishForward (w.hash k) (.settled p) r) k := by
      refine (h.but k).finishForward hf hk (fun _ _ _ => nofun) fun p' hp' => ?_
      cases hp'
      obtain ⟨hmem, hin⟩ := State.mem_sentFor.1 ho
      exact ⟨o, State.mem_pays.2 ⟨hmem, World.hash_eq hin⟩, hout⟩
    refine hfin.moveTo ?_ hat.finishForward
    cases r with
    | stored =>
      show ∃ o ∈ State.sentFor w _ k, _
      rw [sentFor_finishForward]
      exact ⟨o, ho, hout⟩
    | rpcError b => exact absurd rfl (hguard b p rfl)
    | exception b =>
      show Owned w (State.finishForward ..).forwards k
      unfold State.finishForward
      rw [hf]
      exact Owned.insert_self hk nofun
  · obtain ⟨⟨f, hf, hk, hne⟩, hdead⟩ := hstage
    dsimp only
    split
    · exact (h.but k).failForward hat hf hk hdead _
    · refine endCall ((h.but k).finishForward hf hk (fun o ho hl => absurd hl (hdead o ho)) ?_)
      exact fun p hp => by cases hp

end call

/-- An answer that fits is given. -/
theorem answer {a : Answer} (h : Honest w s) (hfits : a.Fits (s.sentFor w k)) :
    Honest w (s.answer w k a) := by
  have hend := (h.but k).endCall
  refine ⟨hend.memory, hend.disk, hend.newest, fun k' c' _ hc' => ?_, hend.called, hend.apart,
    fun b hb => ?_⟩
  · exact (hend.calls k' c' trivial hc').of_eq rfl rfl rfl
  · rcases mem_cons.1 hb with rfl | hb
    · exact hfits
    · exact h.answers b hb

/-- A call goes on from a stage that fits. -/
theorem callStep {e : CallEvent} (h : Honest w s) (hc : s.calls.lookup k = some c)
    (hguard : Guarded w s (.call k e)) (hs : s.callStep w cfg k c e = some s') : Honest w s' := by
  have hstage := h.calls k c trivial hc
  have hat : s.AtWork w k := ⟨h.called k c hc, fun k' c' hc' => h.apart k' c' k c hc' hc⟩
  unfold State.callStep at hs
  split at hs
  · next reply hst =>
    rw [hst] at hstage
    exact h.listed hat hstage hs
  · next out now r hst =>
    cases hs
    rw [hst] at hstage
    exact h.take hat hguard hstage
  · next q out height hst =>
    cases hs
    rw [hst] at hstage
    cases height with
    | none =>
      exact (h.but k).moveTo ⟨hstage.2.1, h.pays_dead_of_unsent hstage.1 hstage.2.1⟩ hat
    | some height => exact (h.but k).moveTo hstage hat
  · next q out height ok hst =>
    rw [hst] at hstage
    exact h.sendonion hat hstage.1 hstage.2.1 hstage.2.2 hs
  · next reply hst =>
    rw [hst] at hstage
    exact h.waited hat hguard hstage hs
  · next r hst =>
    cases hs
    rw [hst] at hstage
    obtain ⟨⟨f, hf, hk, _⟩, hdead⟩ := hstage
    exact (h.but k).failForward hat hf hk hdead .temporary
  · next p reply r hst =>
    cases hs
    rw [hst] at hstage
    refine h.finished hat hstage ?_
    rintro b p' rfl rfl
    refine hguard rfl c hc ?_
    rw [hst]
    rfl
  · next a hst =>
    cases hs
    rw [hst] at hstage
    exact h.answer hstage
  · cases hs

/-- A pending HTLC settles or fails; what had failed stays so. -/
theorem outcome {n : ℕ} {o : Outcome} (h : Honest w s) (hs : s.outcome n o = some s') :
    Honest w s' := by
  obtain ⟨out, hout, hpending, hne, rfl⟩ := State.outcome_some hs
  have hlive : out.live := by
    rw [Outgoing.live, hpending]
    exact nofun
  have hback : ∀ o' ∈ s.sent.set n { out with outcome := o },
      ∃ o₁ ∈ s.sent, o₁.inKey = o'.inKey ∧ (o'.live → o₁.live) := by
    intro o' ho'
    rcases mem_or_eq_of_mem_set ho' with ho' | rfl
    · exact ⟨o', ho', rfl, id⟩
    · exact ⟨out, mem_of_getElem? hout, rfl, fun _ => hlive⟩
  have hforth : ∀ o₁ ∈ s.sent, ∀ p, o₁.outcome = .settled p →
      o₁ ∈ s.sent.set n { out with outcome := o } := by
    intro o₁ ho₁ p hp
    obtain ⟨i, hi, rfl⟩ := getElem_of_mem ho₁
    have hin : n ≠ i := by
      rintro rfl
      rw [List.getElem?_eq_getElem hi, some.injEq] at hout
      rw [hout, hpending] at hp
      cases hp
    rw [← getElem_set_ne hin (by simpa using hi)]
    exact getElem_mem _
  refine ⟨h.memory.evolve hback hforth, h.disk.evolve hback hforth, ?_,
    fun k' c' _ hc' => (h.calls k' c' trivial hc').evolve hback hforth, h.called, h.apart,
    h.answers⟩
  -- the key and the hash stay, and what was dead stays dead
  have hsame : ∀ (i : ℕ) (hi : i < (s.sent.set n { out with outcome := o }).length),
      ∃ hi' : i < s.sent.length,
        (s.sent.set n { out with outcome := o })[i].inKey = s.sent[i].inKey ∧
        ((s.sent.set n { out with outcome := o })[i].live → s.sent[i].live) := by
    intro i hi
    have hi' : i < s.sent.length := by simpa using hi
    refine ⟨hi', ?_⟩
    rw [getElem_set]
    split
    · next hin =>
      subst hin
      rw [List.getElem?_eq_getElem hi', some.injEq] at hout
      rw [hout]
      exact ⟨rfl, fun _ => hlive⟩
    · exact ⟨rfl, id⟩
  rw [pairwise_iff_getElem]
  intro i j hi hj hij hph hl
  obtain ⟨hi', hkeyi, _⟩ := hsame i hi
  obtain ⟨hj', hkeyj, hlivej⟩ := hsame j hj
  rw [hkeyi, hkeyj] at hph
  exact (pairwise_iff_getElem.1 h.newest) i j hi' hj' hij hph (hlivej hl)

/-- After a restart the records are those of the datastore. -/
theorem restart (h : Honest w s) : Honest w s.restart where
  memory := h.disk
  disk := h.disk
  newest := h.newest
  calls k c _ hc := by cases hc
  called k c hc := by cases hc
  apart k c k' c' hc := by cases hc
  answers := h.answers

/-- Every step that meets the condition keeps the invariant. -/
theorem step {e : Event} (h : Honest w s) (hguard : Guarded w s e)
    (hs : step w cfg s e = some s') : Honest w s' := by
  cases e with
  | quoteAsked pair a =>
    cases hs
    split
    · exact h
    · exact h.of_eq rfl rfl rfl rfl (List.Subset.refl _) (List.Subset.refl _) rfl
  | quoteMade n channels quoteId signed stored =>
    obtain ⟨req, _, hs⟩ := bind_eq_some_iff.1 hs
    rcases State.quoteMade_some hs with rfl | ⟨q, _, rfl⟩
    · exact h.of_eq rfl rfl rfl rfl (List.Subset.refl _) (List.Subset.refl _) rfl
    · exact h.of_eq rfl rfl rfl rfl (List.Subset.refl _) (List.Subset.refl _) rfl
  | accepted k rel listed r => exact h.accept hguard hs
  | call k e =>
    obtain ⟨c, hc, hs⟩ := bind_eq_some_iff.1 hs
    exact h.callStep hc hguard hs
  | delivered k =>
    rw [Crossasset.step] at hs
    split_ifs at hs
    cases hs
    exact h.of_eq rfl rfl rfl rfl (List.Subset.refl _) (subset_cons_self _ _) rfl
  | outcome n o => exact h.outcome hs
  | restarted =>
    cases hs
    exact h.restart

/-- It holds before the first start. -/
theorem init : Honest w State.init where
  memory := ⟨nofun, nofun, nofun⟩
  disk := ⟨nofun, nofun, nofun⟩
  newest := List.Pairwise.nil
  calls k c _ hc := by cases hc
  called k c hc := by cases hc
  apart k c k' c' hc := by cases hc
  answers := nofun

end HonestFor

/-! ### Runs -/

variable {es : List Event}

/-- Every event of a run meets the condition in the state that it finds. -/
abbrev GuardedRun (w : World) (cfg : Config) : State → List Event → Prop :=
  Lib.Along (step w cfg) (Guarded w)

/-- In every run each quote pays out at most once, and every outgoing HTLC is for its quote's asset
and amount and for an incoming HTLC of what the quote takes; where the events all meet the condition
every answer fits: an HTLC is failed only if no outgoing one may be paid, resolved only with the
preimage that the outgoing one returned, and let go on only if none was sent. -/
theorem forwards_never_lose (w : World) (cfg : Config) (es : List Event) (s : State)
    (hs : runFrom w cfg State.init es = some s) :
    ((s.sent.map (·.quote.quoteId)).Nodup ∧ ∀ o ∈ s.sent, o.quote ∈ s.issued ∧ o.Exact w) ∧
      (GuardedRun w cfg State.init es → ∀ a ∈ s.answers, a.answer.Fits a.outgoing) := by
  have hexact : ∃ P, Exact w P s := by
    refine Lib.keeps_of_run (P := fun s => ∃ P, Exact w P s) ⟨_, Exact.init⟩ hs ?_
    rintro s e s' ⟨P, hP⟩ hs
    exact hP.step hs
  obtain ⟨P, hexact⟩ := hexact
  refine ⟨⟨hexact.once, fun o ho => ?_⟩, fun hguard => ?_⟩
  · obtain ⟨ho, hissued, _⟩ := hexact.sent o ho
    exact ⟨hissued, ho⟩
  · have hhonest := (hguard.reaches hs).keeps (P := Honest w) HonestFor.init
      fun s e s' h hok hs => h.step hok hs
    exact hhonest.answers

namespace LosslessExample

def asset (b : UInt8) : AssetId := ByteString.replicate 32 b

def hash : PaymentHash := ByteString.replicate 32 9

def preimage : Preimage := ByteString.replicate 32 3

/-- Every HTLC is for the same payment, and crosses from one asset to the other over channel 5. The
incoming channel's short channel id is 1, and then 2. -/
def world : World where
  htlc _ := ⟨hash, some (asset 1), 101000, 1200, ⟨some 5, 50000, 1100⟩⟩
  channelOf scid := if scid = 2 then 1 else scid
  assetOf _ := asset 2

def config : Config := { cltvDelta := 34 }

def channels : Channels :=
  [(5, ⟨some (asset 2), ByteString.replicate 33 2, true, 1000000, some 5⟩),
    (6, ⟨some (asset 1), ByteString.replicate 33 3, true, 0, none⟩)]

/-- A quote for the payment is asked for and given. -/
def quoted (quoteId : ℕ) : List Event :=
  [.quoteAsked (some ⟨1 / 2, 0, 10000, 0⟩) ⟨hash, asset 1, asset 2, 50000, none⟩,
    .quoteMade 0 (some channels) quoteId 10 10]

def first : HtlcKey := ⟨1, 0⟩

def second : HtlcKey := ⟨1, 1⟩

/-- An HTLC arrives and takes the quote. -/
def takes (k : HtlcKey) : List Event :=
  [.accepted k 200 true .stored, .call k (.listed (some channels)), .call k (.taken 20 .stored)]

/-- The outgoing HTLC is sent. -/
def sends (k : HtlcKey) : List Event :=
  takes k ++ [.call k (.measured (some 1000)), .call k (.sendonion true)]

/-- The outgoing HTLC is sent and a second of the same hash refused; it is paid, the node stops, and
the first HTLC is replayed. -/
def settles : List Event :=
  quoted 7 ++ sends first ++ takes second ++
    [.call second .answered, .delivered ⟨1, 1⟩, .outcome 0 (.settled preimage), .restarted,
      .accepted first 190 true .stored, .call first (.waited (.complete preimage)),
      .call first (.finished .stored), .call first .answered]

/-- A run with a restart in which one HTLC is failed and the other resolved. -/
theorem forwards_never_lose_settled :
    ∃ s, runFrom world config State.init settles = some s ∧ s.answers.length = 2 ∧
      ∀ a ∈ s.answers, a.answer.Fits a.outgoing := by
  have hrun : (runFrom world config State.init settles).any (·.answers.length = 2) = true := by
    decide +kernel
  obtain ⟨s, hs, hlen⟩ := (any_eq_true _ _).1 hrun
  exact ⟨s, hs, of_decide_eq_true hlen, (forwards_never_lose _ _ _ s hs).2 (by decide +kernel)⟩

/-- The outgoing HTLC is paid, but the datastore answers the write of the preimage with an error. -/
def storeFails : List Event :=
  quoted 7 ++ sends first ++
    [.outcome 0 (.settled preimage), .call first (.waited (.complete preimage)),
      .call first (.finished (.rpcError false)), .call first (.finished .stored),
      .call first .answered]

/-- The connection on which the plugin waits for the outgoing HTLC is lost. -/
def connectionLost : List Event :=
  quoted 7 ++ sends first ++
    [.call first (.waited .lost), .call first (.finished .stored), .call first .answered]

/-- The node stops while the outgoing HTLC is pending, and on the replay `listsendpays` raises. -/
def listingFails : List Event :=
  quoted 7 ++ sends first ++ [.restarted, .accepted first 190 false .stored, .call first .answered]

/-- The node stops while the outgoing HTLC is pending, and the incoming channel's short channel id
is another at the replay. -/
def scidChanged : List Event :=
  quoted 7 ++ sends first ++
    [.restarted, .accepted ⟨2, 0⟩ 190 true .stored, .call ⟨2, 0⟩ (.listed (some channels)),
      .call ⟨2, 0⟩ (.taken 30 .stored), .call ⟨2, 0⟩ .answered]

/-- The outgoing HTLC fails, and before that is answered another of the same hash takes a new quote,
the node stops, and the outgoing channel is closed. -/
def recordReplaced : List Event :=
  quoted 7 ++ sends first ++
    [.outcome 0 .failed, .call first (.waited (.failure none)), .call first (.finished .stored)] ++
    quoted 8 ++ takes second ++
    [.restarted, .accepted first 190 true .stored, .call first (.listed (some [])),
      .call first .answered]

/-- A run with an answer that does not fit. -/
def Loses (es : List Event) : Prop :=
  ∃ s, runFrom world config State.init es = some s ∧ ∃ a ∈ s.answers, ¬ a.answer.Fits a.outgoing

/-- That a run loses is found by running it. -/
theorem loses_of_any
    (h : (runFrom world config State.init es).any
      (fun s => ∃ a ∈ s.answers, ¬ a.answer.Fits a.outgoing) = true) : Loses es := by
  obtain ⟨s, hs, ha⟩ := (any_eq_true _ _).1 h
  exact ⟨s, hs, of_decide_eq_true ha⟩

/-- The first four runs fail an HTLC whose outgoing one is settled or pending, and the last lets one go
on for which one was sent. -/
theorem forwards_lose :
    Loses storeFails ∧ Loses connectionLost ∧ Loses listingFails ∧ Loses scidChanged ∧
      Loses recordReplaced := by
  refine ⟨?_, ?_, ?_, ?_, ?_⟩ <;> exact loses_of_any (by decide +kernel)

end LosslessExample

end SeqLN.Crossasset
