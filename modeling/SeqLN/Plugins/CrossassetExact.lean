import SeqLN.Plugins.CrossassetForwards

/-!
# Quotes that are spent once

What the plugin of `CrossassetForwards` keeps over every run, whatever its RPC calls answer: a quote is
in one place at a time, among the quotes, in a call or in one outgoing HTLC (`Exact`), so it pays out
at most once, in its own asset and amount, and for an incoming HTLC of the asset and amount that it
takes.
-/

namespace SeqLN.Crossasset

open List Function

variable {w : World} {cfg : Config} {s s' : State}

/-! ### What the regions leave alone -/

variable {ph : PaymentHash} {q : Quote} {now : ℚ} {n : ℕ} {channels : Option Channels} {o : Outcome}
  {out : ChannelInfo} {rel : ℤ}

lemma lookup_of_lookup_foldl_erase {m : Quotes} {l : List PaymentHash}
    (h : (l.foldl (fun m k => m.erase k) m).lookup ph = some q) : m.lookup ph = some q := by
  induction l generalizing m with
  | nil => exact h
  | cons k l ih =>
    have herase := ih h
    by_cases hk : ph = k
    · subst hk
      rw [AList.lookup_erase] at herase
      cases herase
    · rwa [AList.lookup_erase_ne hk] at herase

lemma lookup_of_lookup_pruneQuotes {m : Quotes} (h : (pruneQuotes now m).lookup ph = some q) :
    m.lookup ph = some q :=
  lookup_of_lookup_foldl_erase h

lemma storeQuote_cases (cfg : Config) (now : ℚ) (quotes : Quotes) (q : Quote) :
    storeQuote cfg now quotes q = (pruneQuotes now quotes, false) ∨
      storeQuote cfg now quotes q = ((pruneQuotes now quotes).insert q.paymentHash q, true) := by
  unfold storeQuote
  dsimp only
  split
  · exact .inl rfl
  · exact .inr rfl

namespace State

section moveTo

variable {k : HtlcKey} {c : Call} {stage : Stage}

/-- A property of all calls is kept by a call that goes on at a stage with the property. -/
theorem forall_calls_moveTo (Φ : HtlcKey → Stage → Prop)
    (h : ∀ k' c', k' ≠ k → s.calls.lookup k' = some c' → Φ k' c'.stage) (hk : Φ k stage) :
    ∀ k' c', (s.moveTo k c stage).calls.lookup k' = some c' → Φ k' c'.stage := by
  intro k' c' hlook
  by_cases hkk : k' = k
  · subst hkk
    rw [moveTo, AList.lookup_insert, Option.some.injEq] at hlook
    rw [← hlook]
    exact hk
  · rw [moveTo, AList.lookup_insert_ne hkk] at hlook
    exact h k' c' hkk hlook

lemma forall_calls_endCall (Φ : HtlcKey → Stage → Prop)
    (h : ∀ k' c', k' ≠ k → s.calls.lookup k' = some c' → Φ k' c'.stage) :
    ∀ k' c', (s.endCall k).calls.lookup k' = some c' → Φ k' c'.stage := by
  intro k' c' hlook
  by_cases hkk : k' = k
  · subst hkk
    rw [endCall, AList.lookup_erase] at hlook
    cases hlook
  · rw [endCall, AList.lookup_erase_ne hkk] at hlook
    exact h k' c' hkk hlook

/-- A call after one has gone on is that one or was there before. -/
theorem lookup_of_moveTo {k' : HtlcKey} {c' : Call}
    (h : (s.moveTo k c stage).calls.lookup k' = some c') :
    k' = k ∨ s.calls.lookup k' = some c' := by
  by_cases hkk : k' = k
  · exact .inl hkk
  · rw [moveTo, AList.lookup_insert_ne hkk] at h
    exact .inr h

/-- A call after one has ended was there before. -/
theorem lookup_of_endCall {k' : HtlcKey} {c' : Call}
    (h : (s.endCall k).calls.lookup k' = some c') : s.calls.lookup k' = some c' := by
  by_cases hkk : k' = k
  · subst hkk
    rw [endCall, AList.lookup_erase] at h
    cases h
  · rwa [endCall, AList.lookup_erase_ne hkk] at h

end moveTo

/-- What the rest of `make_quote` changes. -/
theorem quoteMade_some {a : QuoteArgs} {p : Pair} {quoteId : ℕ} {signed stored : ℚ}
    (h : s.quoteMade cfg a p n channels quoteId signed stored = some s') :
    s' = { s with quoting := s.quoting.eraseIdx n } ∨
      ∃ q, q.quoteId ∉ s.issued.map (·.quoteId) ∧
        s' = { s with
          quoting := s.quoting.eraseIdx n
          quotes := (storeQuote cfg stored s.quotes q).1
          issued := if (storeQuote cfg stored s.quotes q).2 then q :: s.issued else s.issued } := by
  unfold quoteMade at h
  dsimp only at h
  split at h
  · cases h
    exact .inl rfl
  next q _ =>
  by_cases hdrawn : q.quoteId ∈ s.issued.map (·.quoteId)
  · rw [if_pos hdrawn] at h
    cases h
  · rw [if_neg hdrawn] at h
    cases h
    exact .inr ⟨q, hdrawn, rfl⟩

/-- What an outcome changes. -/
theorem outcome_some (h : s.outcome n o = some s') :
    ∃ out, s.sent[n]? = some out ∧ out.outcome = .pending ∧ o ≠ .pending ∧
      s' = { s with sent := s.sent.set n { out with outcome := o } } := by
  unfold outcome at h
  split at h
  · cases h
  next out hout =>
  split_ifs at h with hcond
  cases h
  exact ⟨out, hout, hcond.1, hcond.2, rfl⟩

lemma map_set_outcome {out : Outgoing} (h : s.sent[n]? = some out) :
    (s.sent.set n { out with outcome := o }).map (·.quote.quoteId) =
      s.sent.map (·.quote.quoteId) := by
  have hlt : n < s.sent.length := (List.getElem?_eq_some_iff.1 h).1
  have hout : s.sent[n] = out := (List.getElem?_eq_some_iff.1 h).2
  rw [map_set, ← hout]
  refine ext_getElem (by simp) fun i hi _ => ?_
  rw [getElem_set]
  split
  · next hin => simp [hin]
  · rfl

/-- A quote is spent only by an HTLC that matches it, where no other forward has the hash. -/
theorem decision_spend {k : HtlcKey} (h : s.decision w cfg k rel out now = .spend q) :
    s.quotes.lookup (w.hash k) = some q ∧
      (∀ f, s.forwards.lookup (w.hash k) = some f → f.state = .failed) ∧
      Matches q (w.htlc (w.htlcIn k)) rel out := by
  unfold decision at h
  dsimp only at h
  split at h
  · cases h
  next q' hq =>
  split_ifs at h with hfwd hcheck _
  cases h
  refine ⟨hq, fun f hf => ?_, ?_⟩
  · rw [hf] at hfwd
    simpa using hfwd
  · rw [Bool.not_eq_true, Option.isSome_eq_false_iff, Option.isNone_iff_eq_none] at hcheck
    exact matches_of_check hcheck

/-- Without a record the plugin never resolves. -/
theorem decision_answer {k : HtlcKey} {a : Answer}
    (h : s.decision w cfg k rel out now = .answer a) : a = .cont ∨ ∃ f, a = .fail f := by
  unfold decision at h
  dsimp only at h
  split at h
  · cases h
    split
    · exact .inr ⟨_, rfl⟩
    · exact .inl rfl
  · split_ifs at h <;> cases h <;> exact .inr ⟨_, rfl⟩

section finishForward

variable (s) (ph : PaymentHash) (st : ForwardState) (r : Persisted)

@[simp] lemma finishForward_calls : (s.finishForward ph st r).calls = s.calls := by
  unfold finishForward
  split <;> rfl

@[simp] lemma finishForward_quotes : (s.finishForward ph st r).quotes = s.quotes := by
  unfold finishForward
  split <;> rfl

@[simp] lemma finishForward_sent : (s.finishForward ph st r).sent = s.sent := by
  unfold finishForward
  split <;> rfl

@[simp] lemma finishForward_issued : (s.finishForward ph st r).issued = s.issued := by
  unfold finishForward
  split <;> rfl

end finishForward

end State

/-! ### Quotes that are spent once -/

/-- Where a quote is. -/
inductive Place where
  | fresh
  | quoted (ph : PaymentHash)
  | held (k : HtlcKey)
  | used
  deriving DecidableEq

/-- The listing that a channel came from named its asset. -/
def World.Names (w : World) (out : ChannelInfo) : Prop :=
  ∀ c ∈ out.scid, ∀ a ∈ out.asset, a = w.assetOf c

/-- A call that holds a quote holds the one it matches. -/
structure Holds (w : World) (issued : List Quote) (P : ℕ → Place) (k : HtlcKey) (q : Quote)
    (out : ChannelInfo) : Prop where
  names : w.Names out
  issued : q ∈ issued
  place : P q.quoteId = .held k
  matches_ : ∃ rel, Matches q (w.htlc (w.htlcIn k)) rel out

/-- What a stage knows of the channel and the quote that it has. -/
def Stage.Exact (w : World) (issued : List Quote) (P : ℕ → Place) (k : HtlcKey) : Stage → Prop
  | .taking out => w.Names out
  | .measuring q out => Holds w issued P k q out
  | .sending q out _ => Holds w issued P k q out
  | _ => True

/-- The quote that a stage holds. -/
def Stage.quote : Stage → Option Quote
  | .measuring q _ => some q
  | .sending q _ _ => some q
  | _ => none

section stage

variable {issued : List Quote} {P : ℕ → Place} {k : HtlcKey} {stage : Stage}

lemma Stage.Exact.place (h : stage.Exact w issued P k) (q : Quote) (hq : q ∈ stage.quote) :
    P q.quoteId = .held k := by
  cases stage <;> cases hq <;> exact Holds.place h

lemma Stage.Exact.update {id : ℕ} {pl : Place} (h : stage.Exact w issued P k)
    (hne : ∀ q ∈ stage.quote, q.quoteId ≠ id) :
    stage.Exact w issued (update P id pl) k := by
  have hholds : ∀ {q out}, Holds w issued P k q out → q.quoteId ≠ id →
      Holds w issued (Function.update P id pl) k q out := by
    intro q out hh hid
    refine ⟨hh.names, hh.issued, ?_, hh.matches_⟩
    rw [update_of_ne hid]
    exact hh.place
  cases stage with
  | measuring q out => exact hholds h (hne q rfl)
  | sending q out height => exact hholds h (hne q rfl)
  | _ => exact h

lemma Stage.Exact.issue (h : stage.Exact w issued P k) : stage.Exact w (q :: issued) P k := by
  have hholds : ∀ {q' out}, Holds w issued P k q' out → Holds w (q :: issued) P k q' out :=
    fun hh => ⟨hh.names, mem_cons_of_mem q hh.issued, hh.place, hh.matches_⟩
  cases stage with
  | measuring q' out => exact hholds h
  | sending q' out height => exact hholds h
  | _ => exact h

end stage

/-- The outgoing HTLC is for its quote's asset and amount, and the incoming one for what the quote
takes. -/
structure Outgoing.Exact (w : World) (o : Outgoing) : Prop where
  asset : o.asset = o.quote.assetOut
  amount : o.amountMsat = o.quote.amountOutMsat
  assetIn : (w.htlc (w.htlcIn o.inKey)).asset = some o.quote.assetIn
  amountIn : (w.htlc (w.htlcIn o.inKey)).amountMsat = o.quote.amountInMsat

/-- Every quote that was given is in one place, and what was sent is exact. -/
structure Exact (w : World) (P : ℕ → Place) (s : State) : Prop where
  quoted : ∀ ph q, s.quotes.lookup ph = some q → q ∈ s.issued ∧ P q.quoteId = .quoted ph
  calls : ∀ k c, s.calls.lookup k = some c → c.stage.Exact w s.issued P k
  sent : ∀ o ∈ s.sent, o.Exact w ∧ o.quote ∈ s.issued ∧ P o.quote.quoteId = .used
  once : (s.sent.map (·.quote.quoteId)).Nodup
  fresh : ∀ id, id ∉ s.issued.map (·.quoteId) → P id = .fresh

namespace Exact

variable {P : ℕ → Place} {k : HtlcKey} {c : Call}

/-- Only these parts of a state matter. -/
theorem of_eq (h : Exact w P s) (hquotes : s'.quotes = s.quotes) (hcalls : s'.calls = s.calls)
    (hsent : s'.sent = s.sent) (hissued : s'.issued = s.issued) : Exact w P s' := by
  constructor
  · rw [hquotes, hissued]
    exact h.quoted
  · rw [hcalls, hissued]
    exact h.calls
  · rw [hsent, hissued]
    exact h.sent
  · rw [hsent]
    exact h.once
  · rw [hissued]
    exact h.fresh

lemma moveTo {stage : Stage} (h : Exact w P s) (hk : stage.Exact w s.issued P k) :
    Exact w P (s.moveTo k c stage) where
  quoted := h.quoted
  calls := State.forall_calls_moveTo _ (fun k' c' _ hlook => h.calls k' c' hlook) hk
  sent := h.sent
  once := h.once
  fresh := h.fresh

lemma endCall (h : Exact w P s) : Exact w P (s.endCall k) where
  quoted := h.quoted
  calls := State.forall_calls_endCall _ fun k' c' _ hlook => h.calls k' c' hlook
  sent := h.sent
  once := h.once
  fresh := h.fresh

variable {r : Persisted}

lemma finishForward {st : ForwardState} (h : Exact w P s) : Exact w P (s.finishForward ph st r) :=
  h.of_eq (by simp) (by simp) (by simp) (by simp)

variable {f : Forward}

lemma resume {listed : Bool} (h : Exact w P s) : Exact w P (s.resume w k c f listed r) := by
  unfold State.resume
  split
  · exact h.moveTo trivial
  · exact h.moveTo trivial
  · split
    · exact h.moveTo trivial
    split
    · exact h.finishForward.moveTo trivial
    · exact h.moveTo trivial

lemma accept {listed : Bool} (h : Exact w P s) (hs : s.accept w k rel listed r = some s') :
    Exact w P s' := by
  have hcalled : Exact w P { s with called := w.htlcIn k :: s.called } := h.of_eq rfl rfl rfl rfl
  unfold State.accept at hs
  split at hs
  · cases hs
  dsimp only at hs
  split at hs <;> cases hs
  · split
    · exact hcalled.resume
    · exact hcalled.moveTo trivial
  · split
    · exact hcalled.moveTo trivial
    · exact hcalled.moveTo trivial

lemma listed {reply : Option Channels} (h : Exact w P s)
    (hs : s.listed w k c reply = some s') : Exact w P s' := by
  unfold State.listed at hs
  split at hs
  · cases hs
    exact h.moveTo trivial
  · next channels =>
    split at hs
    · next hlists =>
      cases hs
      refine h.moveTo ?_
      split
      · trivial
      · next out hout =>
        split
        · trivial
        -- the channel is one of those that were listed
        · obtain ⟨scid, _, hlook⟩ := Option.bind_eq_some_iff.1 hout
          obtain ⟨l₁, l₂, hmem, _⟩ := lookup_eq_some_iff.1 hlook
          exact hlists (scid, out) (by simp [hmem])
    · cases hs

/-- A quote that is nowhere may be put anywhere. -/
theorem relocate (h : Exact w P s) (id : ℕ) (pl : Place)
    (hquotes : ∀ ph q, s.quotes.lookup ph = some q → q.quoteId ≠ id)
    (hcalls : ∀ k c, s.calls.lookup k = some c → ∀ q ∈ c.stage.quote, q.quoteId ≠ id)
    (hsent : ∀ o ∈ s.sent, o.quote.quoteId ≠ id) (hissued : id ∈ s.issued.map (·.quoteId)) :
    Exact w (update P id pl) s where
  quoted ph q hq := by
    rw [update_of_ne (hquotes ph q hq)]
    exact h.quoted ph q hq
  calls k c hc := (h.calls k c hc).update (hcalls k c hc)
  sent o ho := by
    rw [update_of_ne (hsent o ho)]
    exact h.sent o ho
  once := h.once
  fresh id' hid := by
    have hne : id' ≠ id := by
      rintro rfl
      exact hid hissued
    rw [update_of_ne hne]
    exact h.fresh id' hid

lemma eraseQuote (h : Exact w P s) :
    Exact w P ({ s with quotes := s.quotes.erase ph }.putForward ph f r) := by
  refine ⟨fun ph' q hq => ?_, h.calls, h.sent, h.once, h.fresh⟩
  by_cases hph : ph' = ph
  · subst hph
    rw [State.putForward, AList.lookup_erase] at hq
    cases hq
  · rw [State.putForward, AList.lookup_erase_ne hph] at hq
    exact h.quoted ph' q hq

/-- The quote of an HTLC goes from the quotes to its call. -/
theorem spend (h : Exact w P s) (hq : s.quotes.lookup (w.hash k) = some q)
    (hmatch : Matches q (w.htlc (w.htlcIn k)) rel out) (hnames : w.Names out) :
    Exact w (update P q.quoteId (.held k))
      (({ s with quotes := s.quotes.erase (w.hash k) }.putForward (w.hash k) f r).moveTo k c
        (.measuring q out)) := by
  obtain ⟨hissued, hplace⟩ := h.quoted _ _ hq
  have herased : Exact w P
      ({ s with quotes := s.quotes.erase (w.hash k) }.putForward (w.hash k) f r) := h.eraseQuote
  refine (herased.relocate _ (.held k) ?_ ?_ ?_ (List.mem_map_of_mem hissued)).moveTo
    ⟨hnames, hissued, update_self .., rel, hmatch⟩
  · intro ph q' hq' hid
    have hplace' := (herased.quoted ph q' hq').2
    rw [hid, hplace, Place.quoted.injEq] at hplace'
    rw [State.putForward, ← hplace', AList.lookup_erase] at hq'
    cases hq'
  · intro k' c' hc' q' hq' hid
    have hheld := (h.calls k' c' hc').place q' hq'
    rw [hid, hplace] at hheld
    cases hheld
  · intro o ho hid
    have hused := (h.sent o ho).2.2
    rw [hid, hplace] at hused
    cases hused

lemma take (h : Exact w P s) (hnames : w.Names out) :
    ∃ P', Exact w P' (s.take w cfg k c out now r) := by
  unfold State.take
  split
  · exact ⟨P, h.moveTo trivial⟩
  · next q hd =>
    obtain ⟨hq, _, hmatch⟩ := State.decision_spend hd
    dsimp only
    split
    · exact ⟨_, h.spend hq hmatch hnames⟩
    · exact ⟨P, h.eraseQuote.moveTo trivial⟩

lemma measured {height : Option ℤ} (h : Exact w P s) (hholds : Holds w s.issued P k q out) :
    Exact w P (s.measured k c q out height) := by
  unfold State.measured
  split
  · exact h.moveTo trivial
  · exact h.moveTo hholds

/-- The quote of a call is used by the HTLC that it sends. -/
theorem send {scid : Scid} {delay : ℤ} (h : Exact w P s) (hholds : Holds w s.issued P k q out)
    (hscid : out.scid = some scid) :
    Exact w (update P q.quoteId .used)
      { s.moveTo k c .waiting with
        sent := ⟨q, k, w.assetOf scid, q.amountOutMsat, delay, .pending⟩ :: s.sent } := by
  obtain ⟨rel, hmatch⟩ := hholds.matches_
  have hplace := hholds.place
  have hunused : ∀ o ∈ s.sent, o.quote.quoteId ≠ q.quoteId := by
    intro o ho hid
    have hused := (h.sent o ho).2.2
    rw [hid, hplace] at hused
    cases hused
  have hmoved : Exact w (update P q.quoteId .used) (s.moveTo k c .waiting) := by
    have hwaits : Exact w P (s.moveTo k c .waiting) := h.moveTo trivial
    refine hwaits.relocate _ .used ?_ ?_ hunused (List.mem_map_of_mem hholds.issued)
    · intro ph q' hq' hid
      have hquoted := (h.quoted ph q' hq').2
      rw [hid, hplace] at hquoted
      cases hquoted
    · refine State.forall_calls_moveTo (fun _ st => ∀ q' ∈ st.quote, q'.quoteId ≠ q.quoteId)
        (fun k' c' hne hc' q' hq' hid => ?_) (by simp [Stage.quote])
      have hheld := (h.calls k' c' hc').place q' hq'
      rw [hid, hplace, Place.held.injEq] at hheld
      exact hne hheld.symm
  refine ⟨hmoved.quoted, hmoved.calls, ?_, ?_, hmoved.fresh⟩
  · intro o ho
    rcases mem_cons.1 ho with rfl | ho
    · refine ⟨⟨?_, rfl, hmatch.assetIn, hmatch.amountIn⟩, hholds.issued, update_self ..⟩
      exact (hholds.names scid hscid q.assetOut hmatch.assetOut).symm
    · exact hmoved.sent o ho
  · rw [map_cons, nodup_cons]
    refine ⟨?_, h.once⟩
    intro hmem
    obtain ⟨o, ho, hid⟩ := List.mem_map.1 hmem
    exact hunused o ho hid

lemma sendonion {height : ℤ} {ok : Bool} (h : Exact w P s) (hholds : Holds w s.issued P k q out)
    (hs : s.sendonion w k c q out height ok = some s') : ∃ P', Exact w P' s' := by
  unfold State.sendonion at hs
  dsimp only at hs
  split_ifs at hs
  · cases hs
    exact ⟨P, h.moveTo trivial⟩
  · cases hs
    exact ⟨P, h.moveTo trivial⟩
  · obtain ⟨scid, hscid, rfl⟩ := Option.map_eq_some_iff.1 hs
    exact ⟨_, h.send hholds hscid⟩

lemma waited {reply : WaitReply} (h : Exact w P s) (hs : s.waited w k c reply = some s') :
    Exact w P s' := by
  unfold State.waited at hs
  dsimp only at hs
  split at hs
  · split_ifs at hs
    cases hs
    exact h.moveTo trivial
  · cases hs
    exact h
  · split_ifs at hs
    cases hs
    exact h.moveTo trivial
  · cases hs
    exact h.moveTo trivial
  · cases hs
    exact h

lemma finished {preimage : Option Preimage} {reply : Option Bytes} (h : Exact w P s) :
    Exact w P (s.finished w k c preimage reply r) := by
  unfold State.finished
  split
  · refine h.finishForward.moveTo ?_
    split <;> trivial
  · dsimp only
    split
    · exact h.finishForward.moveTo trivial
    · exact h.finishForward.endCall

lemma answer {a : Answer} (h : Exact w P s) : Exact w P (s.answer w k a) :=
  (h.endCall (k := k)).of_eq rfl rfl rfl rfl

/-- Every step of a call keeps the accounts exact. -/
lemma callStep {e : CallEvent} (h : Exact w P s) (hc : s.calls.lookup k = some c)
    (hs : s.callStep w cfg k c e = some s') : ∃ P', Exact w P' s' := by
  have hstage := h.calls k c hc
  unfold State.callStep at hs
  split at hs
  · exact ⟨P, h.listed hs⟩
  · next out now r hst =>
    cases hs
    rw [hst] at hstage
    exact h.take hstage
  · next q out height hst =>
    cases hs
    rw [hst] at hstage
    exact ⟨P, h.measured hstage⟩
  · next q out height ok hst =>
    rw [hst] at hstage
    exact h.sendonion hstage hs
  · exact ⟨P, h.waited hs⟩
  · cases hs
    exact ⟨P, h.finishForward.moveTo trivial⟩
  · cases hs
    exact ⟨P, h.finished⟩
  · cases hs
    exact ⟨P, h.answer⟩
  · cases hs

lemma prune (h : Exact w P s) :
    Exact w P { s with quotes := pruneQuotes now s.quotes } where
  quoted ph q hq := h.quoted ph q (lookup_of_lookup_pruneQuotes hq)
  calls := h.calls
  sent := h.sent
  once := h.once
  fresh := h.fresh

/-- A quote with a number that was never drawn takes its place among the quotes. -/
theorem issue (h : Exact w P s) (hdrawn : q.quoteId ∉ s.issued.map (·.quoteId)) :
    Exact w (update P q.quoteId (.quoted q.paymentHash))
      { s with quotes := s.quotes.insert q.paymentHash q, issued := q :: s.issued } := by
  have hfresh := h.fresh _ hdrawn
  have hmade : Exact w P { s with issued := q :: s.issued } := by
    refine ⟨fun ph q' hq' => ?_, fun k c hc => (h.calls k c hc).issue, fun o ho => ?_, h.once,
      fun id hid => h.fresh id fun hmem => hid (mem_cons_of_mem _ hmem)⟩
    · obtain ⟨hmem, hplace⟩ := h.quoted ph q' hq'
      exact ⟨mem_cons_of_mem q hmem, hplace⟩
    · obtain ⟨hexact, hmem, hplace⟩ := h.sent o ho
      exact ⟨hexact, mem_cons_of_mem q hmem, hplace⟩
  have hplaced := hmade.relocate q.quoteId (.quoted q.paymentHash)
    (fun ph q' hq' hid => by
      have hplace := (h.quoted ph q' hq').2
      rw [hid, hfresh] at hplace
      cases hplace)
    (fun k c hc q' hq' hid => by
      have hplace := (h.calls k c hc).place q' hq'
      rw [hid, hfresh] at hplace
      cases hplace)
    (fun o ho hid => by
      have hplace := (h.sent o ho).2.2
      rw [hid, hfresh] at hplace
      cases hplace)
    mem_cons_self
  refine ⟨fun ph q' hq' => ?_, hplaced.calls, hplaced.sent, hplaced.once, hplaced.fresh⟩
  by_cases hph : ph = q.paymentHash
  · subst hph
    rw [AList.lookup_insert, Option.some.injEq] at hq'
    subst hq'
    exact ⟨mem_cons_self, update_self ..⟩
  · rw [AList.lookup_insert_ne hph] at hq'
    exact hplaced.quoted ph q' hq'

lemma quoteMade {a : QuoteArgs} {p : Pair} {quoteId : ℕ} {signed stored : ℚ} (h : Exact w P s)
    (hs : s.quoteMade cfg a p n channels quoteId signed stored = some s') :
    ∃ P', Exact w P' s' := by
  rcases State.quoteMade_some hs with rfl | ⟨q, hdrawn, rfl⟩
  · exact ⟨P, h.of_eq rfl rfl rfl rfl⟩
  have hpruned : Exact w P { s with quotes := pruneQuotes stored s.quotes } := h.prune
  rcases storeQuote_cases cfg stored s.quotes q with hstore | hstore
  · rw [hstore]
    exact ⟨P, hpruned.of_eq rfl rfl rfl rfl⟩
  · rw [hstore]
    exact ⟨_, (hpruned.issue hdrawn).of_eq rfl rfl rfl rfl⟩

lemma outcome (h : Exact w P s) (hs : s.outcome n o = some s') : Exact w P s' := by
  obtain ⟨out, hout, -, -, rfl⟩ := State.outcome_some hs
  have hmem := mem_of_getElem? hout
  refine ⟨h.quoted, h.calls, fun o' ho' => ?_, ?_, h.fresh⟩
  · rcases mem_or_eq_of_mem_set ho' with ho' | rfl
    · exact h.sent o' ho'
    · obtain ⟨hexact, hissued, hplace⟩ := h.sent out hmem
      exact ⟨⟨hexact.asset, hexact.amount, hexact.assetIn, hexact.amountIn⟩, hissued, hplace⟩
  · rw [State.map_set_outcome hout]
    exact h.once

lemma restart (h : Exact w P s) : Exact w P s.restart where
  quoted ph q hq := by cases hq
  calls k c hc := by cases hc
  sent := h.sent
  once := h.once
  fresh := h.fresh

/-- Every event keeps the accounts exact. -/
theorem step {e : Event} (h : Exact w P s) (hs : step w cfg s e = some s') :
    ∃ P', Exact w P' s' := by
  cases e with
  | quoteAsked pair a =>
    cases hs
    refine ⟨P, ?_⟩
    split
    · exact h
    · exact h.of_eq rfl rfl rfl rfl
  | quoteMade n channels quoteId signed stored =>
    obtain ⟨req, _, hs⟩ := Option.bind_eq_some_iff.1 hs
    exact h.quoteMade hs
  | accepted k rel listed r => exact ⟨P, h.accept hs⟩
  | call k e =>
    obtain ⟨c, hc, hs⟩ := Option.bind_eq_some_iff.1 hs
    exact h.callStep hc hs
  | delivered k =>
    rw [Crossasset.step] at hs
    split_ifs at hs
    cases hs
    exact ⟨P, h.of_eq rfl rfl rfl rfl⟩
  | outcome n o => exact ⟨P, h.outcome hs⟩
  | restarted =>
    cases hs
    exact ⟨P, h.restart⟩

lemma init : Exact w (fun _ => .fresh) State.init where
  quoted ph q hq := by cases hq
  calls k c hc := by cases hc
  sent o ho := by cases ho
  once := nodup_nil
  fresh _ _ := rfl

end Exact

end SeqLN.Crossasset
