import SeqLN.Lib.Matching
import SeqLN.Signer.SymBuild

/-!
# The parts of a settlement

`checkSettlement` takes a list exactly where it is, up to order, one balance output of each side at
most and the outputs of some of the state's HTLCs, each once, and adds up to the funding
(`checksExactly`). Its loop is a greedy matching of the outputs to the two balances and the HTLCs
(`scanOuts_greedy`). So the node and the device agree on symmetric states (`node_and_device_agree`).
-/

namespace SeqLN.Signer

open Lib Matching Tapscript List SymBuild

/-! ### The matching -/

variable {es : List (Out × ℕ)}

/-- What an output of a settlement can be. -/
inductive Payee where
  | ours
  | theirs
  | htlc (h : StateHtlc × Option Bytes)
  deriving DecidableEq

namespace Payee

/-- An output is that of a balance or of an HTLC. -/
def fits (oursSpk theirsSpk : Bytes) : Payee → Out → Bool
  | .ours, o => o.spk = oursSpk
  | .theirs, o => o.spk = theirsSpk
  | .htlc h, o => paysHtlc o h

/-- What a matched output adds to what the state pays. -/
def pay (o : Out) (p : Paid) : Payee → Paid
  | .ours => { p with ours := o.amount }
  | .theirs => { p with theirs := o.amount }
  | .htlc h => { p with offered := if h.1.ours then satAdd p.offered o.amount else p.offered }

end Payee

section scan

variable {oursSpk theirsSpk : Bytes} {c c' : SettlementScan} {o : Out} {i : ℕ}

/-- The payees that no output has been matched to yet. -/
def SettlementScan.free (c : SettlementScan) : List Payee :=
  (if c.seenOurs then [] else [.ours]) ++ ((if c.seenTheirs then [] else [.theirs]) ++
    c.unused.map .htlc)

lemma find?_htlcs (o : Out) (unused : List (StateHtlc × Option Bytes)) :
    (unused.map Payee.htlc).find? (Payee.fits oursSpk theirsSpk · o) =
      (unused.find? (paysHtlc o)).map .htlc :=
  List.find?_map

lemma eraseP_htlcs (o : Out) (unused : List (StateHtlc × Option Bytes)) :
    (unused.map Payee.htlc).eraseP (Payee.fits oursSpk theirsSpk · o) =
      (unused.eraseP (paysHtlc o)).map .htlc :=
  eraseP_map

/-- A balance that was not seen yet comes first. -/
theorem take_slot {P : Payee → Bool} {s : Payee} {seen : Bool} (l : List Payee)
    (h : P s = true ∧ seen = false) :
    ((if seen then [] else [s]) ++ l).find? P = some s ∧
      ((if seen then [] else [s]) ++ l).eraseP P = l := by
  obtain ⟨hs, rfl⟩ := h
  exact ⟨List.find?_cons_of_pos hs, eraseP_cons_of_pos hs⟩

lemma skip_slot {P : Payee → Bool} {s : Payee} {seen : Bool} (l : List Payee)
    (h : ¬ (P s = true ∧ seen = false)) :
    ((if seen then [] else [s]) ++ l).find? P = l.find? P ∧
      ((if seen then [] else [s]) ++ l).eraseP P = (if seen then [] else [s]) ++ l.eraseP P := by
  cases seen with
  | true => exact ⟨rfl, rfl⟩
  | false =>
    have hs : ¬ P s = true := fun hs => h ⟨hs, rfl⟩
    exact ⟨List.find?_cons_of_neg hs, eraseP_cons_of_neg hs⟩

/-- One output takes the first payee that it fits. -/
theorem scanOut_of_find {s : Payee} (hfit : c.total + o.amount < 2 ^ 64)
    (hs : c.free.find? (Payee.fits oursSpk theirsSpk · o) = some s) :
    ∃ c', scanOut oursSpk theirsSpk c o i = .ok c' ∧
      c'.free = c.free.eraseP (Payee.fits oursSpk theirsSpk · o) ∧ c'.total = c.total + o.amount ∧
      c'.paid = s.pay o c.paid := by
  unfold scanOut
  rw [if_neg (by omega)]
  unfold SettlementScan.free at hs ⊢
  dsimp only
  -- our balance comes first, then theirs, then the HTLCs
  by_cases hours : o.spk = oursSpk ∧ c.seenOurs = false
  · have htake := take_slot (P := (Payee.fits oursSpk theirsSpk · o)) (s := .ours)
      ((if c.seenTheirs then [] else [.theirs]) ++ c.unused.map .htlc)
      ⟨decide_eq_true hours.1, hours.2⟩
    rw [htake.1] at hs
    cases hs
    rw [if_pos hours, htake.2]
    exact ⟨_, rfl, rfl, rfl, rfl⟩
  · have hskip := skip_slot (P := (Payee.fits oursSpk theirsSpk · o)) (s := .ours)
      ((if c.seenTheirs then [] else [.theirs]) ++ c.unused.map .htlc)
      fun h => hours ⟨of_decide_eq_true h.1, h.2⟩
    rw [hskip.1] at hs
    rw [if_neg hours, hskip.2]
    by_cases htheirs : o.spk = theirsSpk ∧ c.seenTheirs = false
    · have htake := take_slot (P := (Payee.fits oursSpk theirsSpk · o)) (s := .theirs)
        (c.unused.map .htlc) ⟨decide_eq_true htheirs.1, htheirs.2⟩
      rw [htake.1] at hs
      cases hs
      rw [if_pos htheirs, htake.2]
      exact ⟨_, rfl, rfl, rfl, rfl⟩
    · have hskip := skip_slot (P := (Payee.fits oursSpk theirsSpk · o)) (s := .theirs)
        (c.unused.map .htlc) fun h => htheirs ⟨of_decide_eq_true h.1, h.2⟩
      rw [hskip.1, find?_htlcs] at hs
      obtain ⟨h, hfind, rfl⟩ := Option.map_eq_some_iff.1 hs
      rw [if_neg htheirs, hskip.2, eraseP_htlcs, hfind]
      exact ⟨_, rfl, rfl, rfl, rfl⟩

/-- What one output did to the scan. -/
theorem scanOut_ok (h : scanOut oursSpk theirsSpk c o i = .ok c') :
    c.total + o.amount < 2 ^ 64 ∧
      ((o.spk = oursSpk ∧ c.seenOurs = false ∧ c' = { c with
          total := c.total + o.amount, seenOurs := true, paid := Payee.ours.pay o c.paid }) ∨
        (o.spk = theirsSpk ∧ c.seenTheirs = false ∧ c' = { c with
          total := c.total + o.amount, seenTheirs := true, paid := Payee.theirs.pay o c.paid }) ∨
        ∃ e, c.unused.find? (paysHtlc o) = some e ∧ c' = { c with
          total := c.total + o.amount
          unused := c.unused.eraseP (paysHtlc o)
          paid := (Payee.htlc e).pay o c.paid }) := by
  unfold scanOut at h
  split at h
  · cases h
  · next hfit =>
    refine ⟨by omega, ?_⟩
    dsimp only at h
    split at h
    · next hours =>
      cases h
      exact .inl ⟨hours.1, hours.2, rfl⟩
    · split at h
      · next htheirs =>
        cases h
        exact .inr (.inl ⟨htheirs.1, htheirs.2, rfl⟩)
      · split at h
        · next e he =>
          cases h
          exact .inr (.inr ⟨e, he, rfl⟩)
        · cases h

/-- The scan of the outputs finds what the greedy matching finds. -/
theorem scanOuts_greedy {chosen : List Payee}
    (h : greedy (Payee.fits oursSpk theirsSpk) c.free (es.map (·.1)) = some chosen)
    (hfit : c.total + ((es.map (·.1)).map (·.amount)).sum < 2 ^ 64) :
    ∃ c', scanOuts oursSpk theirsSpk es c = .ok c' := by
  induction es generalizing c chosen with
  | nil => exact ⟨c, rfl⟩
  | cons e es ih =>
    obtain ⟨s, rest, hs, hrest, -⟩ := greedy_cons h
    rw [map_cons, map_cons, List.sum_cons] at hfit
    obtain ⟨c₁, hc₁, hfree, htotal, -⟩ := scanOut_of_find (o := e.1) (i := e.2) (by omega) hs
    rw [← hfree] at hrest
    obtain ⟨c', hc'⟩ := ih hrest (by omega)
    refine ⟨c', ?_⟩
    rw [scanOuts, hc₁]
    exact hc'

end scan

/-! ### The parts -/

/-- What a settlement is made of: a balance of each side at most, and HTLCs. -/
structure Parts where
  ours : Option ℕ
  theirs : Option ℕ
  htlcs : List StateHtlc

namespace Parts

/-- What the parts pay. -/
def paid (p : Parts) : Paid where
  ours := p.ours.getD 0
  theirs := p.theirs.getD 0
  offered := ((p.htlcs.filter (·.ours)).map (·.amountMsat / 1000)).sum

/-- The outputs of the balances. -/
def balances (p : Parts) (oursSpk theirsSpk : Bytes) : List Out :=
  (p.ours.map (⟨·, oursSpk⟩)).toList ++ (p.theirs.map (⟨·, theirsSpk⟩)).toList

end Parts

/-- The outputs are, up to order, those of the parts, and each HTLC is one of `htlcs`. -/
structure Settles (oursSpk theirsSpk : Bytes) (script : StateHtlc → Option Bytes)
    (htlcs : List StateHtlc) (outs : List Out) (p : Parts) : Prop where
  distinct : List.Subperm p.htlcs htlcs
  outputs : ∃ pays : List Out,
    List.Forall₂ (fun h o => script h = some o.spk ∧ h.amountMsat / 1000 = o.amount) p.htlcs pays ∧
      List.Perm outs (p.balances oursSpk theirsSpk ++ pays)

variable {p : Parts}

section parts

variable {oursSpk theirsSpk : Bytes} {script : StateHtlc → Option Bytes}

/-- An HTLC with its script. -/
def withScript (script : StateHtlc → Option Bytes) (h : StateHtlc) : StateHtlc × Option Bytes :=
  (h, script h)

lemma paysHtlc_iff {o : Out} {h : StateHtlc} :
    paysHtlc o (withScript script h) = true ↔
      script h = some o.spk ∧ h.amountMsat / 1000 = o.amount := by
  unfold paysHtlc withScript
  rw [Bool.and_eq_true, decide_eq_true_eq, decide_eq_true_eq]

lemma paysHtlc_amount {o : Out} {h : StateHtlc} (hpays : paysHtlc o (withScript script h) = true) :
    h.amountMsat / 1000 = o.amount :=
  (paysHtlc_iff.1 hpays).2

/-- What the parts add to what was paid before. -/
def Parts.addTo (p : Parts) (q : Paid) : Paid where
  ours := p.ours.getD q.ours
  theirs := p.theirs.getD q.theirs
  offered := q.offered + p.paid.offered

/-- The outputs from here on are those of parts that are still free, which pay what the scan adds. -/
theorem scanOuts_parts {c c' : SettlementScan} {us : List StateHtlc}
    (h : scanOuts oursSpk theirsSpk es c = .ok c') (hus : c.unused = us.map (withScript script))
    (hoffered : c.paid.offered ≤ c.total) :
    c'.total = c.total + ((es.map (·.1)).map (·.amount)).sum ∧
      ∃ p : Parts, Settles oursSpk theirsSpk script us (es.map (·.1)) p ∧
        (c.seenOurs = true → p.ours = none) ∧ (c.seenTheirs = true → p.theirs = none) ∧
        c'.paid = p.addTo c.paid := by
  induction es generalizing c us with
  | nil =>
    cases h
    exact ⟨rfl, ⟨none, none, []⟩, ⟨nil_subperm, [], .nil, .refl _⟩, fun _ => rfl, fun _ => rfl, rfl⟩
  | cons e es ih =>
    obtain ⟨o, i⟩ := e
    rw [scanOuts] at h
    obtain ⟨c₁, hc₁, h⟩ := bind_eq_ok.1 h
    rw [map_cons, map_cons, List.sum_cons]
    obtain ⟨hfit, ⟨rfl, hseen, rfl⟩ | ⟨rfl, hseen, rfl⟩ | ⟨e, he, rfl⟩⟩ := scanOut_ok hc₁
    · obtain ⟨htotal, p, ⟨hdistinct, pays, hpays, hperm⟩, hours, htheirs, hpaid⟩ :=
        ih h hus (hoffered.trans (Nat.le_add_right _ _))
      have hnone : p.ours = none := hours rfl
      refine ⟨htotal.trans (Nat.add_assoc _ _ _), ⟨some o.amount, p.theirs, p.htlcs⟩,
        ⟨hdistinct, pays, hpays, ?_⟩, fun hyes => ?_, htheirs, ?_⟩
      · rw [Parts.balances, hnone] at hperm
        exact hperm.cons o
      · rw [hseen] at hyes
        cases hyes
      · rw [hpaid]
        unfold Parts.addTo
        rw [hnone]
        rfl
    · obtain ⟨htotal, p, ⟨hdistinct, pays, hpays, hperm⟩, hours, htheirs, hpaid⟩ :=
        ih h hus (hoffered.trans (Nat.le_add_right _ _))
      have hnone : p.theirs = none := htheirs rfl
      refine ⟨htotal.trans (Nat.add_assoc _ _ _), ⟨p.ours, some o.amount, p.htlcs⟩,
        ⟨hdistinct, pays, hpays, ?_⟩, hours, fun hyes => ?_, ?_⟩
      · rw [Parts.balances, hnone, Option.map_none, Option.toList_none, append_nil] at hperm
        unfold Parts.balances
        rw [append_assoc]
        exact (hperm.cons o).trans perm_middle.symm
      · rw [hseen] at hyes
        cases hyes
      · rw [hpaid]
        unfold Parts.addTo
        rw [hnone]
        rfl
    · rw [hus, List.find?_map] at he
      obtain ⟨hh, hfind, rfl⟩ := Option.map_eq_some_iff.1 he
      have hfits : paysHtlc o (withScript script hh) = true :=
        List.find?_some (p := paysHtlc o ∘ withScript script) hfind
      have hunused : c.unused.eraseP (paysHtlc o) =
          (us.eraseP (paysHtlc o ∘ withScript script)).map (withScript script) := by
        rw [hus, eraseP_map]
      have hsat : satAdd c.paid.offered o.amount = c.paid.offered + o.amount :=
        satAdd_of_lt (by
          unfold u64Max
          omega)
      obtain ⟨htotal, p, ⟨hdistinct, pays, hpays, hperm⟩, hours, htheirs, hpaid⟩ :=
        ih h hunused (by
          dsimp only [Payee.pay]
          split <;> omega)
      refine ⟨htotal.trans (Nat.add_assoc _ _ _), ⟨p.ours, p.theirs, hh :: p.htlcs⟩,
        ⟨?_, o :: pays, .cons (paysHtlc_iff.1 hfits) hpays, ?_⟩, hours, htheirs, ?_⟩
      · exact ((subperm_cons hh).2 hdistinct).trans (perm_eraseP hfind).subperm
      · exact (hperm.cons o).trans perm_middle.symm
      · rw [hpaid]
        dsimp only [Parts.addTo, Parts.paid, Payee.pay, withScript]
        rw [hsat, filter_cons, ← paysHtlc_amount hfits]
        split
        · rw [map_cons, List.sum_cons, Nat.add_assoc]
        · rfl

/-- All payees of a state. -/
def payees (script : StateHtlc → Option Bytes) (htlcs : List StateHtlc) : List Payee :=
  .ours :: .theirs :: (htlcs.map (withScript script)).map .htlc

/-- The payees that the parts name. -/
def Parts.payees (p : Parts) (script : StateHtlc → Option Bytes) : List Payee :=
  ((p.ours.map fun _ => Payee.ours).toList ++ (p.theirs.map fun _ => Payee.theirs).toList) ++
    p.htlcs.map (.htlc ∘ withScript script)

variable {pays : List Out}

lemma forall₂_payees
    (hpays : List.Forall₂ (fun h o => script h = some o.spk ∧ h.amountMsat / 1000 = o.amount)
      p.htlcs pays) :
    List.Forall₂ (fun s o => Payee.fits oursSpk theirsSpk s o = true) (p.payees script)
      (p.balances oursSpk theirsSpk ++ pays) := by
  refine rel_append (rel_append ?_ ?_) ?_
  · cases p.ours with
    | none => exact .nil
    | some a => exact .cons (decide_eq_true rfl) .nil
  · cases p.theirs with
    | none => exact .nil
    | some a => exact .cons (decide_eq_true rfl) .nil
  · rw [forall₂_map_left_iff]
    exact hpays.imp fun h o hpay => paysHtlc_iff.2 hpay

lemma toList_subperm {α β : Type} (a : Option α) (b : β) :
    List.Subperm (a.map fun _ => b).toList [b] := by
  cases a with
  | none => exact nil_subperm
  | some _ => exact List.Subperm.refl _

variable {htlcs : List StateHtlc}

lemma payees_subperm (h : List.Subperm p.htlcs htlcs) :
    List.Subperm (p.payees script) (payees script htlcs) := by
  obtain ⟨l, hl, hsub⟩ := h
  unfold payees
  rw [List.map_map]
  have hhtlcs : List.Subperm (p.htlcs.map (Payee.htlc ∘ withScript script))
      (htlcs.map (Payee.htlc ∘ withScript script)) :=
    ⟨l.map _, hl.map _, hsub.map _⟩
  exact ((toList_subperm _ _).append (toList_subperm _ _)).append hhtlcs

variable {outs : List Out}

lemma matched_of_settles (h : Settles oursSpk theirsSpk script htlcs outs p) :
    ∃ chosen, Matched (Payee.fits oursSpk theirsSpk) (payees script htlcs) outs chosen := by
  obtain ⟨pays, hpays, hperm⟩ := h.outputs
  obtain ⟨chosen, hfit, hchosen⟩ := perm_comp_forall₂ hperm (forall₂_payees hpays).flip
  exact ⟨chosen, hfit.flip, hchosen.subperm.trans (payees_subperm h.distinct)⟩

/-- No HTLC pays to a balance's script. -/
def NoBalance (oursSpk theirsSpk : Bytes) (script : StateHtlc → Option Bytes) : Prop :=
  ∀ h, script h ≠ some oursSpk ∧ script h ≠ some theirsSpk

/-- An output that pays an HTLC pays no balance. -/
theorem spk_ne_of_paysHtlc (hbalance : NoBalance oursSpk theirsSpk script)
    {e : StateHtlc × Option Bytes} (he : .htlc e ∈ payees script htlcs) {x : Out}
    (hpays : paysHtlc x e = true) : x.spk ≠ oursSpk ∧ x.spk ≠ theirsSpk := by
  simp only [payees, mem_cons, reduceCtorEq, false_or, List.mem_map] at he
  obtain ⟨_, ⟨h, -, rfl⟩, heq⟩ := he
  cases heq
  obtain ⟨hscript, -⟩ := paysHtlc_iff.1 hpays
  constructor
  · rintro rfl
    exact (hbalance h).1 hscript
  · rintro rfl
    exact (hbalance h).2 hscript

/-- Payees that an output fits take the same outputs. -/
theorem classes_fits (hbalance : NoBalance oursSpk theirsSpk script) (htlcs : List StateHtlc) :
    Classes (Payee.fits oursSpk theirsSpk) (payees script htlcs) := by
  intro a ha b hb x y hax hbx hay
  cases a with
  | ours =>
    have hx : x.spk = oursSpk := of_decide_eq_true hax
    have hy : y.spk = oursSpk := of_decide_eq_true hay
    cases b with
    | ours => exact hay
    | theirs => exact decide_eq_true (hy.trans (hx.symm.trans (of_decide_eq_true hbx)))
    | htlc e => exact absurd hx (spk_ne_of_paysHtlc hbalance hb hbx).1
  | theirs =>
    have hx : x.spk = theirsSpk := of_decide_eq_true hax
    have hy : y.spk = theirsSpk := of_decide_eq_true hay
    cases b with
    | ours => exact decide_eq_true (hy.trans (hx.symm.trans (of_decide_eq_true hbx)))
    | theirs => exact hay
    | htlc e => exact absurd hx (spk_ne_of_paysHtlc hbalance hb hbx).2
  | htlc e =>
    cases b with
    | ours => exact absurd (of_decide_eq_true hbx) (spk_ne_of_paysHtlc hbalance ha hax).1
    | theirs => exact absurd (of_decide_eq_true hbx) (spk_ne_of_paysHtlc hbalance ha hax).2
    | htlc e' =>
      simp only [Payee.fits, paysHtlc, Bool.and_eq_true, decide_eq_true_eq] at hax hbx hay ⊢
      exact ⟨hbx.1.trans (hax.1.symm.trans hay.1), hbx.2.trans (hax.2.symm.trans hay.2)⟩

/-! ### What the parts pay -/

/-- The balances' scripts differ, and no script is one of an HTLC of ours and one of theirs. -/
structure Apart (oursSpk theirsSpk : Bytes) (script : StateHtlc → Option Bytes)
    (htlcs : List StateHtlc) : Prop where
  balances : oursSpk ≠ theirsSpk
  htlcs : ∀ h ∈ htlcs, ∀ h' ∈ htlcs, script h = script h' → h.ours = h'.ours

/-- What goes to the scripts that a test picks. -/
def amountTo (Q : Bytes → Bool) (outs : List Out) : ℕ :=
  ((outs.filter (Q ·.spk)).map (·.amount)).sum

lemma amountTo_perm {Q : Bytes → Bool} {as bs : List Out} (h : List.Perm as bs) :
    amountTo Q as = amountTo Q bs :=
  ((h.filter _).map _).sum_eq

lemma amountTo_append (Q : Bytes → Bool) (as bs : List Out) :
    amountTo Q (as ++ bs) = amountTo Q as + amountTo Q bs := by
  unfold amountTo
  rw [filter_append, map_append, List.sum_append]

lemma amountTo_balance (Q : Bytes → Bool) (spk : Bytes) (a : Option ℕ) :
    amountTo Q (a.map (⟨·, spk⟩)).toList = if Q spk then a.getD 0 else 0 := by
  cases a with
  | none => exact (ite_self 0).symm
  | some n =>
    by_cases h : Q spk = true
    · simp [amountTo, h]
    · simp [amountTo, h]

lemma amountTo_htlcs (Q : Bytes → Bool) {hs : List StateHtlc}
    (h : List.Forall₂ (fun h o => script h = some o.spk ∧ h.amountMsat / 1000 = o.amount) hs pays) :
    amountTo Q pays = ((hs.filter fun h => (script h).any Q).map (·.amountMsat / 1000)).sum := by
  induction h with
  | nil => rfl
  | @cons h o hs pays hpay hrest ih =>
    have hcons : amountTo Q (o :: pays) = amountTo Q [o] + amountTo Q pays := amountTo_append Q [o] pays
    rw [hcons, ih, filter_cons, hpay.1, Option.any_some]
    by_cases hQ : Q o.spk = true
    · simp [amountTo, hQ, hpay.2]
    · simp [amountTo, hQ]

/-- What goes to some scripts is what the parts with these scripts pay. -/
theorem amountTo_settles (Q : Bytes → Bool) (h : Settles oursSpk theirsSpk script htlcs outs p) :
    amountTo Q outs = (if Q oursSpk then p.ours.getD 0 else 0) +
      (if Q theirsSpk then p.theirs.getD 0 else 0) +
      ((p.htlcs.filter fun h => (script h).any Q).map (·.amountMsat / 1000)).sum := by
  obtain ⟨pays, hpays, hperm⟩ := h.outputs
  rw [amountTo_perm hperm, amountTo_append, Parts.balances, amountTo_append, amountTo_balance,
    amountTo_balance, amountTo_htlcs Q hpays]

lemma filter_script_eq_nil {s : Bytes} (hs : ∀ h, script h ≠ some s) (htlcs : List StateHtlc) :
    htlcs.filter (fun h => (script h).any (· = s)) = [] := by
  rw [filter_eq_nil_iff]
  intro h _ hany
  obtain ⟨b, hb, heq⟩ := (Option.any_eq_true _ _).1 hany
  rw [of_decide_eq_true heq] at hb
  exact hs h hb

/-- A script of an HTLC that this side offered. -/
def offeredScript (script : StateHtlc → Option Bytes) (htlcs : List StateHtlc) (s : Bytes) : Bool :=
  htlcs.any fun h => h.ours && decide (script h = some s)

lemma offeredScript_iff {s : Bytes} :
    offeredScript script htlcs s = true ↔ ∃ h ∈ htlcs, h.ours = true ∧ script h = some s := by
  unfold offeredScript
  rw [List.any_eq_true]
  simp only [Bool.and_eq_true, decide_eq_true_eq]

lemma exists_script {hs : List StateHtlc} {e : StateHtlc}
    (h : List.Forall₂ (fun h o => script h = some o.spk ∧ h.amountMsat / 1000 = o.amount) hs pays)
    (he : e ∈ hs) : ∃ s, script e = some s := by
  induction h with
  | nil => cases he
  | @cons h o hs pays hpay hrest ih =>
    rcases mem_cons.1 he with rfl | he
    · exact ⟨o.spk, hpay.1⟩
    · exact ih he

lemma offered_of_settles (hbalance : NoBalance oursSpk theirsSpk script)
    (hapart : Apart oursSpk theirsSpk script htlcs)
    (h : Settles oursSpk theirsSpk script htlcs outs p) :
    p.paid.offered = amountTo (offeredScript script htlcs) outs := by
  have hours : ¬ offeredScript script htlcs oursSpk = true := fun hs => by
    obtain ⟨h, -, -, hscript⟩ := offeredScript_iff.1 hs
    exact (hbalance h).1 hscript
  have htheirs : ¬ offeredScript script htlcs theirsSpk = true := fun hs => by
    obtain ⟨h, -, -, hscript⟩ := offeredScript_iff.1 hs
    exact (hbalance h).2 hscript
  obtain ⟨pays, hpays, -⟩ := h.outputs
  have hfilter : p.htlcs.filter (fun h => (script h).any (offeredScript script htlcs)) =
      p.htlcs.filter (·.ours) := by
    refine filter_congr fun e he => Bool.eq_iff_iff.2 ?_
    have hmem : e ∈ htlcs := h.distinct.subset he
    rw [Option.any_eq_true]
    constructor
    · rintro ⟨s, hs, hoffered⟩
      obtain ⟨e', he', hours', hs'⟩ := offeredScript_iff.1 hoffered
      exact (hapart.htlcs e hmem e' he' (hs.trans hs'.symm)).trans hours'
    · intro he_ours
      obtain ⟨s, hs⟩ := exists_script hpays he
      exact ⟨s, hs, offeredScript_iff.2 ⟨e, hmem, he_ours, hs⟩⟩
  rw [amountTo_settles _ h, if_neg hours, if_neg htheirs, hfilter, Nat.zero_add]
  rfl

/-- Where the scripts are apart, what is paid can be read off the outputs. -/
theorem paid_eq_of_settles {q : Parts} (hbalance : NoBalance oursSpk theirsSpk script)
    (hapart : Apart oursSpk theirsSpk script htlcs)
    (hp : Settles oursSpk theirsSpk script htlcs outs p)
    (hq : Settles oursSpk theirsSpk script htlcs outs q) : p.paid = q.paid := by
  have hours : p.ours.getD 0 = q.ours.getD 0 := by
    have h := (amountTo_settles (· = oursSpk) hp).symm.trans (amountTo_settles (· = oursSpk) hq)
    simpa [filter_script_eq_nil fun h => (hbalance h).1, hapart.balances.symm] using h
  have htheirs : p.theirs.getD 0 = q.theirs.getD 0 := by
    have h := (amountTo_settles (· = theirsSpk) hp).symm.trans (amountTo_settles (· = theirsSpk) hq)
    simpa [filter_script_eq_nil fun h => (hbalance h).2, hapart.balances] using h
  have hoffered : p.paid.offered = q.paid.offered :=
    (offered_of_settles hbalance hapart hp).trans (offered_of_settles hbalance hapart hq).symm
  unfold Parts.paid at hoffered ⊢
  rw [hours, htheirs]
  exact congrArg _ hoffered

end parts

/-! ### The check -/

section check

variable {H : Hashing} {E : Sym.Curve} {R : SymBuild.Ripemd} {keys : SymKeys} {fundingSats : ℕ}
  {htlcs : List StateHtlc} {outs : List Out} {paid : Paid}

/-- A taproot output is no output of a key hash. -/
theorem noBalance_scripts (H : Hashing) (E : Sym.Curve) (R : SymBuild.Ripemd) (keys : SymKeys) :
    NoBalance ((scripts H E R).p2wpkh keys.ourPayment)
      ((scripts H E R).p2wpkh keys.theirPayment)
      (htlcScript (scripts H E R) keys) := by
  have hne : ∀ offererKey receiverKey paymentHash cltvExpiry key,
      htlcTree H E R offererKey receiverKey paymentHash cltvExpiry ≠
        some (p2wpkh H R key) := by
    intro offererKey receiverKey paymentHash cltvExpiry key h
    obtain ⟨t, -, ht⟩ := Option.map_eq_some_iff.1 h
    exact absurd (List.cons.inj ht).1 (by decide)
  intro h
  unfold htlcScript
  split
  · exact ⟨hne _ _ _ _ _, hne _ _ _ _ _⟩
  · exact ⟨hne _ _ _ _ _, hne _ _ _ _ _⟩

/-- The parts of a settlement of the device's own scripts. -/
def IsSettlement (H : Hashing) (E : Sym.Curve) (R : SymBuild.Ripemd) (fundingSats : ℕ) (keys : SymKeys)
    (htlcs : List StateHtlc) (outs : List Out) (p : Parts) : Prop :=
  Settles (p2wpkh H R keys.ourPayment) (p2wpkh H R keys.theirPayment)
      (htlcScript (scripts H E R) keys) htlcs outs p ∧
    (outs.map (·.amount)).sum = fundingSats

lemma isSettlement_of_check
    (h : checkSettlement (scripts H E R) fundingSats keys htlcs outs = .ok paid) :
    ∃ p, IsSettlement H E R fundingSats keys htlcs outs p ∧ paid = p.paid := by
  obtain ⟨c, hc, h⟩ := bind_eq_ok.1 h
  obtain ⟨_, htotal, h⟩ := bind_eq_ok.1 h
  obtain ⟨hsum, p, hp, -, -, hpaid⟩ := scanOuts_parts hc rfl le_rfl
  rw [zipIdx_map_fst] at hsum hp
  cases h
  refine ⟨p, ⟨hp, ?_⟩, ?_⟩
  · rw [← require_eq_ok.1 htotal, hsum]
    exact (Nat.zero_add _).symm
  · rw [hpaid]
    unfold Parts.addTo Parts.paid
    rw [Nat.zero_add]

lemma check_of_isSettlement (h : IsSettlement H E R fundingSats keys htlcs outs p)
    (hfunding : fundingSats ≤ u64Max) :
    ∃ paid, checkSettlement (scripts H E R) fundingSats keys htlcs outs = .ok paid := by
  obtain ⟨hsettles, hsum⟩ := h
  obtain ⟨chosen, hchosen⟩ := matched_of_settles hsettles
  have hclasses := classes_fits (noBalance_scripts H E R keys) htlcs
  obtain ⟨found, hfound⟩ := Option.isSome_iff_exists.1 (greedy_isSome hclasses hchosen)
  have hfit : 0 + ((outs.zipIdx.map (·.1)).map (·.amount)).sum < 2 ^ 64 := by
    rw [zipIdx_map_fst, hsum]
    unfold u64Max at hfunding
    omega
  rw [← zipIdx_map_fst 0 outs] at hfound
  obtain ⟨c, hc⟩ := scanOuts_greedy (c := ⟨⟨0, 0, 0⟩, false, false,
    htlcs.map (withScript (htlcScript (scripts H E R) keys)), 0⟩) hfound hfit
  obtain ⟨htotal, -⟩ := scanOuts_parts hc rfl le_rfl
  rw [zipIdx_map_fst, hsum] at htotal
  refine ⟨c.paid, bind_eq_ok.2 ⟨c, hc, bind_eq_ok.2 ⟨(), require_eq_ok.2 ?_, rfl⟩⟩⟩
  exact htotal.trans (Nat.zero_add _)

/-- What `checkSettlement` takes, and what it returns. -/
structure ChecksExactly (H : Hashing) (E : Sym.Curve) (R : SymBuild.Ripemd) (fundingSats : ℕ)
    (keys : SymKeys) (htlcs : List StateHtlc) (outs : List Out) : Prop where
  accepts : (∃ paid, checkSettlement (scripts H E R) fundingSats keys htlcs outs = .ok paid) ↔
    ∃ p, IsSettlement H E R fundingSats keys htlcs outs p
  returns : ∀ paid, checkSettlement (scripts H E R) fundingSats keys htlcs outs = .ok paid →
    ∃ p, IsSettlement H E R fundingSats keys htlcs outs p ∧ paid = p.paid
  only : Apart (p2wpkh H R keys.ourPayment) (p2wpkh H R keys.theirPayment)
      (htlcScript (scripts H E R) keys) htlcs →
    ∀ p, IsSettlement H E R fundingSats keys htlcs outs p →
      checkSettlement (scripts H E R) fundingSats keys htlcs outs = .ok p.paid

lemma checksExactly (hfunding : fundingSats ≤ u64Max) :
    ChecksExactly H E R fundingSats keys htlcs outs where
  accepts := by
    constructor
    · rintro ⟨paid, h⟩
      obtain ⟨p, hp, -⟩ := isSettlement_of_check h
      exact ⟨p, hp⟩
    · rintro ⟨p, hp⟩
      exact check_of_isSettlement hp hfunding
  returns _ h := isSettlement_of_check h
  only hapart p hp := by
    obtain ⟨paid, hcheck⟩ := check_of_isSettlement hp hfunding
    obtain ⟨q, hq, rfl⟩ := isSettlement_of_check hcheck
    rw [hcheck, paid_eq_of_settles (noBalance_scripts H E R keys) hapart hp.1 hq.1]

end check

/-- The node and the device build the same symmetric state: the same number, leaves, output and
message for every settlement list whose assets the request names, the same leaves and output for
every HTLC; and the device's check of a list takes exactly the settlements of its HTLCs, and returns
what their parts pay. The bounds are those of the source's types. -/
theorem node_and_device_agree (H : Hashing) (E : Sym.Curve) (R : SymBuild.Ripemd)
    (genesis fundingTxid : Hash) (vout : ℕ) (openerKey accepterKey asset : Key) (delay : UInt16)
    (clock : Option SymBuild.Clock) (index : ℕ) (opener : Bool) (n : ℤ)
    (hn : Sym.symStateNum index opener = some n) (outs : List Sym.SymOutput)
    (assets : List (Option Key)) (hlen : outs.length < 2 ^ 32) (hnames : SymBuild.Names assets outs)
    (fundingSats : ℕ) (hfunding : fundingSats ≤ u64Max) (keys : SymKeys) (htlcs : List StateHtlc)
    (hexpiry : ∀ h ∈ htlcs, h.cltvExpiry < 2 ^ 32) (list : List Out) :
    (stateNum index opener).map (fun n => (n : ℤ)) = some n ∧
      SymBuild.SameState H E
        (clock.elim (SymBuild.Channel.new H genesis fundingTxid vout openerKey accepterKey asset delay)
          (SymBuild.Channel.new H genesis fundingTxid vout openerKey accepterKey asset delay).withClock)
        (clock.elim (Sym.symChannelInit H genesis fundingTxid vout openerKey accepterKey asset delay)
          fun _ => Sym.symChannelSetClock
            (Sym.symChannelInit H genesis fundingTxid vout openerKey accepterKey asset delay))
        n outs assets ∧
      (∀ h ∈ htlcs, ∀ offererKey receiverKey,
        SymBuild.SameHtlc H E R offererKey receiverKey h.paymentHash h.cltvExpiry) ∧
      ChecksExactly H E R fundingSats keys htlcs list := by
  refine ⟨(stateNum_eq index opener).trans hn, ?_, fun h hh offererKey receiverKey => ?_,
    checksExactly hfunding⟩
  · cases clock with
    | none => exact sameState hlen hnames
    | some clock => exact sameState hlen hnames
  · exact sameHtlc offererKey receiverKey h.paymentHash (hexpiry h hh)

namespace PartsExample

def ripemd : SymBuild.Ripemd := ⟨ByteString.pad 20⟩

def curve : Sym.Curve := ⟨fun _ tweak => some (false, tweak)⟩

def keys : SymKeys := ⟨.replicate 33 2, .replicate 33 3, .replicate 33 4, .replicate 33 5⟩

def scripts : SymScripts := SymBuild.scripts .standard curve ripemd

/-- An HTLC of ours. -/
def htlc : StateHtlc := ⟨true, 300500, .replicate 32 6, 700000⟩

/-- A balance of each side and the HTLC. -/
def outs : List Sym.SymOutput :=
  [⟨.balance, .LOCAL, 400, scripts.p2wpkh keys.ourPayment, none, 0⟩,
    ⟨.htlc, .LOCAL, 300, (htlcScript scripts keys htlc).getD [], none, 700000⟩,
    ⟨.balance, .REMOTE, 300, scripts.p2wpkh keys.theirPayment, none, 0⟩]

/-- The first state of a channel of 1000 atoms with this settlement. -/
theorem node_and_device_agree_first :
    stateIn .standard curve
        (.new .standard (.replicate 32 7) (.replicate 32 8) 0 (.replicate 33 2) (.replicate 33 3)
          (.replicate 33 1) 144) 0 (outs.map toOut) [] =
      (Sym.symStateTree .standard curve (Sym.symChannelInit .standard (.replicate 32 7)
        (.replicate 32 8) 0 (.replicate 33 2) (.replicate 33 3) (.replicate 33 1) 144) 0 outs none).map
        (fun t => (t.program, t.rest)) ∧
      ∃ p, IsSettlement .standard curve ripemd 1000 keys [htlc] (outs.map toOut) p := by
  have hnames : SymBuild.Names [] outs := by
    intro i o ho
    have hnone : ∀ o ∈ outs, o.asset = none := by simp [outs]
    rw [hnone o (mem_of_getElem? ho)]
    rfl
  have h := node_and_device_agree .standard curve ripemd (.replicate 32 7) (.replicate 32 8) 0
    (.replicate 33 2) (.replicate 33 3) (.replicate 33 1) 144 none 0 true 0 rfl outs [] (by decide) hnames
    1000 (by decide) keys [htlc] (by decide) (outs.map toOut)
  exact ⟨h.2.1.output, h.2.2.2.accepts.1 ⟨⟨400, 300, 300⟩, by decide +kernel⟩⟩

end PartsExample

end SeqLN.Signer
