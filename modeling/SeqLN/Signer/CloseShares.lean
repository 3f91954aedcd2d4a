import SeqLN.Signer.Requests

/-!
# What an accepted close pays

An accepted close spends the recorded funding outputs and pays this wallet, in each lane, at least what
the latest commitments or states left it (`close_pays_iff`). The tallies of the loops are sums over the
outputs to this wallet, to the peer and the fees (`Tallied`). The index of the first input is compared
in its low 16 bits, and what is owed is a sum that stops at the largest word: both are conditions.
-/

namespace SeqLN.Signer

open Lib List OwnScripts

/-! ### The outputs of a close -/

variable {outs : List (TxOut × ℕ)}

/-- What an output pays; nothing that is known where its value is blinded. -/
def TxOut.paid (o : TxOut) : ℕ := o.value.getD 0

/-- What some outputs pay together. -/
def paidBy (outs : List TxOut) : ℕ := (outs.map TxOut.paid).sum

namespace OwnScripts

variable (own : OwnScripts)

/-- The outputs to this wallet; an output without a script is a fee. -/
def ours (outs : List TxOut) : List TxOut := outs.filter fun o => o.script ≠ [] ∧ own.pays o.script

/-- The outputs to anyone else. -/
def theirs (outs : List TxOut) : List TxOut :=
  outs.filter fun o => o.script ≠ [] ∧ ¬ own.pays o.script

variable {own} {o : TxOut} {outs : List TxOut}

lemma ours_cons_fee (h : o.script = []) : own.ours (o :: outs) = own.ours outs :=
  filter_cons_of_neg (by simp [h])

lemma theirs_cons_fee (h : o.script = []) : own.theirs (o :: outs) = own.theirs outs :=
  filter_cons_of_neg (by simp [h])

lemma ours_cons_own (h : o.script ≠ []) (hown : own.pays o.script = true) :
    own.ours (o :: outs) = o :: own.ours outs :=
  filter_cons_of_pos (by simp [h, hown])

lemma theirs_cons_own (hown : own.pays o.script = true) :
    own.theirs (o :: outs) = own.theirs outs :=
  filter_cons_of_neg (by simp [hown])

lemma ours_cons_other (hown : ¬ own.pays o.script = true) : own.ours (o :: outs) = own.ours outs :=
  filter_cons_of_neg (by simp [hown])

lemma theirs_cons_other (h : o.script ≠ []) (hown : ¬ own.pays o.script = true) :
    own.theirs (o :: outs) = o :: own.theirs outs :=
  filter_cons_of_pos (by simp [h, hown])

end OwnScripts

@[simp] lemma paidBy_nil : paidBy [] = 0 := rfl

@[simp] lemma paidBy_cons (o : TxOut) (outs : List TxOut) :
    paidBy (o :: outs) = o.paid + paidBy outs := rfl

/-- A total after some outputs is that before with what they pay, all in the open, and those that are
not this wallet's go to the peer. -/
structure Totalled (own : OwnScripts) (remoteShutdown : Bytes) (outs : List TxOut) (n n' : ℕ) : Prop where
  explicit : ∀ o ∈ outs, o.value.isSome = true
  total : n' = n + paidBy outs
  peer : ∀ o ∈ own.theirs outs, remoteShutdown = [] ∨ o.script = remoteShutdown

/-- A count after some outputs, and the value of the last one: what they pay where it is the only
one. -/
structure Counted (outs : List TxOut) (n v n' v' : ℕ) : Prop where
  count : n' = n + outs.length
  value : n' ≤ 1 → (n = 0 → v = 0) → v' = v + paidBy outs

section tally

variable {own : OwnScripts} {remoteShutdown : Bytes} {o : TxOut} {v : ℕ}

lemma paid_of_value (hv : o.value = some v) : o.paid = v := by
  rw [TxOut.paid, hv]
  rfl

/-- One more output. -/
lemma Totalled.cons {rest : List TxOut} {n n' : ℕ} (h : Totalled own remoteShutdown rest (n + v) n')
    (hv : o.value = some v)
    (hpeer : o.script ≠ [] → ¬ own.pays o.script = true →
      remoteShutdown = [] ∨ o.script = remoteShutdown) :
    Totalled own remoteShutdown (o :: rest) n n' := by
  refine ⟨forall_mem_cons.2 ⟨by rw [hv]; rfl, h.explicit⟩, ?_, fun o' ho' => ?_⟩
  · rw [h.total, paidBy_cons, paid_of_value hv, Nat.add_assoc]
  · obtain ⟨hmem, hto⟩ := mem_filter.1 ho'
    obtain rfl | hrest := mem_cons.1 hmem
    · obtain ⟨hscript, hown⟩ := of_decide_eq_true hto
      exact hpeer hscript hown
    · exact h.peer o' (mem_filter.2 ⟨hrest, hto⟩)

/-- One more output, which is the last. -/
lemma Counted.cons {rest : List TxOut} {n u n' v' : ℕ} (h : Counted rest (n + 1) v n' v')
    (hv : o.value = some v) : Counted (o :: rest) n u n' v' := by
  have hcount := h.count
  refine ⟨by rw [length_cons]; omega, fun hone hzero => ?_⟩
  -- the one output is this one, so none came before
  have hvalue := h.value hone (fun hne => absurd hne (Nat.succ_ne_zero _))
  rw [hvalue, hzero (by omega), paidBy_cons, paid_of_value hv, Nat.zero_add]

/-- The tally after some outputs. -/
structure Tallied (own : OwnScripts) (remoteShutdown : Bytes) (outs : List TxOut)
    (t t' : CloseTally) : Prop extends Totalled own remoteShutdown outs t.total t'.total where
  ours : Counted (own.ours outs) t.ours t.oursValue t'.ours t'.oursValue
  theirs : Counted (own.theirs outs) t.theirs t.theirsValue t'.theirs t'.theirsValue

/-- The loop over the outputs tallies them. -/
lemma tallyClose_tallied {t t' : CloseTally} (h : tallyClose own remoteShutdown outs t = .ok t') :
    Tallied own remoteShutdown (outs.map Prod.fst) t t' := by
  induction outs generalizing t with
  | nil =>
    cases h
    exact ⟨⟨by simp, rfl, by simp [OwnScripts.theirs]⟩, ⟨rfl, fun _ _ => rfl⟩, ⟨rfl, fun _ _ => rfl⟩⟩
  | cons e outs ih =>
    obtain ⟨o, i⟩ := e
    rw [map_cons]
    unfold tallyClose at h
    cases hv : o.value with
    | none =>
      simp only [hv] at h
      cases h
    | some v =>
      simp only [hv] at h
      split at h
      · next hfee =>
        obtain ⟨hall, hours, htheirs⟩ := ih h
        refine ⟨hall.cons hv fun hne => absurd hfee hne, ?_, ?_⟩
        · rwa [ours_cons_fee hfee]
        · rwa [theirs_cons_fee hfee]
      · next hscript =>
        split at h
        · next hown =>
          obtain ⟨hall, hours, htheirs⟩ := ih h
          refine ⟨hall.cons hv fun _ hno => absurd hown hno, ?_, ?_⟩
          · rw [ours_cons_own hscript hown]
            exact hours.cons hv
          · rwa [theirs_cons_own hown]
        · next hown =>
          split at h
          · next hpeer =>
            obtain ⟨hall, hours, htheirs⟩ := ih h
            refine ⟨hall.cons hv fun _ _ => hpeer, ?_, ?_⟩
            · rwa [ours_cons_other hown]
            · rw [theirs_cons_other hscript hown]
              exact htheirs.cons hv
          · cases h

end tally

lemma paidBy_ours_add_theirs_le (own : OwnScripts) (outs : List TxOut) :
    paidBy (own.ours outs) + paidBy (own.theirs outs) ≤ paidBy outs := by
  induction outs with
  | nil => exact Nat.le_refl 0
  | cons o outs ih =>
    rw [paidBy_cons]
    by_cases hfee : o.script = []
    · rw [ours_cons_fee hfee, theirs_cons_fee hfee]
      omega
    · by_cases hown : own.pays o.script = true
      · rw [ours_cons_own hfee hown, theirs_cons_own hown, paidBy_cons]
        omega
      · rw [ours_cons_other hown, theirs_cons_other hfee hown, paidBy_cons]
        omega

/-! ### Assets -/

/-- A transaction on Elements that issues nothing and pays in one open asset, the channel's where the
record knows it. -/
structure OneAsset (st : ChannelState) (tx : Tx) : Prop where
  issuance : ∀ inp ∈ tx.inputs, inp.isIssuance = false
  explicit : ∀ o ∈ tx.outputs, o.asset.isSome = true
  same : ∀ o ∈ tx.outputs, ∀ o' ∈ tx.outputs, o.asset = o'.asset
  channel : ∀ id, st.pay.asset = some (.asset id) → ∀ o ∈ tx.outputs, o.asset = some id

lemma checkAssets_ok {first : Option Hash} (h : checkAssets first outs = .ok ()) :
    ∀ o ∈ outs.map Prod.fst, o.asset.isSome = true ∧ o.asset = first := by
  induction outs with
  | nil => simp
  | cons e outs ih =>
    obtain ⟨_, hsome, h⟩ := bind_eq_ok.1 h
    obtain ⟨_, hfirst, h⟩ := bind_eq_ok.1 h
    exact forall_mem_cons.2 ⟨⟨require_eq_ok.1 hsome, require_eq_ok.1 hfirst⟩, ih h⟩

lemma map_fst_zipIdx {α : Type} (as : List α) : as.zipIdx.map Prod.fst = as :=
  zipIdx_map_fst 0 as

lemma oneAsset_of_checkSingleAsset {st : ChannelState} {tx : Tx}
    (h : checkSingleAsset st tx = .ok ()) (hnet : tx.network = .elements) : OneAsset st tx := by
  unfold checkSingleAsset at h
  rw [if_neg (not_not.2 hnet)] at h
  have hissue : tx.inputs.any TxIn.isIssuance = false → ∀ inp ∈ tx.inputs, inp.isIssuance = false := by
    intro hany inp hinp
    simpa using List.any_eq_false.1 hany inp hinp
  split at h
  · next hnil =>
    refine ⟨hissue (require_eq_ok.1 h), ?_, ?_, ?_⟩ <;> simp [hnil]
  · next first rest houts =>
    obtain ⟨_, hissuance, h⟩ := bind_eq_ok.1 h
    obtain ⟨_, hassets, h⟩ := bind_eq_ok.1 h
    have hall := checkAssets_ok hassets
    rw [map_fst_zipIdx] at hall
    refine ⟨hissue (require_eq_ok.1 hissuance), ?_, ?_, ?_⟩
    · exact fun o ho => (hall o (houts ▸ ho)).1
    · exact fun o ho o' ho' => (hall o (houts ▸ ho)).2.trans (hall o' (houts ▸ ho')).2.symm
    · intro id hid o ho
      simp only [hid] at h
      exact (hall o (houts ▸ ho)).2.trans (require_eq_ok.1 h)

/-! ### The first lane -/

/-- What the opener's share pays of a close's fee, under the ceiling; with the opener unknown this
side pays it. -/
def closeFeeShare (st : ChannelState) (ceiling closeFee : ℕ) : ℕ :=
  if st.isOutbound = some false then 0 else min closeFee ceiling

section first

variable (st : ChannelState) (own : OwnScripts) (tx : Tx)

/-- What a close leaves to no one's script. -/
def closeFeeOf : ℕ := st.fundingSats - paidBy (own.ours tx.outputs) - paidBy (own.theirs tx.outputs)

/-- The close pays this wallet what it is owed less the fee, or nothing where that is dust; and the
peer no more than the rest. -/
structure Pays (ceiling owed : ℕ) : Prop where
  explicit : ∀ o ∈ tx.outputs, o.value.isSome = true
  funding : paidBy tx.outputs ≤ st.fundingSats
  once : (own.ours tx.outputs).length ≤ 1 ∧ (own.theirs tx.outputs).length ≤ 1
  peer : ∀ o ∈ own.theirs tx.outputs,
    st.remoteShutdownScript = [] ∨ o.script = st.remoteShutdownScript
  due : own.ours tx.outputs ≠ [] →
    owed - closeFeeShare st ceiling (closeFeeOf st own tx) ≤ paidBy (own.ours tx.outputs)
  dust : own.ours tx.outputs = [] →
    owed - closeFeeShare st ceiling (closeFeeOf st own tx) ≤ closeDustTolerance st
  theirs : paidBy (own.theirs tx.outputs) ≤ st.fundingSats - owed

/-- The close pays the larger of the tracked shares and the credit. -/
def PaysShare : Prop :=
  ∃ share ceiling, knownShare st = some (share, ceiling) ∧
    Pays st own tx ceiling (share + creditOwed st)

/-- The close of a channel of one asset spends the funding output and pays the share. -/
structure ClosePays : Prop where
  input : ∃ inp, tx.inputs = [inp] ∧ inp.txhash = st.fundingTxid ∧ inp.index = st.fundingTxout
  asset : tx.network = .elements → OneAsset st tx
  share : PaysShare st own tx

/-- What is owed is a word, or nothing is paid and what is due is dust all the same. -/
def OwedFits : Prop :=
  ∀ p ∈ knownShare st, p.1 + creditOwed st ≤ u64Max ∨ (own.ours tx.outputs = [] ∧
    p.1 + creditOwed st - closeFeeShare st p.2 (closeFeeOf st own tx) ≤ closeDustTolerance st)

/-- The index of the first input has 16 bits. -/
def IndexFits : Prop := ∀ inp ∈ tx.inputs.head?, inp.index < 2 ^ 16

end first

section accepted

variable {st : ChannelState} {own : OwnScripts} {tx : Tx}

/-- What the balance check asks. -/
theorem checkCloseBalance_ok {oursOut : Option ℕ} {theirsOut closeFee : ℕ}
    (h : checkCloseBalance st oursOut theirsOut closeFee = .ok ()) :
    ∃ share ceiling, knownShare st = some (share, ceiling) ∧
      paysDue st (satAdd share (creditOwed st) - closeFeeShare st ceiling closeFee) oursOut = true ∧
      theirsOut ≤ st.fundingSats - satAdd share (creditOwed st) := by
  obtain ⟨⟨share, ceiling⟩, hknown, h⟩ := bind_eq_ok.1 h
  obtain ⟨_, hdue, h⟩ := bind_eq_ok.1 h
  exact ⟨share, ceiling, fromOption_eq_ok.1 hknown, require_eq_ok.1 hdue, require_eq_ok.1 h⟩

/-- An accepted close pays what the device takes the share and the credit to be. -/
theorem validateMutualClose_ok (h : validateMutualClose st own tx = .ok ()) :
    ∃ inp share ceiling, tx.inputs = [inp] ∧ spendsFunding st inp ∧ checkSingleAsset st tx = .ok () ∧
      knownShare st = some (share, ceiling) ∧
      Pays st own tx ceiling (satAdd share (creditOwed st)) := by
  obtain ⟨inp, hinp, h⟩ := bind_eq_ok.1 h
  obtain ⟨_, hfunding, h⟩ := bind_eq_ok.1 h
  obtain ⟨_, hasset, h⟩ := bind_eq_ok.1 h
  obtain ⟨t, htally, h⟩ := bind_eq_ok.1 h
  obtain ⟨_, honce, h⟩ := bind_eq_ok.1 h
  obtain ⟨_, htotal, h⟩ := bind_eq_ok.1 h
  obtain ⟨share, ceiling, hknown, hdue, htheirs⟩ := checkCloseBalance_ok h
  have ht := tallyClose_tallied htally
  rw [map_fst_zipIdx] at ht
  obtain ⟨hours, htheirs'⟩ := require_eq_ok.1 honce
  have hov : t.oursValue = paidBy (own.ours tx.outputs) := by
    rw [ht.ours.value hours fun _ => rfl, Nat.zero_add]
  have htv : t.theirsValue = paidBy (own.theirs tx.outputs) := by
    rw [ht.theirs.value htheirs' fun _ => rfl, Nat.zero_add]
  have ho : t.ours = (own.ours tx.outputs).length := by rw [ht.ours.count, Nat.zero_add]
  rw [hov, htv, ho] at hdue
  refine ⟨inp, share, ceiling, oneInput_eq_ok.1 hinp, require_eq_ok.1 hfunding, hasset, hknown,
    ht.explicit, ?_, ?_, ht.peer, ?_, ?_, ?_⟩
  · have := require_eq_ok.1 htotal
    rwa [ht.total, Nat.zero_add] at this
  · exact ⟨ho ▸ hours, by rwa [ht.theirs.count, Nat.zero_add] at htheirs'⟩
  · intro hne
    have hone : (own.ours tx.outputs).length = 1 := by
      have := length_pos_iff.2 hne
      omega
    rw [if_pos hone] at hdue
    exact of_decide_eq_true hdue
  · intro hnil
    rw [if_neg (by rw [hnil]; exact Nat.zero_ne_one)] at hdue
    exact of_decide_eq_true hdue
  · rwa [htv] at htheirs

/-- A close that pays what the device takes to be owed pays what is owed where that is a word. -/
theorem pays_iff {share ceiling : ℕ} (hfund : st.fundingSats ≤ u64Max)
    (hknown : knownShare st = some (share, ceiling))
    (h : Pays st own tx ceiling (satAdd share (creditOwed st))) :
    PaysShare st own tx ↔ OwedFits st own tx := by
  have hsum := paidBy_ours_add_theirs_le own tx.outputs
  have hfunding := h.funding
  constructor
  · rintro ⟨share', ceiling', hknown', hpays⟩ p hp
    obtain rfl : (share', ceiling') = p := Option.some.inj (hknown'.symm.trans hp)
    by_cases hnil : own.ours tx.outputs = []
    · exact .inr ⟨hnil, hpays.dust hnil⟩
    · left
      have hdue := hpays.due hnil
      have hfee : closeFeeShare st ceiling' (closeFeeOf st own tx) ≤ closeFeeOf st own tx := by
        unfold closeFeeShare
        split
        · exact Nat.zero_le _
        · exact min_le_left _ _
      unfold closeFeeOf at hfee hdue
      omega
  · intro hfits
    refine ⟨share, ceiling, hknown, h.explicit, h.funding, h.once, h.peer, ?_, ?_, ?_⟩
    all_goals rcases hfits _ hknown with hword | ⟨hnil, hdust⟩
    · rw [satAdd_of_lt hword] at h
      exact h.due
    · exact fun hne => absurd hnil hne
    · rw [satAdd_of_lt hword] at h
      exact h.dust
    · exact fun _ => hdust
    · rw [satAdd_of_lt hword] at h
      exact h.theirs
    · have htheirs := h.theirs
      unfold satAdd at htheirs
      omega

/-- A close that the device accepts spends the recorded output and pays what is owed exactly where
the index and the sum are not cut off. -/
theorem closePays_iff (htxout : st.fundingTxout < 2 ^ 16) (hfund : st.fundingSats ≤ u64Max)
    (h : validateMutualClose st own tx = .ok ()) :
    ClosePays st own tx ↔ IndexFits tx ∧ OwedFits st own tx := by
  obtain ⟨inp, share, ceiling, hinp, ⟨htxid, hindex⟩, hasset, hknown, hpays⟩ :=
    validateMutualClose_ok h
  constructor
  · rintro ⟨⟨inp', hinp', -, hindex'⟩, -, hshare⟩
    refine ⟨?_, (pays_iff hfund hknown hpays).1 hshare⟩
    intro first hfirst
    rw [hinp', List.head?_cons] at hfirst
    rw [← Option.some.inj hfirst, hindex']
    exact htxout
  · rintro ⟨hfits, howed⟩
    refine ⟨⟨inp, hinp, htxid, ?_⟩, oneAsset_of_checkSingleAsset hasset,
      (pays_iff hfund hknown hpays).2 howed⟩
    have hlt := hfits inp (by rw [hinp]; rfl)
    rwa [Nat.mod_eq_of_lt hlt] at hindex

end accepted

/-! ### The further lanes -/

/-- The outputs of a close that are in a further lane; a fee is in none. -/
def laneOuts (st : ChannelState) (l : ℕ) (outs : List TxOut) : List TxOut :=
  outs.filter fun o => o.script ≠ [] ∧ laneOf st o = some l

/-- A further lane pays this wallet at least what its latest states left it, once, and the rest to
the peer. -/
structure LanePays (st : ChannelState) (own : OwnScripts) (outs : List TxOut) (lane : Lane) :
    Prop where
  asset : ∀ o ∈ outs, o.asset = explicitAsset lane.asset ∧ o.asset.isSome = true
  explicit : ∀ o ∈ outs, o.value.isSome = true
  total : paidBy outs = lane.sats
  once : (own.ours outs).length ≤ 1 ∧ (own.theirs outs).length ≤ 1
  peer : ∀ o ∈ own.theirs outs, st.remoteShutdownScript = [] ∨ o.script = st.remoteShutdownScript
  due : ∃ due, laneDue lane = some due ∧ due ≤ paidBy (own.ours outs)

/-- The tally of a lane after some outputs of the lane. -/
structure LaneTallied (own : OwnScripts) (remoteShutdown : Bytes) (outs : List TxOut)
    (t t' : LaneTally) : Prop extends Totalled own remoteShutdown outs t.total t'.total where
  ours : t'.ours.toList.length = t.ours.toList.length + (own.ours outs).length
  oursValue : t'.ours.getD 0 = t.ours.getD 0 + paidBy (own.ours outs)
  theirs : t'.theirs = t.theirs + (own.theirs outs).length
  once : t.theirs ≤ 1 → t'.theirs ≤ 1

/-- The loop over a lane's outputs tallies them. -/
lemma tallyLane_tallied {st : ChannelState} {own : OwnScripts} {l : ℕ} {t t' : LaneTally}
    (h : tallyLane st own l outs t = .ok t') :
    LaneTallied own st.remoteShutdownScript (laneOuts st l (outs.map Prod.fst)) t t' := by
  induction outs generalizing t with
  | nil =>
    cases h
    exact ⟨⟨by simp [laneOuts], rfl, by simp [laneOuts, OwnScripts.theirs]⟩, rfl, rfl, rfl, id⟩
  | cons e outs ih =>
    obtain ⟨o, i⟩ := e
    rw [map_cons]
    unfold tallyLane at h
    split at h
    · next hskip =>
      have hout : laneOuts st l (o :: outs.map Prod.fst) = laneOuts st l (outs.map Prod.fst) :=
        filter_cons_of_neg (by
          rcases hskip with hskip | hskip <;> simp [hskip])
      rw [hout]
      exact ih h
    · next hin =>
      obtain ⟨hscript, hlane⟩ := not_or.1 hin
      have hout : laneOuts st l (o :: outs.map Prod.fst) = o :: laneOuts st l (outs.map Prod.fst) :=
        filter_cons_of_pos (by simp [hscript, not_not.1 hlane])
      rw [hout]
      cases hv : o.value with
      | none =>
        simp only [hv] at h
        cases h
      | some v =>
        simp only [hv] at h
        split at h
        · cases h
        · split at h
          · next hown =>
            split at h
            · cases h
            · next hfirst =>
              obtain ⟨hall, ho, hov, ht, honce⟩ := ih h
              have hnone : t.ours = none := by simpa using hfirst
              refine ⟨hall.cons hv fun _ hno => absurd hown hno, ?_, ?_, ?_, honce⟩
              · rw [ho, ours_cons_own hscript hown, hnone, length_cons]
                simp [Nat.add_comm]
              · rw [hov, ours_cons_own hscript hown, hnone, paidBy_cons, paid_of_value hv]
                simp
              · rw [ht, theirs_cons_own hown]
          · next hown =>
            split at h
            · next hpeer =>
              split at h
              · cases h
              · next hfirst =>
                obtain ⟨hall, ho, hov, ht, honce⟩ := ih h
                refine ⟨hall.cons hv fun _ _ => hpeer, ?_, ?_, ?_, fun _ => honce le_rfl⟩
                · rw [ho, ours_cons_other hown]
                · rw [hov, ours_cons_other hown]
                · rw [ht, theirs_cons_other hscript hown, length_cons]
                  dsimp only
                  omega
            · cases h

section lanes

variable {st : ChannelState} {own : OwnScripts} {tx : Tx}

/-- An output of a lane is in the lane's asset. -/
theorem asset_of_mem_laneOuts {l : ℕ} {lane : Lane} {o : TxOut} {outs : List TxOut}
    (hlane : st.lanes[l]? = some lane) (ho : o ∈ laneOuts st l outs) :
    o.asset = explicitAsset lane.asset ∧ o.asset.isSome = true := by
  obtain ⟨-, ho⟩ := mem_filter.1 ho
  have hof := (of_decide_eq_true ho).2
  unfold laneOf at hof
  obtain ⟨id, hid, hfind⟩ := Option.bind_eq_some_iff.1 hof
  obtain ⟨hlt, hat, -⟩ := List.findIdx?_eq_some_iff_getElem.1 hfind
  have hget : st.lanes[l] = lane := Option.some.inj ((List.getElem?_eq_getElem hlt).symm.trans hlane)
  rw [hget] at hat
  rw [hid]
  exact ⟨(of_decide_eq_true hat).symm, rfl⟩

/-- An accepted lane pays what it is to pay. -/
lemma lanePays_of_validateLane {lane : Lane} {l : ℕ} (hlane : st.lanes[l]? = some lane)
    (h : validateLane st own tx lane l = .ok ()) :
    LanePays st own (laneOuts st l tx.outputs) lane := by
  obtain ⟨t, htally, h⟩ := bind_eq_ok.1 h
  obtain ⟨_, htotal, h⟩ := bind_eq_ok.1 h
  obtain ⟨due, hdue, h⟩ := bind_eq_ok.1 h
  have ht := tallyLane_tallied htally
  rw [map_fst_zipIdx] at ht
  refine ⟨fun o => asset_of_mem_laneOuts hlane, ht.explicit, ?_, ?_, ht.peer, due,
    fromOption_eq_ok.1 hdue, ?_⟩
  · rw [← require_eq_ok.1 htotal, ht.total, Nat.zero_add]
  · constructor
    · have hours := ht.ours
      have hle : t.ours.toList.length ≤ 1 := by cases t.ours <;> simp
      simp only [Option.toList_none, length_nil, Nat.zero_add] at hours
      omega
    · have honce := ht.once (Nat.zero_le 1)
      rwa [ht.theirs, Nat.zero_add] at honce
  · have := require_eq_ok.1 h
    rwa [ht.oursValue, Option.getD_none, Nat.zero_add] at this

lemma validateLanes_ok {lanes : List (Lane × ℕ)} (h : validateLanes st own tx lanes = .ok ()) :
    ∀ p ∈ lanes, validateLane st own tx p.1 p.2 = .ok () := by
  induction lanes with
  | nil => simp
  | cons p lanes ih =>
    obtain ⟨_, hlane, h⟩ := bind_eq_ok.1 h
    exact forall_mem_cons.2 ⟨hlane, ih h⟩

/-- An input spends the output of the funding transaction that a lane was recorded with; it issues
nothing. -/
def SpendsLane (st : ChannelState) (lane : Lane) (inp : TxIn) : Prop :=
  inp.txhash = st.fundingTxid ∧ lane.outnum = some inp.index ∧ inp.isIssuance = false

lemma spendsLane_of_all {lanes : List Lane} {inputs : List TxIn}
    (hlen : inputs.length = lanes.length)
    (h : (lanes.zip inputs).all (fun (lane, inp) =>
      lane.outnum = some inp.index && inp.txhash = st.fundingTxid && !inp.isIssuance) = true) :
    List.Forall₂ (SpendsLane st) lanes inputs := by
  induction lanes generalizing inputs with
  | nil =>
    cases eq_nil_of_length_eq_zero hlen
    exact .nil
  | cons lane lanes ih =>
    obtain ⟨inp, inputs, rfl⟩ := exists_cons_of_length_eq_add_one hlen
    rw [zip_cons_cons, all_cons, Bool.and_eq_true] at h
    refine .cons ?_ (ih (Nat.succ.inj hlen) h.2)
    simpa [SpendsLane, and_assoc, and_left_comm] using h.1

variable (st own tx)

/-- The close of a channel of several lanes spends the recorded output of each, in order; the first
pays the share, each further one its balance, and every output is in a lane. -/
structure LanesClosePays : Prop where
  inputs : ∃ inp rest, tx.inputs = inp :: rest ∧ inp.txhash = st.fundingTxid ∧
    inp.index = st.fundingTxout ∧ List.Forall₂ (SpendsLane st) st.lanes rest
  first : OneAsset st (firstLane st tx)
  share : PaysShare st own (firstLane st tx)
  lanes : ∀ l lane, st.lanes[l]? = some lane → LanePays st own (laneOuts st l tx.outputs) lane
  covers : ∀ o ∈ tx.outputs, o ∈ (firstLane st tx).outputs ∨
    ∃ l < st.lanes.length, o ∈ laneOuts st l tx.outputs

variable {st own tx}

/-- Every output is in the first lane's view of the close or in a further lane's. -/
theorem mem_lane {o : TxOut} (ho : o ∈ tx.outputs) :
    o ∈ (firstLane st tx).outputs ∨ ∃ l < st.lanes.length, o ∈ laneOuts st l tx.outputs := by
  by_cases hfee : o.script = []
  · exact .inl (mem_filter.2 ⟨ho, by simp [hfee]⟩)
  · cases hof : laneOf st o with
    | none => exact .inl (mem_filter.2 ⟨ho, by simp [hof]⟩)
    | some l =>
      refine .inr ⟨l, ?_, mem_filter.2 ⟨ho, by simp [hfee, hof]⟩⟩
      obtain ⟨id, -, hfind⟩ := Option.bind_eq_some_iff.1 hof
      exact (List.findIdx?_eq_some_iff_getElem.1 hfind).1

/-- As `closePays_iff`, with further lanes. -/
lemma lanesClosePays_iff (htxout : st.fundingTxout < 2 ^ 16) (hfund : st.fundingSats ≤ u64Max)
    (h : validateLanesClose st own tx = .ok ()) :
    LanesClosePays st own tx ↔ IndexFits tx ∧ OwedFits st own (firstLane st tx) := by
  obtain ⟨_, hshape, h⟩ := bind_eq_ok.1 h
  obtain ⟨_, hinputs, h⟩ := bind_eq_ok.1 h
  obtain ⟨_, hfirst, h⟩ := bind_eq_ok.1 h
  obtain ⟨-, hnet, hlen⟩ := require_eq_ok.1 hshape
  obtain ⟨inp, rest, htx⟩ := exists_cons_of_length_eq_add_one (hlen.trans (Nat.add_comm _ _))
  have hview : IndexFits (firstLane st tx) ↔ IndexFits tx := by
    unfold IndexFits firstLane
    rw [htx]
    rfl
  have hplain := closePays_iff htxout hfund hfirst
  rw [hview] at hplain
  constructor
  · rintro ⟨⟨inp', rest', htx', htxid, hindex, -⟩, hasset, hshare, -, -⟩
    refine hplain.1 ⟨⟨inp', ?_, htxid, hindex⟩, fun _ => hasset, hshare⟩
    unfold firstLane
    rw [htx']
    rfl
  · intro hcond
    obtain ⟨⟨inp', hinp', htxid, hindex⟩, hasset, hshare⟩ := hplain.2 hcond
    have heq : inp' = inp := by
      unfold firstLane at hinp'
      rw [htx] at hinp'
      exact (singleton_inj.1 hinp').symm
    subst heq
    refine ⟨⟨inp', rest, htx, htxid, hindex, ?_⟩, hasset hnet, hshare, ?_, fun o => mem_lane⟩
    · refine spendsLane_of_all ?_ ?_
      · rw [htx, length_cons] at hlen
        omega
      · have := require_eq_ok.1 hinputs
        unfold laneInputs at this
        rwa [htx, tail_cons] at this
    · intro l lane hlane
      refine lanePays_of_validateLane hlane (validateLanes_ok h (lane, l) ?_)
      exact List.mk_mem_zipIdx_iff_getElem?.2 hlane

end lanes

/-- What an accepted close spends and pays, of a channel of one asset and of several lanes. -/
theorem close_pays_iff (st : ChannelState) (own : OwnScripts) (tx : Tx)
    (htxout : st.fundingTxout < 2 ^ 16) (hfund : st.fundingSats ≤ u64Max) :
    (validateMutualClose st own tx = .ok () →
      (ClosePays st own tx ↔ IndexFits tx ∧ OwedFits st own tx)) ∧
    (validateLanesClose st own tx = .ok () →
      (LanesClosePays st own tx ↔ IndexFits tx ∧ OwedFits st own (firstLane st tx))) :=
  ⟨closePays_iff htxout hfund, lanesClosePays_iff htxout hfund⟩

namespace Example

/-- A channel of 1000 that the peer opened; the latest commitments leave us 400. -/
def closing (lanes : List Lane) : ChannelState :=
  { (setup 1000).fresh with
    localSplit := some (1, ⟨400, 10, 0⟩)
    remoteSplit := some (1, ⟨400, 10, 0⟩)
    lanes }

/-- A further lane of 500, of which the latest state leaves us 300. -/
def closingLane : Lane :=
  ⟨ByteString.replicate 33 1, 500, some 1, { PayTrack.new with localSide := some ⟨1, 300, [], 0⟩ }⟩

def ownClose : OwnScripts := ⟨fun script => script = [7], none, []⟩

def payout (asset : Option Hash) (value : ℕ) (script : Bytes) : TxOut := ⟨asset, some value, script⟩

def closeTx (index : ℕ) : Tx where
  network := .bitcoin
  locktime := 0
  inputs := [⟨bytes 32 5, index, 0, false⟩]
  outputs := [payout none 400 [7], payout none 590 [8]]

def closeLanesTx : Tx where
  network := .elements
  locktime := 0
  inputs := [⟨bytes 32 5, 0, 0, false⟩, ⟨bytes 32 5, 1, 0, false⟩]
  outputs := [payout (some (bytes 32 2)) 400 [7], payout (some (bytes 32 2)) 590 [8],
    payout (some (bytes 32 1)) 300 [7], payout (some (bytes 32 1)) 200 [8],
    payout (some (bytes 32 2)) 10 []]

theorem close_pays_iff_closing :
    ClosePays (closing []) ownClose (closeTx 0) ∧
      LanesClosePays (closing [closingLane]) ownClose closeLanesTx := by
  constructor
  · refine ((close_pays_iff (closing []) ownClose (closeTx 0) (by decide) (by decide)).1
      (by decide +kernel)).2 ⟨?_, ?_⟩
    · rintro inp ⟨⟩
      decide
    · rintro p ⟨⟩
      exact .inl (by decide)
  · refine ((close_pays_iff (closing [closingLane]) ownClose closeLanesTx (by decide)
      (by decide)).2 (by decide +kernel)).2 ⟨?_, ?_⟩
    · rintro inp ⟨⟩
      decide
    · rintro p ⟨⟩
      exact .inl (by decide)

/-- A close that spends output 65536 of the funding transaction is accepted, where the channel's is
output 0. -/
theorem close_of_another_output :
    validateMutualClose (closing []) ownClose (closeTx 65536) = .ok () ∧
      (closing []).fundingTxout = 0 ∧
      (closeTx 65536).inputs.map TxIn.index = [65536] := by
  decide +kernel

end Example

end SeqLN.Signer
