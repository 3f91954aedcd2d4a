import SeqLN.Sym.Settlement

/-!
# Do the two peers build the same settlement?

The other peer calls `symSettlement` with the same data, LOCAL and REMOTE exchanged, and the HTLCs in
any order (`SettlementInput.peer`). What a side keeps, its share and the HTLC outputs are sums and
images of one collection of HTLCs, and sorting leaves nothing of the order (`asort_map_key_eq`).

The loop that folds a share below the dust limit into the other one runs LOCAL first. That matters
exactly when both shares are below the limit and equal (`DustTie`): then each peer pays all of it to the
other, unless both sides are paid to one script (`settlement_agrees_iff`, and lane by lane).
-/

namespace SeqLN.Sym

open List

/-! ### Sorting -/

/-- What `cmpOutput` compares of an output. -/
def sortKey (o : SymOutput) : ℕ × Bytes × ℕ := (o.amount, o.spk, o.cltvExpiry)

lemma cmpOutput_eq (a b : SymOutput) : cmpOutput a b = cmpKey (sortKey a) (sortKey b) := by
  simp only [cmpOutput, ← Ordering.then_assoc (memcmp _ _), memcmp_then_length]
  rfl

lemma notAfter_iff {a b : SymOutput} :
    NotAfter a b ↔ (cmpKey (sortKey a) (sortKey b)).isLE = true := by
  rw [NotAfter, cmpOutput_eq]
  cases cmpKey (sortKey a) (sortKey b) <;> simp

instance : IsTrans SymOutput NotAfter where
  trans _ _ _ h h' := notAfter_iff.mpr (Std.TransCmp.isLE_trans (notAfter_iff.mp h)
    (notAfter_iff.mp h'))

instance : Std.Total NotAfter where
  total a b := by
    simp only [NotAfter, cmpOutput_eq]
    by_contra h
    rw [not_or, not_not, not_not] at h
    have hlt : cmpKey (sortKey b) (sortKey a) = .lt := Std.OrientedCmp.gt_iff_lt.mp h.1
    rw [h.2] at hlt
    cases hlt

lemma perm_asort (outs : List SymOutput) : asort outs ~ outs := perm_insertionSort _ _

/-- Collections with the same keys are sorted to lists with the same keys. -/
theorem asort_map_key_eq {outs outs' : List SymOutput}
    (h : outs.map sortKey ~ outs'.map sortKey) :
    (asort outs).map sortKey = (asort outs').map sortKey := by
  have hsorted : ∀ l : List SymOutput, ((asort l).map sortKey).Pairwise fun a b =>
      (cmpKey a b).isLE = true := by
    intro l
    rw [pairwise_map]
    exact (pairwise_insertionSort NotAfter l).imp fun hab => notAfter_iff.mp hab
  refine Perm.eq_of_pairwise (fun a b _ _ hab hba => eq_of_cmpKey_isLE hab hba) (hsorted outs)
    (hsorted outs') ?_
  exact ((perm_asort outs).map _).trans (h.trans ((perm_asort outs').map _).symm)

/-! ### The peer's arguments -/

/-- The HTLC as the other peer sees it. -/
def SymHtlc.exchange (h : SymHtlc) : SymHtlc := { h with owner := h.owner.other }

/-- The arguments of the other peer: the same data with LOCAL and REMOTE exchanged, and its own list
of the HTLCs. -/
def SettlementInput.peer (x : SettlementInput) (htlcs : List SymHtlc) : SettlementInput where
  fundingSats := x.fundingSats
  opener := x.opener.other
  paymentBasepoint s := x.paymentBasepoint s.other
  htlcBasepoint s := x.htlcBasepoint s.other
  balance s := x.balance s.other
  htlcs := htlcs
  dustLimit := x.dustLimit
  fundingSats_lt := x.fundingSats_lt
  balance_lt s := x.balance_lt s.other

section peer

variable {S : SpkBuilder} {x : SettlementInput} {hs : List SymHtlc}

lemma filter_owner_exchange (l : List SymHtlc) (s : Side) :
    ((l.map SymHtlc.exchange).filter fun h => h.owner = s) =
      (l.filter fun h => h.owner = s.other).map SymHtlc.exchange := by
  rw [List.filter_map]
  refine congrArg _ (filter_congr fun h _ => ?_)
  have hiff : h.exchange.owner = s ↔ h.owner = s.other := by
    rw [← Side.other_inj]
    simp [SymHtlc.exchange]
  simp [Function.comp_apply, hiff]

variable (hperm : hs ~ x.htlcs.map SymHtlc.exchange)
include hperm

lemma kept_peer (s : Side) : (x.peer hs).kept s = x.kept s.other := by
  have hsum := ((hperm.filter fun h => h.owner = s).map (keptOf x.dustLimit)).sum_eq
  rw [filter_owner_exchange, List.map_map] at hsum
  show x.balance s.other + _ = x.balance s.other + _
  exact congrArg _ hsum

lemma whole_peer (s : Side) : (x.peer hs).whole s = x.whole s.other := by
  rw [SettlementInput.whole, kept_peer hperm, SettlementInput.whole]

lemma htlcAtoms_peer : htlcAtoms x.dustLimit hs = htlcAtoms x.dustLimit x.htlcs := by
  have hsum := (hperm.map (atomsOf x.dustLimit)).sum_eq
  rw [List.map_map] at hsum
  exact hsum

lemma paid_peer : (x.peer hs).paid = x.paid := by
  have h : (x.peer hs).paid = htlcAtoms x.dustLimit hs + (x.peer hs).whole .LOCAL +
      (x.peer hs).whole .REMOTE := rfl
  rw [h, whole_peer hperm, whole_peer hperm, htlcAtoms_peer hperm, SettlementInput.paid]
  simp only [Side.other_LOCAL, Side.other_REMOTE]
  omega

lemma fits_peer : (x.peer hs).Fits ↔ x.Fits := by
  unfold SettlementInput.Fits
  rw [paid_peer hperm]
  refine and_congr ⟨fun h s => ?_, fun h s => ?_⟩ Iff.rfl
  · have := h s.other
    rwa [kept_peer hperm, Side.other_other] at this
  · rw [kept_peer hperm]
    exact h s.other

lemma share_peer (s : Side) : (x.peer hs).share s = x.share s.other := by
  have hopener : s = (x.peer hs).opener ↔ s.other = x.opener := by
    rw [← Side.other_inj (s := s)]
    simp [SettlementInput.peer]
  simp only [SettlementInput.share, whole_peer hperm, paid_peer hperm, hopener]
  rfl

/-- The HTLC outputs of the two peers are the same but for the side that offered them. -/
theorem perm_htlcOutputs_peer :
    (htlcOutputs S (x.peer hs).htlcBasepoint x.dustLimit hs).map sortKey ~
      (htlcOutputs S x.htlcBasepoint x.dustLimit x.htlcs).map sortKey := by
  unfold htlcOutputs
  rw [List.map_map, List.map_map]
  refine ((hperm.filter _).map _).trans (Perm.of_eq ?_)
  rw [List.filter_map, List.map_map]
  refine map_congr_left fun h _ => ?_
  simp [SettlementInput.peer, htlcOutput, sortKey, SymHtlc.exchange]

end peer

/-! ### Folding from the two ends -/

variable {node : Side → ℕ}

/-- Both shares are below the dust limit, equal and not zero. -/
def Tie (dustLimit : ℕ) (node : Side → ℕ) : Prop :=
  node .LOCAL = node .REMOTE ∧ node .LOCAL ≠ 0 ∧ node .LOCAL < dustLimit

section fold

variable {dustLimit : ℕ} {node : Side → ℕ}

lemma foldShares_of_local
    (hL : node .LOCAL ≠ 0 ∧ node .LOCAL < dustLimit ∧ node .LOCAL ≤ node .REMOTE) :
    foldShares dustLimit node .LOCAL = 0 ∧
      foldShares dustLimit node .REMOTE = node .REMOTE + node .LOCAL := by
  rw [foldShares, if_pos hL]
  exact ⟨rfl, rfl⟩

lemma foldShares_of_remote
    (hL : ¬ (node .LOCAL ≠ 0 ∧ node .LOCAL < dustLimit ∧ node .LOCAL ≤ node .REMOTE))
    (hR : node .REMOTE ≠ 0 ∧ node .REMOTE < dustLimit ∧ node .REMOTE ≤ node .LOCAL) :
    foldShares dustLimit node .LOCAL = node .LOCAL + node .REMOTE ∧
      foldShares dustLimit node .REMOTE = 0 := by
  rw [foldShares, if_neg hL, if_pos hR]
  exact ⟨rfl, rfl⟩

lemma foldShares_of_neither
    (hL : ¬ (node .LOCAL ≠ 0 ∧ node .LOCAL < dustLimit ∧ node .LOCAL ≤ node .REMOTE))
    (hR : ¬ (node .REMOTE ≠ 0 ∧ node .REMOTE < dustLimit ∧ node .REMOTE ≤ node .LOCAL)) :
    foldShares dustLimit node = node := by
  rw [foldShares, if_neg hL, if_neg hR]

end fold

/-- Without a tie, folding does not depend on which side is LOCAL. -/
theorem foldShares_other {dustLimit : ℕ} (h : ¬ Tie dustLimit node) (s : Side) :
    foldShares dustLimit (fun t => node t.other) s = foldShares dustLimit node s.other := by
  by_cases hL : node .LOCAL ≠ 0 ∧ node .LOCAL < dustLimit ∧ node .LOCAL ≤ node .REMOTE
  · have hR : ¬ (node .REMOTE ≠ 0 ∧ node .REMOTE < dustLimit ∧ node .REMOTE ≤ node .LOCAL) :=
      fun hR => h ⟨le_antisymm hL.2.2 hR.2.2, hL.1, hL.2.1⟩
    have hpeer : foldShares dustLimit (fun t => node t.other) .LOCAL = node .REMOTE + node .LOCAL ∧
        foldShares dustLimit (fun t => node t.other) .REMOTE = 0 := foldShares_of_remote hR hL
    have hown := foldShares_of_local hL
    cases s
    · exact hpeer.1.trans hown.2.symm
    · exact hpeer.2.trans hown.1.symm
  · by_cases hR : node .REMOTE ≠ 0 ∧ node .REMOTE < dustLimit ∧ node .REMOTE ≤ node .LOCAL
    · have hpeer : foldShares dustLimit (fun t => node t.other) .LOCAL = 0 ∧
          foldShares dustLimit (fun t => node t.other) .REMOTE = node .LOCAL + node .REMOTE :=
        foldShares_of_local hR
      have hown := foldShares_of_remote hL hR
      cases s
      · exact hpeer.1.trans hown.2.symm
      · exact hpeer.2.trans hown.1.symm
    · have hpeer : foldShares dustLimit (fun t => node t.other) = fun t => node t.other :=
        foldShares_of_neither hR hL
      rw [hpeer, foldShares_of_neither hL hR]

/-- In a tie, each peer gives its own share to the other one. -/
theorem foldShares_of_tie {dustLimit : ℕ} (h : Tie dustLimit node) :
    foldShares dustLimit node .LOCAL = 0 ∧
      foldShares dustLimit node .REMOTE = node .REMOTE + node .LOCAL :=
  foldShares_of_local ⟨h.2.1, h.2.2, h.1.le⟩

lemma foldShares_add (dustLimit : ℕ) (node : Side → ℕ) :
    foldShares dustLimit node .LOCAL + foldShares dustLimit node .REMOTE =
      node .LOCAL + node .REMOTE := by
  unfold foldShares
  split_ifs <;> simp only <;> omega

section outputs

variable {S : SpkBuilder} {x : SettlementInput} {hs : List SymHtlc}

lemma sum_amount_balanceOutput (pay : Side → Pubkey) (node : Side → ℕ) (s : Side) :
    ((balanceOutput S pay node s).map SymOutput.amount).sum = node s := by
  unfold balanceOutput
  split
  · next h => simp [h]
  · simp

lemma sum_amount_htlcOutputs (base : Side → Pubkey) (dustLimit : ℕ) (l : List SymHtlc) :
    ((htlcOutputs S base dustLimit l).map SymOutput.amount).sum = htlcAtoms dustLimit l := by
  induction l with
  | nil => rfl
  | cons h l ih =>
    rw [htlcOutputs_cons, map_append, List.sum_append, ih]
    by_cases ht : Trimmed dustLimit h <;> simp [htlcOutputs, htlcAtoms, atomsOf, htlcOutput, ht]

/-- The outputs of a settlement add up to the funding. -/
theorem sum_amount_settlementOutputs (h : x.Fits) :
    ((settlementOutputs S x).map SymOutput.amount).sum = x.fundingSats := by
  have hfold := foldShares_add x.dustLimit x.share
  have hshares := x.share_add_share h
  simp only [settlementOutputs, map_append, List.sum_append, sum_amount_balanceOutput,
    sum_amount_htlcOutputs]
  omega

/-- A state that can be paid has no output exactly if there is nothing to pay and no HTLC has an
output. -/
theorem settlementOutputs_eq_nil_iff (h : x.Fits) :
    settlementOutputs S x = [] ↔ x.fundingSats = 0 ∧ ∀ h ∈ x.htlcs, Trimmed x.dustLimit h := by
  have hsum := sum_amount_settlementOutputs (S := S) h
  constructor
  · intro hnil
    rw [hnil] at hsum
    refine ⟨hsum.symm, fun h hh => ?_⟩
    by_contra htrim
    have hmem : htlcOutput S x.htlcBasepoint h ∈ settlementOutputs S x :=
      mem_append_left _ (mem_map.2 ⟨h, mem_filter.2 ⟨hh, by simpa using htrim⟩, rfl⟩)
    rw [hnil] at hmem
    cases hmem
  · rintro ⟨hzero, htrim⟩
    have hhtlcs : htlcOutputs S x.htlcBasepoint x.dustLimit x.htlcs = [] := by
      simpa [htlcOutputs] using htrim
    have hshares := x.share_add_share h
    have hfold := foldShares_add x.dustLimit x.share
    have hnode : ∀ s, foldShares x.dustLimit x.share s = 0 := by
      intro s
      cases s <;> omega
    rw [settlementOutputs, hhtlcs, balanceOutput, if_pos (hnode _), balanceOutput, if_pos (hnode _)]
    rfl

/-- A balance output as the other peer has it. -/
theorem map_key_balanceOutput_other (pay : Side → Pubkey) {node' : Side → ℕ}
    (hnode : ∀ s, node' s = node s.other) (s : Side) :
    (balanceOutput S (fun t => pay t.other) node' s).map sortKey =
      (balanceOutput S pay node s.other).map sortKey := by
  unfold balanceOutput
  rw [hnode]
  split <;> rfl

/-- Without a tie, the two peers' outputs have the same keys. -/
theorem perm_settlementOutputs_peer (hperm : hs ~ x.htlcs.map SymHtlc.exchange)
    (h : ¬ Tie x.dustLimit x.share) :
    (settlementOutputs S (x.peer hs)).map sortKey ~ (settlementOutputs S x).map sortKey := by
  have hshare : (x.peer hs).share = fun s => x.share s.other := funext (share_peer hperm)
  have hfold : ∀ s, foldShares (x.peer hs).dustLimit (x.peer hs).share s =
      foldShares x.dustLimit x.share s.other := by
    intro s
    rw [hshare]
    exact foldShares_other h s
  simp only [settlementOutputs, map_append]
  refine (perm_htlcOutputs_peer hperm).append ?_
  show (balanceOutput S (fun s => x.paymentBasepoint s.other) _ .LOCAL).map sortKey ++
    (balanceOutput S (fun s => x.paymentBasepoint s.other) _ .REMOTE).map sortKey ~ _
  rw [map_key_balanceOutput_other x.paymentBasepoint hfold,
    map_key_balanceOutput_other x.paymentBasepoint hfold]
  exact perm_append_comm

/-- In a tie, all outputs but the HTLCs' are one, to REMOTE's script. -/
theorem settlementOutputs_of_tie (h : Tie x.dustLimit x.share) :
    (settlementOutputs S x).map sortKey =
      (htlcOutputs S x.htlcBasepoint x.dustLimit x.htlcs).map sortKey ++
        [(x.share .REMOTE + x.share .LOCAL, S.p2wpkh (x.paymentBasepoint .REMOTE), 0)] := by
  obtain ⟨hL, hR⟩ := foldShares_of_tie h
  have hne : x.share .REMOTE + x.share .LOCAL ≠ 0 := by
    have := h.2.1
    omega
  have houtL : balanceOutput S x.paymentBasepoint (foldShares x.dustLimit x.share) .LOCAL = [] := by
    rw [balanceOutput, if_pos hL]
  rw [settlementOutputs, houtL, balanceOutput, hR, if_neg hne]
  simp [sortKey]

lemma tie_peer (hperm : hs ~ x.htlcs.map SymHtlc.exchange) (h : Tie x.dustLimit x.share) :
    Tie (x.peer hs).dustLimit (x.peer hs).share := by
  unfold Tie
  rw [share_peer hperm, share_peer hperm]
  exact ⟨h.1.symm, h.1 ▸ h.2.1, h.1 ▸ h.2.2⟩

/-- In a tie there is an output. -/
theorem settlementOutputs_ne_nil_of_tie (h : Tie x.dustLimit x.share) :
    settlementOutputs S x ≠ [] := by
  intro hnil
  have hkey := settlementOutputs_of_tie (S := S) h
  rw [hnil] at hkey
  simp at hkey

lemma settlementOutputs_peer_eq_nil_iff (hperm : hs ~ x.htlcs.map SymHtlc.exchange) :
    settlementOutputs S (x.peer hs) = [] ↔ settlementOutputs S x = [] := by
  by_cases htie : Tie x.dustLimit x.share
  · exact iff_of_false (settlementOutputs_ne_nil_of_tie (tie_peer hperm htie))
      (settlementOutputs_ne_nil_of_tie htie)
  · have hlen := (perm_settlementOutputs_peer (S := S) hperm htie).length_eq
    simp only [length_map] at hlen
    rw [← length_eq_zero_iff, ← length_eq_zero_iff, hlen]

end outputs

/-! ### Agreement -/

/-- An output as the chain sees it in its lane: the amount and the script. -/
def payment (o : SymOutput) : ℕ × Bytes := (o.amount, o.spk)

/-- Two results of `symSettlement` that two peers can work with: both failed, or both are lists that
agree element by element and add up to the funding. -/
def SameSettlement (fundingSats : ℕ) :
    Except String (List SymOutput) → Except String (List SymOutput) → Prop
  | .ok l, .ok l' => l.map payment = l'.map payment ∧
      (l.map SymOutput.amount).sum = fundingSats ∧ (l'.map SymOutput.amount).sum = fundingSats
  | .error _, .error _ => True
  | _, _ => False

/-- A state that can be paid and leaves both sides with equal shares below the dust limit. -/
def DustTie (x : SettlementInput) : Prop := x.Fits ∧ Tie x.dustLimit x.share

instance (x : SettlementInput) : Decidable (DustTie x) :=
  inferInstanceAs (Decidable (_ ∧ _ ∧ _ ∧ _))

/-- A state that can be paid, and has something to pay or an HTLC that has an output. -/
def SettlementInput.Pays (x : SettlementInput) : Prop :=
  x.Fits ∧ (x.fundingSats = 0 → ∃ h ∈ x.htlcs, ¬ Trimmed x.dustLimit h)

section agreement

variable {S : SpkBuilder} {x : SettlementInput} {hs : List SymHtlc}

lemma payment_eq_of_sortKey (l l' : List SymOutput) (h : l.map sortKey = l'.map sortKey) :
    l.map payment = l'.map payment := by
  have hpay : ∀ m : List SymOutput, m.map payment = (m.map sortKey).map fun k => (k.1, k.2.1) := by
    intro m
    rw [List.map_map]
    rfl
  rw [hpay, hpay, h]

/-- The settlements of a state that can be paid agree exactly when the payments do. -/
theorem sameSettlement_iff_of_fits (hfits : x.Fits)
    (hperm : hs ~ x.htlcs.map SymHtlc.exchange) :
    SameSettlement x.fundingSats (symSettlement S x) (symSettlement S (x.peer hs)) ↔
      (settlementOutputs S x ≠ [] → (asort (settlementOutputs S x)).map payment =
        (asort (settlementOutputs S (x.peer hs))).map payment) := by
  have hfits' := (fits_peer hperm).mpr hfits
  have hnil := settlementOutputs_peer_eq_nil_iff (S := S) hperm
  rw [symSettlement_of_fits S hfits, symSettlement_of_fits S hfits']
  by_cases hne : settlementOutputs S x = []
  · rw [if_pos hne, if_pos (hnil.mpr hne)]
    simp [SameSettlement, hne]
  · have hsum : ((asort (settlementOutputs S x)).map SymOutput.amount).sum = x.fundingSats := by
      rw [((perm_asort _).map _).sum_eq, sum_amount_settlementOutputs hfits]
    have hsum' : ((asort (settlementOutputs S (x.peer hs))).map SymOutput.amount).sum =
        x.fundingSats := by
      rw [((perm_asort _).map _).sum_eq, sum_amount_settlementOutputs hfits']
      rfl
    rw [if_neg hne, if_neg (mt hnil.mp hne)]
    simp only [SameSettlement, hsum, hsum', and_true, ne_eq, hne, not_false_eq_true, true_implies]

/-- There is a settlement exactly of a state that pays. -/
theorem symSettlement_error_iff (S : SpkBuilder) (x : SettlementInput) :
    (∃ err, symSettlement S x = .error err) ↔ ¬ x.Pays := by
  by_cases hfits : x.Fits
  · have hnil := settlementOutputs_eq_nil_iff (S := S) hfits
    rw [symSettlement_of_fits S hfits, SettlementInput.Pays]
    split
    · next h => simpa [hfits, (hnil.1 h).1] using (hnil.1 h).2
    · next h =>
      rw [hnil] at h
      simpa [hfits] using h
  · exact iff_of_true (symSettlement_of_not_fits S hfits) fun h => hfits h.1

/-- The two peers' settlements fail together. -/
theorem symSettlement_peer_error_iff (hperm : hs ~ x.htlcs.map SymHtlc.exchange) :
    (∃ err, symSettlement S (x.peer hs) = .error err) ↔ ∃ err, symSettlement S x = .error err := by
  by_cases hfits : x.Fits
  · rw [symSettlement_of_fits S hfits, symSettlement_of_fits S ((fits_peer hperm).mpr hfits)]
    have hnil := settlementOutputs_peer_eq_nil_iff (S := S) hperm
    by_cases hne : settlementOutputs S x = []
    · rw [if_pos hne, if_pos (hnil.mpr hne)]
    · rw [if_neg hne, if_neg (mt hnil.mp hne)]
      simp
  · exact iff_of_true (symSettlement_of_not_fits S (mt (fits_peer hperm).mp hfits))
      (symSettlement_of_not_fits S hfits)

/-- **One channel.** The two settlements agree exactly when there is no tie of shares below the dust
limit, or both sides are paid to one script. -/
theorem sameSettlement_iff (hperm : hs ~ x.htlcs.map SymHtlc.exchange) :
    SameSettlement x.fundingSats (symSettlement S x) (symSettlement S (x.peer hs)) ↔
      (DustTie x → S.p2wpkh (x.paymentBasepoint .LOCAL) = S.p2wpkh (x.paymentBasepoint .REMOTE)) := by
  by_cases hfits : x.Fits
  · rw [sameSettlement_iff_of_fits hfits hperm]
    by_cases htie : Tie x.dustLimit x.share
    · -- each peer's list is the HTLCs and one output, to the other peer
      have hkey := settlementOutputs_of_tie (S := S) htie
      have hkey' := settlementOutputs_of_tie (S := S) (tie_peer hperm htie)
      have hne := settlementOutputs_ne_nil_of_tie (S := S) htie
      have hshare : (x.peer hs).share .REMOTE + (x.peer hs).share .LOCAL =
          x.share .REMOTE + x.share .LOCAL := by
        rw [share_peer hperm, share_peer hperm]
        simp only [Side.other_LOCAL, Side.other_REMOTE]
        omega
      have hpay : (x.peer hs).paymentBasepoint .REMOTE = x.paymentBasepoint .LOCAL := rfl
      rw [hshare, hpay] at hkey'
      simp only [ne_eq, hne, not_false_eq_true, true_implies, DustTie, hfits, htie, and_self]
      constructor
      · intro h
        have hpays : (settlementOutputs S x).map payment ~
            (settlementOutputs S (x.peer hs)).map payment :=
          ((perm_asort _).map _).symm.trans ((Perm.of_eq h).trans ((perm_asort _).map _))
        have hofKey : ∀ l : List SymOutput,
            l.map payment = (l.map sortKey).map fun k => (k.1, k.2.1) := by
          intro l
          rw [List.map_map]
          rfl
        rw [hofKey, hofKey, hkey, hkey', map_append, map_append] at hpays
        have hhtlcs := ((perm_htlcOutputs_peer (S := S) hperm).map fun k => (k.1, k.2.1))
        have hlast := (perm_append_left_iff _).mp (hpays.trans (hhtlcs.append_right _))
        have heq := perm_singleton.mp hlast
        simpa using heq.symm
      · intro h
        refine payment_eq_of_sortKey _ _ (asort_map_key_eq ?_)
        rw [hkey, hkey', h]
        exact (perm_htlcOutputs_peer hperm).symm.append_right _
    · have hkeys := perm_settlementOutputs_peer (S := S) hperm htie
      exact iff_of_true (fun _ => payment_eq_of_sortKey _ _ (asort_map_key_eq hkeys.symm))
        fun h => absurd h.2 htie
  · obtain ⟨err, herr⟩ := symSettlement_of_not_fits S hfits
    obtain ⟨err', herr'⟩ := symSettlement_of_not_fits S (mt (fits_peer hperm).mp hfits)
    rw [herr, herr']
    exact iff_of_true trivial fun h => absurd h.1 hfits

end agreement

/-! ### Lane by lane -/

/-- A lane as the other peer has it. -/
def SettleLane.exchange (lane : SettleLane) : SettleLane :=
  { lane with
    owed := fun view s => lane.owed view.other s.other
    owed_lt := fun view s => lane.owed_lt view.other s.other }

/-- A channel as the other peer has it. -/
def SettleChannel.exchange (c : SettleChannel) : SettleChannel where
  opener := c.opener.other
  payment s := c.payment s.other
  htlc s := c.htlc s.other
  dustLimit s := c.dustLimit s.other
  lanes := c.lanes.map SettleLane.exchange

/-- Two results of the lanes' settlements that two peers can work with: both failed, or lane by lane
the lists agree and add up to the lane's funding. -/
def SameLanes (fundings : List ℕ) :
    Except String (List (List SymOutput)) → Except String (List (List SymOutput)) → Prop
  | .ok ls, .ok ls' => Forall₂ (fun l l' => l.map payment = l'.map payment) ls ls' ∧
      ls.map (fun l => (l.map SymOutput.amount).sum) = fundings ∧
      ls'.map (fun l => (l.map SymOutput.amount).sum) = fundings
  | .error _, .error _ => True
  | _, _ => False

section lanes

variable {S : SpkBuilder} {c : SettleChannel} {view : Side} {htlcs hs : List (SymHtlc × ℕ)}

lemma symDustLimit_exchange (c : SettleChannel) : symDustLimit c.exchange = symDustLimit c := by
  have hmax : ∀ c : SettleChannel,
      symDustLimit c = max (c.dustLimit .LOCAL) (c.dustLimit .REMOTE) := by
    intro c
    unfold symDustLimit
    split <;> omega
  rw [hmax, hmax]
  exact Nat.max_comm _ _

/-- The other peer settles a lane with the arguments exchanged. -/
theorem laneInput_exchange (c : SettleChannel) (view : Side) (htlcs hs : List (SymHtlc × ℕ)) (l : ℕ)
    (lane : SettleLane) :
    laneInput c.exchange view.other hs l lane.exchange =
      (laneInput c view htlcs l lane).peer ((hs.filter fun h => h.2 = l).map Prod.fst) := by
  simp only [laneInput, SettlementInput.peer, symDustLimit_exchange]
  simp only [SettleLane.exchange, SettleChannel.exchange, Side.other_other]

variable {lane : SettleLane}

lemma laneSettlements_cons_error {err : String} {l : ℕ} (lanes : List SettleLane)
    (h : symSettlement S (laneInput c view htlcs l lane) = .error err) :
    ∃ err', laneSettlements S c view htlcs l (lane :: lanes) = .error err' := by
  rw [laneSettlements, h]
  exact ⟨_, rfl⟩

variable {lanes : List SettleLane}

lemma laneSettlements_cons_ok {lo : List SymOutput} {l : ℕ}
    (h : symSettlement S (laneInput c view htlcs l lane) = .ok lo) :
    laneSettlements S c view htlcs l (lane :: lanes) =
      (laneSettlements S c view htlcs (l + 1) lanes).map
        ((lo.map fun o => { o with asset := lane.asset }) :: ·) := by
  rw [laneSettlements, h]
  dsimp only
  cases laneSettlements S c view htlcs (l + 1) lanes <;> rfl

/-- A result that is mapped fails if it does. -/
theorem error_map_iff {α : Type} (r : Except String α) (f : α → α) :
    (∃ err, r.map f = .error err) ↔ ∃ err, r = .error err := by
  cases r <;> simp [Except.map]

lemma payment_map_asset (l : List SymOutput) (asset : Option (ByteString 32)) :
    (l.map fun o => { o with asset := asset }).map payment = l.map payment := by
  rw [List.map_map]
  rfl

lemma amount_map_asset (l : List SymOutput) (asset : Option (ByteString 32)) :
    (l.map fun o => { o with asset := asset }).map SymOutput.amount = l.map SymOutput.amount := by
  rw [List.map_map]
  rfl

/-- A property of the lanes with their indices, of the first lane and of the others. -/
theorem forall_lane_cons {P : ℕ → SettleLane → Prop} {l : ℕ} :
    (∀ i lane', (lane :: lanes)[i]? = some lane' → P (l + i) lane') ↔
      P l lane ∧ ∀ i lane', lanes[i]? = some lane' → P (l + 1 + i) lane' := by
  constructor
  · intro h
    refine ⟨h 0 lane rfl, fun i lane' hi => ?_⟩
    have := h (i + 1) lane' (by simpa using hi)
    rwa [← Nat.add_assoc, Nat.add_right_comm] at this
  · rintro ⟨h0, h⟩ i lane' hi
    cases i with
    | zero =>
      obtain rfl : lane = lane' := by simpa using hi
      exact h0
    | succ i =>
      have := h i lane' (by simpa using hi)
      rwa [Nat.add_right_comm] at this

/-- The lanes have settlements exactly if each of them pays. -/
theorem laneSettlements_error_iff (l : ℕ) (lanes : List SettleLane) :
    (∃ err, laneSettlements S c view htlcs l lanes = .error err) ↔
      ¬ ∀ i lane, lanes[i]? = some lane → (laneInput c view htlcs (l + i) lane).Pays := by
  induction lanes generalizing l with
  | nil => simp [laneSettlements]
  | cons lane lanes ih =>
    rw [forall_lane_cons (P := fun i lane => (laneInput c view htlcs i lane).Pays)]
    have hlane := symSettlement_error_iff S (laneInput c view htlcs l lane)
    cases hr : symSettlement S (laneInput c view htlcs l lane) with
    | error err =>
      exact iff_of_true (laneSettlements_cons_error _ hr) fun h => hlane.1 ⟨err, hr⟩ h.1
    | ok lo =>
      have hpays : (laneInput c view htlcs l lane).Pays := by
        by_contra hnot
        obtain ⟨err, herr⟩ := hlane.2 hnot
        rw [hr] at herr
        cases herr
      rw [laneSettlements_cons_ok hr, error_map_iff, ih (l + 1)]
      simp [hpays]

variable (hperm : hs ~ htlcs.map fun h => (h.1.exchange, h.2)) (l : ℕ)
include hperm

lemma perm_laneHtlcs (lane : SettleLane) :
    (hs.filter fun h => h.2 = l).map Prod.fst ~
      (laneInput c view htlcs l lane).htlcs.map SymHtlc.exchange := by
  refine ((hperm.filter _).map _).trans (Perm.of_eq ?_)
  simp only [laneInput, List.filter_map, List.map_map]
  rfl

variable (S c view)

/-- One lane at the two peers. -/
theorem sameSettlement_lane (lane : SettleLane) :
    SameSettlement lane.fundingSats (symSettlement S (laneInput c view htlcs l lane))
        (symSettlement S (laneInput c.exchange view.other hs l lane.exchange)) ↔
      (DustTie (laneInput c view htlcs l lane) →
        S.p2wpkh (c.payment .LOCAL) = S.p2wpkh (c.payment .REMOTE)) := by
  rw [laneInput_exchange c view htlcs]
  exact sameSettlement_iff (perm_laneHtlcs hperm l lane)

lemma error_lane_iff (lane : SettleLane) :
    (∃ err, symSettlement S (laneInput c.exchange view.other hs l lane.exchange) = .error err) ↔
      ∃ err, symSettlement S (laneInput c view htlcs l lane) = .error err := by
  rw [laneInput_exchange c view htlcs]
  exact symSettlement_peer_error_iff (perm_laneHtlcs hperm l lane)

/-- The two peers' lanes fail together. -/
theorem error_laneSettlements_iff (lanes : List SettleLane) :
    (∃ err, laneSettlements S c.exchange view.other hs l (lanes.map SettleLane.exchange) =
        .error err) ↔ ∃ err, laneSettlements S c view htlcs l lanes = .error err := by
  simp only [laneSettlements_error_iff, getElem?_map, Option.map_eq_some_iff, forall_exists_index,
    and_imp, forall_apply_eq_imp_iff₂]
  refine not_congr (forall₃_congr fun i lane _ => not_iff_not.1 ?_)
  rw [← symSettlement_error_iff S, ← symSettlement_error_iff S]
  exact error_lane_iff S c view hperm (l + i) lane

/-- The lanes from index `l` on at the two peers: they agree exactly when they cannot all be paid,
or no lane ends in a tie between different scripts. -/
theorem sameLanes_from (lanes : List SettleLane) :
    SameLanes (lanes.map SettleLane.fundingSats) (laneSettlements S c view htlcs l lanes)
        (laneSettlements S c.exchange view.other hs l (lanes.map SettleLane.exchange)) ↔
      ((∃ err, laneSettlements S c view htlcs l lanes = .error err) ∨
        ∀ i lane, lanes[i]? = some lane → DustTie (laneInput c view htlcs (l + i) lane) →
          S.p2wpkh (c.payment .LOCAL) = S.p2wpkh (c.payment .REMOTE)) := by
  -- one lane after the other: a lane that fails ends both peers' loops, and otherwise its list
  -- stands before the rest
  induction lanes generalizing l with
  | nil => simp [laneSettlements, SameLanes]
  | cons lane lanes ih =>
    have hlane := error_lane_iff S c view hperm l lane
    have hsame := sameSettlement_lane S c view hperm l lane
    have hrest := error_laneSettlements_iff S c view hperm (l + 1) lanes
    have ih := ih (l + 1)
    rw [map_cons, map_cons]
    cases hr : symSettlement S (laneInput c view htlcs l lane) with
    | error err =>
      obtain ⟨err', hr'⟩ := hlane.mpr ⟨err, hr⟩
      obtain ⟨e, he⟩ := laneSettlements_cons_error lanes hr
      obtain ⟨e', he'⟩ := laneSettlements_cons_error (lanes.map SettleLane.exchange) hr'
      rw [he, he']
      exact iff_of_true trivial (Or.inl ⟨e, rfl⟩)
    | ok lo =>
      cases hr' : symSettlement S (laneInput c.exchange view.other hs l lane.exchange) with
      | error err' => rw [hr, hr'] at hlane; simp at hlane
      | ok lo' =>
        rw [laneSettlements_cons_ok hr, laneSettlements_cons_ok hr']
        rw [hr, hr'] at hsame
        cases hR : laneSettlements S c view htlcs (l + 1) lanes with
        | error e =>
          obtain ⟨e', hR'⟩ := hrest.mpr ⟨e, hR⟩
          rw [hR']
          exact iff_of_true trivial (Or.inl ⟨e, rfl⟩)
        | ok ls =>
          cases hR' : laneSettlements S c.exchange view.other hs (l + 1)
              (lanes.map SettleLane.exchange) with
          | error e' => rw [hR, hR'] at hrest; simp at hrest
          | ok ls' =>
            rw [hR, hR'] at ih
            simp only [SameSettlement, SameLanes, reduceCtorEq, exists_false,
              false_or] at hsame ih
            simp only [Except.map, SameLanes, reduceCtorEq, exists_false, false_or,
              forall₂_cons, map_cons, List.cons.injEq, payment_map_asset,
              amount_map_asset]
            rw [forall_lane_cons (P := fun i lane =>
              DustTie (laneInput c view htlcs i lane) → _), ← hsame, ← ih]
            tauto

end lanes

/-- **The two peers build the same settlement exactly when no tie of shares below the dust limit
meets two different scripts**: for one channel, and lane by lane where all lanes can be paid.
Source: `common/sym_scripts.c`, `sym_settlement`; `common/sym_lanes.c`, `sym_lanes_settlement` -/
theorem settlement_agrees_iff (S : SpkBuilder) (x : SettlementInput) (hs : List SymHtlc)
    (hperm : hs ~ x.htlcs.map SymHtlc.exchange) (c : SettleChannel) (view : Side)
    (htlcs ls : List (SymHtlc × ℕ)) (hlanes : ls ~ htlcs.map fun h => (h.1.exchange, h.2)) :
    (SameSettlement x.fundingSats (symSettlement S x) (symSettlement S (x.peer hs)) ↔
        (DustTie x →
          S.p2wpkh (x.paymentBasepoint .LOCAL) = S.p2wpkh (x.paymentBasepoint .REMOTE))) ∧
      (SameLanes (c.lanes.map SettleLane.fundingSats) (laneSettlements S c view htlcs 0 c.lanes)
          (laneSettlements S c.exchange view.other ls 0 c.exchange.lanes) ↔
        ((∀ l lane, c.lanes[l]? = some lane → (laneInput c view htlcs l lane).Pays) →
          ∀ l lane, c.lanes[l]? = some lane → DustTie (laneInput c view htlcs l lane) →
            S.p2wpkh (c.payment .LOCAL) = S.p2wpkh (c.payment .REMOTE))) := by
  refine ⟨sameSettlement_iff hperm, ?_⟩
  have h := sameLanes_from S c view hlanes 0 c.lanes
  rw [laneSettlements_error_iff, ← imp_iff_not_or] at h
  simp only [Nat.zero_add] at h
  exact h

/-! ### A state in a tie -/

namespace SettlementExample

/-- Scripts that are told apart by the keys and the data they are made of. -/
def spks : SpkBuilder where
  htlc offerer receiver ripemd expiry :=
    Tapscript.witnessSpk 1
      (Sha256.sha256 (offerer.bytes ++ receiver.bytes ++ ripemd.bytes ++ leBytes 4 expiry))
  p2wpkh key := Tapscript.witnessSpk 0 ((Sha256.sha256 key.bytes).take 20)

/-- The keys of a side. -/
def key : Side → Pubkey
  | .LOCAL => .replicate 33 0x02
  | .REMOTE => .replicate 33 0x03

/-- An HTLC of 999000 atoms, offered by LOCAL. -/
def htlc : SymHtlc where
  owner := .LOCAL
  amount := 999000000
  paymentRipemd := .replicate 20 0x0a
  cltvExpiry := 500
  amount_lt := by decide

/-- A channel of a million atoms with that HTLC, what each side is owed beside it, and a dust limit
of 546. -/
def input (ours theirs : ℕ) (h : ours < 2 ^ 64) (h' : theirs < 2 ^ 64) : SettlementInput where
  fundingSats := 1000000
  opener := .LOCAL
  paymentBasepoint := key
  htlcBasepoint := key
  balance
    | .LOCAL => ours
    | .REMOTE => theirs
  htlcs := [htlc]
  dustLimit := 546
  fundingSats_lt := by decide
  balance_lt s := by cases s <;> assumption

/-- An HTLC of 500 atoms, offered by REMOTE. -/
def smallHtlc : SymHtlc := { htlc with owner := .REMOTE, amount := 500000, amount_lt := by decide }

/-- A lane in which the sides are owed as much. -/
def lane (fundingSats ours theirs : ℕ) (asset : Option (ByteString 32))
    (h : fundingSats < 2 ^ 64) (h' : ours < 2 ^ 64 ∧ theirs < 2 ^ 64) : SettleLane where
  fundingSats
  owed _ s := if s = .LOCAL then ours else theirs
  asset
  fundingSats_lt := h
  owed_lt _ s := by split; exacts [h'.1, h'.2]

/-- A channel with two lanes: the HTLC is in the first; the second is small, and its HTLC is trimmed. -/
def channel : SettleChannel where
  opener := .LOCAL
  payment := key
  htlc := key
  dustLimit _ := 546
  lanes :=
    [lane 2000000 501000000 500000000 none (by decide) (by decide),
      lane 1100 300000 300000 (some (.replicate 32 7)) (by decide) (by decide)]

/-- The HTLCs of the two lanes. -/
def laneHtlcs : List (SymHtlc × ℕ) := [(htlc, 0), (smallHtlc, 1)]

/-- What the other peer has of them. -/
def peerHtlcs : List (SymHtlc × ℕ) := [(smallHtlc.exchange, 1), (htlc.exchange, 0)]

/-- A state of a channel with 600 and 400 atoms beside the HTLC, and a channel of two lanes, in one of
which a side ends below the dust limit and an HTLC is trimmed. -/
theorem settlement_agrees_untied :
    SameSettlement 1000000 (symSettlement spks (input 600000 400000 (by decide) (by decide)))
        (symSettlement spks ((input 600000 400000 (by decide) (by decide)).peer [htlc.exchange])) ∧
      SameLanes [2000000, 1100] (laneSettlements spks channel .LOCAL laneHtlcs 0 channel.lanes)
        (laneSettlements spks channel.exchange .REMOTE peerHtlcs 0 channel.exchange.lanes) := by
  have hagree := settlement_agrees_iff spks (input 600000 400000 (by decide) (by decide))
    [htlc.exchange] (Perm.refl _) channel .LOCAL laneHtlcs peerHtlcs (Perm.swap _ _ _)
  refine ⟨hagree.1.2 fun htie => absurd htie (by decide +kernel), hagree.2.2 fun _ l lane hl htie => ?_⟩
  have hlt : l < 2 := (List.getElem?_eq_some_iff.1 hl).1
  interval_cases l <;> cases hl <;> exact absurd htie (by decide +kernel)

/-- 500 atoms for each side beside the HTLC: both below the dust limit, and equal. -/
def tied : SettlementInput := input 500000 500000 (by decide) (by decide)

/-- The balance output a peer builds from the tie: the 1000 atoms to the other side's script. -/
def tieOutput (script : Bytes) : SymOutput :=
  ⟨.balance, .REMOTE, 1000, script, none, 0⟩

/-- Each peer pays the 1000 atoms to the other one, so the two lists differ in their first element. -/
theorem settlement_tie :
    symSettlement spks tied = .ok [tieOutput (spks.p2wpkh (key .REMOTE)),
        htlcOutput spks key htlc] ∧
      symSettlement spks (tied.peer [htlc.exchange]) =
        .ok [tieOutput (spks.p2wpkh (key .LOCAL)),
          htlcOutput spks (fun s => key s.other) htlc.exchange] ∧
      ¬ SameSettlement 1000000 (symSettlement spks tied)
        (symSettlement spks (tied.peer [htlc.exchange])) := by
  have hours : symSettlement spks tied = .ok [tieOutput (spks.p2wpkh (key .REMOTE)),
      htlcOutput spks key htlc] := by decide +kernel
  have htheirs : symSettlement spks (tied.peer [htlc.exchange]) =
      .ok [tieOutput (spks.p2wpkh (key .LOCAL)),
        htlcOutput spks (fun s => key s.other) htlc.exchange] := by decide +kernel
  refine ⟨hours, htheirs, ?_⟩
  rw [hours, htheirs]
  rintro ⟨hpay, -⟩
  have hscript := congrArg Prod.snd (List.cons.inj hpay).1
  revert hscript
  decide +kernel

end SettlementExample

end SeqLN.Sym
