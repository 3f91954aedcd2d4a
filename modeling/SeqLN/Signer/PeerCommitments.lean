import SeqLN.Signer.Accepted

/-!
# What a commitment of the peer's leaves this side

A commitment of the peer's that the device signs is held to the latest one it tracks
(`PayTrack.plan`). `balance_kept_iff`: the check holds it for every value exactly when its number is not
older than the tracked one's, and the record, which keeps 966 HTLCs, loses none that the two share.

What a commitment leaves is read off its outputs (`leaves`). The device counts every HTLC listed as
offered, and takes those without an output off again only where this side opened the channel; so on a
channel of the peer's each of them must have an output (`commitmentValue_le`).
-/

namespace SeqLN.Signer

open Lib List

/-! ### The HTLCs that went -/

/-- The loop takes each HTLC off as often as the other list has it. -/
lemma count_minusLoop (b : List Offered) (x : Offered) (seen a : List Offered) :
    (minusLoop b seen a).count x + max (b.count x) (seen.count x) =
      max (b.count x) (seen.count x + a.count x) := by
  induction a generalizing seen with
  | nil => simp [minusLoop]
  | cons y a ih =>
    have hrest := ih (seen ++ [y])
    rw [count_append] at hrest
    unfold minusLoop
    rw [count_append]
    by_cases hxy : y = x
    · subst hxy
      rw [count_singleton_self] at hrest ⊢
      split
      · rw [count_cons_self, count_cons_self]
        omega
      · rw [count_cons_self]
        omega
    · have hzero : [y].count x = 0 := by simp [hxy]
      rw [hzero] at hrest
      have hcons : ∀ l : List Offered, (y :: l).count x = l.count x := fun l => by
        simp [hxy]
      rw [hcons a]
      split
      · rw [hcons]
        omega
      · omega

/-- What is beyond the multiplicity that the other list gives. -/
theorem count_minus (a b : List Offered) (x : Offered) :
    (minus a b).count x = a.count x - b.count x := by
  have h := count_minusLoop b x [] a
  rw [count_nil, Nat.zero_add] at h
  unfold minus
  omega

lemma count_keptOffered_le (offered : List Offered) (x : Offered) :
    (keptOffered offered).count x ≤ offered.count x := by
  unfold keptOffered
  calc ((offered.insertionSort _).take maxOffered).count x
      ≤ (offered.insertionSort _).count x := (take_sublist _ _).count_le x
    _ = offered.count x := (perm_insertionSort _ _).count_eq x

/-- What the record no longer lists is at least what the commitment no longer carries. -/
theorem minus_subperm_minus_kept (a offered : List Offered) :
    (minus a offered).Subperm (minus a (keptOffered offered)) := by
  apply subperm_ext_iff.2
  intro x _
  have := count_keptOffered_le offered x
  rw [count_minus, count_minus]
  omega

lemma offeredAtoms_mono {xs ys : List Offered} (h : xs.Subperm ys) :
    offeredAtoms xs ≤ offeredAtoms ys := by
  obtain ⟨zs, hperm, hsub⟩ := h
  unfold offeredAtoms
  rw [satSum_eq, satSum_eq]
  have hsum : (xs.map fun h => h.amountMsat / 1000).sum ≤ (ys.map fun h => h.amountMsat / 1000).sum := by
    rw [← (hperm.map _).sum_eq]
    exact List.Sublist.sum_le_sum (hsub.map _) fun _ _ => Nat.zero_le _
  omega

lemma offeredAtoms_perm {xs ys : List Offered} (h : xs.Perm ys) :
    offeredAtoms xs = offeredAtoms ys := by
  unfold offeredAtoms
  rw [satSum_eq, satSum_eq, (h.map _).sum_eq]

/-! ### The check of the balance -/

variable {t : SideTrack} {offered : List Offered}

/-- What may go of the tracked value: the HTLCs that the commitment no longer carries, and what
rounding may move. -/
def slack (t : SideTrack) (offered : List Offered) (listed : ℕ) : ℕ :=
  offeredAtoms (minus t.offered offered) + tolerance listed t (minus t.offered offered)

/-- The record, which keeps a bounded number of HTLCs, loses none that both commitments carry. -/
def KeepsShared (t : SideTrack) (offered : List Offered) : Prop :=
  (minus t.offered (keptOffered offered)).length = (minus t.offered offered).length

instance (t : SideTrack) (offered : List Offered) : Decidable (KeepsShared t offered) :=
  inferInstanceAs (Decidable (_ = _))

lemma slack_kept (h : KeepsShared t offered) (listed : ℕ) :
    slack t (keptOffered offered) listed = slack t offered listed := by
  have hperm : (minus t.offered offered).Perm (minus t.offered (keptOffered offered)) :=
    (minus_subperm_minus_kept _ _).perm_of_length_le h.le
  unfold slack tolerance
  rw [offeredAtoms_perm hperm, hperm.length_eq]

lemma slack_lt_kept (h : ¬ KeepsShared t offered) (listed : ℕ) :
    slack t offered listed < slack t (keptOffered offered) listed := by
  have hsub := minus_subperm_minus_kept t.offered offered
  have hlen := hsub.length_le
  have hatoms := offeredAtoms_mono hsub
  unfold KeepsShared at h
  unfold slack tolerance
  omega

section plan

variable {p : PayTrack} {ours : Bool} {t : SideTrack} {n : ℕ}

/-- A commitment that is not older than the latest on its side is held to it. -/
theorem balance_plan (ht : p.side ours = some t) (hn : t.n ≤ n) (asset : AssetKey) (value : ℕ)
    (offered : List Offered) (listed : ℕ) :
    (p.plan ours n asset value offered listed).balance =
      some (balanceCheck t value (keptOffered offered) listed) := by
  have hnew : ¬ (p.side ours).any (n < ·.n) = true := by
    rw [ht]
    simpa using hn
  unfold PayTrack.plan
  dsimp only
  rw [if_neg hnew, ht]
  rfl

/-- An older one is held to nothing. -/
theorem balance_plan_of_lt (ht : p.side ours = some t) (hn : n < t.n) (asset : AssetKey)
    (value : ℕ) (offered : List Offered) (listed : ℕ) :
    (p.plan ours n asset value offered listed).balance = none := by
  have hold : (p.side ours).any (n < ·.n) = true := by
    rw [ht]
    simpa using hn
  unfold PayTrack.plan
  dsimp only
  rw [if_pos hold]

end plan

lemma checkBalance_some {b : BalanceCheck} : Device.checkBalance (some b) = .ok () ↔ b.short = 0 :=
  require_eq_ok

lemma short_eq_zero {value listed : ℕ} :
    (balanceCheck t value offered listed).short = 0 ↔
      t.value ≤ value + slack t offered listed := by
  unfold balanceCheck slack
  dsimp only
  omega

/-- The check holds every value to the tracked one exactly when the number is not older than the
tracked one's and the record loses no HTLC that both carry; or when there is nothing to hold to. -/
theorem balance_kept_iff {p : PayTrack} (ht : p.side false = some t) (n : ℕ)
    (offered : List Offered) (listed : ℕ) :
    (∀ asset value, Device.checkBalance (p.plan false n asset value offered listed).balance = .ok () →
      t.value ≤ value + slack t offered listed) ↔
    (t.value ≤ slack t offered listed ∨ (t.n ≤ n ∧ KeepsShared t offered)) := by
  constructor
  · intro h
    by_cases hn : t.n ≤ n
    · by_cases hshared : KeepsShared t offered
      · exact .inr ⟨hn, hshared⟩
      · -- a value that is short by what the record counts as gone, and no more
        have hlt := slack_lt_kept hshared listed
        have hpass := h .btc (t.value - slack t (keptOffered offered) listed) (by
          rw [balance_plan ht hn, checkBalance_some, short_eq_zero]
          omega)
        left
        omega
    · have hpass := h .btc 0 (by
        rw [balance_plan_of_lt ht (Nat.lt_of_not_le hn)]
        rfl)
      left
      omega
  · rintro (hsmall | ⟨hn, hshared⟩) asset value hcheck
    · omega
    · rw [balance_plan ht hn, checkBalance_some, short_eq_zero, slack_kept hshared] at hcheck
      exact hcheck

/-! ### What the outputs leave -/

/-- What the outputs pay to the scripts that meet a test. -/
def paidTo (outputs : List TxOut) (p : Bytes → Bool) : ℕ :=
  ((outputs.filter fun o => p o.script).map fun o => o.value.getD 0).sum

lemma paidTo_cons (o : TxOut) (outputs : List TxOut) (p : Bytes → Bool) :
    paidTo (o :: outputs) p = (if p o.script then o.value.getD 0 else 0) + paidTo outputs p := by
  unfold paidTo
  rw [filter_cons]
  split <;> simp

/-- The HTLCs that have an output of their own, by script and value, and those that have none; each
output pays at most one. -/
def matchOutputs : List (Htlc × Bytes) → List TxOut → List Htlc × List Htlc
  | [], _ => ([], [])
  | (h, script) :: htlcs, outputs =>
    let mine := fun o : TxOut => o.script = script && o.value = some (h.amountMsat / 1000)
    if outputs.any mine then
      let r := matchOutputs htlcs (outputs.eraseP mine)
      (h :: r.1, r.2)
    else
      let r := matchOutputs htlcs outputs
      (r.1, h :: r.2)

/-- The whole atoms of HTLCs. -/
def htlcAtoms (htlcs : List Htlc) : ℕ := (htlcs.map fun h => h.amountMsat / 1000).sum

/-- Those of the HTLCs that we offered. -/
def offeredSum (htlcs : List Htlc) : ℕ := htlcAtoms (htlcs.filter (·.side = 0))

lemma offeredSum_cons (h : Htlc) (htlcs : List Htlc) :
    offeredSum (h :: htlcs) = (if h.side = 0 then h.amountMsat / 1000 else 0) + offeredSum htlcs := by
  unfold offeredSum
  rw [filter_cons]
  split <;> simp_all [htlcAtoms]

lemma offeredAtoms_le_offeredSum (htlcs : List Htlc) :
    offeredAtoms (Device.offeredOf htlcs) ≤ offeredSum htlcs := by
  refine (satSum_le_sum _).trans_eq ?_
  rw [Device.offeredOf, map_map]
  rfl

/-- Every HTLC has an output or has none. -/
theorem offeredSum_matchOutputs (htlcs : List (Htlc × Bytes)) (outputs : List TxOut) :
    offeredSum (htlcs.map Prod.fst) =
      offeredSum (matchOutputs htlcs outputs).1 + offeredSum (matchOutputs htlcs outputs).2 := by
  induction htlcs generalizing outputs with
  | nil => rfl
  | cons p htlcs ih =>
    obtain ⟨h, script⟩ := p
    unfold matchOutputs
    dsimp only
    split
    · rw [map_cons, offeredSum_cons, offeredSum_cons, ih, Nat.add_assoc]
    · rw [map_cons, offeredSum_cons, offeredSum_cons, ih, Nat.add_left_comm]

lemma offeredSum_le (htlcs : List Htlc) : offeredSum htlcs ≤ htlcAtoms htlcs :=
  List.Sublist.sum_le_sum (filter_sublist.map _) fun _ _ => Nat.zero_le _

/-- What the device takes for trimmed are the HTLCs without an output. -/
theorem trimmedAtoms_eq (htlcs : List (Htlc × Bytes)) (outputs : List TxOut) {trimmed : ℕ}
    (h : trimmed ≤ u64Max) :
    trimmedAtoms htlcs outputs trimmed =
      min (trimmed + htlcAtoms (matchOutputs htlcs outputs).2) u64Max := by
  induction htlcs generalizing outputs trimmed with
  | nil => simp [trimmedAtoms, matchOutputs, htlcAtoms, h]
  | cons p htlcs ih =>
    obtain ⟨htlc, script⟩ := p
    unfold trimmedAtoms matchOutputs
    dsimp only
    split
    · exact ih _ h
    · rw [ih _ (satAdd_le _ _), satAdd]
      simp only [htlcAtoms, map_cons, sum_cons]
      omega

/-- The loop over the outputs counts what they pay, or less where a sum saturates. -/
theorem tallyOutputs_le {w : Whitelist} {outputs : List (TxOut × ℕ)} {t t' : Tally}
    (h : tallyOutputs w outputs t = .ok t') :
    t'.notFee = t.notFee + paidTo (outputs.map Prod.fst) (· ≠ []) ∧
      t'.ours ≤ t.ours + paidTo (outputs.map Prod.fst) (· = w.ours) ∧
      t'.anchors ≤ t.anchors +
        paidTo (outputs.map Prod.fst) (fun s => s ≠ w.ours && w.anchors.contains s) := by
  induction outputs generalizing t with
  | nil =>
    cases h
    exact ⟨rfl, Nat.le_add_right _ _, Nat.le_add_right _ _⟩
  | cons p outputs ih =>
    obtain ⟨o, i⟩ := p
    obtain ⟨t₁, hone, h⟩ := bind_eq_ok.1 h
    obtain ⟨hnot, hours, hanchors⟩ := ih h
    have hstep : t₁.notFee = t.notFee + (if o.script ≠ [] then o.value.getD 0 else 0) ∧
        t₁.ours ≤ t.ours + (if o.script = w.ours then o.value.getD 0 else 0) ∧
        t₁.anchors ≤ t.anchors +
          (if o.script ≠ w.ours ∧ o.script ∈ w.anchors then o.value.getD 0 else 0) := by
      unfold tallyOutput at hone
      split at hone
      · cases hone
      · next v hv =>
        have hadd := fun a => satAdd_le_add a v
        dsimp only at hone
        split_ifs at hone <;> cases hone <;> simp_all
    simp only [map_cons, paidTo_cons, decide_eq_true_eq, Bool.and_eq_true, contains_iff_mem]
    omega

namespace Device

/-- What a commitment leaves this side: its main output, the fee and the anchors where it opened the
channel, and the outputs of the HTLCs it offered. -/
def leaves (w : Whitelist) (st : ChannelState) (htlcs : List Htlc) (tx : Tx) : ℕ :=
  paidTo tx.outputs (· = w.ours) +
    (if st.isOutbound = some true then
      st.fundingSats - paidTo tx.outputs (· ≠ []) +
        paidTo tx.outputs (fun s => s ≠ w.ours && w.anchors.contains s)
    else 0) +
    offeredSum (matchOutputs (htlcs.zip w.htlcs) tx.outputs).1

/-- Where this side did not open the channel, every HTLC that is listed as offered by it has an
output. -/
def OfferedPaid (w : Whitelist) (st : ChannelState) (htlcs : List Htlc) (tx : Tx) : Prop :=
  st.isOutbound ≠ some true → ∀ h ∈ (matchOutputs (htlcs.zip w.htlcs) tx.outputs).2, h.side ≠ 0

instance (w : Whitelist) (st : ChannelState) (htlcs : List Htlc) (tx : Tx) :
    Decidable (OfferedPaid w st htlcs tx) := inferInstanceAs (Decidable (_ → _))

/-- The device counts no more than a commitment leaves. -/
theorem commitmentValue_le {w : Whitelist} {st : ChannelState} {htlcs : List Htlc} {tx : Tx}
    {t : Tally} (htally : tallyOutputs w tx.outputs.zipIdx ⟨0, 0, 0, 0, 0⟩ = .ok t)
    (hscripts : htlcs.length ≤ w.htlcs.length) (hpaid : OfferedPaid w st htlcs tx) (theirs : ℕ) :
    commitmentValue st htlcs ⟨⟨t.ours, st.fundingSats - t.notFee, t.anchors⟩, theirs,
      trimmedAtoms (htlcs.zip w.htlcs) tx.outputs 0⟩ ≤ leaves w st htlcs tx := by
  obtain ⟨hnot, hours, hanchors⟩ := tallyOutputs_le htally
  rw [zipIdx_map_fst] at hnot hours hanchors
  have hall := offeredSum_matchOutputs (htlcs.zip w.htlcs) tx.outputs
  rw [map_fst_zip hscripts] at hall
  have hoffered := offeredAtoms_le_offeredSum htlcs
  have hsum := satAdd_le_add
    (Split.share ⟨t.ours, st.fundingSats - t.notFee, t.anchors⟩ st.isOutbound)
    (offeredAtoms (offeredOf htlcs))
  have hmax := satAdd_le
    (Split.share ⟨t.ours, st.fundingSats - t.notFee, t.anchors⟩ st.isOutbound)
    (offeredAtoms (offeredOf htlcs))
  unfold commitmentValue leaves
  rw [trimmedAtoms_eq _ _ (Nat.zero_le _)]
  dsimp only at hnot hours hanchors ⊢
  by_cases hopen : st.isOutbound = some true
  · -- the trimmed ones are in the fee, and are taken off
    have htrimmed := offeredSum_le (matchOutputs (htlcs.zip w.htlcs) tx.outputs).2
    have hfee := satAdd_le_add t.ours (st.fundingSats - t.notFee)
    have hanchor := satAdd_le_add (satAdd t.ours (st.fundingSats - t.notFee)) t.anchors
    simp only [Split.share, hopen, if_true] at hsum hmax ⊢
    omega
  · have hnone : offeredSum (matchOutputs (htlcs.zip w.htlcs) tx.outputs).2 = 0 := by
      have hfilter : (matchOutputs (htlcs.zip w.htlcs) tx.outputs).2.filter (·.side = 0) = [] := by
        simpa using hpaid hopen
      rw [offeredSum, hfilter]
      rfl
    simp only [Split.share, hopen, if_false] at hsum ⊢
    omega

/-- What a commitment that passes was held to. -/
theorem validateCommitment_ok {k : Kernel} {key : ChannelKey} {st : ChannelState} {side : Side}
    {point : Key} {htlcs : List Htlc} {tx : Tx} {v : Validated} {scripts : List Bytes}
    (h : validateCommitment k key st side point htlcs tx = .ok v)
    (hscripts : k.expectedScripts key st side point htlcs tx = some scripts) :
    ∃ t, tallyOutputs (whitelistOf st side scripts) tx.outputs.zipIdx ⟨0, 0, 0, 0, 0⟩ = .ok t ∧
      v = ⟨⟨t.ours, st.fundingSats - t.notFee, t.anchors⟩, t.theirs,
        trimmedAtoms (htlcs.zip (whitelistOf st side scripts).htlcs) tx.outputs 0⟩ := by
  obtain ⟨scripts', hscripts', h⟩ := bind_eq_ok.1 h
  cases Option.some.inj (hscripts.symm.trans (fromOption_eq_ok.1 hscripts'))
  obtain ⟨_, -, h⟩ := bind_eq_ok.1 h
  obtain ⟨_, -, h⟩ := bind_eq_ok.1 h
  obtain ⟨_, -, h⟩ := bind_eq_ok.1 h
  obtain ⟨t, ht, h⟩ := bind_eq_ok.1 h
  obtain ⟨_, -, h⟩ := bind_eq_ok.1 h
  obtain ⟨_, -, h⟩ := bind_eq_ok.1 h
  exact ⟨t, ht, (Except.ok.inj h).symm⟩

/-! ### Requests -/

/-- A commitment of the peer's that the device signs, on a channel with one signed and tracked
before, leaves this side what that one left, less the HTLCs it no longer carries and less what
rounding may move, where its number is not older, the record loses no HTLC that both carry, and, on a
channel of the peer's, every HTLC that it lists as offered by this side has an output.
For any record and list of HTLCs where the first two do not hold, the check lets a value pass that is
short. -/
theorem remote_commitment_keeps_value (k : Kernel) :
    (∀ (s s' : Device) (req : RemoteCommitment) (st : ChannelState) (t : SideTrack)
      (scripts : List Bytes), s.signRemoteCommitmentTx k req = .ok s' →
      s.store.get req.key = some st → st.pay.side false = some t →
      k.expectedScripts req.key st .REMOTE req.remotePerCommit req.htlcs req.bt.tx = some scripts →
      req.htlcs.length ≤ (whitelistOf st .REMOTE scripts).htlcs.length → t.n ≤ req.commitNum →
      KeepsShared t (offeredOf req.htlcs) →
      OfferedPaid (whitelistOf st .REMOTE scripts) st req.htlcs req.bt.tx →
      t.value ≤ leaves (whitelistOf st .REMOTE scripts) st req.htlcs req.bt.tx +
        slack t (offeredOf req.htlcs) req.htlcs.length) ∧
    (∀ (p : PayTrack) (t : SideTrack) (n : ℕ) (offered : List Offered) (listed : ℕ),
      p.side false = some t →
      ((∀ asset value,
          checkBalance (p.plan false n asset value offered listed).balance = .ok () →
          t.value ≤ value + slack t offered listed) ↔
        (t.value ≤ slack t offered listed ∨ (t.n ≤ n ∧ KeepsShared t offered)))) := by
  constructor
  · intro s s' req st t scripts hsign hst ht hscripts hlen hn hshared hpaid
    obtain ⟨v, plan, hplan, hcheck, -⟩ := signRemoteCommitmentTx_ok hsign
    obtain ⟨st', asset, hst', hv, -, rfl⟩ := planRemoteCommitment_ok hplan
    obtain rfl : st' = st := Option.some.inj (hst'.symm.trans hst)
    obtain ⟨st'', hst'', hv⟩ := bind_eq_ok.1 hv
    obtain rfl : st'' = st' := Option.some.inj ((fromOption_eq_ok.1 hst'').symm.trans hst)
    obtain ⟨_, -, hv⟩ := bind_eq_ok.1 hv
    obtain ⟨tally, htally, rfl⟩ := validateCommitment_ok hv hscripts
    obtain ⟨_, hbalance, -⟩ := bind_eq_ok.1 hcheck
    have hvalue := (balance_kept_iff ht req.commitNum (offeredOf req.htlcs) req.htlcs.length).2
      (.inr ⟨hn, hshared⟩) asset _ hbalance
    have hle := commitmentValue_le htally hlen hpaid tally.theirs
    omega
  · intro p t n offered listed ht
    exact balance_kept_iff ht n offered listed

end Device

namespace Example

/-- The peer's commitment `n` that pays us `ours` and has the HTLCs, of which some have outputs. -/
def remoteOf (n ours : ℕ) (htlcs outs : List Htlc) : Device.RemoteCommitment :=
  let htlcOut := fun h : Htlc => (⟨none, some (h.amountMsat / 1000), 3 :: h.paymentHash.bytes⟩ : TxOut)
  { remote n ours htlcs with
    bt := ⟨{ commitment n ours with outputs := ⟨none, some ours, [1]⟩ :: outs.map htlcOut },
      bytes 32 n.toUInt8, [some 0], none⟩ }

/-- The peer's commitment 5 leaves us the whole channel of 1000: 850, and two HTLCs that we offer. -/
def fifth : Device :=
  (device none).run kernel [.setupChannel channel (setup 1000), .preapprove (bytes 32 9) none none,
    .signRemoteCommitmentTx (remoteOf 5 850 [offer 100000 7, offer 50000 8]
      [offer 100000 7, offer 50000 8])]

/-- What the device tracks of it. -/
def fifthTrack : SideTrack :=
  ⟨5, 1000, keptOffered [⟨100000, bytes 32 7, 500⟩, ⟨50000, bytes 32 8, 500⟩], 0⟩

/-- The channel's record after it. -/
def fifthRecord : ChannelState :=
  { (setup 1000).fresh with
    pay := ⟨some .btc, none, some fifthTrack, 0⟩
    remoteSplit := some (5, ⟨850, 0, 0⟩) }

/-- The scripts of a commitment of the peer's. -/
def remoteScripts (htlcs : List Htlc) : Whitelist :=
  whitelistOf fifthRecord .REMOTE (scripts .REMOTE htlcs)

/-- Commitment 6 keeps one of the HTLCs; the other one goes, and six atoms with it. -/
theorem remote_commitment_keeps_value_sixth :
    (fifth.signRemoteCommitmentTx kernel.toKernel
        (remoteOf 6 844 [offer 100000 7] [offer 100000 7])).isOk = true ∧
      fifth.store.get channel = some fifthRecord ∧
      1000 ≤ Device.leaves (remoteScripts [offer 100000 7]) fifthRecord [offer 100000 7]
          (remoteOf 6 844 [offer 100000 7] [offer 100000 7]).bt.tx +
        slack fifthTrack (Device.offeredOf [offer 100000 7]) 1 := by
  have hrecord : fifth.store.get channel = some fifthRecord := by decide +kernel
  have hsigned : (fifth.signRemoteCommitmentTx kernel.toKernel
      (remoteOf 6 844 [offer 100000 7] [offer 100000 7])).isOk = true := by decide +kernel
  refine ⟨hsigned, hrecord, ?_⟩
  cases h : fifth.signRemoteCommitmentTx kernel.toKernel
      (remoteOf 6 844 [offer 100000 7] [offer 100000 7]) with
  | error why =>
    rw [h] at hsigned
    cases hsigned
  | ok s' =>
    exact (Device.remote_commitment_keeps_value _).1 _ s' _ fifthRecord fifthTrack _ h hrecord rfl rfl
      (by decide) (by decide) (by decide +kernel) (by decide +kernel)

/-- A commitment that names an older number is signed although it leaves us one atom of 1000; and so
is one that lists an HTLC of 999 atoms, which it does not pay. -/
theorem older_remote_commitment_is_short :
    fifth.store.get channel = some fifthRecord ∧
      (fifth.signRemoteCommitmentTx kernel.toKernel (remoteOf 3 1 [] [])).isOk = true ∧
      Device.leaves (remoteScripts []) fifthRecord [] (remoteOf 3 1 [] []).bt.tx +
        slack fifthTrack [] 0 < fifthTrack.value ∧
      (fifth.signRemoteCommitmentTx kernel.toKernel (remoteOf 6 1 [offer 999000 9] [])).isOk = true ∧
      Device.leaves (remoteScripts [offer 999000 9]) fifthRecord [offer 999000 9]
          (remoteOf 6 1 [offer 999000 9] []).bt.tx +
        slack fifthTrack (Device.offeredOf [offer 999000 9]) 1 < fifthTrack.value := by
  decide +kernel

end Example

end SeqLN.Signer
