import SeqLN.Channeld.CommitTx
import SeqLN.Tcov.Covenant
import SeqLN.Tcov.CreditClaim

/-!
# Commitments of covenant channels

`common/tcov_commit_tx.c`: the fee and trimming are those of a channel without anchors, the outputs are
taproot trees, and there is no second stage. `commitments_canonical`, of both kinds of commitment: no
value is lost, each HTLC has its output and the map names it exactly where the outputs do not exceed
the funding; and the order of the HTLCs does not show.
-/

namespace SeqLN.Tcov

open Bitcoin Channeld SeqLN.Sym List Option

/-- The map has the HTLC for its handle. Source: `struct tcov_htlc_out` -/
structure TcovHtlcOut where
  owner : Side
  amount : ℕ
  paymentRipemd : ByteString 20
  lockPoint : Option (ByteString 33)
  cltvExpiry : UInt32
  handle : ℕ
  deriving DecidableEq

/-- How it opens. -/
def TcovHtlcOut.lock (h : TcovHtlcOut) : Lock :=
  match h.lockPoint with
  | some lockPoint => .point lockPoint
  | none => .hash h.paymentRipemd

/-- Source: `struct tcov_credit` -/
structure TcovCredit where
  provider : Side
  window : UInt16
  params : CreditParams

/-- The arguments of `tcov_commit_tx` beside the HTLCs; `initial` if an error is to be returned. -/
structure TcovArgs where
  funding : Outpoint
  fundingSats : ℕ
  channelAsset : Option AssetId
  localFundingKey : ByteString 33
  remoteFundingKey : ByteString 33
  opener : Side
  toSelfDelay : UInt16
  keyset : Keyset
  perCommitmentPoint : ByteString 33
  feeratePerKw : ℕ
  dustLimit : ℕ
  selfPay : ℕ
  otherPay : ℕ
  obscuredCommitmentNumber : ℕ
  side : Side
  credit : Option TcovCredit
  initial : Bool

/-- The tag of an explicit asset. -/
def explicitTag (asset : AssetId) : ByteString 33 := ⟨0x01 :: asset.bytes, by simp⟩

section commit

variable (K : Crypto) (cp : ChainParams) (su : ChannelSetup) (feeAsset : AssetId) (q : TcovArgs)

/-- The HTLCs that have an output. -/
def tcovUntrimmed (htlcs : List TcovHtlcOut) : List TcovHtlcOut :=
  htlcs.filter fun h =>
    !htlcIsTrimmed cp su.tcov h.owner h.amount q.feeratePerKw q.dustLimit q.side

/-- The tree of an HTLC's output. -/
def tcovHtlcTree (h : TcovHtlcOut) : Option TapTree2 :=
  let amt := UInt64.ofNat (satRoundDown h.amount)
  if h.owner = q.side then
    tcovOfferedHtlcTree K q.keyset q.perCommitmentPoint q.toSelfDelay (explicitTag feeAsset)
      (q.channelAsset.map explicitTag) h.lock h.cltvExpiry amt
  else
    tcovReceivedHtlcTree K q.keyset q.perCommitmentPoint q.toSelfDelay (explicitTag feeAsset)
      (q.channelAsset.map explicitTag) h.lock h.cltvExpiry amt

/-- The output of an HTLC. -/
def tcovHtlcDraft (h : TcovHtlcOut) : Option (Draft TcovHtlcOut) :=
  (tcovHtlcTree K feeAsset q h).map fun tree =>
    ⟨p2tr tree.program, none, satRoundDown h.amount, some h.cltvExpiry.toNat, .htlc h⟩

/-- The program of the holder's balance, which has the claim if the holder is the provider. -/
def tcovToLocalProgram (v : ℕ) : Option (ByteString 32) :=
  match q.credit with
  | some credit =>
    if q.side = credit.provider then
      (creditToLocalTree K q.keyset q.perCommitmentPoint q.toSelfDelay credit.params
        (UInt64.ofNat v)).map TapTree3.program
    else (tcovToLocalTree K q.keyset q.perCommitmentPoint q.toSelfDelay).map TapTree2.program
  | none => (tcovToLocalTree K q.keyset q.perCommitmentPoint q.toSelfDelay).map TapTree2.program

/-- The script of the other side's balance, which has the claim if that side is the provider. -/
def tcovToRemoteScript (v : ℕ) : Option Bytes :=
  match q.credit with
  | some credit =>
    if q.side ≠ credit.provider then
      (creditToRemoteTree K q.keyset.otherPaymentKey credit.window credit.params
        (UInt64.ofNat v)).map fun tree => p2tr tree.program
    else some (scriptpubkeyP2wpkh K q.keyset.otherPaymentKey)
  | none => some (scriptpubkeyP2wpkh K q.keyset.otherPaymentKey)

/-- The output of a balance, unless it is dust. -/
def balanceDraft (pay : ℕ) (script : ℕ → Option Bytes) (entry : Entry TcovHtlcOut) :
    Option (List (Draft TcovHtlcOut)) :=
  if amountMsatGreaterEqSat pay q.dustLimit then
    (script (satRoundDown pay)).map fun s => [⟨s, none, satRoundDown pay, none, entry⟩]
  else some []

/-- The outputs of the balances. -/
def tcovMainDrafts (selfPay otherPay : ℕ) : Option (List (Draft TcovHtlcOut)) := do
  let toLocal ← balanceDraft q selfPay (fun v => (tcovToLocalProgram K q v).map p2tr) .toLocal
  let toRemote ← balanceDraft q otherPay (tcovToRemoteScript K q) .toRemote
  return toLocal ++ toRemote

/-- The outputs in the order they are added. -/
def tcovDrafts (kept : List TcovHtlcOut) (selfPay otherPay : ℕ) :
    Option (List (Draft TcovHtlcOut)) := do
  let offered ← (kept.filter fun h => h.owner = q.side).mapM (tcovHtlcDraft K feeAsset q)
  let received ← (kept.filter fun h => h.owner ≠ q.side).mapM (tcovHtlcDraft K feeAsset q)
  let main ← tcovMainDrafts K q selfPay otherPay
  return offered ++ received ++ main

/-- Whether the opener could pay the fee, and the balances after it has paid that or all it has. -/
def tcovPayAfterFee (untrimmed : ℕ) : Option (Bool × ℕ × ℕ) := do
  let totalPay ← amountAdd q.selfPay q.otherPay
  guard (!amountMsatGreaterSat totalPay q.fundingSats)
  return trySubtractBaseFee q.opener q.side (commitTxBaseFee cp su.tcov q.feeratePerKw untrimmed)
    q.selfPay q.otherPay

/-- Source: `tcov_commit_tx` -/
def tcovCommitTx (unset : ℕ → ℕ) (htlcs : List TcovHtlcOut) :
    Option (Except String (Commitment TcovHtlcOut)) := do
  let kept := tcovUntrimmed cp su q htlcs
  let (paid, selfPay, otherPay) ← tcovPayAfterFee cp su q kept.length
  if !paid && q.initial then
    return .error "Funder cannot afford fee on initial commitment transaction"
  let drafts ← tcovDrafts K feeAsset q kept selfPay otherPay
  let r ← finishCommitment ⟨cp.isElements, feeAsset⟩ q.channelAsset unset q.funding q.fundingSats
    (bitcoinRedeem2of2 q.localFundingKey q.remoteFundingKey) q.obscuredCommitmentNumber drafts
  return .ok r

end commit

/-! ### The drafts -/

/-- Where a function gives a value for each element, `mapM` has these. -/
theorem mapM_eq_some_iff_filterMap {α β : Type} {f : α → Option β} {l : List α} {m : List β} :
    l.mapM f = some m ↔ (∀ x ∈ l, (f x).isSome = true) ∧ m = l.filterMap f := by
  induction l generalizing m with
  | nil =>
    simp only [mapM_nil, Option.pure_def, Option.some.injEq, not_mem_nil, false_implies,
      implies_true, filterMap_nil, true_and]
    exact eq_comm
  | cons a l ih =>
    rw [mapM_cons]
    cases hf : f a with
    | none => simp [hf]
    | some b =>
      cases hl : l.mapM f with
      | none =>
        have hnot : ¬ ∀ x ∈ l, (f x).isSome = true := fun hall => by
          have hsome := (ih (m := l.filterMap f)).2 ⟨hall, rfl⟩
          rw [hl] at hsome
          cases hsome
        simp only [bind_eq_bind, bind_some, bind_none, reduceCtorEq, false_iff]
        exact fun hall => hnot fun x hx => hall.1 x (mem_cons_of_mem a hx)
      | some m' =>
        obtain ⟨hall, rfl⟩ := ih.1 hl
        simp only [bind_eq_bind, bind_some, Option.pure_def, Option.some.injEq,
          filterMap_cons_some hf, forall_mem_cons, hf, isSome_some, true_and]
        exact ⟨fun h => ⟨hall, h.symm⟩, fun h => h.2.symm⟩

section drafts

variable {K : Crypto} {cp : ChainParams} {su : ChannelSetup} {feeAsset : AssetId} {q : TcovArgs}
variable {kept kept' : List TcovHtlcOut} {selfPay otherPay : ℕ} {drafts : List (Draft TcovHtlcOut)}

lemma balanceDraft_ok {pay : ℕ} {script : ℕ → Option Bytes} {entry : Entry TcovHtlcOut}
    {l : List (Draft TcovHtlcOut)} (hentry : entry.htlc? = none)
    (hscript : ∀ v s, script v = some s → s ≠ []) (h : balanceDraft q pay script entry = some l) :
    (∀ d ∈ l, d.entry.htlc? = none ∧ d.script ≠ []) ∧ draftTotal l = keptSats q.dustLimit pay := by
  unfold balanceDraft at h
  unfold keptSats
  split at h
  · next hge =>
    obtain ⟨s, hs, rfl⟩ := map_eq_some_iff.1 h
    rw [if_pos hge]
    refine ⟨fun d hd => ?_, rfl⟩
    rw [mem_singleton.1 hd]
    exact ⟨hentry, hscript _ s hs⟩
  · next hge =>
    cases h
    rw [if_neg hge]
    exact ⟨fun d hd => (not_mem_nil hd).elim, rfl⟩

lemma tcovToRemoteScript_ne_nil {v : ℕ} {s : Bytes} (h : tcovToRemoteScript K q v = some s) :
    s ≠ [] := by
  unfold tcovToRemoteScript at h
  split at h
  · split at h
    · obtain ⟨_, -, rfl⟩ := map_eq_some_iff.1 h
      exact cons_ne_nil _ _
    · cases h
      exact cons_ne_nil _ _
  · cases h
    exact cons_ne_nil _ _

/-- The main outputs, and what they have together. -/
theorem tcovMainDrafts_ok {main : List (Draft TcovHtlcOut)}
    (h : tcovMainDrafts K q selfPay otherPay = some main) :
    (∀ d ∈ main, d.entry.htlc? = none ∧ d.script ≠ []) ∧
      draftTotal main = keptSats q.dustLimit selfPay + keptSats q.dustLimit otherPay := by
  obtain ⟨toLocal, hlocal, h⟩ := bind_eq_some_iff.1 h
  obtain ⟨toRemote, hremote, h⟩ := bind_eq_some_iff.1 h
  cases h
  have hp2tr : ∀ v s, (tcovToLocalProgram K q v).map p2tr = some s → s ≠ [] := by
    intro v s hs
    obtain ⟨_, -, rfl⟩ := map_eq_some_iff.1 hs
    exact cons_ne_nil _ _
  obtain ⟨hl, htotalL⟩ := balanceDraft_ok rfl hp2tr hlocal
  obtain ⟨hr, htotalR⟩ := balanceDraft_ok rfl (fun _ _ => tcovToRemoteScript_ne_nil) hremote
  refine ⟨fun d hd => ?_, by rw [draftTotal_append, htotalL, htotalR]⟩
  obtain hd | hd := mem_append.1 hd
  · exact hl d hd
  · exact hr d hd

lemma tcovHtlcDraft_eq_some {h : TcovHtlcOut} {d : Draft TcovHtlcOut}
    (hd : tcovHtlcDraft K feeAsset q h = some d) :
    d.entry = .htlc h ∧ d.script ≠ [] ∧ d.amount = satRoundDown h.amount := by
  obtain ⟨_, -, rfl⟩ := map_eq_some_iff.1 hd
  exact ⟨rfl, cons_ne_nil _ _, rfl⟩

/-- The drafts: those of the HTLCs that are not trimmed, and the main ones. -/
theorem tcovDrafts_ok (h : tcovDrafts K feeAsset q kept selfPay otherPay = some drafts) :
    ∃ main, tcovMainDrafts K q selfPay otherPay = some main ∧
      DraftsOf (tcovHtlcDraft K feeAsset q) kept main drafts ∧ ∀ d ∈ drafts, d.script ≠ [] := by
  obtain ⟨offered, hoffered, h⟩ := bind_eq_some_iff.1 h
  obtain ⟨received, hreceived, h⟩ := bind_eq_some_iff.1 h
  obtain ⟨main, hmain, h⟩ := bind_eq_some_iff.1 h
  cases h
  obtain ⟨hall, rfl⟩ := mapM_eq_some_iff_filterMap.1 hoffered
  obtain ⟨hall', rfl⟩ := mapM_eq_some_iff_filterMap.1 hreceived
  have hmem := (tcovMainDrafts_ok hmain).1
  have hof : DraftsOf (tcovHtlcDraft K feeAsset q) kept main
      ((kept.filter fun h => h.owner = q.side).filterMap (tcovHtlcDraft K feeAsset q) ++
        (kept.filter fun h => h.owner ≠ q.side).filterMap (tcovHtlcDraft K feeAsset q) ++ main) := by
    refine ⟨List.Perm.append_right main ?_, fun x hx => ?_, fun d hd => (hmem d hd).1⟩
    · have hsplit := filter_append_perm (fun h : TcovHtlcOut => decide (h.owner = q.side)) kept
      rw [← filterMap_append]
      simpa only [decide_not] using hsplit.filterMap (tcovHtlcDraft K feeAsset q)
    · have hsome : (tcovHtlcDraft K feeAsset q x).isSome = true := by
        by_cases ho : x.owner = q.side
        · exact hall x (mem_filter.2 ⟨hx, decide_eq_true ho⟩)
        · exact hall' x (mem_filter.2 ⟨hx, decide_eq_true ho⟩)
      obtain ⟨d, hd⟩ := isSome_iff_exists.1 hsome
      exact ⟨d, hd, (tcovHtlcDraft_eq_some hd).1⟩
  refine ⟨main, hmain, hof, fun d hd => ?_⟩
  obtain ⟨x, -, hx, -⟩ | ⟨hd, -⟩ := hof.mem hd
  · exact (tcovHtlcDraft_eq_some hx).2.1
  · exact (hmem d hd).2

/-- The order of the HTLCs shows in the order of the drafts only. -/
lemma tcovDrafts_perm (hperm : kept ~ kept')
    (h : tcovDrafts K feeAsset q kept selfPay otherPay = some drafts) :
    ∃ drafts', tcovDrafts K feeAsset q kept' selfPay otherPay = some drafts' ∧ drafts ~ drafts' := by
  obtain ⟨offered, hoffered, h⟩ := bind_eq_some_iff.1 h
  obtain ⟨received, hreceived, h⟩ := bind_eq_some_iff.1 h
  obtain ⟨main, hmain, h⟩ := bind_eq_some_iff.1 h
  cases h
  obtain ⟨hall, rfl⟩ := mapM_eq_some_iff_filterMap.1 hoffered
  obtain ⟨hall', rfl⟩ := mapM_eq_some_iff_filterMap.1 hreceived
  have hmapM : ∀ s : TcovHtlcOut → Bool,
      (∀ x ∈ kept.filter s, (tcovHtlcDraft K feeAsset q x).isSome = true) →
      (kept'.filter s).mapM (tcovHtlcDraft K feeAsset q) =
        some ((kept'.filter s).filterMap (tcovHtlcDraft K feeAsset q)) := fun s hs =>
    mapM_eq_some_iff_filterMap.2 ⟨fun x hx => hs x ((hperm.filter s).symm.subset hx), rfl⟩
  refine ⟨_, ?_, (((hperm.filter _).filterMap _).append ((hperm.filter _).filterMap _)).append_right
    main⟩
  rw [tcovDrafts, hmapM _ hall, hmapM _ hall', hmain]
  rfl

/-! ### Both kinds of commitment -/

variable {unset : ℕ → ℕ} {htlcs htlcs' : List TcovHtlcOut} {r : Commitment TcovHtlcOut}

/-- The stages of a commitment that is built. -/
lemma tcovCommitTx_ok (h : tcovCommitTx K cp su feeAsset q unset htlcs = some (.ok r)) :
    ∃ paid selfPay otherPay drafts,
      tcovPayAfterFee cp su q (tcovUntrimmed cp su q htlcs).length = some (paid, selfPay, otherPay) ∧
      (!paid && q.initial) = false ∧
      tcovDrafts K feeAsset q (tcovUntrimmed cp su q htlcs) selfPay otherPay = some drafts ∧
      finishCommitment ⟨cp.isElements, feeAsset⟩ q.channelAsset unset q.funding q.fundingSats
        (bitcoinRedeem2of2 q.localFundingKey q.remoteFundingKey) q.obscuredCommitmentNumber drafts =
        some r := by
  obtain ⟨⟨paid, selfPay, otherPay⟩, hpay, hrest⟩ := bind_eq_some_iff.1 h
  simp only at hrest
  split at hrest
  · cases hrest
  · next hinitial =>
    obtain ⟨drafts, hdrafts, hlast⟩ := bind_eq_some_iff.1 hrest
    obtain ⟨r', hfinish, hr⟩ := bind_eq_some_iff.1 hlast
    cases hr
    exact ⟨paid, selfPay, otherPay, drafts, hpay, Bool.eq_false_iff.2 hinitial, hdrafts, hfinish⟩

/-- The order of the HTLCs does not show in the transaction. -/
lemma tcovCommitTx_perm (hperm : htlcs ~ htlcs') (unset' : ℕ → ℕ)
    (h : tcovCommitTx K cp su feeAsset q unset htlcs = some (.ok r)) :
    ∃ r', tcovCommitTx K cp su feeAsset q unset' htlcs' = some (.ok r') ∧ r'.tx = r.tx := by
  obtain ⟨paid, selfPay, otherPay, drafts, hpay, hinitial, hdrafts, hfinish⟩ := tcovCommitTx_ok h
  have hkept : tcovUntrimmed cp su q htlcs ~ tcovUntrimmed cp su q htlcs' := hperm.filter _
  obtain ⟨drafts', hdrafts', hdperm⟩ := tcovDrafts_perm hkept hdrafts
  obtain ⟨r', hfinish', htx, -⟩ := finishCommitment_perm unset' hdperm hfinish
  refine ⟨r', ?_, htx⟩
  rw [tcovCommitTx, ← hkept.length_eq, hpay]
  simp only [bind_eq_bind, bind_some, hinitial, Bool.false_eq_true, if_false, hdrafts',
    hfinish', Option.pure_def]

end drafts

/-- Commitments are sound exactly if their HTLCs, their balances after the opener has paid and their
anchors do not exceed the funding, and do not depend on the order of the HTLCs. -/
theorem commitments_canonical (K : CommitCrypto) (cp : ChainParams) (su : ChannelSetup)
    (feeAsset : AssetId) :
    (∀ (p : CommitArgs) (unset : ℕ → ℕ) (htlcs : List Htlc) (r : Commitment Htlc),
      commitTx K cp su p feeAsset unset htlcs = some r →
      let ch : Chain := ⟨cp.isElements, feeAsset⟩
      let asset := commitAsset ch p.channelAsset
      let untrimmed := untrimmedHtlcs cp su p htlcs
      let n := numUntrimmed cp su p htlcs
      (∃ selfPay otherPay main, payAfterFee cp su p n = some (selfPay, otherPay) ∧
        mainDrafts K su p selfPay otherPay n = some main ∧
        (SoundCommitment ch asset p.fundingSats p.obscuredCommitmentNumber untrimmed
            (fun x => some (htlcOut K su p asset x)) (main.map (Draft.out asset)) r ↔
          (untrimmed.map fun x => satRoundDown x.amount).sum +
            (keptSats p.dustLimit selfPay + keptSats p.dustLimit otherPay +
              (anchorSats su p selfPay n + anchorSats su p otherPay n)) ≤ p.fundingSats)) ∧
      ∀ (htlcs' : List Htlc) (unset' : ℕ → ℕ), htlcs ~ htlcs' →
        ∃ r', commitTx K cp su p feeAsset unset' htlcs' = some r' ∧ r'.tx = r.tx ∧
          ((∀ drafts, commitDrafts K cp su p htlcs = some drafts → ScriptsDistinct K drafts) →
            ∀ txid, addHtlcs K cp su p feeAsset txid r' = addHtlcs K cp su p feeAsset txid r)) ∧
    ∀ (q : TcovArgs) (unset : ℕ → ℕ) (htlcs : List TcovHtlcOut) (r : Commitment TcovHtlcOut),
      tcovCommitTx K.toCrypto cp su feeAsset q unset htlcs = some (.ok r) →
      let ch : Chain := ⟨cp.isElements, feeAsset⟩
      let asset := commitAsset ch q.channelAsset
      let untrimmed := tcovUntrimmed cp su q htlcs
      (∃ paid selfPay otherPay main,
        tcovPayAfterFee cp su q untrimmed.length = some (paid, selfPay, otherPay) ∧
        tcovMainDrafts K.toCrypto q selfPay otherPay = some main ∧
        (SoundCommitment ch asset q.fundingSats q.obscuredCommitmentNumber untrimmed
            (fun x => (tcovHtlcDraft K.toCrypto feeAsset q x).map (Draft.out asset))
            (main.map (Draft.out asset)) r ↔
          (untrimmed.map fun x => satRoundDown x.amount).sum +
            (keptSats q.dustLimit selfPay + keptSats q.dustLimit otherPay) ≤ q.fundingSats)) ∧
      ∀ (htlcs' : List TcovHtlcOut) (unset' : ℕ → ℕ), htlcs ~ htlcs' →
        ∃ r', tcovCommitTx K.toCrypto cp su feeAsset q unset' htlcs' = some (.ok r') ∧ r'.tx = r.tx := by
  refine ⟨fun p unset htlcs r h => ⟨?_, fun _ unset' hperm => commitTx_perm hperm unset' h⟩,
    fun q unset htlcs r h => ⟨?_, fun _ unset' hperm => tcovCommitTx_perm hperm unset' h⟩⟩
  · obtain ⟨drafts, hdrafts, hfinish⟩ := bind_eq_some_iff.1 h
    obtain ⟨selfPay, otherPay, main, hpay, hmain, hof⟩ := commitDrafts_ok hdrafts
    refine ⟨selfPay, otherPay, main, hpay, hmain, ?_⟩
    rw [← (mainDrafts_ok hmain).2, ← hof.total fun _ _ hd => some.inj hd ▸ rfl]
    exact hof.soundCommitment_iff (script_ne_nil hdrafts) hfinish
  · obtain ⟨paid, selfPay, otherPay, drafts, hpay, -, hdrafts, hfinish⟩ := tcovCommitTx_ok h
    obtain ⟨main, hmain, hof, hscripts⟩ := tcovDrafts_ok hdrafts
    refine ⟨paid, selfPay, otherPay, main, hpay, hmain, ?_⟩
    rw [← (tcovMainDrafts_ok hmain).2, ← hof.total fun _ _ hd => (tcovHtlcDraft_eq_some hd).2.2]
    exact hof.soundCommitment_iff hscripts hfinish

/-! ### A channel -/

namespace CommitExample

def crypto : CommitCrypto :=
  { OutputsExample.crypto with ripemd160 := ByteString.pad 20 }

def params : ChainParams where
  maxPayment := 4294967295
  isElements := true
  hasAnchorHeader := true
  marginalFeerate f := f

def setup : ChannelSetup where
  opener := .LOCAL
  fundingSats := 100000
  symLanes := []
  config _ := ⟨546, 100000000, 1000, 1, 483, 50000000⟩
  creditFloor := 0
  optionAnchorOutputs := false
  optionAnchorsZeroFeeHtlcTx := true
  optionWumbo := false
  lowestSpliceAmnt _ _ := 0

def feeAsset : AssetId := .replicate 32 1

def goldAsset : AssetId := .replicate 32 8

/-- Our commitment in a channel of an asset of its own, with balances in millisatoshis. -/
def args (selfPay otherPay : ℕ) : CommitArgs where
  funding := ⟨.replicate 32 5, 0⟩
  fundingSats := 100000
  localFundingKey := ⟨2 :: List.replicate 32 0x21, rfl⟩
  remoteFundingKey := ⟨2 :: List.replicate 32 0x22, rfl⟩
  opener := .LOCAL
  toSelfDelay := 144
  leaseExpiry := 0
  blockheight := 700
  keyset := OutputsExample.keyset
  feeratePerKw := 253
  dustLimit := 546
  selfPay
  otherPay
  obscuredCommitmentNumber := 0x2bb038521914
  side := .LOCAL
  channelAsset := some goldAsset

/-- A payment to us and one by us. -/
def received : Htlc :=
  ⟨.RCVD_ADD_ACK_REVOCATION, 0, 20000000, 800, .replicate 32 3, none, none, 0, false, false⟩

def offered : Htlc :=
  ⟨.SENT_ADD_ACK_REVOCATION, 0, 20000000, 810, .replicate 32 4, none, none, 0, false, false⟩

/-- A covenant channel's commitment. -/
def tcovArgs : TcovArgs where
  funding := ⟨.replicate 32 5, 0⟩
  fundingSats := 100000
  channelAsset := some goldAsset
  localFundingKey := ⟨2 :: List.replicate 32 0x21, rfl⟩
  remoteFundingKey := ⟨2 :: List.replicate 32 0x22, rfl⟩
  opener := .LOCAL
  toSelfDelay := 144
  keyset := OutputsExample.keyset
  perCommitmentPoint := OutputsExample.perCommitmentPoint
  feeratePerKw := 253
  dustLimit := 546
  selfPay := 60000000
  otherPay := 20000000
  obscuredCommitmentNumber := 0x2bb038521914
  side := .LOCAL
  credit := none
  initial := false

def tcovReceived : TcovHtlcOut := ⟨.REMOTE, 20000000, .replicate 20 3, none, 800, 0⟩

/-- Of the example with an HTLC each way, the outputs and the fee are the funding, whatever the order
of the HTLCs. -/
theorem commitments_canonical_each_way :
    (∃ r r', commitTx crypto params setup (args 40000000 20000000) feeAsset (fun _ => 0)
        [received, offered] = some r ∧
      commitTx crypto params setup (args 40000000 20000000) feeAsset (fun _ => 7)
        [offered, received] = some r' ∧
      r.tx.paid (some goldAsset) + r.tx.feeIn (some goldAsset) = 100000 ∧ r'.tx = r.tx ∧
      addHtlcs crypto params setup (args 40000000 20000000) feeAsset (fun _ => .replicate 32 6) r' =
        addHtlcs crypto params setup (args 40000000 20000000) feeAsset (fun _ => .replicate 32 6) r) ∧
    ∃ r, tcovCommitTx crypto.toCrypto params setup feeAsset tcovArgs (fun _ => 0) [tcovReceived] =
        some (.ok r) ∧
      r.tx.paid (some goldAsset) + r.tx.feeIn (some goldAsset) = 100000 := by
  obtain ⟨hcommit, htcov⟩ := commitments_canonical crypto params setup feeAsset
  constructor
  · have hsome : (commitTx crypto params setup (args 40000000 20000000) feeAsset (fun _ => 0)
        [received, offered]).isSome = true := by decide +kernel
    obtain ⟨r, hr⟩ := isSome_iff_exists.1 hsome
    obtain ⟨⟨selfPay, otherPay, main, hpay, -, hsound⟩, horder⟩ := hcommit _ _ _ r hr
    obtain ⟨r', hr', htx, hstage⟩ := horder _ (fun _ => 7) (.swap _ _ _)
    have hpaid : payAfterFee params setup (args 40000000 20000000)
        (numUntrimmed params setup (args 40000000 20000000) [received, offered]) =
          some (38708000, 20000000) := by decide +kernel
    rw [hpaid, Option.some.injEq, Prod.mk.injEq] at hpay
    obtain ⟨rfl, rfl⟩ := hpay
    have hconserves := (hsound.2 (by decide +kernel)).conserves
    have hdistinct : (commitDrafts crypto params setup (args 40000000 20000000)
        [received, offered]).all (fun drafts => decide ((drafts.filterMap Draft.wscript).Pairwise
          fun w w' => crypto.hash.sha256 w ≠ crypto.hash.sha256 w')) = true := by decide +kernel
    refine ⟨r, r', hr, hr', hconserves, htx, hstage (fun drafts hdrafts => ?_) _⟩
    rw [hdrafts, all_some, decide_eq_true_eq] at hdistinct
    exact scriptsDistinct_of_pairwise hdistinct
  · have hsome : ((tcovCommitTx crypto.toCrypto params setup feeAsset tcovArgs (fun _ => 0)
        [tcovReceived]).bind Except.toOption).isSome = true := by decide +kernel
    obtain ⟨r, hr⟩ := isSome_iff_exists.1 hsome
    obtain ⟨e, he, hok⟩ := bind_eq_some_iff.1 hr
    cases e with
    | error => cases hok
    | ok r =>
    obtain ⟨⟨paid, selfPay, otherPay, main, hpay, -, hsound⟩, -⟩ := htcov _ _ _ r he
    have hpaid : tcovPayAfterFee params setup tcovArgs
        (tcovUntrimmed params setup tcovArgs [tcovReceived]).length =
          some (true, 59618000, 20000000) := by decide +kernel
    rw [hpaid, Option.some.injEq, Prod.mk.injEq, Prod.mk.injEq] at hpay
    obtain ⟨rfl, rfl, rfl⟩ := hpay
    exact ⟨r, he, (hsound.2 (by decide +kernel)).conserves⟩

/-- The opener has less left than the anchors cost: all the funding goes to HTLCs and to the other
side, and the anchors come on top. -/
theorem anchors_exceed_funding :
    ∃ r, commitTx crypto params setup (args 500000 79500000) feeAsset (fun _ => 0) [received] = some r ∧
      (args 500000 79500000).fundingSats = 100000 ∧
      r.tx.paid (some goldAsset) + r.tx.feeIn (some goldAsset) = 100160 := by
  have hsum : (commitTx crypto params setup (args 500000 79500000) feeAsset (fun _ => 0)
      [received]).map (fun r => r.tx.paid (some goldAsset) + r.tx.feeIn (some goldAsset)) =
        some 100160 := by
    decide +kernel
  obtain ⟨r, hr, hr'⟩ := map_eq_some_iff.1 hsum
  exact ⟨r, hr, rfl, hr'⟩

end CommitExample

end SeqLN.Tcov
