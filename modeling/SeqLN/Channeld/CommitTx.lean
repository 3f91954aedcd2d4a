import SeqLN.Bitcoin.Commitment
import SeqLN.Channeld.AddHtlc
import SeqLN.Tcov.Scripts

/-!
# Building a commitment transaction

`channeld/commit_tx.c`, `commit_tx`: from one side's view, the outputs of the commitment it holds
(`commitDrafts`), and the transaction (`commitTx`); `channeld/full_channel.c`, `add_htlcs`: the
second-stage transactions of its HTLC outputs. `none` is an assertion that fails or an `abort`. The
txid is a parameter.
-/

namespace SeqLN.Channeld

open Bitcoin SeqLN.Sym SeqLN.Tcov List Option

/-- What the scripts are made with. -/
structure CommitCrypto extends Crypto where
  ripemd160 : Bytes → ByteString 20

/-! ### Witness scripts -/

/-- Source: `add_number` -/
def addNumber (num : ℕ) : Bytes :=
  if num = 0 then [0x00]
  else if num ≤ 16 then [UInt8.ofNat (0x50 + num)]
  else if num ≤ 0x7F then scriptPushBytes (leBytes 1 num)
  else if num ≤ 0x7FFF then scriptPushBytes (leBytes 2 num)
  else if num ≤ 0x7FFFFF then scriptPushBytes (leBytes 3 num)
  else if num ≤ 0x7FFFFFFF then scriptPushBytes (leBytes 4 num)
  else scriptPushBytes (leBytes 5 num)

section scripts

variable (K : CommitCrypto) (keyset : Keyset)

/-- Source: `scriptpubkey_p2wsh` -/
def scriptpubkeyP2wsh (witnessscript : Bytes) : Bytes :=
  0x00 :: scriptPushBytes (hash32 K.hash witnessscript).bytes

/-- Source: `to_self_wscript`, `bitcoin_wscript_to_local` -/
def toSelfWscript (toSelfDelay csv : ℕ) : Bytes :=
  [0x63] ++ scriptPushBytes keyset.selfRevocationKey.bytes ++ [0x67] ++
    addNumber (max csv toSelfDelay) ++ [0xb2, 0x75] ++
    scriptPushBytes keyset.selfDelayedPaymentKey.bytes ++ [0x68, 0xac]

/-- The script must not be longer than a lock of two bytes makes it.
Source: `bitcoin_wscript_to_remote_anchored` -/
def bitcoinWscriptToRemoteAnchored (remoteKey : ByteString 33) (csvLock : ℕ) : Option Bytes := do
  let script := scriptPushBytes remoteKey.bytes ++ [0xad] ++ addNumber csvLock ++ [0xb2]
  guard (script.length ≤ 39)
  return script

/-- Source: `bitcoin_wscript_anchor` -/
def bitcoinWscriptAnchor (fundingPubkey : ByteString 33) : Bytes :=
  scriptPushBytes fundingPubkey.bytes ++ [0xac, 0x73, 0x64] ++ addNumber 16 ++ [0xb2, 0x68]

/-- What both HTLC scripts begin with: the revocation key's hash, and the other side's key. -/
def htlcWscriptHead : Bytes :=
  [0x76, 0xa9] ++ scriptPushBytes (K.hash160 keyset.selfRevocationKey.bytes).bytes ++
    [0x87, 0x63, 0xac, 0x67] ++ scriptPushBytes keyset.otherHtlcKey.bytes ++ [0x7c, 0x82] ++
    addNumber 32 ++ [0x87]

/-- What both HTLC scripts end with. -/
def htlcWscriptTail (anchors : Bool) : Bytes :=
  (if anchors then addNumber 1 ++ [0xb2, 0x75] else []) ++ [0x68]

/-- Source: `htlc_offered_wscript`, `bitcoin_wscript_htlc_offer_ripemd160` -/
def htlcOfferedWscript (anchors : Bool) (paymentRipemd : ByteString 20) : Bytes :=
  htlcWscriptHead K keyset ++ ([0x64, 0x75] ++ addNumber 2 ++ [0x7c] ++
    scriptPushBytes keyset.selfHtlcKey.bytes ++ addNumber 2 ++ [0xae, 0x67, 0xa9] ++
    scriptPushBytes paymentRipemd.bytes ++ [0x88, 0xac, 0x68] ++ htlcWscriptTail anchors)

/-- Source: `htlc_received_wscript`, `bitcoin_wscript_htlc_receive_ripemd` -/
def htlcReceivedWscript (anchors : Bool) (paymentRipemd : ByteString 20) (locktime : ℕ) : Bytes :=
  htlcWscriptHead K keyset ++ ([0x63, 0xa9] ++ scriptPushBytes paymentRipemd.bytes ++ [0x88] ++
    addNumber 2 ++ [0x7c] ++ scriptPushBytes keyset.selfHtlcKey.bytes ++ addNumber 2 ++
    [0xae, 0x67, 0x75] ++ addNumber locktime ++ [0xb1, 0x75, 0xac, 0x68] ++ htlcWscriptTail anchors)

/-- Source: `bitcoin_wscript_htlc_tx` -/
def bitcoinWscriptHtlcTx (toSelfDelay : ℕ) : Bytes :=
  [0x63] ++ scriptPushBytes keyset.selfRevocationKey.bytes ++ [0x67] ++ addNumber toSelfDelay ++
    [0xb2, 0x75] ++ scriptPushBytes keyset.selfDelayedPaymentKey.bytes ++ [0x68, 0xac]

end scripts

/-! ### The commitment -/

/-- The arguments of `commit_tx` beside the HTLCs and the options of the channel. -/
structure CommitArgs where
  funding : Outpoint
  fundingSats : ℕ
  localFundingKey : ByteString 33
  remoteFundingKey : ByteString 33
  opener : Side
  toSelfDelay : ℕ
  leaseExpiry : ℕ
  blockheight : ℕ
  keyset : Keyset
  feeratePerKw : ℕ
  dustLimit : ℕ
  selfPay : ℕ
  otherPay : ℕ
  obscuredCommitmentNumber : ℕ
  side : Side
  channelAsset : Option AssetId

/-- Source: `amount_msat_greater_sat` -/
def amountMsatGreaterSat (msat sat : ℕ) : Bool := sat * 1000 < 2 ^ 64 && sat * 1000 < msat

/-- Source: `amount_msat_greater_eq_sat` -/
def amountMsatGreaterEqSat (msat sat : ℕ) : Bool := sat * 1000 < 2 ^ 64 && sat * 1000 ≤ msat

/-- The balances after the opener has paid a fee, or all it has, and whether it could. Source:
`try_subtract_fee` -/
def trySubtractBaseFee (opener side : Side) (baseFee self other : ℕ) : Bool × ℕ × ℕ :=
  if opener = side then
    match amountMsatSubSat self baseFee with
    | some self => (true, self, other)
    | none => (false, 0, other)
  else
    match amountMsatSubSat other baseFee with
    | some other => (true, self, other)
    | none => (false, self, 0)

section commit

variable (K : CommitCrypto) (cp : ChainParams) (su : ChannelSetup) (p : CommitArgs)

/-- Either of the options that put anchors into the commitment. -/
def hasAnchors : Bool := su.optionAnchorOutputs || su.optionAnchorsZeroFeeHtlcTx

/-- Source: `trim` -/
def trim (h : Htlc) : Bool := htlcIsTrimmed cp su h.owner h.amount p.feeratePerKw p.dustLimit p.side

/-- The witness script of an HTLC's output. -/
def htlcWscript (h : Htlc) : Bytes :=
  if h.owner = p.side then
    htlcOfferedWscript K p.keyset (hasAnchors su) (K.ripemd160 h.rhash.bytes)
  else htlcReceivedWscript K p.keyset (hasAnchors su) (K.ripemd160 h.rhash.bytes) h.expiry

/-- Source: `add_offered_htlc_out`, `add_received_htlc_out` -/
def htlcDraft (h : Htlc) : Draft Htlc where
  script := scriptpubkeyP2wsh K (htlcWscript K su p h)
  wscript := some (htlcWscript K su p h)
  amount := satRoundDown h.amount
  cltv := some h.expiry
  entry := .htlc h

/-- An output of a witness script that is no HTLC's. -/
def wscriptDraft (wscript : Bytes) (amount : ℕ) (entry : Entry Htlc) : Draft Htlc :=
  ⟨scriptpubkeyP2wsh K wscript, some wscript, amount, none, entry⟩

/-- The blocks that the lessor's balance is locked for. Source: `csv_lock` -/
def csvLock : ℕ := if p.blockheight < p.leaseExpiry then p.leaseExpiry - p.blockheight else 1

/-- The output of the holder's balance. -/
def toLocalDraft (selfPay : ℕ) : List (Draft Htlc) :=
  if amountMsatGreaterEqSat selfPay p.dustLimit then
    [wscriptDraft K (toSelfWscript p.keyset p.toSelfDelay
      (if p.side = p.opener.other then csvLock p else 0)) (satRoundDown selfPay) .toLocal]
  else []

/-- The output of the other side's balance. -/
def toRemoteDraft (otherPay : ℕ) : Option (List (Draft Htlc)) :=
  if amountMsatGreaterEqSat otherPay p.dustLimit then
    if hasAnchors su then do
      let redeem ← bitcoinWscriptToRemoteAnchored p.keyset.otherPaymentKey
        (if p.side.other = p.opener.other then csvLock p else 1)
      return [wscriptDraft K redeem (satRoundDown otherPay) .toRemote]
    else
      some [⟨scriptpubkeyP2wpkh K.toCrypto p.keyset.otherPaymentKey, none, satRoundDown otherPay, none,
        .toRemote⟩]
  else some []

/-- Source: `tx_add_anchor_output` -/
def anchorDraft (fundingKey : ByteString 33) (entry : Entry Htlc) : Draft Htlc :=
  wscriptDraft K (bitcoinWscriptAnchor fundingKey) 330 entry

/-- The anchor of a side that has a balance, or if there are HTLCs. -/
def anchorDrafts (balance : List (Draft Htlc)) (untrimmed : ℕ) (fundingKey : ByteString 33)
    (entry : Entry Htlc) : List (Draft Htlc) :=
  if hasAnchors su ∧ (balance ≠ [] ∨ untrimmed ≠ 0) then [anchorDraft K fundingKey entry] else []

/-- The outputs that are no HTLCs', in the order they are added. -/
def mainDrafts (selfPay otherPay untrimmed : ℕ) : Option (List (Draft Htlc)) := do
  let toLocal := toLocalDraft K p selfPay
  let toRemote ← toRemoteDraft K su p otherPay
  return toLocal ++ toRemote ++ (anchorDrafts K su toLocal untrimmed p.localFundingKey .anchor ++
    anchorDrafts K su toRemote untrimmed p.remoteFundingKey .otherAnchor)

/-- The fee that the opener pays, with the anchors. -/
def openerFee (untrimmed : ℕ) : Option ℕ :=
  let baseFee := commitTxBaseFee cp su p.feeratePerKw untrimmed
  if hasAnchors su then amountAdd baseFee 660 else some baseFee

/-- The balances after the opener has paid, whether it could or not. -/
def payAfterFee (untrimmed : ℕ) : Option (ℕ × ℕ) := do
  let totalPay ← amountAdd p.selfPay p.otherPay
  guard (!amountMsatGreaterSat totalPay p.fundingSats)
  let baseFee ← openerFee cp su p untrimmed
  return (trySubtractBaseFee p.opener p.side baseFee p.selfPay p.otherPay).2

/-- The HTLCs that have an output. -/
def untrimmedHtlcs (htlcs : List Htlc) : List Htlc := htlcs.filter fun h => !trim cp su p h

/-- Their number. -/
def numUntrimmed (htlcs : List Htlc) : ℕ :=
  commitTxNumUntrimmed cp su htlcs p.feeratePerKw p.dustLimit p.side

/-- The outputs of a commitment, in the order they are added: HTLCs offered, HTLCs received, the
others. An expiry must be a height. -/
def commitDrafts (htlcs : List Htlc) : Option (List (Draft Htlc)) := do
  let (selfPay, otherPay) ← payAfterFee cp su p (numUntrimmed cp su p htlcs)
  let kept := untrimmedHtlcs cp su p htlcs
  guard (∀ h ∈ kept, h.expiry < 500000000)
  let main ← mainDrafts K su p selfPay otherPay (numUntrimmed cp su p htlcs)
  return (kept.filter fun h => h.owner = p.side).map (htlcDraft K su p) ++
    (kept.filter fun h => h.owner ≠ p.side).map (htlcDraft K su p) ++ main

/-- Source: `commit_tx` -/
def commitTx (feeAsset : AssetId) (unset : ℕ → ℕ) (htlcs : List Htlc) : Option (Commitment Htlc) := do
  let drafts ← commitDrafts K cp su p htlcs
  finishCommitment ⟨cp.isElements, feeAsset⟩ p.channelAsset unset p.funding p.fundingSats
    (bitcoinRedeem2of2 p.localFundingKey p.remoteFundingKey) p.obscuredCommitmentNumber drafts

/-! ### The second stage -/

/-- Source: `htlc_tx` -/
def htlcTx (ch : Chain) (commit : Outpoint) (commitWscript : Bytes) (amount : ℕ)
    (htlcTxWscript : Bytes) (htlcFee locktime : ℕ) : Option BitcoinTx := do
  let tx := ((bitcoinTx ch locktime).setOutputAsset p.channelAsset).addInput commit
    (if hasAnchors su then 1 else 0) amount commitWscript
  let amount ← amountSub amount htlcFee
  (tx.addOutput (scriptpubkeyP2wsh K htlcTxWscript) amount).finalize

/-- The spend of an HTLC's output: after the timeout if the holder offered it, else with the
preimage. Source: `add_htlcs`, `htlc_timeout_tx`, `htlc_success_tx` -/
def secondStage (feeAsset : AssetId) (outpoint : Outpoint) (h : Htlc) : Option BitcoinTx :=
  let ch : Chain := ⟨cp.isElements, feeAsset⟩
  let feerate := if su.optionAnchorsZeroFeeHtlcTx then 0 else p.feeratePerKw
  let wscript := bitcoinWscriptHtlcTx p.keyset p.toSelfDelay
  if h.owner = p.side then
    htlcTx K su p ch outpoint (htlcWscript K su p h) (satRoundDown h.amount) wscript
      (htlcTimeoutFee cp su feerate) h.expiry
  else
    htlcTx K su p ch outpoint (htlcWscript K su p h) (satRoundDown h.amount) wscript
      (htlcSuccessFee cp su feerate) 0

/-- Source: `add_htlcs` -/
def addHtlcs (feeAsset : AssetId) (txid : BitcoinTx → ByteString 32) (r : Commitment Htlc) :
    List (Option BitcoinTx) :=
  r.htlcmap.zipIdx.filterMap fun e => e.1.map
    (secondStage K cp su p feeAsset ⟨txid r.tx, UInt32.ofNat e.2⟩)

end commit

/-! ### The scripts tell the outputs apart -/

lemma scriptPushBytes_bytes {n : ℕ} (b : ByteString n) (h : n < 76) :
    scriptPushBytes b.bytes = UInt8.ofNat n :: b.bytes := by
  rw [scriptPushBytes, b.length_bytes, if_pos h]

lemma scriptpubkeyP2wsh_eq (K : CommitCrypto) (w : Bytes) :
    scriptpubkeyP2wsh K w = 0x00 :: 32 :: K.hash.sha256 w := by
  rw [scriptpubkeyP2wsh, scriptPushBytes_bytes _ (by decide)]
  rfl

lemma scriptpubkeyP2wsh_inj {K : CommitCrypto} {a b : Bytes} :
    scriptpubkeyP2wsh K a = scriptpubkeyP2wsh K b ↔ K.hash.sha256 a = K.hash.sha256 b := by
  rw [scriptpubkeyP2wsh_eq, scriptpubkeyP2wsh_eq, cons_inj_right, cons_inj_right]

lemma scriptpubkeyP2wsh_ne_p2wpkh (K : CommitCrypto) (w : Bytes) (key : ByteString 33) :
    scriptpubkeyP2wsh K w ≠ scriptpubkeyP2wpkh K.toCrypto key := by
  intro heq
  have hlen := congrArg List.length heq
  rw [scriptpubkeyP2wsh_eq, scriptpubkeyP2wpkh, scriptPushBytes_bytes _ (by decide)] at hlen
  simp [K.hash.sha256_length] at hlen

/-- An HTLC's script begins with OP_DUP; offered and received ones differ after the head. -/
theorem htlcOfferedWscript_ne (K : CommitCrypto) (keyset : Keyset) (a a' : Bool)
    (ripemd ripemd' : ByteString 20) (locktime : ℕ) :
    htlcOfferedWscript K keyset a ripemd ≠ htlcReceivedWscript K keyset a' ripemd' locktime := by
  intro heq
  have htail := append_cancel_left heq
  simp only [cons_append, List.cons.injEq] at htail
  exact absurd htail.1 (by decide)

lemma head_htlcWscript (K : CommitCrypto) (su : ChannelSetup) (p : CommitArgs) (h : Htlc) :
    (htlcWscript K su p h).head? = some 0x76 := by
  unfold htlcWscript
  split
  · rfl
  · rfl

/-! ### The main outputs -/

variable {main : List (Draft Htlc)}

/-- An output that is no HTLC's: its script is a key's, or begins otherwise than an HTLC's. -/
structure MainDraft (K : CommitCrypto) (d : Draft Htlc) : Prop where
  entry : d.entry.htlc? = none
  script : (∃ w, d.wscript = some w ∧ d.script = scriptpubkeyP2wsh K w ∧ w.head? ≠ some 0x76) ∨
    ∃ key, d.script = scriptpubkeyP2wpkh K.toCrypto key

section main

variable {K : CommitCrypto} {su : ChannelSetup} {p : CommitArgs}

lemma mainDraft_wscript {w : Bytes} {amount : ℕ} {entry : Entry Htlc} (hw : w.head? ≠ some 0x76)
    (hentry : entry.htlc? = none) : MainDraft K (wscriptDraft K w amount entry) :=
  ⟨hentry, .inl ⟨w, rfl, rfl, hw⟩⟩

lemma mainDraft_anchor (key : ByteString 33) {entry : Entry Htlc} (hentry : entry.htlc? = none) :
    MainDraft K (anchorDraft K key entry) := by
  refine mainDraft_wscript ?_ hentry
  rw [bitcoinWscriptAnchor, scriptPushBytes_bytes _ (by decide)]
  simp

/-- The whole satoshis of a balance, if it has an output. -/
def keptSats (dustLimit pay : ℕ) : ℕ :=
  if amountMsatGreaterEqSat pay dustLimit then satRoundDown pay else 0

/-- The anchor of a side, if it has one. -/
def anchorSats (su : ChannelSetup) (p : CommitArgs) (pay untrimmed : ℕ) : ℕ :=
  if hasAnchors su ∧ (amountMsatGreaterEqSat pay p.dustLimit ∨ untrimmed ≠ 0) then 330 else 0

/-- The output of a balance: one, unless it is dust. -/
structure BalanceDraft (K : CommitCrypto) (p : CommitArgs) (pay : ℕ) (l : List (Draft Htlc)) : Prop where
  main : ∀ d ∈ l, MainDraft K d
  total : draftTotal l = keptSats p.dustLimit pay
  ne_nil : l ≠ [] ↔ amountMsatGreaterEqSat pay p.dustLimit = true

lemma balanceDraft_nil {pay : ℕ} (h : amountMsatGreaterEqSat pay p.dustLimit = false) :
    BalanceDraft K p pay [] := by
  refine ⟨fun d hd => (not_mem_nil hd).elim, ?_, ?_⟩
  · rw [keptSats, h]
    rfl
  · simp [h]

lemma balanceDraft_singleton {pay : ℕ} {d : Draft Htlc}
    (h : amountMsatGreaterEqSat pay p.dustLimit = true) (hd : MainDraft K d)
    (hamount : d.amount = satRoundDown pay) : BalanceDraft K p pay [d] := by
  refine ⟨fun d' hd' => ?_, ?_, ?_⟩
  · rw [mem_singleton.1 hd']
    exact hd
  · rw [keptSats, h, if_pos rfl, ← hamount]
    rfl
  · simp [h]

lemma balanceDraft_toLocal (K : CommitCrypto) (p : CommitArgs) (selfPay : ℕ) :
    BalanceDraft K p selfPay (toLocalDraft K p selfPay) := by
  unfold toLocalDraft
  cases hge : amountMsatGreaterEqSat selfPay p.dustLimit with
  | true => exact balanceDraft_singleton hge (mainDraft_wscript (by simp [toSelfWscript]) rfl) rfl
  | false => exact balanceDraft_nil hge

lemma balanceDraft_toRemote {otherPay : ℕ} {l : List (Draft Htlc)}
    (h : toRemoteDraft K su p otherPay = some l) : BalanceDraft K p otherPay l := by
  unfold toRemoteDraft at h
  cases hge : amountMsatGreaterEqSat otherPay p.dustLimit with
  | false =>
    rw [hge, if_neg Bool.false_ne_true] at h
    cases h
    exact balanceDraft_nil hge
  | true =>
    rw [hge, if_pos rfl] at h
    split at h
    · obtain ⟨w, hw, h⟩ := bind_eq_some_iff.1 h
      obtain ⟨_, -, hw⟩ := bind_eq_some_iff.1 hw
      cases h
      cases hw
      refine balanceDraft_singleton hge (mainDraft_wscript ?_ rfl) rfl
      rw [scriptPushBytes_bytes _ (by decide)]
      simp
    · cases h
      exact balanceDraft_singleton hge ⟨rfl, .inr ⟨_, rfl⟩⟩ rfl

/-- The anchor of a side. -/
theorem anchorDrafts_ok (su : ChannelSetup) {l : List (Draft Htlc)} {pay : ℕ}
    (hl : BalanceDraft K p pay l) (untrimmed : ℕ) (key : ByteString 33) (entry : Entry Htlc)
    (hentry : entry.htlc? = none) :
    (∀ d ∈ anchorDrafts K su l untrimmed key entry, MainDraft K d) ∧
      draftTotal (anchorDrafts K su l untrimmed key entry) = anchorSats su p pay untrimmed := by
  unfold anchorDrafts anchorSats
  simp only [hl.ne_nil]
  split
  · refine ⟨fun d hd => ?_, rfl⟩
    rw [mem_singleton.1 hd]
    exact mainDraft_anchor key hentry
  · exact ⟨fun d hd => (not_mem_nil hd).elim, rfl⟩

/-- The main outputs, and what they have together. -/
theorem mainDrafts_ok {selfPay otherPay untrimmed : ℕ}
    (h : mainDrafts K su p selfPay otherPay untrimmed = some main) :
    (∀ d ∈ main, MainDraft K d) ∧
      draftTotal main = keptSats p.dustLimit selfPay + keptSats p.dustLimit otherPay +
        (anchorSats su p selfPay untrimmed + anchorSats su p otherPay untrimmed) := by
  obtain ⟨toRemote, hremote, h⟩ := bind_eq_some_iff.1 h
  cases h
  have hl := balanceDraft_toLocal K p selfPay
  have hr := balanceDraft_toRemote hremote
  obtain ⟨hmainL, htotalL⟩ := anchorDrafts_ok su hl untrimmed p.localFundingKey .anchor rfl
  obtain ⟨hmainR, htotalR⟩ := anchorDrafts_ok su hr untrimmed p.remoteFundingKey .otherAnchor rfl
  constructor
  · intro d hd
    simp only [mem_append] at hd
    obtain (hd | hd) | hd | hd := hd
    · exact hl.main d hd
    · exact hr.main d hd
    · exact hmainL d hd
    · exact hmainR d hd
  · simp only [draftTotal_append, hl.total, hr.total, htotalL, htotalR]

end main

/-! ### The drafts -/

section drafts

variable {K : CommitCrypto} {cp : ChainParams} {su : ChannelSetup} {p : CommitArgs}
variable {htlcs htlcs' : List Htlc} {drafts : List (Draft Htlc)}

/-- The drafts: those of the HTLCs that are not trimmed, and the main ones. -/
theorem commitDrafts_ok (h : commitDrafts K cp su p htlcs = some drafts) :
    ∃ selfPay otherPay main,
      payAfterFee cp su p (numUntrimmed cp su p htlcs) = some (selfPay, otherPay) ∧
      mainDrafts K su p selfPay otherPay (numUntrimmed cp su p htlcs) = some main ∧
      DraftsOf (fun h => some (htlcDraft K su p h)) (untrimmedHtlcs cp su p htlcs) main drafts := by
  obtain ⟨⟨selfPay, otherPay⟩, hpay, h⟩ := bind_eq_some_iff.1 h
  obtain ⟨_, -, h⟩ := bind_eq_some_iff.1 h
  obtain ⟨main, hmain, h⟩ := bind_eq_some_iff.1 h
  cases h
  refine ⟨selfPay, otherPay, main, hpay, hmain, ?_, fun x _ => ⟨_, rfl, rfl⟩,
    fun d hd => ((mainDrafts_ok hmain).1 d hd).entry⟩
  refine List.Perm.append_right main ?_
  have hsplit := filter_append_perm (fun h : Htlc => decide (h.owner = p.side))
    (untrimmedHtlcs cp su p htlcs)
  rw [filterMap_eq_map', ← map_append]
  simpa only [decide_not] using hsplit.map (htlcDraft K su p)

/-- The order of the HTLCs shows in the order of the drafts only. -/
theorem commitDrafts_perm (hperm : htlcs ~ htlcs') (h : commitDrafts K cp su p htlcs = some drafts) :
    ∃ drafts', commitDrafts K cp su p htlcs' = some drafts' ∧ drafts ~ drafts' := by
  obtain ⟨⟨selfPay, otherPay⟩, hpay, h⟩ := bind_eq_some_iff.1 h
  obtain ⟨_, hexpiry, h⟩ := bind_eq_some_iff.1 h
  obtain ⟨main, hmain, h⟩ := bind_eq_some_iff.1 h
  cases h
  have hnum : numUntrimmed cp su p htlcs' = numUntrimmed cp su p htlcs := hperm.symm.countP_eq _
  have hkept : untrimmedHtlcs cp su p htlcs ~ untrimmedHtlcs cp su p htlcs' := hperm.filter _
  have hexpiry' : (guard (∀ h ∈ untrimmedHtlcs cp su p htlcs', h.expiry < 500000000) : Option Unit) =
      some () :=
    guard_eq_some.2 fun h hh => guard_eq_some.1 hexpiry h (hkept.symm.subset hh)
  refine ⟨_, ?_, (((hkept.filter _).map _).append ((hkept.filter _).map _)).append_right main⟩
  rw [commitDrafts, hnum, hpay]
  simp only [bind_eq_bind, bind_some, hmain, hexpiry', Option.pure_def]

lemma script_ne_nil (h : commitDrafts K cp su p htlcs = some drafts) :
    ∀ d ∈ drafts, d.script ≠ [] := by
  intro d hd
  obtain ⟨_, _, main, -, hmain, hof⟩ := commitDrafts_ok h
  obtain ⟨x, -, hx, -⟩ | ⟨hd, -⟩ := hof.mem hd
  · cases hx
    exact cons_ne_nil _ _
  · obtain ⟨w, -, hw, -⟩ | ⟨key, hkey⟩ := ((mainDrafts_ok hmain).1 d hd).script
    · rw [hw]
      exact cons_ne_nil _ _
    · rw [hkey]
      exact cons_ne_nil _ _

/-- Every HTLC's output has its expiry set. -/
theorem cltvsSet_of_draftsOf
    (hof : DraftsOf (fun h => some (htlcDraft K su p h)) (untrimmedHtlcs cp su p htlcs) main drafts) :
    CltvsSet drafts := by
  intro d hd hsome
  obtain ⟨x, -, hx, -⟩ | ⟨-, hnone⟩ := hof.mem hd
  · cases hx
    rfl
  · rw [hnone] at hsome
    cases hsome

/-! ### The second stage in output order -/

/-- No two of the witness scripts of some outputs have one hash. -/
def ScriptsDistinct (K : CommitCrypto) (drafts : List (Draft Htlc)) : Prop :=
  ∀ d ∈ drafts, ∀ d' ∈ drafts, ∀ w ∈ d.wscript, ∀ w' ∈ d'.wscript, K.hash.NoCollision w w'

lemma scriptsDistinct_of_pairwise (h : (drafts.filterMap Draft.wscript).Pairwise fun w w' =>
    K.hash.sha256 w ≠ K.hash.sha256 w') : ScriptsDistinct K drafts := by
  have hsymm : Std.Symm K.hash.NoCollision := ⟨fun _ _ hab heq => (hab heq.symm).symm⟩
  have hpairs : (drafts.filterMap Draft.wscript).Pairwise K.hash.NoCollision :=
    h.imp fun hne heq => absurd heq hne
  have hall := hpairs.forall_of_forall fun w _ _ => rfl
  intro d hd d' hd' w hw w' hw'
  exact hall (mem_filterMap.2 ⟨d, hd, hw⟩) (mem_filterMap.2 ⟨d', hd', hw'⟩)

/-- An HTLC's second stage is determined by its output and its expiry. -/
theorem secondStage_congr (feeAsset : AssetId) {h h' : Htlc}
    (hamount : satRoundDown h.amount = satRoundDown h'.amount)
    (hscript : htlcWscript K su p h = htlcWscript K su p h') (hexpiry : h.expiry = h'.expiry) :
    (fun o => secondStage K cp su p feeAsset o h) = fun o => secondStage K cp su p feeAsset o h' := by
  have howner : h.owner = p.side ↔ h'.owner = p.side := by
    by_cases ho : h.owner = p.side <;> by_cases ho' : h'.owner = p.side
    · exact iff_of_true ho ho'
    · rw [htlcWscript, if_pos ho, htlcWscript, if_neg ho'] at hscript
      exact (htlcOfferedWscript_ne _ _ _ _ _ _ _ hscript).elim
    · rw [htlcWscript, if_neg ho, htlcWscript, if_pos ho'] at hscript
      exact (htlcOfferedWscript_ne _ _ _ _ _ _ _ hscript.symm).elim
    · exact iff_of_false ho ho'
  funext o
  simp only [secondStage, howner, hamount, hscript, hexpiry]

/-- An HTLC's output is no main one, and HTLCs of one expiry at like outputs have one second stage.
-/
theorem tiesAlike_secondStage (feeAsset : AssetId) (h : commitDrafts K cp su p htlcs = some drafts)
    (hdistinct : ScriptsDistinct K drafts) :
    TiesAlike (fun x o => secondStage K cp su p feeAsset o x) drafts := by
  obtain ⟨_, _, main, -, hmain, hof⟩ := commitDrafts_ok h
  -- the script of an HTLC's output is not that of a main one
  have hne : ∀ x, htlcDraft K su p x ∈ drafts → ∀ d ∈ drafts, d ∈ main →
      (htlcDraft K su p x).script ≠ d.script := by
    intro x hx d hd hdmain heq
    obtain ⟨w, hw, hscript, hhead⟩ | ⟨key, hkey⟩ := ((mainDrafts_ok hmain).1 d hdmain).script
    · rw [hscript] at heq
      have hsame := hdistinct _ hx d hd _ rfl w hw (scriptpubkeyP2wsh_inj.1 heq)
      exact hhead (hsame ▸ head_htlcWscript K su p x)
    · rw [hkey] at heq
      exact scriptpubkeyP2wsh_ne_p2wpkh K _ _ heq
  intro d hd d' hd' hamount hscript
  obtain ⟨x, -, hx, -⟩ | ⟨hm, hnone⟩ := hof.mem hd <;>
    obtain ⟨x', -, hx', -⟩ | ⟨hm', hnone'⟩ := hof.mem hd'
  · cases hx
    cases hx'
    refine ⟨rfl, fun hexpiry => ?_⟩
    have hsame := hdistinct _ hd _ hd' _ rfl _ rfl (scriptpubkeyP2wsh_inj.1 hscript)
    exact congrArg some (secondStage_congr feeAsset hamount hsame (some.inj hexpiry))
  · cases hx
    exact absurd hscript (hne x hd d' hd' hm')
  · cases hx'
    exact absurd hscript.symm (hne x' hd' d hd hm)
  · rw [hnone, hnone']
    exact ⟨rfl, fun _ => rfl⟩

/-- The second stage is a function of the transaction and of what the map's HTLCs are used for. -/
theorem addHtlcs_congr (feeAsset : AssetId) (txid : BitcoinTx → ByteString 32) {r r' : Commitment Htlc}
    (htx : r'.tx = r.tx)
    (hmap : r'.htlcmap.map (Option.map fun x o => secondStage K cp su p feeAsset o x) =
      r.htlcmap.map (Option.map fun x o => secondStage K cp su p feeAsset o x)) :
    addHtlcs K cp su p feeAsset txid r' = addHtlcs K cp su p feeAsset txid r := by
  have huse : ∀ s : Commitment Htlc, addHtlcs K cp su p feeAsset txid s =
      (s.htlcmap.map (Option.map fun x o => secondStage K cp su p feeAsset o x)).zipIdx.filterMap
        fun e => e.1.map fun stage => stage ⟨txid s.tx, UInt32.ofNat e.2⟩ := by
    intro s
    rw [zipIdx_map, filterMap_map]
    refine filterMap_congr fun e _ => ?_
    simp [Function.comp_def]
  rw [huse r', huse r, hmap, htx]

/-! ### The transaction -/

variable {feeAsset : AssetId} {unset : ℕ → ℕ} {r : Commitment Htlc}

/-- The output of an HTLC. -/
def htlcOut (K : CommitCrypto) (su : ChannelSetup) (p : CommitArgs) (asset : Option AssetId) (h : Htlc) :
    TxOutput :=
  ⟨satRoundDown h.amount, scriptpubkeyP2wsh K (htlcWscript K su p h), asset⟩

/-- The order of the HTLCs shows neither in the transaction nor, without hash collisions, in the
second stage. -/
theorem commitTx_perm (hperm : htlcs ~ htlcs') (unset' : ℕ → ℕ)
    (h : commitTx K cp su p feeAsset unset htlcs = some r) :
    ∃ r', commitTx K cp su p feeAsset unset' htlcs' = some r' ∧ r'.tx = r.tx ∧
      ((∀ drafts, commitDrafts K cp su p htlcs = some drafts → ScriptsDistinct K drafts) →
        ∀ txid, addHtlcs K cp su p feeAsset txid r' = addHtlcs K cp su p feeAsset txid r) := by
  obtain ⟨drafts, hdrafts, hfinish⟩ := bind_eq_some_iff.1 h
  obtain ⟨_, _, main, -, -, hof⟩ := commitDrafts_ok hdrafts
  obtain ⟨drafts', hdrafts', hdperm⟩ := commitDrafts_perm hperm hdrafts
  obtain ⟨r', hfinish', htx, hmap'⟩ := finishCommitment_perm unset' hdperm hfinish
  refine ⟨r', ?_, htx, fun hdistinct txid => addHtlcs_congr feeAsset txid htx ?_⟩
  · rw [commitTx, hdrafts']
    exact hfinish'
  · have hmap := (finishCommitment_ok (script_ne_nil hdrafts) hfinish).1
    rw [hmap', hmap, List.map_map, List.map_map]
    exact (map_htlc_sortedSlots_perm _ _ unset unset' hdperm (cltvsSet_of_draftsOf hof)
      (tiesAlike_secondStage feeAsset hdrafts (hdistinct drafts hdrafts))).symm

end drafts

end SeqLN.Channeld
