import SeqLN.Tcov.Covenant

/-!
# The CLAIM leaf of a credit channel

`common/credit_scripts.c`: the provider's balance output has a leaf that pays the holder what a credit
note says: a credit `c` and a payment hash, signed by the credit key. The leaf recovers what was paid
before from the value of its own input, and leaves the rest under its own script (`claim_of_spends`).
-/

namespace SeqLN.Tcov

open Tapscript SeqLN.Sym

/-! ### The leaf -/

/-- The bytes a note's signature is over. Source: `credit_note_msg` -/
def creditNoteMsg (dtag : ByteString 32) (c paymentHash : Bytes) : Bytes :=
  dtag.bytes ++ c ++ paymentHash

/-- Source: `credit_tag` -/
def creditTag (H : Hashing) (cid : ByteString 32) : ByteString 32 :=
  taggedHash H "SeqLN/credit" cid.bytes

/-- From the signature, `c` and the preimage to `c`: the note is signed. -/
def claimNote (dtag : ByteString 32) (creditKey : ByteString 33) : List Op :=
  [.size, .push [32], .equalVerify, .sha256,
    .over, .push dtag.bytes, .swap, .cat, .swap, .cat,
    .rot, .swap, pushXonly creditKey, .checkSigFromStackVerify]

/-- What was paid is `b` less the input's value, `c` is above it, and the difference goes on top. -/
def claimDelta (b : UInt64) : List Op :=
  [pushLe8 b, .pushCurrentInputIndex, .inspectInput .value, .push [1],
    .equalVerify, .sub64, .verify,
    .twoDup, .greaterThan64, .verify, .over, .swap, .sub64, .verify]

/-- The output after the input's own index: the difference, to the holder, in the input's asset. -/
def claimHolder (holderSpk : Bytes) : List Op :=
  [.pushCurrentInputIndex, .oneAdd, .dup, .inspectOutput .value, .push [1],
    .equalVerify, .rot, .equalVerify,
    .dup, .inspectOutput .scriptPubKey, .push [], .equalVerify,
    .push (holderSpk.drop 2), .equalVerify,
    .inspectOutput .asset, .pushCurrentInputIndex, .inspectInput .asset,
    .rot, .equalVerify, .equalVerify]

/-- The output at the input's own index has `b` less `c`. -/
def claimRest (b : UInt64) : List Op :=
  [pushLe8 b, .swap, .sub64, .verify,
    .pushCurrentInputIndex, .inspectOutput .value, .push [1], .equalVerify,
    .equalVerify]

/-- The output at the input's own index has the input's script and asset. -/
def claimSame : List Op :=
  pairFields .scriptPubKey ++ .equalVerify :: (pairFields .asset ++ [.equal])

/-- Source: `credit_leaf_claim` -/
def creditLeafClaim (dtag : ByteString 32) (creditKey : ByteString 33) (b : UInt64)
    (holderSpk : Bytes) : List Op :=
  claimNote dtag creditKey ++ (claimDelta b ++ (claimHolder holderSpk ++ (claimRest b ++ claimSame)))

/-! ### The trees -/

/-- Source: `struct credit_params` -/
structure CreditParams where
  dtag : ByteString 32
  creditKey : ByteString 33
  holderSpk : Bytes
  folded : UInt64

/-- Source: `credit_key_tweak` -/
def creditKeyTweak (H : Hashing) (providerFundingKey : ByteString 33) : ByteString 32 :=
  taggedHash H "SeqLN/credit-key" providerFundingKey.bytes

/-- The addition of a tweak to a key is a parameter. Source: `credit_key` -/
def creditKey (H : Hashing) (tweakAdd : ByteString 33 → ByteString 32 → Option (ByteString 33))
    (providerFundingKey : ByteString 33) : Option (ByteString 33) :=
  tweakAdd providerFundingKey (creditKeyTweak H providerFundingKey)

/-- The parameters of a channel; no credit is folded. Source: `credit_params_init` -/
def creditParamsInit (K : Crypto)
    (tweakAdd : ByteString 33 → ByteString 32 → Option (ByteString 33)) (cid : ByteString 32)
    (providerFundingKey holderPaymentBasepoint : ByteString 33) : Option CreditParams :=
  (creditKey K.hash tweakAdd providerFundingKey).map fun key =>
    ⟨creditTag K.hash cid, key, scriptpubkeyP2wpkh K holderPaymentBasepoint, 0⟩

/-- The value and the credit that is folded; an overflow stops the daemon. Source: `credit_b` -/
def creditB (params : CreditParams) (value : UInt64) : Option UInt64 :=
  if value.toNat + params.folded.toNat < 2 ^ 64 then some (value + params.folded) else none

/-- A tree of three leaves. Source: `struct tap_tree2` -/
structure TapTree3 where
  leaf : Bytes × Bytes × Bytes
  program : ByteString 32

/-- Source: `tap_tree2_finish`, for three leaves -/
def tapTree3Finish (H : Hashing) (C : Curve) (internalKey : ByteString 33)
    (leaf0 leaf1 leaf2 : Bytes) : Option TapTree3 := do
  let branch01 := tapBranchHash H (tapLeafHash H leaf0) (tapLeafHash H leaf1)
  let (_, program) ← bip341Tweak H C internalKey (tapBranchHash H (tapLeafHash H leaf2) branch01)
  return ⟨(leaf0, leaf1, leaf2), program⟩

/-- Source: `credit_to_local_tree` -/
def creditToLocalTree (K : Crypto) (keyset : Keyset) (perCommitmentPoint : ByteString 33)
    (toSelfDelay : UInt16) (params : CreditParams) (value : UInt64) : Option TapTree3 := do
  let b ← creditB params value
  tapTree3Finish K.hash K.curve keyset.selfRevocationKey
    (scriptBytes (tcovLeafDelay keyset.selfDelayedPaymentKey toSelfDelay))
    (scriptBytes (tcovLeafRevoke perCommitmentPoint (tcovRevokeDest K keyset)))
    (scriptBytes (creditLeafClaim params.dtag params.creditKey b params.holderSpk))

/-- Source: `credit_to_remote_tree` -/
def creditToRemoteTree (K : Crypto) (providerPaymentKey : ByteString 33) (delay : UInt16)
    (params : CreditParams) (value : UInt64) : Option TapTree2 := do
  let b ← creditB params value
  tapTree2Finish K.hash K.curve numsDer
    (scriptBytes (creditLeafClaim params.dtag params.creditKey b params.holderSpk))
    (scriptBytes (tcovLeafDelay providerPaymentKey delay))

/-! ### The parts of the leaf -/

variable {b : UInt64}

variable {E : Env} {os : List Op} {s r : List Bytes}

lemma of_run_oneAdd {i : ℕ} (h : run E (.oneAdd :: os) (scriptNum i :: s) = some r) :
    run E os (scriptNum (i + 1) :: s) = some r := by
  obtain ⟨t, ht, h⟩ := Option.bind_eq_some_iff.1 h
  dsimp only [step] at ht
  rw [readScriptNum_scriptNum] at ht
  split at ht
  · cases ht
    exact h
  · cases ht

/-- The note is signed for the preimage's hash. -/
lemma of_run_claimNote {dtag : ByteString 32} {creditKey : ByteString 33}
    (h : run E (claimNote dtag creditKey ++ os) s = some r) :
    ∃ x c sig s', s = x :: c :: sig :: s' ∧ x.length = 32 ∧
      E.verifies (xonly creditKey).bytes (creditNoteMsg dtag c (E.hash.sha256 x)) sig = true ∧
      run E os (c :: s') = some r := by
  have hkey : (xonly creditKey).bytes.length ≤ maxElement := by simp [maxElement]
  have hdtag : dtag.bytes.length ≤ maxElement := by simp [maxElement]
  simp only [claimNote, List.cons_append, List.nil_append] at h
  cases s with
  | nil => cases h
  | cons x s =>
    rw [run_size, run_push (by decide)] at h
    obtain ⟨hsize, h⟩ := of_run_equalVerify h
    have hx : x.length = 32 := by
      have := leNat_scriptNum x.length
      rw [hsize] at this
      exact this.symm
    rw [run_sha256] at h
    cases s with
    | nil => cases h
    | cons c s =>
      rw [run_over, run_push hdtag, run_swap] at h
      have h := of_run_cat h
      rw [run_swap] at h
      have h := of_run_cat h
      cases s with
      | nil => cases h
      | cons sig s' =>
        rw [run_rot, run_swap, pushXonly, run_push hkey] at h
        obtain ⟨hsig, h⟩ := of_run_checkSigFromStackVerify h
        exact ⟨x, c, sig, s', rfl, hx, hsig, h⟩

/-- What the note adds to what was claimed before. -/
lemma of_run_claimDelta {c : Bytes} (hb : b.toNat < 2 ^ 63) (hrange : TxInRange E.tx)
    (h : run E (claimDelta b ++ os) (c :: s) = some r) :
    ∃ t w, E.tx.inputs[E.idx]? = some t ∧ spentAt E E.idx = some t.spent ∧
      t.spent.value = .explicit w ∧ c.length = 8 ∧ (b.toNat - w.toNat : ℤ) < readS64 c ∧
      IsS64 (readS64 c - (b.toNat - w.toNat)) ∧
      run E os (le8s (readS64 c - (b.toNat - w.toNat)) :: c :: s) = some r := by
  simp only [claimDelta, List.cons_append, List.nil_append] at h
  rw [pushLe8, run_push (by simp [maxElement]), run_pushCurrentInputIndex] at h
  obtain ⟨o, ho, hvalue, h⟩ := of_run_inspectInput h
  obtain ⟨t, ht, rfl⟩ := getElem?_of_spentAt ho
  obtain ⟨w, hw, hfield⟩ := explicit_of_value_fields hvalue
  have hwlt := hrange.inputs t (List.mem_of_getElem? ht) w hw
  have hfield : (t.spent.fields E.hash .value).1 = leBytes 8 w.toNat := hfield
  rw [hfield] at h
  obtain ⟨_, _, hpaid, h⟩ := of_run_sub64 h
  rw [readS64_leBytes hb, readS64_leBytes hwlt] at hpaid h
  rw [run_twoDup] at h
  obtain ⟨_, hc, hlt, h⟩ := of_run_greaterThan64 h
  rw [readS64_le8s hpaid] at hlt
  rw [run_over, run_swap] at h
  obtain ⟨_, _, hdelta, h⟩ := of_run_sub64 h
  rw [readS64_le8s hpaid] at hdelta h
  exact ⟨t, w, ht, ho, hw, hc, hlt, hdelta, h⟩

lemma drop_scriptpubkeyP2wpkh (K : Crypto) (key : ByteString 33) :
    (scriptpubkeyP2wpkh K key).drop 2 = (K.hash160 key.bytes).bytes :=
  congrArg Prod.snd (segwitProgram_p2wpkh K key)

/-- A field that the spent output shares with an output. -/
theorem of_run_sameField {f : Field} {o t : TxOut} {i : ℕ}
    (ho : outputAt E i = some o) (ht : spentAt E E.idx = some t)
    (h : run E (.inspectOutput f :: .pushCurrentInputIndex ::
      .inspectInput f :: .rot :: .equalVerify :: .equalVerify :: os)
      (scriptNum i :: s) = some r) :
    o.fields E.hash f = t.fields E.hash f ∧ run E os s = some r := by
  rw [run_inspectOutput, ho, Option.bind_some, pushFields, run_pushCurrentInputIndex,
    run_inspectInput, ht, Option.bind_some, pushFields, run_rot] at h
  obtain ⟨hsnd, h⟩ := of_run_equalVerify h
  obtain ⟨hfst, h⟩ := of_run_equalVerify h
  exact ⟨Prod.ext hfst hsnd.symm, h⟩

/-- The next output pays the holder what is added. -/
lemma of_run_claimHolder {K : Crypto} {key : ByteString 33} {delta : Bytes} {t : TxOut}
    (ht : spentAt E E.idx = some t)
    (h : run E (claimHolder (scriptpubkeyP2wpkh K key) ++ os) (delta :: s) = some r) :
    ∃ o v, E.tx.outputs[E.idx + 1]? = some o ∧ o.value = .explicit v ∧
      leBytes 8 v.toNat = delta ∧ o.spk = scriptpubkeyP2wpkh K key ∧ o.asset = t.asset ∧
      run E os s = some r := by
  simp only [claimHolder, List.cons_append, List.nil_append] at h
  rw [run_pushCurrentInputIndex] at h
  have h := of_run_oneAdd h
  rw [run_dup] at h
  obtain ⟨o, ho, hvalue, h⟩ := of_run_inspectOutput h
  obtain ⟨v, hv, hfield⟩ := explicit_of_value_fields hvalue
  rw [run_rot] at h
  obtain ⟨hdelta, h⟩ := of_run_equalVerify h
  rw [run_dup, run_inspectOutput, ho, Option.bind_some, pushFields,
    run_push (by decide)] at h
  obtain ⟨hversion, h⟩ := of_run_equalVerify h
  rw [drop_scriptpubkeyP2wpkh, run_push (by simp [maxElement])] at h
  obtain ⟨hprogram, h⟩ := of_run_equalVerify h
  obtain ⟨hasset, h⟩ := of_run_sameField ho ht h
  refine ⟨o, v, getElem?_of_outputAt ho, hv, hfield.symm.trans hdelta, ?_, Asset.fields_inj hasset, h⟩
  have hspk := witnessProgram_of_version (H := E.hash) (v := 0) (by decide)
    (Prod.ext hprogram hversion)
  rw [(eq_witnessSpk_of_witnessProgram hspk).1]
  exact witnessSpk_p2wpkh K key

lemma of_run_claimRest {c : Bytes} (hb : b.toNat < 2 ^ 63)
    (h : run E (claimRest b ++ os) (c :: s) = some r) :
    ∃ o v, outputAt E E.idx = some o ∧ o.value = .explicit v ∧
      IsS64 (b.toNat - readS64 c) ∧ leBytes 8 v.toNat = le8s (b.toNat - readS64 c) ∧
      run E os s = some r := by
  simp only [claimRest, List.cons_append, List.nil_append] at h
  rw [pushLe8, run_push (by simp [maxElement]), run_swap] at h
  obtain ⟨_, _, hrest, h⟩ := of_run_sub64 h
  rw [readS64_leBytes hb] at hrest h
  rw [run_pushCurrentInputIndex] at h
  obtain ⟨o, ho, hvalue, h⟩ := of_run_inspectOutput h
  obtain ⟨v, hv, hfield⟩ := explicit_of_value_fields hvalue
  obtain ⟨hsame, h⟩ := of_run_equalVerify h
  exact ⟨o, v, ho, hv, hrest, hfield.symm.trans hsame.symm, h⟩

lemma of_run_claimSame {o t : TxOut} {x : Bytes} (ho : outputAt E E.idx = some o)
    (ht : spentAt E E.idx = some t) (h : run E claimSame s = some [x])
    (hx : castToBool x = true) :
    s = [] ∧ spkFields E.hash o.spk = spkFields E.hash t.spk ∧ o.asset = t.asset := by
  obtain ⟨o₁, t₁, ho₁, ht₁, hspk, h⟩ := of_run_keepField h
  obtain ⟨hs, o₂, t₂, ho₂, ht₂, hasset⟩ := of_run_keepField_last h hx
  cases ho.symm.trans ho₁
  cases ho.symm.trans ho₂
  cases ht.symm.trans ht₁
  cases ht.symm.trans ht₂
  exact ⟨hs, hspk, Asset.fields_inj hasset⟩

/-! ### A valid spend -/

/-- What a spend of the CLAIM leaf consists of: `t` is the output spent, `paid` and `rest` are the
outputs to the holder and back to the script. -/
structure ClaimSpend (E : Env) (dtag : ByteString 32) (creditKey : ByteString 33) (b : UInt64)
    (holderSpk x c sig : Bytes) (t paid rest : TxOut) : Prop where
  input : ∃ i, E.tx.inputs[E.idx]? = some i ∧ i.spent = t
  preimage : x.length = 32
  note : E.verifies (xonly creditKey).bytes (creditNoteMsg dtag c (E.hash.sha256 x)) sig = true
  c_length : c.length = 8
  paid_output : E.tx.outputs[E.idx + 1]? = some paid
  paid_spk : paid.spk = holderSpk
  paid_asset : paid.asset = t.asset
  rest_output : E.tx.outputs[E.idx]? = some rest
  rest_spk : spkFields E.hash rest.spk = spkFields E.hash t.spk
  rest_asset : rest.asset = t.asset
  values : ∃ w v u : UInt64, t.value = .explicit w ∧ paid.value = .explicit v ∧
    rest.value = .explicit u ∧ (b.toNat - w.toNat : ℤ) < readS64 c ∧
    (v.toNat : ℤ) = readS64 c - (b.toNat - w.toNat) ∧ (u.toNat : ℤ) = b.toNat - readS64 c

/-- An amount that is written as a number is that number. -/
theorem eq_of_leBytes_eq_le8s {n : ℕ} {z : ℤ} (hn : n < 2 ^ 63) (hz : IsS64 z)
    (h : leBytes 8 n = le8s z) : (n : ℤ) = z := by
  rw [← readS64_leBytes hn, h, readS64_le8s hz]

/-- A spend of the CLAIM leaf pays the holder what the note adds. -/
lemma claim_of_spends {K : Crypto} {key creditKey : ByteString 33} {dtag : ByteString 32}
    {stack : List Bytes} (hb : b.toNat < 2 ^ 63) (hrange : TxInRange E.tx)
    (h : satisfies E (creditLeafClaim dtag creditKey b (scriptpubkeyP2wpkh K key)) stack = true) :
    ∃ x c sig t paid rest, stack = [x, c, sig] ∧
      ClaimSpend E dtag creditKey b (scriptpubkeyP2wpkh K key) x c sig t paid rest := by
  obtain ⟨e, h, he⟩ := (satisfies_iff.1 h).2
  obtain ⟨x, c, sig, s, rfl, hx, hsig, h⟩ := of_run_claimNote h
  obtain ⟨i, w, hi, ht, hw, hc, hlt, hdelta, h⟩ := of_run_claimDelta hb hrange h
  obtain ⟨paid, v, hpaid, hv, hvb, hspk, hasset, h⟩ := of_run_claimHolder ht h
  obtain ⟨rest, u, hrest, hu, hur, hub, h⟩ := of_run_claimRest hb h
  obtain ⟨rfl, hrspk, hrasset⟩ := of_run_claimSame hrest ht h he
  have hvlt := hrange.outputs paid (List.mem_of_getElem? hpaid) v hv
  have hult := hrange.outputs rest (List.mem_of_getElem? (getElem?_of_outputAt hrest)) u hu
  exact ⟨x, c, sig, i.spent, paid, rest, rfl,
    { input := ⟨i, hi, rfl⟩
      preimage := hx
      note := hsig
      c_length := hc
      paid_output := hpaid
      paid_spk := hspk
      paid_asset := hasset
      rest_output := getElem?_of_outputAt hrest
      rest_spk := hrspk
      rest_asset := hrasset
      values := ⟨w, v, u, hw, hv, hu, hlt, eq_of_leBytes_eq_le8s hvlt hdelta hvb,
        eq_of_leBytes_eq_le8s hult hur hub⟩ }⟩

end SeqLN.Tcov
