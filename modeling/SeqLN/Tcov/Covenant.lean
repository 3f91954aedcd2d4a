import SeqLN.Sym.UpdateCovenant
import SeqLN.Tcov.Scripts

/-!
# What the leaves of a taproot-covenant channel enforce

A spend by one of the two covenants pays, at the input's own index, at least the HTLC's amount of the
channel's asset to the holder's balance program (`of_run_addCov`), or at least the input's own
value, in its own asset, to the other side's static script (`of_run_addKeep`). The amounts that the
64-bit comparisons see are below `2 ^ 63` (`TxInRange`).
-/

namespace SeqLN.Tcov

open Tapscript SeqLN.Sym List Option

/-! ### Explicit fields -/

/-- An explicit value is below `2 ^ 63`. -/
def valueInRange (v : Value) : Prop := ∀ a, v = .explicit a → a.toNat < 2 ^ 63

/-- The values a transaction spends and pays are in range. -/
structure TxInRange (tx : Tx) : Prop where
  outputs : ∀ o ∈ tx.outputs, valueInRange o.value
  inputs : ∀ i ∈ tx.inputs, valueInRange i.spent.value

lemma explicit_of_asset_fields {a : Asset} (h : a.fields.2 = [1]) :
    ∃ id : ByteString 32, a = .explicit id ∧ a.fields.1 = id.bytes := by
  cases a with
  | explicit id => exact ⟨id, rfl, rfl⟩
  | blinded odd x => cases odd <;> simp [Asset.fields] at h

lemma explicit_of_value_fields {v : Value} (h : v.fields.2 = [1]) :
    ∃ a, v = .explicit a ∧ v.fields.1 = leBytes 8 a.toNat := by
  cases v with
  | explicit a => exact ⟨a, rfl, rfl⟩
  | blinded odd x => cases odd <;> simp [Value.fields] at h

/-- The comparisons read an amount below `2 ^ 63` as it is. -/
theorem readS64_leBytes {n : ℕ} (h : n < 2 ^ 63) : readS64 (leBytes 8 n) = n := by
  unfold readS64
  rw [leNat_leBytes_of_lt (by omega), wrapS64_of_isS64 ⟨by omega, by omega⟩]

variable {E : Env} {os : List Op} {s r : List Bytes} {b : Bytes} {i : ℕ}

/-- An output field that must be explicit. -/
theorem of_run_inspectOutput {f : Field}
    (h : run E (.inspectOutput f :: .push [1] :: .equalVerify :: os)
      (scriptNum i :: s) = some r) :
    ∃ o, outputAt E i = some o ∧ (o.fields E.hash f).2 = [1] ∧
      run E os ((o.fields E.hash f).1 :: s) = some r := by
  rw [run_inspectOutput] at h
  obtain ⟨o, ho, h⟩ := bind_eq_some_iff.1 h
  rw [run_push (by decide), pushFields] at h
  obtain ⟨hone, h⟩ := of_run_equalVerify h
  exact ⟨o, ho, hone, h⟩

/-- A field of the spent output that must be explicit. -/
theorem of_run_inspectInput {f : Field}
    (h : run E (.inspectInput f :: .push [1] :: .equalVerify :: os)
      (scriptNum i :: s) = some r) :
    ∃ o, spentAt E i = some o ∧ (o.fields E.hash f).2 = [1] ∧
      run E os ((o.fields E.hash f).1 :: s) = some r := by
  rw [run_inspectInput] at h
  obtain ⟨o, ho, h⟩ := bind_eq_some_iff.1 h
  rw [run_push (by decide), pushFields] at h
  obtain ⟨hone, h⟩ := of_run_equalVerify h
  exact ⟨o, ho, hone, h⟩

/-! ### The covenants -/

/-- The output at the input's own index has at least `x` of the asset, and the script. -/
def PaysAtLeast (E : Env) (assetId : ByteString 32) (x : ℕ) (spk : Bytes) : Prop :=
  ∃ o v, E.tx.outputs[E.idx]? = some o ∧ o.asset = .explicit assetId ∧ o.value = .explicit v ∧
    x ≤ v.toNat ∧ o.spk = spk

/-- The output at the input's own index has at least what the input spends, in its asset, and the
script. -/
def Returns (E : Env) (spk : Bytes) : Prop :=
  ∃ t assetId v, E.tx.inputs[E.idx]? = some t ∧ t.spent.asset = .explicit assetId ∧
    t.spent.value = .explicit v ∧ PaysAtLeast E assetId v.toNat spk

/-- The end of both covenants: the output's script has the version and the program. -/
theorem of_run_program {v : ℕ} {p : Bytes} (hp : p.length ≤ 40)
    (h : run E [.inspectOutput .scriptPubKey, .push (versionBytes v), .equalVerify,
      .push p, .equal] (scriptNum i :: s) = some [b]) (hb : castToBool b = true) :
    s = [] ∧ ∃ o, outputAt E i = some o ∧ spkFields E.hash o.spk = (p, versionBytes v) := by
  have hversion : (versionBytes v).length ≤ maxElement := by
    unfold versionBytes
    split <;> simp [maxElement]
  rw [run_inspectOutput] at h
  obtain ⟨o, ho, h⟩ := bind_eq_some_iff.1 h
  rw [run_push hversion, pushFields] at h
  obtain ⟨hver, h⟩ := of_run_equalVerify h
  rw [run_push (hp.trans (by decide)), run_equal, run_nil, Option.some.injEq,
    List.cons.injEq] at h
  rw [← h.1, castToBool_ofBool, decide_eq_true_eq] at hb
  exact ⟨h.2, o, ho, Prod.ext hb hver⟩

/-- The version that introspection pushes is that of the script. -/
theorem witnessProgram_of_version {H : Hashing} {spk p : Bytes} {v : ℕ} (hv : v ≤ 16)
    (h : spkFields H spk = (p, versionBytes v)) : witnessProgram spk = some (v, p) := by
  unfold spkFields at h
  split at h
  · next w q hw =>
    rw [Prod.mk.injEq] at h
    have hle := leNat_scriptNum w
    have hval : leNat (versionBytes v) = v := by
      unfold versionBytes
      split
      · next h0 => rw [h0]; rfl
      · have : (UInt8.ofNat v).toNat = v := UInt8.toNat_ofNat_of_lt' (by simp [UInt8.size]; omega)
        simpa [leNat] using this
    rw [h.2, hval] at hle
    rw [hw, hle, h.1]
  · next hw =>
    rw [Prod.mk.injEq] at h
    have hver : versionBytes v = [0x81] := h.2.symm
    unfold versionBytes at hver
    split at hver
    · cases hver
    · rw [List.cons.injEq] at hver
      have := congrArg UInt8.toNat hver.1
      rw [UInt8.toNat_ofNat_of_lt' (by simp [UInt8.size]; omega)] at this
      exact absurd this (by simp; omega)

/-- An output that introspection finds to have the asset, as much and the program. -/
lemma paysAtLeast_of_fields {o : TxOut} {assetId : ByteString 32} {x v : ℕ} {p : Bytes}
    (hrange : TxInRange E.tx) (ho : outputAt E E.idx = some o) (hasset : o.asset.fields.2 = [1])
    (hid : o.asset.fields.1 = assetId.bytes) (hvalue : o.value.fields.2 = [1]) (hx : x < 2 ^ 63)
    (hle : readS64 (leBytes 8 x) ≤ readS64 o.value.fields.1) (hv : v ≤ 16)
    (hspk : spkFields E.hash o.spk = (p, versionBytes v)) :
    PaysAtLeast E assetId x (witnessSpk v p) := by
  have hget := getElem?_of_outputAt ho
  obtain ⟨id, haid, hbytes⟩ := explicit_of_asset_fields hasset
  obtain ⟨w, hw, hfield⟩ := explicit_of_value_fields hvalue
  refine ⟨o, w, hget, ?_, hw, ?_, ?_⟩
  · rw [haid, ByteString.ext (hbytes.symm.trans hid)]
  · rw [hfield, readS64_leBytes hx,
      readS64_leBytes (hrange.outputs o (mem_of_getElem? hget) w hw)] at hle
    exact_mod_cast hle
  · exact (eq_witnessSpk_of_witnessProgram (witnessProgram_of_version hv hspk)).1

/-- The covenant pays the amount to the program. -/
lemma of_run_addCov {assetId dProgram : ByteString 32} {x : UInt64} (hx : x.toNat < 2 ^ 63)
    (hrange : TxInRange E.tx) (h : run E (addCov assetId x dProgram) s = some [b])
    (hb : castToBool b = true) :
    s = [] ∧ PaysAtLeast E assetId x.toNat (p2tr dProgram) := by
  unfold addCov at h
  rw [run_pushCurrentInputIndex, run_dup, run_dup] at h
  obtain ⟨o, ho, hasset, h⟩ := of_run_inspectOutput h
  rw [run_push (by simp [maxElement])] at h
  obtain ⟨hid, h⟩ := of_run_equalVerify h
  obtain ⟨o', ho', hvalue, h⟩ := of_run_inspectOutput h
  obtain rfl : o = o' := some.inj (ho.symm.trans ho')
  rw [pushLe8, run_push (by simp [maxElement])] at h
  obtain ⟨_, _, hle, h⟩ := of_run_greaterThanOrEqual64 h
  obtain ⟨hs, o'', ho'', hspk⟩ := of_run_program (v := 1)
    (by rw [ByteString.length_bytes]; decide) h hb
  obtain rfl : o = o'' := some.inj (ho.symm.trans ho'')
  refine ⟨hs, ?_⟩
  have hpays := paysAtLeast_of_fields hrange ho hasset hid hvalue hx hle (by decide) hspk
  simpa [witnessSpk, p2tr] using hpays

lemma segwitProgram_p2wpkh (K : Crypto) (key : ByteString 33) :
    segwitProgram (scriptpubkeyP2wpkh K key) = (0, (K.hash160 key.bytes).bytes) := by
  simp [segwitProgram, scriptpubkeyP2wpkh, scriptPushBytes]

lemma witnessSpk_p2wpkh (K : Crypto) (key : ByteString 33) :
    witnessSpk 0 (K.hash160 key.bytes).bytes = scriptpubkeyP2wpkh K key := by
  simp [witnessSpk, scriptpubkeyP2wpkh, scriptPushBytes]

/-- The covenant returns what the input spends. -/
lemma of_run_addKeep {K : Crypto} {key : ByteString 33} (hrange : TxInRange E.tx)
    (h : run E (addKeep (scriptpubkeyP2wpkh K key)) s = some [b]) (hb : castToBool b = true) :
    s = [] ∧ Returns E (scriptpubkeyP2wpkh K key) := by
  unfold addKeep at h
  rw [segwitProgram_p2wpkh, run_pushCurrentInputIndex, run_dup] at h
  obtain ⟨o, ho, hasset, h⟩ := of_run_inspectOutput h
  rw [run_over] at h
  obtain ⟨t, ht, htasset, h⟩ := of_run_inspectInput h
  obtain ⟨hsame, h⟩ := of_run_equalVerify h
  rw [run_dup] at h
  obtain ⟨o', ho', hvalue, h⟩ := of_run_inspectOutput h
  obtain rfl : o = o' := some.inj (ho.symm.trans ho')
  rw [run_over] at h
  obtain ⟨t', ht', htvalue, h⟩ := of_run_inspectInput h
  obtain rfl : t = t' := some.inj (ht.symm.trans ht')
  obtain ⟨_, _, hle, h⟩ := of_run_greaterThanOrEqual64 h
  obtain ⟨hs, o'', ho'', hspk⟩ := of_run_program (v := 0)
    (by rw [ByteString.length_bytes]; decide) h hb
  obtain rfl : o = o'' := some.inj (ho.symm.trans ho'')
  obtain ⟨input, hinput, rfl⟩ := getElem?_of_spentAt ht
  obtain ⟨id, hid, hbytes⟩ := explicit_of_asset_fields htasset
  obtain ⟨v, hv, hfield⟩ := explicit_of_value_fields htvalue
  have hlt := hrange.inputs input (mem_of_getElem? hinput) v hv
  refine ⟨hs, input, id, v, hinput, hid, hv, ?_⟩
  rw [← witnessSpk_p2wpkh]
  exact paysAtLeast_of_fields hrange ho hasset (hsame.trans hbytes) hvalue hlt (hfield ▸ hle)
    (by decide) hspk

/-! ### The leaves -/

/-- The transaction is not mined before the expiry. -/
def AfterExpiry (E : Env) (cltvExpiry : UInt32) : Prop :=
  ∃ t, E.tx.inputs[E.idx]? = some t ∧ t.sequence ≠ 0xffffffff ∧
    (cltvExpiry.toNat < 500000000 ↔ E.tx.lockTime.toNat < 500000000) ∧
    cltvExpiry.toNat ≤ E.tx.lockTime.toNat

lemma afterExpiry_of_lockTimeOk {cltvExpiry : UInt32}
    (h : lockTimeOk E cltvExpiry.toNat = true) : AfterExpiry E cltvExpiry := by
  unfold lockTimeOk at h
  split at h
  · next t ht =>
    rw [Bool.and_eq_true, Bool.and_eq_true, beq_iff_eq, decide_eq_decide, decide_eq_true_eq,
      decide_eq_true_eq] at h
    exact ⟨t, ht, h.2, by exact_mod_cast h.1.1, by exact_mod_cast h.1.2⟩
  · cases h

/-- Either lock takes one element of the witness, and leaves the rest. -/
theorem of_run_addLock (lock : Lock) (h : run E (addLock lock ++ os) s = some r) :
    ∃ x s', s = x :: s' ∧ run E os s' = some r := by
  cases lock with
  | hash ripemd =>
    cases s with
    | nil => cases h
    | cons x s' =>
      simp only [addLock, addHashlock, cons_append, nil_append] at h
      rw [run_size, run_pushNum (by decide)] at h
      obtain ⟨_, h⟩ := of_run_equalVerify h
      rw [run_hash160, run_push (by simp [maxElement])] at h
      exact ⟨x, s', rfl, (of_run_equalVerify h).2⟩
  | point lockPoint =>
    simp only [addLock, addPointlock, cons_append, nil_append] at h
    rw [run_push (by simp [maxElement]), run_push (by decide)] at h
    cases s with
    | nil => cases h
    | cons x s' =>
      rw [run_rot] at h
      exact ⟨x, s', rfl, (of_run_ecMulScalarVerify h).2⟩

section leaves

variable {stack : List Bytes} {key : ByteString 33} {assetId dProgram : ByteString 32} {x : UInt64}

/-- A timeout pays the owner, after the expiry. -/
lemma pays_of_offeredTimeout {cltvExpiry : UInt32} (hx : x.toNat < 2 ^ 63)
    (hrange : TxInRange E.tx)
    (h : satisfies E (tcovLeafOfferedTimeout key cltvExpiry assetId x dProgram) stack = true) :
    PaysAtLeast E assetId x.toNat (p2tr dProgram) ∧ AfterExpiry E cltvExpiry := by
  obtain ⟨b, h, hb⟩ := (satisfies_iff.1 h).2
  unfold tcovLeafOfferedTimeout at h
  simp only [cons_append, nil_append] at h
  rw [pushXonly, run_push (by simp [maxElement])] at h
  obtain ⟨sig, s, _, _, h⟩ := of_run_checkSigVerify h
  rw [run_pushNum cltvExpiry.toNat_lt] at h
  obtain ⟨hok, h⟩ := of_run_checkLockTimeVerify cltvExpiry.toNat_lt h
  rw [run_drop] at h
  exact ⟨(of_run_addCov hx hrange h hb).2, afterExpiry_of_lockTimeOk hok⟩

lemma pays_of_receivedSuccess {lock : Lock} (hx : x.toNat < 2 ^ 63) (hrange : TxInRange E.tx)
    (h : satisfies E (tcovLeafReceivedSuccess lock key assetId x dProgram) stack = true) :
    PaysAtLeast E assetId x.toNat (p2tr dProgram) := by
  obtain ⟨b, h, hb⟩ := (satisfies_iff.1 h).2
  unfold tcovLeafReceivedSuccess at h
  obtain ⟨_, s, _, h⟩ := of_run_addLock lock h
  simp only [cons_append, nil_append] at h
  rw [pushXonly, run_push (by simp [maxElement])] at h
  obtain ⟨sig, s, _, _, h⟩ := of_run_checkSigVerify h
  exact (of_run_addCov hx hrange h hb).2

lemma returns_of_revoke {K : Crypto} {perCommitmentPoint : ByteString 33}
    (hrange : TxInRange E.tx)
    (h : satisfies E (tcovLeafRevoke perCommitmentPoint (scriptpubkeyP2wpkh K key)) stack = true) :
    Returns E (scriptpubkeyP2wpkh K key) := by
  obtain ⟨b, h, hb⟩ := (satisfies_iff.1 h).2
  -- the point lock of the commitment's secret comes before the covenant
  obtain ⟨_, s, _, h⟩ := of_run_addLock (.point perCommitmentPoint) h
  exact (of_run_addKeep hrange h hb).2

end leaves

/-! ### The outputs -/

/-- The leaf by which the holder of a commitment claims an HTLC it offered or received pays the amount
to the balance program of the same keys, after the expiry for one it offered. The revocation leaf of a
balance, and of what such a claim pays, returns the whole value to the other side. -/
theorem tcov_outputs_hold_value (K : Crypto) (keyset : Keyset) (perCommitmentPoint : ByteString 33)
    (toSelfDelay : UInt16) (feeAssetTag : ByteString 33) (assetTag : Option (ByteString 33))
    (lock : Lock) (cltvExpiry : UInt32) (x : UInt64) (hx : x.toNat < 2 ^ 63) (d : TapTree2)
    (hd : tcovToLocalTree K keyset perCommitmentPoint toSelfDelay = some d) :
    (∀ t, tcovOfferedHtlcTree K keyset perCommitmentPoint toSelfDelay feeAssetTag assetTag lock
        cltvExpiry x = some t →
      ∃ assetId, tcovAssetId feeAssetTag assetTag = some assetId ∧
        t.leaf.1 = scriptBytes
          (tcovLeafOfferedTimeout keyset.selfHtlcKey cltvExpiry assetId x d.program) ∧
        ∀ E stack, TxInRange E.tx →
          satisfies E (tcovLeafOfferedTimeout keyset.selfHtlcKey cltvExpiry assetId x d.program)
            stack = true →
          PaysAtLeast E assetId x.toNat (p2tr d.program) ∧ AfterExpiry E cltvExpiry) ∧
    (∀ t, tcovReceivedHtlcTree K keyset perCommitmentPoint toSelfDelay feeAssetTag assetTag lock
        cltvExpiry x = some t →
      ∃ assetId, tcovAssetId feeAssetTag assetTag = some assetId ∧
        t.leaf.1 = scriptBytes
          (tcovLeafReceivedSuccess lock keyset.selfHtlcKey assetId x d.program) ∧
        ∀ E stack, TxInRange E.tx →
          satisfies E (tcovLeafReceivedSuccess lock keyset.selfHtlcKey assetId x d.program)
            stack = true →
          PaysAtLeast E assetId x.toNat (p2tr d.program)) ∧
    d.leaf.2 = scriptBytes (tcovLeafRevoke perCommitmentPoint (tcovRevokeDest K keyset)) ∧
    ∀ E stack, TxInRange E.tx →
      satisfies E (tcovLeafRevoke perCommitmentPoint (tcovRevokeDest K keyset)) stack = true →
      Returns E (tcovRevokeDest K keyset) := by
  refine ⟨?_, ?_, ?_, ?_⟩
  · intro t ht
    unfold tcovOfferedHtlcTree at ht
    rw [hd, bind_eq_bind, bind_some] at ht
    obtain ⟨assetId, hid, ht⟩ := bind_eq_some_iff.1 ht
    refine ⟨assetId, hid, congrArg Prod.fst (leaf_of_tapTree2Finish ht), ?_⟩
    intro E stack hrange hspend
    exact pays_of_offeredTimeout hx hrange hspend
  · intro t ht
    unfold tcovReceivedHtlcTree at ht
    rw [hd, bind_eq_bind, bind_some] at ht
    obtain ⟨assetId, hid, ht⟩ := bind_eq_some_iff.1 ht
    refine ⟨assetId, hid, congrArg Prod.fst (leaf_of_tapTree2Finish ht), ?_⟩
    intro E stack hrange hspend
    exact pays_of_receivedSuccess hx hrange hspend
  · exact congrArg Prod.snd (leaf_of_tapTree2Finish hd)
  · intro E stack hrange hspend
    exact returns_of_revoke hrange hspend

/-! ### A commitment's outputs -/

namespace OutputsExample

/-- Standard SHA256; a tweak is its own result, and a key hash the first bytes of a key. -/
def crypto : Crypto where
  hash := .standard
  curve := ⟨fun _ tweak => some (false, tweak)⟩
  hash160 := ByteString.pad 20

/-- The keys of a commitment. -/
def keyset : Keyset where
  selfRevocationKey := ⟨2 :: List.replicate 32 0x11, rfl⟩
  selfHtlcKey := ⟨2 :: List.replicate 32 0x12, rfl⟩
  otherHtlcKey := ⟨2 :: List.replicate 32 0x13, rfl⟩
  selfDelayedPaymentKey := ⟨2 :: List.replicate 32 0x14, rfl⟩
  otherPaymentKey := ⟨2 :: List.replicate 32 0x15, rfl⟩

def perCommitmentPoint : ByteString 33 := ⟨2 :: List.replicate 32 0x16, rfl⟩

def feeAssetTag : ByteString 33 := ⟨1 :: List.replicate 32 0x17, rfl⟩

def assetId : ByteString 32 := .replicate 32 0x17

/-- A transaction of one input of a thousand atoms, which pays them to a script. -/
def env (spk : Bytes) : Env where
  hash := .standard
  verifies _ _ _ := false
  tx :=
    { version := 2
      lockTime := 700
      inputs := [⟨0xfffffffd, ⟨.explicit assetId, .explicit 1000, witnessSpk 1 (List.replicate 32 5)⟩⟩]
      outputs := [⟨.explicit assetId, .explicit 1000, spk⟩] }
  idx := 0
  hash160 := crypto.hash160
  signed _ sig := sig = List.replicate 64 0x33
  isMul q _ k := q = perCommitmentPoint.bytes && k = List.replicate 32 0x44

lemma env_inRange (spk : Bytes) : TxInRange (env spk).tx where
  outputs o ho a ha := by
    obtain rfl := mem_singleton.1 ho
    cases ha
    decide
  inputs i hi a ha := by
    obtain rfl := mem_singleton.1 hi
    cases ha
    decide

/-- The balance output. -/
def d : TapTree2 :=
  (tcovToLocalTree crypto keyset perCommitmentPoint 144).get rfl

/-- An offered HTLC's timeout and a revocation, both of a thousand atoms. -/
theorem tcov_outputs_hold_value_spent :
    PaysAtLeast (env (p2tr d.program)) assetId 1000 (p2tr d.program) ∧
      AfterExpiry (env (p2tr d.program)) 600 ∧
      Returns (env (tcovRevokeDest crypto keyset)) (tcovRevokeDest crypto keyset) := by
  have hd : tcovToLocalTree crypto keyset perCommitmentPoint 144 = some d :=
    (some_get _).symm
  obtain ⟨hoffered, _, _, hrevoke⟩ := tcov_outputs_hold_value crypto keyset perCommitmentPoint 144
    feeAssetTag none (.hash (ByteString.replicate 20 9)) 600 1000 (by decide) d hd
  obtain ⟨id, hid, _, hpays⟩ := hoffered _ (by unfold tcovOfferedHtlcTree; rw [hd]; rfl)
  obtain rfl : assetId = id := some.inj hid
  have htimeout := hpays (env (p2tr d.program)) [List.replicate 64 0x33] (env_inRange _)
    (by decide +kernel)
  exact ⟨htimeout.1, htimeout.2, hrevoke (env _) [List.replicate 32 0x44] (env_inRange _)
    (by decide +kernel)⟩

end OutputsExample

end SeqLN.Tcov
