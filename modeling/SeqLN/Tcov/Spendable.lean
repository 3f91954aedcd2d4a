import SeqLN.Tcov.CreditChain

/-!
# Every output has a witness

For each leaf of `common/tcov_scripts.c`, `common/credit_scripts.c` and `common/sym_scripts.c` there
should be a transaction and a witness by which its owner spends it (`Spendable`). A leaf that ends in a
time lock leaves the lock's number as its result, and a zero is a false one: a relative lock of no
blocks, or an expiry of 0, makes a leaf that nobody can spend. `outputs_spendable_iff` says which are.
-/

namespace SeqLN.Tcov

open Tapscript SeqLN.Sym List Option

/-! ### Reading a leaf -/

variable {n : ℕ}

/-- A .push of the next `n` bytes. -/
def takePush (n : ℕ) (r : Bytes) : Option (Op × Bytes) :=
  if n ≤ r.length then some (.push (r.take n), r.drop n) else none

/-- The opcodes that are no pushes. -/
def opcodeOf : UInt8 → Option Op
  | 0x69 => some (.verify)
  | 0x6e => some .twoDup
  | 0x75 => some (.drop)
  | 0x76 => some .dup
  | 0x78 => some (.over)
  | 0x7b => some (.rot)
  | 0x7c => some (.swap)
  | 0x7d => some (.tuck)
  | 0x7e => some (.cat)
  | 0x82 => some .size
  | 0x87 => some (.equal)
  | 0x88 => some (.equalVerify)
  | 0x8b => some .oneAdd
  | 0xa8 => some (.sha256)
  | 0xa9 => some .hash160
  | 0xac => some .checkSig
  | 0xad => some .checkSigVerify
  | 0xb1 => some (.checkLockTimeVerify)
  | 0xb2 => some (.checkSequenceVerify)
  | 0xc2 => some (.checkSigFromStackVerify)
  | 0xc4 => some (.sha256Initialize)
  | 0xc5 => some (.sha256Update)
  | 0xc6 => some (.sha256Finalize)
  | 0xc8 => some (.inspectInput .asset)
  | 0xc9 => some (.inspectInput .value)
  | 0xca => some (.inspectInput .scriptPubKey)
  | 0xcd => some (.pushCurrentInputIndex)
  | 0xce => some (.inspectOutput .asset)
  | 0xcf => some (.inspectOutput .value)
  | 0xd1 => some (.inspectOutput .scriptPubKey)
  | 0xd8 => some .sub64
  | 0xde => some (.greaterThan64)
  | 0xdf => some .greaterThanOrEqual64
  | 0xe3 => some .ecMulScalarVerify
  | _ => none

/-- The first opcode of a script, and the rest. -/
def decodeCode : Bytes → Option (Op × Bytes)
  | [] => none
  | b :: r =>
    if b.toNat < 76 then takePush b.toNat r
    else if b = 0x4c then if 1 ≤ r.length then takePush (leNat (r.take 1)) (r.drop 1) else none
    else if b = 0x4d then if 2 ≤ r.length then takePush (leNat (r.take 2)) (r.drop 2) else none
    else if b = 0x4e then if 4 ≤ r.length then takePush (leNat (r.take 4)) (r.drop 4) else none
    else if 0x51 ≤ b ∧ b ≤ 0x60 then some (.push [b - 0x50], r)
    else (opcodeOf b).map fun o => (o, r)

/-- A script of at most so many opcodes. -/
def decodeScript : ℕ → Bytes → Option (List Op)
  | _, [] => some []
  | 0, _ :: _ => none
  | n + 1, b => (decodeCode b).bind fun p => (decodeScript n p.2).map (p.1 :: ·)

/-- A spend by a leaf that is given by its bytes. -/
def spendsLeaf (E : Env) (leaf : Bytes) (stack : List Bytes) : Bool :=
  match decodeScript leaf.length leaf with
  | some script => satisfies E script stack
  | none => false

/-- An opcode that the interpreter may run: a .push is within the limit. -/
def fits : Op → Bool
  | .push b => b.length ≤ maxElement
  | _ => true

lemma takePush_append (b r : Bytes) : takePush b.length (b ++ r) = some (.push b, r) := by
  rw [takePush, if_pos (by simp), take_left, drop_left]

lemma decodeCode_scriptPushBytes {b : Bytes} (r : Bytes) (hb : b.length ≤ maxElement) :
    decodeCode (scriptPushBytes b ++ r) = some (.push b, r) := by
  have hmax : maxElement = 520 := rfl
  unfold scriptPushBytes
  split_ifs with h76 h256 h65536
  · have hlen : (UInt8.ofNat b.length).toNat = b.length :=
      UInt8.toNat_ofNat_of_lt' (by simp [UInt8.size]; omega)
    rw [cons_append, decodeCode, hlen, if_pos h76, takePush_append]
  · have hlen : leNat [UInt8.ofNat b.length] = b.length := by
      have : (UInt8.ofNat b.length).toNat = b.length :=
        UInt8.toNat_ofNat_of_lt' (by simp [UInt8.size]; omega)
      simpa [leNat] using this
    rw [cons_append, decodeCode, if_neg (by decide), if_pos rfl, if_pos (by simp)]
    show takePush (leNat [UInt8.ofNat b.length]) (b ++ r) = _
    rw [hlen, takePush_append]
  · have hlen : leNat (leBytes 2 b.length) = b.length := leNat_leBytes_of_lt (by omega)
    have hw : (leBytes 2 b.length).length = 2 := length_leBytes _ _
    rw [cons_append, decodeCode, if_neg (by decide), if_neg (by decide), if_pos rfl,
      append_assoc, if_pos (by simp), take_left' hw, drop_left' hw, hlen,
      takePush_append]
  · omega

/-- An opcode's bytes are decoded to it. -/
lemma decodeCode_opBytes {o : Op} (r : Bytes) (h : fits o = true) :
    decodeCode (opBytes o ++ r) = some (o, r) := by
  cases o with
  | push b =>
    have hb : b.length ≤ maxElement := of_decide_eq_true h
    match b, hb with
    | [], _ => rfl
    | [b], hb =>
      show decodeCode ((if 1 ≤ b ∧ b ≤ 16 then [0x50 + b] else scriptPushBytes [b]) ++ r) = _
      split_ifs with hsmall
      · obtain ⟨n, hn, rfl⟩ : ∃ n : ℕ, (1 ≤ n ∧ n ≤ 16) ∧ b = UInt8.ofNat n :=
          ⟨b.toNat, ⟨UInt8.le_iff_toNat_le.1 hsmall.1, UInt8.le_iff_toNat_le.1 hsmall.2⟩, by simp⟩
        obtain ⟨h1, h16⟩ := hn
        interval_cases n <;> rfl
      · exact decodeCode_scriptPushBytes r hb
    | b :: c :: l, hb => exact decodeCode_scriptPushBytes r hb
  | inspectInput f => cases f <;> rfl
  | inspectOutput f => cases f <;> rfl
  | _ => rfl

lemma length_opBytes_pos {o : Op} (h : fits o = true) : 0 < (opBytes o).length := by
  have hdec := decodeCode_opBytes [] h
  cases hbytes : opBytes o with
  | nil =>
    rw [hbytes] at hdec
    cases hdec
  | cons b bs => exact Nat.succ_pos _

/-- A script's bytes are decoded to it. -/
lemma decodeScript_scriptBytes {s : List Op} (h : s.all fits = true)
    (hn : (scriptBytes s).length ≤ n) : decodeScript n (scriptBytes s) = some s := by
  induction s generalizing n with
  | nil => cases n <;> rfl
  | cons o s ih =>
    rw [all_cons, Bool.and_eq_true] at h
    have hcons : scriptBytes (o :: s) = opBytes o ++ scriptBytes s := rfl
    have hpos := length_opBytes_pos h.1
    rw [hcons, length_append] at hn
    obtain ⟨n, rfl⟩ : ∃ m, n = m + 1 := ⟨n - 1, by omega⟩
    -- an opcode has a byte, so the rest is decoded with one step fewer
    have hne : opBytes o ++ scriptBytes s ≠ [] := by
      intro h0
      rw [(append_eq_nil_iff.1 h0).1] at hpos
      exact absurd hpos (Nat.lt_irrefl 0)
    rw [hcons, decodeScript.eq_3 _ _ (fun h0 => hne h0), decodeCode_opBytes (scriptBytes s) h.1,
      bind_some, ih h.2 (by omega), map_some]

lemma spendsLeaf_scriptBytes {s : List Op} (h : s.all fits = true) (E : Env)
    (stack : List Bytes) : spendsLeaf E (scriptBytes s) stack = satisfies E s stack := by
  rw [spendsLeaf, decodeScript_scriptBytes h le_rfl]

/-! ### Who can do what -/

/-- Signatures and multiples of points: a check of a message under a key, of the spend of a
transaction's input under a key, and of a point, another and a scalar. -/
structure Scheme where
  verifies : Bytes → Bytes → Bytes → Bool
  signed : Tx → ℕ → Bytes → Bytes → Bool
  isMul : Bytes → Bytes → Bytes → Bool

section owners

variable (K : Crypto) (S : Scheme)

/-- What a leaf is run against for an input of a transaction. -/
def spendEnv (tx : Tx) (idx : ℕ) : Env where
  hash := K.hash
  verifies := S.verifies
  tx
  idx
  hash160 := K.hash160
  signed := S.signed tx idx
  isMul := S.isMul

/-- The key's owner can sign every spend. -/
def Signs (key : ByteString 33) : Prop :=
  ∀ tx idx, ∃ sig, sig ≠ [] ∧ sig.length ≤ maxElement ∧ S.signed tx idx (xonly key).bytes sig = true

/-- The key's owner can sign every note. -/
def SignsNotes (key : ByteString 33) : Prop :=
  ∀ msg, ∃ sig, sig.length ≤ maxElement ∧ S.verifies (xonly key).bytes msg sig = true

/-- What opens a lock: the preimage, or the scalar of the point. -/
def Opens : Lock → Bytes → Prop
  | .hash ripemd, x => x.length = 32 ∧ K.hash160 x = ripemd
  | .point lockPoint, x => x.length = 32 ∧ S.isMul lockPoint.bytes generatorDer x = true

variable {K S} in
/-- What opens a lock is within the limit. -/
theorem Opens.length_le {lock : Lock} {x : Bytes} (h : Opens K S lock x) : x.length ≤ maxElement := by
  have hlen : x.length = 32 := by cases lock <;> exact h.1
  rw [hlen]
  decide

/-- A transaction with amounts in range spends the output by the leaf. -/
def Spendable (out : TxOut) (leaf : Bytes) : Prop :=
  ∃ tx idx input stack, tx.inputs[idx]? = some input ∧ input.spent = out ∧ TxInRange tx ∧
    spendsLeaf (spendEnv K S tx idx) leaf stack = true

/-- A spend of one output. -/
def spendTx (lockTime sequence : UInt32) (out : TxOut) (outputs : List TxOut) : Tx :=
  ⟨2, lockTime, [⟨sequence, out⟩], outputs⟩

end owners

section forward

variable {K : Crypto} {S : Scheme} {out : TxOut} {outputs : List TxOut} {lockTime sequence : UInt32}

lemma spendTx_inRange (hout : valueInRange out.value) (h : ∀ o ∈ outputs, valueInRange o.value) :
    TxInRange (spendTx lockTime sequence out outputs) where
  outputs := h
  inputs i hi := by
    obtain rfl := mem_singleton.1 hi
    exact hout

variable {v : UInt64}

lemma valueInRange_explicit (h : v.toNat < 2 ^ 63) : valueInRange (.explicit v) := by
  intro a ha
  cases ha
  exact h

/-- A script that is run to a true element for a spend of the output. -/
theorem spendable_of_run {script : List Op} {x : Bytes} (stack : List Bytes)
    (lockTime sequence : UInt32) (outputs : List TxOut) (hout : valueInRange out.value)
    (hrange : ∀ o ∈ outputs, valueInRange o.value) (hfits : script.all fits = true)
    (hstack : ∀ b ∈ stack, b.length ≤ maxElement)
    (hrun : run (spendEnv K S (spendTx lockTime sequence out outputs) 0) script stack = some [x])
    (hx : castToBool x = true) : Spendable K S out (scriptBytes script) := by
  refine ⟨spendTx lockTime sequence out outputs, 0, ⟨sequence, out⟩, stack, rfl, rfl,
    spendTx_inRange hout hrange, ?_⟩
  rw [spendsLeaf_scriptBytes hfits, satisfies, Bool.and_eq_true]
  refine ⟨List.all_eq_true.2 fun b hb => decide_eq_true (hstack b hb), ?_⟩
  rw [hrun]
  exact hx

/-- A script of which no run ends with a true element. -/
theorem not_spendable_of_run {script : List Op} (hfits : script.all fits = true)
    (h : ∀ E stack x, run E script stack = some [x] → castToBool x = false) :
    ¬ Spendable K S out (scriptBytes script) := by
  rintro ⟨tx, idx, _, stack, _, _, _, hspend⟩
  rw [spendsLeaf_scriptBytes hfits] at hspend
  obtain ⟨x, hrun, hx⟩ := (satisfies_iff.1 hspend).2
  rw [h _ _ _ hrun] at hx
  cases hx

/-! ### Locks and time locks -/

variable {lock : Lock}

variable {E : Env} {os : List Op} {s : List Bytes}

lemma run_pushXonly (key : ByteString 33) :
    run E (pushXonly key :: os) s = run E os ((xonly key).bytes :: s) :=
  run_push (by simp [maxElement])

/-- What opens the lock passes it. -/
lemma run_addLock {tx : Tx} {idx : ℕ} {x : Bytes} (h : Opens K S lock x) :
    run (spendEnv K S tx idx) (addLock lock ++ os) (x :: s) =
      run (spendEnv K S tx idx) os s := by
  cases lock with
  | hash ripemd =>
    obtain ⟨hlen, hhash⟩ := h
    simp only [addLock, addHashlock, cons_append, nil_append]
    rw [run_size, hlen, run_pushNum (by decide), run_equalVerify_self, run_hash160,
      show (spendEnv K S tx idx).hash160 x = ripemd from hhash,
      run_push (by simp [maxElement]), run_equalVerify_self]
  | point lockPoint =>
    obtain ⟨hlen, hmul⟩ := h
    simp only [addLock, addPointlock, cons_append, nil_append]
    rw [run_push (by simp [maxElement]), run_push (by decide), run_rot,
      run_ecMulScalarVerify hlen hmul]

/-- A transaction whose lock time is the expiry passes the expiry's check. -/
theorem lockTimeOk_spendTx (expiry : UInt32) (out : TxOut) (outputs : List TxOut) :
    lockTimeOk (spendEnv K S (spendTx expiry 0 out outputs) 0) expiry.toNat = true := by
  show ((decide ((expiry.toNat : ℤ) < 500000000) == decide (expiry.toNat < 500000000)) &&
    decide ((expiry.toNat : ℤ) ≤ expiry.toNat) && decide ((0 : UInt32) ≠ 0xffffffff)) = true
  rw [Bool.and_eq_true, Bool.and_eq_true, beq_iff_eq, decide_eq_decide]
  exact ⟨⟨by norm_cast, by simp⟩, by decide⟩

/-- An input whose sequence is the delay passes the delay's check. -/
theorem sequenceOk_spendTx (delay : UInt16) (out : TxOut) (outputs : List TxOut) :
    sequenceOk (spendEnv K S (spendTx 0 delay.toUInt32 out outputs) 0) delay.toNat = true := by
  have hlt := delay.toNat_lt
  have hseq : delay.toUInt32.toNat = delay.toNat := rfl
  have h31 : delay.toNat.testBit 31 = false := Nat.testBit_lt_two_pow (by omega)
  show (delay.toNat.testBit 31 || (decide (2 ≤ (2 : UInt32).toNat) &&
    !delay.toUInt32.toNat.testBit 31 &&
    (delay.toNat.testBit 22 == delay.toUInt32.toNat.testBit 22) &&
    decide (delay.toNat % 2 ^ 16 ≤ delay.toUInt32.toNat % 2 ^ 16))) = true
  rw [hseq, h31]
  simp

/-! ### Covenants -/

variable {key : ByteString 33}

lemma spkFields_p2tr (H : Hashing) (program : ByteString 32) :
    spkFields H (p2tr program) = (program.bytes, [1]) := by
  have hspk : p2tr program = witnessSpk 1 program.bytes := by simp [witnessSpk, p2tr]
  rw [spkFields, hspk, witnessProgram_witnessSpk (by decide) (by simp) (by simp)]
  show (program.bytes, scriptNum 1) = (program.bytes, [1])
  rw [show scriptNum 1 = [1] by decide]

lemma spkFields_p2wpkh (H : Hashing) (K : Crypto) (key : ByteString 33) :
    spkFields H (scriptpubkeyP2wpkh K key) = ((K.hash160 key.bytes).bytes, []) := by
  rw [spkFields, ← witnessSpk_p2wpkh, witnessProgram_witnessSpk (by decide) (by simp) (by simp)]
  show ((K.hash160 key.bytes).bytes, scriptNum 0) = ((K.hash160 key.bytes).bytes, [])
  rw [show scriptNum 0 = [] by decide]

section fields

variable {f : Field} {o : TxOut} {i : ℕ} {a v : Bytes}

/-- A field of an output whose second element is the one that is asked for. -/
theorem run_outputField (ho : outputAt E i = some o) (h : o.fields E.hash f = (a, v))
    (hv : v.length ≤ maxElement) :
    run E (.inspectOutput f :: .push v :: .equalVerify :: os) (scriptNum i :: s) =
      run E os (a :: s) := by
  rw [run_inspectOutput, ho, bind_some, run_push hv, pushFields, h,
    run_equalVerify_self]

lemma run_inputField (ho : spentAt E i = some o) (h : o.fields E.hash f = (a, v))
    (hv : v.length ≤ maxElement) :
    run E (.inspectInput f :: .push v :: .equalVerify :: os) (scriptNum i :: s) =
      run E os (a :: s) := by
  rw [run_inspectInput, ho, bind_some, run_push hv, pushFields, h,
    run_equalVerify_self]

end fields

/-- The fields of an output with an explicit asset and amount. -/
theorem fields_explicit (H : Hashing) (assetId : ByteString 32) (v : UInt64) (spk : Bytes) :
    TxOut.fields H ⟨.explicit assetId, .explicit v, spk⟩ .asset = (assetId.bytes, [1]) ∧
      TxOut.fields H ⟨.explicit assetId, .explicit v, spk⟩ .value = (leBytes 8 v.toNat, [1]) ∧
      TxOut.fields H ⟨.explicit assetId, .explicit v, spk⟩ .scriptPubKey = spkFields H spk :=
  ⟨rfl, rfl, rfl⟩

lemma ofBool_self (x : Bytes) : ofBool (x = x) = [1] := by simp [ofBool]

/-- The covenant is met by an output of the amount to the program. -/
theorem run_addCov {assetId dProgram : ByteString 32} {x : UInt64}
    (ho : outputAt E E.idx = some ⟨.explicit assetId, .explicit x, p2tr dProgram⟩) :
    run E (addCov assetId x dProgram) [] = some [[1]] := by
  obtain ⟨hasset, hvalue, hspk⟩ := fields_explicit E.hash assetId x (p2tr dProgram)
  rw [spkFields_p2tr] at hspk
  unfold addCov
  rw [run_pushCurrentInputIndex, run_dup, run_dup,
    run_outputField ho hasset (by decide), run_push (by simp [maxElement]),
    run_equalVerify_self, run_outputField ho hvalue (by decide), pushLe8,
    run_push (by simp [maxElement]),
    run_greaterThanOrEqual64_verify (length_leBytes _ _) (length_leBytes _ _) le_rfl,
    run_outputField ho hspk (by decide), run_push (by simp [maxElement]),
    run_equal, run_nil, ofBool_self]

/-- The covenant is met by an output of what the input has, to the script. -/
theorem run_addKeep {assetId : ByteString 32} {spk : Bytes}
    (ho : outputAt E E.idx =
      some ⟨.explicit assetId, .explicit v, scriptpubkeyP2wpkh K key⟩)
    (hi : spentAt E E.idx = some ⟨.explicit assetId, .explicit v, spk⟩) :
    run E (addKeep (scriptpubkeyP2wpkh K key)) [] = some [[1]] := by
  obtain ⟨hasset, hvalue, hspk⟩ := fields_explicit E.hash assetId v (scriptpubkeyP2wpkh K key)
  obtain ⟨hassetIn, hvalueIn, -⟩ := fields_explicit E.hash assetId v spk
  rw [spkFields_p2wpkh] at hspk
  unfold addKeep
  rw [segwitProgram_p2wpkh, run_pushCurrentInputIndex, run_dup,
    run_outputField ho hasset (by decide), run_over,
    run_inputField hi hassetIn (by decide), run_equalVerify_self, run_dup,
    run_outputField ho hvalue (by decide), run_over,
    run_inputField hi hvalueIn (by decide),
    run_greaterThanOrEqual64_verify (length_leBytes _ _) (length_leBytes _ _) le_rfl]
  show run E [.inspectOutput .scriptPubKey, .push [], .equalVerify,
    .push (K.hash160 key.bytes).bytes, .equal] [scriptNum E.idx] = _
  rw [run_outputField ho hspk (by decide), run_push (by simp [maxElement]),
    run_equal, run_nil, ofBool_self]

/-! ### The leaves -/

lemma length_scriptNum_fits (h : n < 2 ^ 32) : (scriptNum n).length ≤ 520 :=
  (length_scriptNum_le (w := 4) (by omega)).trans (by decide)

lemma fits_addLock (lock : Lock) : (addLock lock).all fits = true := by
  cases lock with
  | hash ripemd =>
    have := length_scriptNum_fits (n := 32) (by decide)
    simp [addLock, addHashlock, pushNum, fits, maxElement, this]
  | point lockPoint => simp [addLock, addPointlock, generatorDer, fits, maxElement]

lemma fits_addCov (assetId : ByteString 32) (x : UInt64) (dProgram : ByteString 32) :
    (addCov assetId x dProgram).all fits = true := by
  simp [addCov, pushLe8, fits, maxElement]

lemma fits_addKeep (K : Crypto) (key : ByteString 33) :
    (addKeep (scriptpubkeyP2wpkh K key)).all fits = true := by
  simp [addKeep, segwitProgram_p2wpkh, versionBytes, fits, maxElement]

/-- A leaf of a signature and a time lock, whose number is the result: where the lock is open, it can
be spent unless the number is zero. -/
theorem timeLock_spendable_iff {o : Op} (lockTime sequence : UInt32) (hn : n < 2 ^ 32)
    (hfits : fits o = true) (hsign : Signs S key) (hout : valueInRange out.value)
    (hleft : ∀ E s r, run E [o] (scriptNum n :: s) = some r → r = scriptNum n :: s)
    (hopen : run (spendEnv K S (spendTx lockTime sequence out []) 0) [o] [scriptNum n] =
      some [scriptNum n]) :
    Spendable K S out (scriptBytes [pushXonly key, .checkSigVerify, pushNum n, o]) ↔ n ≠ 0 := by
  have hall : [pushXonly key, .checkSigVerify, pushNum n, o].all fits = true := by
    have hkey : fits (pushXonly key) = true := by simp [pushXonly, fits, maxElement]
    have hnum : fits (pushNum n) = true := decide_eq_true (length_scriptNum_fits hn)
    simp only [all_cons, hkey, hnum, hfits]
    rfl
  constructor
  · rintro h rfl
    refine not_spendable_of_run hall ?_ h
    intro E stack x hrun
    rw [run_pushXonly] at hrun
    obtain ⟨sig, s, _, _, hrun⟩ := of_run_checkSigVerify hrun
    rw [run_pushNum hn] at hrun
    cases hleft E s _ hrun
    decide
  · intro hne
    obtain ⟨sig, hsig, hlen, hsigned⟩ := hsign (spendTx lockTime sequence out []) 0
    refine spendable_of_run [sig] lockTime sequence [] hout (by simp) hall (by simpa) ?_
      (castToBool_scriptNum.2 hne)
    rw [run_pushXonly, run_checkSigVerify hsig hsigned, run_pushNum hn, hopen]

/-- The holder's balance. -/
theorem delay_spendable_iff {delay : UInt16} (hsign : Signs S key) (hout : valueInRange out.value) :
    Spendable K S out (scriptBytes (tcovLeafDelay key delay)) ↔ delay ≠ 0 := by
  have hlt : delay.toNat < 2 ^ 32 := delay.toNat_lt.trans (by decide)
  refine (timeLock_spendable_iff 0 delay.toUInt32 hlt rfl hsign hout ?_ ?_).trans
    (UInt16.toNat_inj (b := 0)).not
  · intro E s r h
    rw [run_checkSequenceVerify (readScriptNum_lock hlt)] at h
    split_ifs at h
    exact (some.inj h).symm
  · rw [run_checkSequenceVerify (readScriptNum_lock hlt), if_pos (sequenceOk_spendTx delay out []),
      run_nil]

/-- An HTLC that was received, after its expiry. -/
theorem receivedTimeout_spendable_iff {expiry : UInt32} (hsign : Signs S key)
    (hout : valueInRange out.value) :
    Spendable K S out (scriptBytes (tcovLeafReceivedTimeout key expiry)) ↔ expiry ≠ 0 := by
  have hlt := expiry.toNat_lt
  refine (timeLock_spendable_iff expiry 0 hlt rfl hsign hout ?_ ?_).trans
    (UInt32.toNat_inj (b := 0)).not
  · intro E s r h
    exact (some.inj (of_run_checkLockTimeVerify hlt h).2).symm
  · rw [run_checkLockTimeVerify_of_open hlt (lockTimeOk_spendTx expiry out []), run_nil]

section outputs

variable {assetId dProgram : ByteString 32} {x : UInt64} {spk : Bytes}

/-- The first output of a spend, and the output it spends. -/
theorem outputAt_spendTx (o : TxOut) :
    outputAt (spendEnv K S (spendTx lockTime sequence out (o :: outputs)) 0) 0 = some o ∧
      spentAt (spendEnv K S (spendTx lockTime sequence out (o :: outputs)) 0) 0 = some out := by
  rw [outputAt_eq (by decide), spentAt_eq (by decide)]
  exact ⟨rfl, rfl⟩

/-- With the secret, the whole value goes to the other side. -/
theorem revoke_spendable {perCommitmentPoint : ByteString 33} {secret : Bytes}
    (hsecret : Opens K S (.point perCommitmentPoint) secret) (hx : x.toNat < 2 ^ 63) :
    Spendable K S ⟨.explicit assetId, .explicit x, spk⟩
      (scriptBytes (tcovLeafRevoke perCommitmentPoint (scriptpubkeyP2wpkh K key))) := by
  have hrange := valueInRange_explicit hx
  have hleaf : tcovLeafRevoke perCommitmentPoint (scriptpubkeyP2wpkh K key) =
    addLock (.point perCommitmentPoint) ++ addKeep (scriptpubkeyP2wpkh K key) := rfl
  rw [hleaf]
  let o : TxOut := ⟨.explicit assetId, .explicit x, scriptpubkeyP2wpkh K key⟩
  refine spendable_of_run [secret] 0 0 [o] hrange (by simpa [o] using hrange) ?_ ?_ (x := [1]) ?_
    (by decide)
  · rw [all_append, fits_addLock, fits_addKeep]
    rfl
  · simpa using hsecret.length_le
  · rw [run_addLock hsecret, run_addKeep (outputAt_spendTx o).1 (outputAt_spendTx o).2]

/-- The timeout leaf pays the owner back after the expiry. -/
theorem offeredTimeout_spendable {expiry : UInt32} (hsign : Signs S key) (hx : x.toNat < 2 ^ 63) :
    Spendable K S ⟨.explicit assetId, .explicit x, spk⟩
      (scriptBytes (tcovLeafOfferedTimeout key expiry assetId x dProgram)) := by
  have hlt := expiry.toNat_lt
  have hrange := valueInRange_explicit hx
  let o : TxOut := ⟨.explicit assetId, .explicit x, p2tr dProgram⟩
  obtain ⟨sig, hsig, hlen, hsigned⟩ :=
    hsign (spendTx expiry 0 ⟨.explicit assetId, .explicit x, spk⟩ [o]) 0
  refine spendable_of_run [sig] expiry 0 [o] hrange (by simpa [o] using hrange) ?_
    (by simpa) (x := [1]) ?_ (by decide)
  · rw [tcovLeafOfferedTimeout, all_append, fits_addCov]
    have := length_scriptNum_fits hlt
    simp [pushXonly, pushNum, fits, maxElement, this]
  · unfold tcovLeafOfferedTimeout
    simp only [cons_append, nil_append]
    rw [run_pushXonly, run_checkSigVerify hsig hsigned, run_pushNum hlt,
      run_checkLockTimeVerify_of_open hlt (lockTimeOk_spendTx expiry _ [o]), run_drop,
      run_addCov (outputAt_spendTx o).1]

lemma offeredSuccess_spendable {w : Bytes} (hsign : Signs S key) (hopen : Opens K S lock w)
    (hout : valueInRange out.value) :
    Spendable K S out (scriptBytes (tcovLeafOfferedSuccess lock key)) := by
  have hw := hopen.length_le
  obtain ⟨sig, hsig, hlen, hsigned⟩ := hsign (spendTx 0 0 out []) 0
  refine spendable_of_run [w, sig] 0 0 [] hout (by simp) ?_ (by simp [hw, hlen])
    (x := [1]) ?_ (by decide)
  · rw [tcovLeafOfferedSuccess, all_append, fits_addLock]
    simp [pushXonly, fits, maxElement]
  · rw [tcovLeafOfferedSuccess, run_addLock hopen, run_pushXonly,
      run_checkSig hsig hsigned, run_nil]

/-- The success leaf pays with what opens the lock. -/
theorem receivedSuccess_spendable {w : Bytes} (hsign : Signs S key) (hopen : Opens K S lock w)
    (hx : x.toNat < 2 ^ 63) :
    Spendable K S ⟨.explicit assetId, .explicit x, spk⟩
      (scriptBytes (tcovLeafReceivedSuccess lock key assetId x dProgram)) := by
  have hrange := valueInRange_explicit hx
  have hw := hopen.length_le
  let o : TxOut := ⟨.explicit assetId, .explicit x, p2tr dProgram⟩
  obtain ⟨sig, hsig, hlen, hsigned⟩ :=
    hsign (spendTx 0 0 ⟨.explicit assetId, .explicit x, spk⟩ [o]) 0
  refine spendable_of_run [w, sig] 0 0 [o] hrange (by simpa [o] using hrange) ?_
    (by simp [hw, hlen]) (x := [1]) ?_ (by decide)
  · rw [tcovLeafReceivedSuccess, all_append, all_append, fits_addLock, fits_addCov]
    simp [pushXonly, fits, maxElement]
  · rw [tcovLeafReceivedSuccess, run_addLock hopen]
    simp only [cons_append, nil_append]
    rw [run_pushXonly, run_checkSigVerify hsig hsigned, run_addCov (outputAt_spendTx o).1]

/-! ### The CLAIM leaf -/

lemma le8s_natCast (h : n < 2 ^ 64) : le8s n = leBytes 8 n := by
  unfold le8s
  congr 1
  omega

lemma run_claimNote {dtag : ByteString 32} {creditKey : ByteString 33} {c sig w : Bytes}
    (hw : w.length = 32) (hc : c.length = 8)
    (hsig : E.verifies (xonly creditKey).bytes (creditNoteMsg dtag c (E.hash.sha256 w)) sig = true) :
    run E (claimNote dtag creditKey ++ os) (w :: c :: sig :: s) = run E os (c :: s) := by
  have hhash := E.hash.sha256_length w
  unfold creditNoteMsg at hsig
  simp only [claimNote, cons_append, nil_append]
  rw [run_size, hw, run_push (by decide), show scriptNum 32 = [32] by decide,
    run_equalVerify_self, run_sha256, run_over, run_push (by simp [maxElement]),
    run_swap, run_cat_of_le (by simp [maxElement, hc]), run_swap,
    run_cat_of_le (by simp [maxElement, hc, hhash]), run_rot, run_swap, run_pushXonly,
    run_checkSigFromStackVerify_of_verifies hsig]

/-- Nothing was paid before: the difference is the credit. -/
theorem run_claimDelta {b : UInt64} {c : ℕ} (hc : 0 < c) (hc' : c < 2 ^ 63)
    (hi : spentAt E E.idx = some ⟨.explicit assetId, .explicit b, spk⟩) :
    run E (claimDelta b ++ os) (leBytes 8 c :: s) =
      run E os (leBytes 8 c :: leBytes 8 c :: s) := by
  obtain ⟨_, hvalue, _⟩ := fields_explicit E.hash assetId b spk
  have hpaid : readS64 (leBytes 8 b.toNat) - readS64 (leBytes 8 b.toNat) = 0 := Int.sub_self _
  have hzero : readS64 (le8s 0) = 0 := readS64_le8s (by decide)
  have hcred := readS64_leBytes hc'
  simp only [claimDelta, cons_append, nil_append]
  rw [pushLe8, run_push (by simp [maxElement]), run_pushCurrentInputIndex,
    run_inputField hi hvalue (by decide),
    run_sub64 (length_leBytes _ _) (length_leBytes _ _) (by rw [hpaid]; decide), hpaid,
    run_twoDup, run_greaterThan64_verify (length_le8s _) (length_leBytes _ _)
      (by rw [hzero, hcred]; omega),
    run_over, run_swap,
    run_sub64 (length_le8s _) (length_leBytes _ _)
      (by rw [hzero, hcred]; exact ⟨by omega, by omega⟩),
    hzero, hcred, Int.sub_zero, le8s_natCast (by omega)]

lemma run_claimHolder {t : TxOut} (hidx : E.idx < 2 ^ 31)
    (ho : outputAt E (E.idx + 1) = some ⟨t.asset, .explicit v, scriptpubkeyP2wpkh K key⟩)
    (hi : spentAt E E.idx = some t) :
    run E (claimHolder (scriptpubkeyP2wpkh K key) ++ os) (leBytes 8 v.toNat :: s) =
      run E os s := by
  have hvalue : TxOut.fields E.hash ⟨t.asset, .explicit v, scriptpubkeyP2wpkh K key⟩ .value =
    (leBytes 8 v.toNat, [1]) := rfl
  have hspk : TxOut.fields E.hash ⟨t.asset, .explicit v, scriptpubkeyP2wpkh K key⟩ .scriptPubKey =
    ((K.hash160 key.bytes).bytes, []) := spkFields_p2wpkh E.hash K key
  simp only [claimHolder, cons_append, nil_append, drop_scriptpubkeyP2wpkh]
  rw [run_pushCurrentInputIndex, run_oneAdd hidx, run_dup,
    run_outputField ho hvalue (by decide), run_rot, run_equalVerify_self, run_dup,
    run_outputField ho hspk (by decide), run_push (by simp [maxElement]),
    run_equalVerify_self, run_inspectOutput, ho, bind_some, pushFields,
    run_pushCurrentInputIndex, run_inspectInput, hi, bind_some, pushFields,
    run_rot]
  show run E (.equalVerify :: .equalVerify :: os)
    (t.asset.fields.2 :: t.asset.fields.2 :: t.asset.fields.1 :: t.asset.fields.1 :: s) = _
  rw [run_equalVerify_self, run_equalVerify_self]

lemma run_claimRest {b : UInt64} {c : ℕ} {u : UInt64} {o : TxOut} (hb : b.toNat < 2 ^ 63)
    (hu : u.toNat + c = b.toNat) (ho : outputAt E E.idx = some o)
    (hvalue : o.value = .explicit u) :
    run E (claimRest b ++ os) (leBytes 8 c :: s) = run E os s := by
  have hfield : o.fields E.hash .value = (leBytes 8 u.toNat, [1]) := by
    rw [TxOut.fields, hvalue]
    rfl
  have hrest : readS64 (leBytes 8 b.toNat) - readS64 (leBytes 8 c) = (u.toNat : ℤ) := by
    rw [readS64_leBytes hb, readS64_leBytes (by omega)]
    omega
  simp only [claimRest, cons_append, nil_append]
  rw [pushLe8, run_push (by simp [maxElement]), run_swap,
    run_sub64 (length_leBytes _ _) (length_leBytes _ _)
      (by rw [hrest]; exact ⟨by omega, by omega⟩),
    hrest, le8s_natCast (by omega), run_pushCurrentInputIndex,
    run_outputField ho hfield (by decide), run_equalVerify_self]

lemma run_claimSame {o t : TxOut} (ho : outputAt E E.idx = some o)
    (hi : spentAt E E.idx = some t) (hspk : o.spk = t.spk) (hasset : o.asset = t.asset) :
    run E claimSame [] = some [[1]] := by
  unfold claimSame
  rw [run_keepField, ho, bind_some, hi, bind_some]
  have hfspk : o.fields E.hash .scriptPubKey = t.fields E.hash .scriptPubKey :=
    congrArg (spkFields E.hash) hspk
  have hfasset : o.fields E.hash .asset = t.fields E.hash .asset := congrArg Asset.fields hasset
  rw [if_pos hfspk, run_pairFields, ho, bind_some, hi, bind_some, hfasset, if_pos rfl,
    run_equal, run_nil, ofBool_self]

lemma fits_creditLeafClaim (dtag : ByteString 32) (creditKey : ByteString 33) (b : UInt64)
    (key : ByteString 33) :
    (creditLeafClaim dtag creditKey b (scriptpubkeyP2wpkh K key)).all fits = true := by
  simp [creditLeafClaim, claimNote, claimDelta, claimHolder, claimRest, claimSame, pairFields,
    drop_scriptpubkeyP2wpkh, pushXonly, pushLe8, fits, maxElement]

/-- A note of one atom can be claimed of every output that is not empty. -/
theorem claim_spendable_iff {dtag : ByteString 32} {creditKey : ByteString 33} {value : UInt64}
    (hsign : SignsNotes S creditKey) (hvalue : value.toNat < 2 ^ 63) :
    Spendable K S ⟨.explicit assetId, .explicit value, spk⟩
      (scriptBytes (creditLeafClaim dtag creditKey value (scriptpubkeyP2wpkh K key))) ↔ value ≠ 0 := by
  have hfits := fits_creditLeafClaim (K := K) dtag creditKey value key
  constructor
  · rintro ⟨tx, idx, input, stack, hinput, hspent, hrange, hspend⟩ rfl
    rw [spendsLeaf_scriptBytes hfits] at hspend
    obtain ⟨w, c, sig, t, paid, rest, _, hclaim⟩ := claim_of_spends hvalue hrange hspend
    obtain ⟨input', hinput', rfl⟩ := hclaim.input
    obtain rfl : input = input' := some.inj (hinput.symm.trans hinput')
    obtain ⟨v, _, u, hv, _, _, hlt, _, hu⟩ := hclaim.values
    rw [hspent, Value.explicit.injEq] at hv
    rw [← hv, Int.sub_self] at hlt
    have h0 : ((0 : UInt64).toNat : ℤ) = 0 := rfl
    omega
  · intro hne
    have hpos : 0 < value.toNat := by
      rw [Nat.pos_iff_ne_zero]
      exact fun h0 => hne (UInt64.toNat_inj.1 h0)
    have hsub : (value - 1).toNat = value.toNat - 1 :=
      UInt64.toNat_sub_of_le _ _ (UInt64.le_iff_toNat_le.2 hpos)
    let preimage : Bytes := List.replicate 32 0
    let t : TxOut := ⟨.explicit assetId, .explicit value, spk⟩
    let rest : TxOut := ⟨.explicit assetId, .explicit (value - 1), spk⟩
    let paid : TxOut := ⟨.explicit assetId, .explicit 1, scriptpubkeyP2wpkh K key⟩
    obtain ⟨sig, hlen, hsigned⟩ :=
      hsign (creditNoteMsg dtag (leBytes 8 (1 : UInt64).toNat) (K.hash.sha256 preimage))
    have hrest : outputAt (spendEnv K S (spendTx 0 0 t [rest, paid]) 0) 0 = some rest :=
      (outputAt_spendTx rest).1
    have hspent : spentAt (spendEnv K S (spendTx 0 0 t [rest, paid]) 0) 0 = some t :=
      (outputAt_spendTx rest).2
    have hpaid : outputAt (spendEnv K S (spendTx 0 0 t [rest, paid]) 0) (0 + 1) = some paid := by
      rw [outputAt_eq (by decide)]
      rfl
    refine spendable_of_run [preimage, leBytes 8 (1 : UInt64).toNat, sig] 0 0 [rest, paid]
      (valueInRange_explicit hvalue) ?_ hfits ?_ (x := [1]) ?_ (by decide)
    · intro o ho
      obtain rfl | rfl : o = rest ∨ o = paid := by simpa using ho
      · exact valueInRange_explicit (by omega)
      · exact valueInRange_explicit (by decide)
    · intro w hw
      obtain rfl | rfl | rfl : w = preimage ∨ w = leBytes 8 (1 : UInt64).toNat ∨ w = sig := by
        simpa using hw
      · decide
      · decide
      · exact hlen
    · rw [creditLeafClaim, run_claimNote (by decide) (length_leBytes _ _) hsigned,
        run_claimDelta (by decide) (by decide) hspent,
        run_claimHolder (t := t) (show 0 < 2 ^ 31 by decide) hpaid hspent,
        run_claimRest (u := value - 1) hvalue (by rw [hsub]; exact Nat.sub_add_cancel hpos) hrest rfl,
        run_claimSame hrest hspent rfl rfl]

end outputs

end forward

/-! ### The leaves of a symmetric channel's HTLCs -/

lemma pushCode_of_two_le {b : Bytes} (h : 2 ≤ b.length) : pushCode b = scriptPushBytes b := by
  match b, h with
  | _ :: _ :: _, _ => rfl

lemma symLeafHtlcSuccess_eq (ripemd : ByteString 20) (key : ByteString 33) :
    symLeafHtlcSuccess ripemd key = scriptBytes (tcovLeafOfferedSuccess (.hash ripemd) key) := by
  have hripemd : opBytes (.push ripemd.bytes) = scriptPushBytes ripemd.bytes :=
    pushCode_of_two_le (by simp)
  have hkey : opBytes (pushXonly key) = Sym.pushXonly key := pushCode_of_two_le (by simp)
  have hnum : opBytes (pushNum 32) = pushNumBytes 32 := opBytes_pushNum 32
  show _ = [0x82] ++ (opBytes (pushNum 32) ++ ([0x88] ++ ([0xa9] ++
    (opBytes (.push ripemd.bytes) ++ ([0x88] ++ (opBytes (pushXonly key) ++ [0xac]))))))
  rw [hnum, hripemd, hkey]
  rfl

lemma symLeafHtlcTimeout_eq (key : ByteString 33) (expiry : UInt32) :
    symLeafHtlcTimeout key expiry.toNat = scriptBytes (tcovLeafReceivedTimeout key expiry) := by
  have hkey : opBytes (pushXonly key) = Sym.pushXonly key := pushCode_of_two_le (by simp)
  have hnum : opBytes (pushNum expiry.toNat) = pushNumBytes expiry.toNat := opBytes_pushNum _
  show _ = opBytes (pushXonly key) ++ ([0xad] ++ (opBytes (pushNum expiry.toNat) ++ [0xb1]))
  rw [hnum, hkey]
  rfl

/-! ### The outputs -/

/-- An output of an amount of an asset under a tree. -/
def treeOutput (assetId : ByteString 32) (x : UInt64) (t : TapTree2) : TxOut :=
  ⟨.explicit assetId, .explicit x, p2tr t.program⟩

/-- Of every output of a commitment, each leaf can be spent by who has its key and what else it asks,
but for those that end in a time lock: the delayed balance and the provider's balance take a delay that
is not 0, and the timeouts of a received HTLC and of a symmetric channel's an expiry that is not 0. -/
theorem outputs_spendable_iff (K : Crypto) (S : Scheme) (keyset : Keyset)
    (perCommitmentPoint : ByteString 33) (toSelfDelay : UInt16) (feeAssetTag : ByteString 33)
    (assetTag : Option (ByteString 33)) (lock : Lock) (cltvExpiry : UInt32) (x : UInt64)
    (hx : x.toNat < 2 ^ 63) :
    (∀ t assetId, tcovToLocalTree K keyset perCommitmentPoint toSelfDelay = some t →
      (Signs S keyset.selfDelayedPaymentKey →
        (Spendable K S (treeOutput assetId x t) t.leaf.1 ↔ toSelfDelay ≠ 0)) ∧
      ((∃ secret, Opens K S (.point perCommitmentPoint) secret) →
        Spendable K S (treeOutput assetId x t) t.leaf.2)) ∧
    (∀ t assetId, tcovAssetId feeAssetTag assetTag = some assetId →
      tcovOfferedHtlcTree K keyset perCommitmentPoint toSelfDelay feeAssetTag assetTag lock cltvExpiry
        x = some t →
      (Signs S keyset.selfHtlcKey → Spendable K S (treeOutput assetId x t) t.leaf.1) ∧
      (Signs S keyset.otherHtlcKey → (∃ w, Opens K S lock w) →
        Spendable K S (treeOutput assetId x t) t.leaf.2)) ∧
    (∀ t assetId, tcovAssetId feeAssetTag assetTag = some assetId →
      tcovReceivedHtlcTree K keyset perCommitmentPoint toSelfDelay feeAssetTag assetTag lock cltvExpiry
        x = some t →
      (Signs S keyset.selfHtlcKey → (∃ w, Opens K S lock w) →
        Spendable K S (treeOutput assetId x t) t.leaf.1) ∧
      (Signs S keyset.otherHtlcKey →
        (Spendable K S (treeOutput assetId x t) t.leaf.2 ↔ cltvExpiry ≠ 0))) ∧
    (∀ tweakAdd cid providerFundingKey holderPaymentBasepoint params providerPaymentKey t assetId,
      creditParamsInit K tweakAdd cid providerFundingKey holderPaymentBasepoint = some params →
      creditToRemoteTree K providerPaymentKey toSelfDelay params x = some t →
      (SignsNotes S params.creditKey →
        (Spendable K S (treeOutput assetId x t) t.leaf.1 ↔ x ≠ 0)) ∧
      (Signs S providerPaymentKey →
        (Spendable K S (treeOutput assetId x t) t.leaf.2 ↔ toSelfDelay ≠ 0))) ∧
    ∀ offererKey receiverKey paymentRipemd t assetId,
      symHtlcTree K.hash K.curve offererKey receiverKey paymentRipemd cltvExpiry.toNat = some t →
      (Signs S receiverKey → (∃ w, Opens K S (.hash paymentRipemd) w) →
        Spendable K S (treeOutput assetId x t) t.leaf.1) ∧
      (Signs S offererKey →
        (Spendable K S (treeOutput assetId x t) t.leaf.2 ↔ cltvExpiry ≠ 0)) := by
  have hrange := valueInRange_explicit hx
  refine ⟨?_, ?_, ?_, ?_, ?_⟩
  · intro t assetId ht
    rw [leaf_of_tapTree2Finish ht]
    refine ⟨fun hsign => delay_spendable_iff hsign hrange, ?_⟩
    rintro ⟨secret, hsecret⟩
    exact revoke_spendable hsecret hx
  · intro t assetId hid ht
    obtain ⟨d, _, ht⟩ := bind_eq_some_iff.1 ht
    obtain ⟨assetId', hid', ht⟩ := bind_eq_some_iff.1 ht
    obtain rfl : assetId = assetId' := some.inj (hid.symm.trans hid')
    rw [leaf_of_tapTree2Finish ht]
    refine ⟨fun hsign => offeredTimeout_spendable hsign hx, ?_⟩
    rintro hsign ⟨w, hopen⟩
    exact offeredSuccess_spendable hsign hopen hrange
  · intro t assetId hid ht
    obtain ⟨d, _, ht⟩ := bind_eq_some_iff.1 ht
    obtain ⟨assetId', hid', ht⟩ := bind_eq_some_iff.1 ht
    obtain rfl : assetId = assetId' := some.inj (hid.symm.trans hid')
    rw [leaf_of_tapTree2Finish ht]
    refine ⟨?_, fun hsign => receivedTimeout_spendable_iff hsign hrange⟩
    rintro hsign ⟨w, hopen⟩
    exact receivedSuccess_spendable hsign hopen hx
  · intro tweakAdd cid providerFundingKey holderPaymentBasepoint params key t assetId hparams ht
    obtain ⟨creditKey, _, rfl⟩ := map_eq_some_iff.1 hparams
    obtain ⟨b, hb, hfinish⟩ := bind_eq_some_iff.1 ht
    -- no credit is folded, so the leaf has the output's own amount
    rw [creditB_eq_some rfl hb] at hfinish
    rw [leaf_of_tapTree2Finish hfinish]
    exact ⟨fun hsign => claim_spendable_iff hsign hx, fun hsign => delay_spendable_iff hsign hrange⟩
  · intro offererKey receiverKey paymentRipemd t assetId ht
    rw [leaf_of_tapTree2Finish ht, symLeafHtlcSuccess_eq, symLeafHtlcTimeout_eq]
    refine ⟨?_, fun hsign => receivedTimeout_spendable_iff hsign hrange⟩
    rintro hsign ⟨w, hopen⟩
    exact offeredSuccess_spendable hsign hopen hrange

/-! ### A balance without a delay -/

namespace SpendableExample

/-- One signature for all. -/
def scheme : Scheme where
  verifies _ _ sig := sig = List.replicate 64 0x33
  signed _ _ _ sig := sig = List.replicate 64 0x33
  isMul q _ k := q = OutputsExample.perCommitmentPoint.bytes && k = List.replicate 32 0x44

lemma signs (key : ByteString 33) : Signs scheme key := by
  intro tx idx
  exact ⟨List.replicate 64 0x33, by decide, by decide, by simp [scheme]⟩

/-- The balance output with a delay. -/
def balance (toSelfDelay : UInt16) : TapTree2 :=
  (tcovToLocalTree OutputsExample.crypto OutputsExample.keyset OutputsExample.perCommitmentPoint
    toSelfDelay).get rfl

/-- With a delay of a day the balance can be spent. -/
theorem balance_spendable_of_delay :
    Spendable OutputsExample.crypto scheme (treeOutput OutputsExample.assetId 1000 (balance 144))
      (balance 144).leaf.1 :=
  (((outputs_spendable_iff OutputsExample.crypto scheme OutputsExample.keyset
    OutputsExample.perCommitmentPoint 144 OutputsExample.feeAssetTag none
    (.hash (ByteString.replicate 20 9)) 600 1000 (by decide)).1 (balance 144) OutputsExample.assetId
      (some_get _).symm).1 (signs _)).2 (by decide)

/-- Without a delay the holder of the key that the leaf names has no way to spend the balance. -/
theorem balance_not_spendable :
    Signs scheme OutputsExample.keyset.selfDelayedPaymentKey ∧
      (balance 0).leaf.1 =
        scriptBytes (tcovLeafDelay OutputsExample.keyset.selfDelayedPaymentKey 0) ∧
      ¬ Spendable OutputsExample.crypto scheme (treeOutput OutputsExample.assetId 1000 (balance 0))
        (balance 0).leaf.1 := by
  have hleaf : (balance 0).leaf.1 =
      scriptBytes (tcovLeafDelay OutputsExample.keyset.selfDelayedPaymentKey 0) := rfl
  refine ⟨signs _, hleaf, ?_⟩
  intro h
  rw [hleaf] at h
  exact (delay_spendable_iff (signs _) (valueInRange_explicit (by decide))).1 h rfl

end SpendableExample

end SeqLN.Tcov
