import SeqLN.Lib.ScriptNum
import SeqLN.Lib.Sha256

/-!
# A tapscript machine with introspection

The part of the script interpreter of Elements chains that covenant leaves use: stack and byte
operations, 64-bit arithmetic, hash locks, signatures of the spend and of messages taken from the stack,
discrete logarithms, streaming SHA256 (`Hashing`), and introspection of the spending transaction
(`Tx`). That two strings do not collide is stated where it is used (`Hashing.NoCollision`).
`satisfies`: the script ends with one true element on the stack.

Limits that only refuse more spends (the operations budget, the stack depth) are left out.
-/

namespace SeqLN.Tapscript

open Option

/-! ### Hashing -/

/-- SHA256 with the streaming form the machine offers: `context m` is the serialised state after
the bytes `m`. -/
structure Hashing where
  sha256 : Bytes → Bytes
  context : Bytes → Bytes
  /-- Add bytes to a serialised state; `none` for a string that is no such state. -/
  update : Bytes → Bytes → Option Bytes
  /-- Add bytes to a serialised state and finish. -/
  finalize : Bytes → Bytes → Option Bytes
  sha256_length : ∀ m, (sha256 m).length = 32
  update_context : ∀ m x, update (context m) x = some (context (m ++ x))
  finalize_context : ∀ m x, finalize (context m) x = some (sha256 (m ++ x))

/-- The standard hash, a state serialised as the bytes it has taken in. -/
def Hashing.standard : Hashing where
  sha256 := Sha256.sha256
  context m := m
  update c x := some (c ++ x)
  finalize c x := some (Sha256.sha256 (c ++ x))
  sha256_length := Sha256.length_sha256
  update_context _ _ := rfl
  finalize_context _ _ := rfl

/-- The strings `a` and `b` are not a SHA256 collision. -/
def Hashing.NoCollision (H : Hashing) (a b : Bytes) : Prop := H.sha256 a = H.sha256 b → a = b

lemma Hashing.NoCollision.refl (H : Hashing) (a : Bytes) : H.NoCollision a a := fun _ => rfl

/-! ### Transactions -/

/-- An output's asset: its 32-byte id, or a commitment with its parity. -/
inductive Asset where
  | explicit (id : ByteString 32)
  | blinded (odd : Bool) (x : ByteString 32)
  deriving DecidableEq

/-- An output's value: the amount, or a commitment with its parity. -/
inductive Value where
  | explicit (amount : UInt64)
  | blinded (odd : Bool) (x : ByteString 32)
  deriving DecidableEq

/-- The bytes of an asset that introspection pushes, and the prefix byte it pushes over them. -/
def Asset.fields : Asset → Bytes × Bytes
  | .explicit id => (id.bytes, [1])
  | .blinded odd x => (x.bytes, [if odd then 0x0b else 0x0a])

/-- The bytes of a value that introspection pushes, and the prefix byte it pushes over them. -/
def Value.fields : Value → Bytes × Bytes
  | .explicit v => (leBytes 8 v.toNat, [1])
  | .blinded odd x => (x.bytes, [if odd then 0x09 else 0x08])

/-- Introspection tells assets apart. -/
theorem Asset.fields_inj {a b : Asset} (h : a.fields = b.fields) : a = b := by
  cases a <;> cases b <;> simp only [Asset.fields, Prod.mk.injEq, List.cons.injEq] at h
  · rw [ByteString.ext h.1]
  · split_ifs at h <;> simp at h
  · split_ifs at h <;> simp at h
  · obtain ⟨hx, hp, -⟩ := h
    rw [ByteString.ext hx]
    split_ifs at hp <;> simp_all

/-- Introspection tells values apart. -/
theorem Value.fields_inj {a b : Value} (h : a.fields = b.fields) : a = b := by
  cases a <;> cases b <;> simp only [Value.fields, Prod.mk.injEq, List.cons.injEq] at h
  · rw [UInt64.toNat_inj.mp (leBytes_inj (UInt64.toNat_lt _) (UInt64.toNat_lt _) h.1)]
  · split_ifs at h <;> simp at h
  · split_ifs at h <;> simp at h
  · obtain ⟨hx, hp, -⟩ := h
    rw [ByteString.ext hx]
    split_ifs at hp <;> simp_all

/-- A transaction output. -/
structure TxOut where
  asset : Asset
  value : Value
  spk : Bytes
  deriving DecidableEq

/-- An input: its sequence and the output it spends. -/
structure TxIn where
  sequence : UInt32
  spent : TxOut
  deriving DecidableEq

/-- What the machine sees of a transaction. -/
structure Tx where
  version : UInt32
  lockTime : UInt32
  inputs : List TxIn
  outputs : List TxOut
  deriving DecidableEq

/-- The scriptPubKey of version `v` and program `p`: the version opcode, then the push. -/
def witnessSpk (v : ℕ) (p : Bytes) : Bytes :=
  (if v = 0 then 0 else UInt8.ofNat (0x50 + v)) :: UInt8.ofNat p.length :: p

/-- The version and program of a witness scriptPubKey: `OP_0` or `OP_1` to `OP_16`, then one push of
the remainder, 2 to 40 bytes. -/
def witnessProgram : Bytes → Option (ℕ × Bytes)
  | o :: len :: p =>
    if 2 ≤ p.length ∧ p.length ≤ 40 ∧ len.toNat = p.length then
      if o = 0 then some (0, p)
      else if 0x51 ≤ o.toNat ∧ o.toNat ≤ 0x60 then some (o.toNat - 0x50, p)
      else none
    else none
  | _ => none

/-- The program of a witness scriptPubKey. -/
theorem witnessProgram_witnessSpk {v : ℕ} {p : Bytes} (hv : v ≤ 16) (h2 : 2 ≤ p.length)
    (h40 : p.length ≤ 40) : witnessProgram (witnessSpk v p) = some (v, p) := by
  have hlen : (UInt8.ofNat p.length).toNat = p.length :=
    UInt8.toNat_ofNat_of_lt' (by simp [UInt8.size]; omega)
  rw [witnessSpk, witnessProgram, if_pos ⟨h2, h40, hlen⟩]
  by_cases hv0 : v = 0
  · simp [hv0]
  · have hop : (UInt8.ofNat (0x50 + v)).toNat = 0x50 + v :=
      UInt8.toNat_ofNat_of_lt' (by simp [UInt8.size]; omega)
    have hne : UInt8.ofNat (0x50 + v) ≠ 0 := by
      intro h
      have h0 : (0 : UInt8).toNat = 0 := rfl
      rw [h] at hop
      omega
    rw [if_neg hv0, if_neg hne, if_pos (by omega), hop, Nat.add_sub_cancel_left]

/-- A witness scriptPubKey is determined by its version and program. -/
theorem eq_witnessSpk_of_witnessProgram {spk p : Bytes} {v : ℕ}
    (h : witnessProgram spk = some (v, p)) :
    spk = witnessSpk v p ∧ v ≤ 16 ∧ 2 ≤ p.length ∧ p.length ≤ 40 := by
  match spk, h with
  | o :: len :: q, h =>
    simp only [witnessProgram] at h
    split_ifs at h with hlen h0 hop
    · obtain ⟨rfl, rfl⟩ : 0 = v ∧ q = p := by simpa using h
      refine ⟨?_, by omega, hlen.1, hlen.2.1⟩
      rw [witnessSpk, if_pos rfl, h0, ← hlen.2.2, UInt8.ofNat_toNat]
    · obtain ⟨rfl, rfl⟩ : o.toNat - 0x50 = v ∧ q = p := by simpa using h
      refine ⟨?_, by omega, hlen.1, hlen.2.1⟩
      rw [witnessSpk, if_neg (by omega), ← hlen.2.2, UInt8.ofNat_toNat,
        show 0x50 + (o.toNat - 0x50) = o.toNat by omega, UInt8.ofNat_toNat]

/-- What introspection pushes for a scriptPubKey: a witness program and its version, or the script's
hash and `-1`. -/
def spkFields (H : Hashing) (spk : Bytes) : Bytes × Bytes :=
  match witnessProgram spk with
  | some (v, p) => (p, scriptNum v)
  | none => (H.sha256 spk, [0x81])

/-- The three fields of an output that introspection reads. -/
inductive Field where
  | asset
  | value
  | scriptPubKey
  deriving DecidableEq

/-- The two elements introspection pushes for a field of an output, the second one on top. -/
def TxOut.fields (H : Hashing) (o : TxOut) : Field → Bytes × Bytes
  | .asset => o.asset.fields
  | .value => o.value.fields
  | .scriptPubKey => spkFields H o.spk

/-! ### The machine -/

variable {i : ℕ}

/-- The opcodes the leaves use. -/
inductive Op where
  | push (b : Bytes)
  | drop
  | dup
  | twoDup
  | over
  | swap
  | rot
  | tuck
  | verify
  | equal
  | equalVerify
  | cat
  | size
  | oneAdd
  | hash160
  | sha256
  | sha256Initialize
  | sha256Update
  | sha256Finalize
  | greaterThan64
  | greaterThanOrEqual64
  | sub64
  | checkSig
  | checkSigVerify
  | checkSigFromStackVerify
  | ecMulScalarVerify
  | checkLockTimeVerify
  | checkSequenceVerify
  | pushCurrentInputIndex
  | inspectInput (f : Field)
  | inspectOutput (f : Field)
  deriving DecidableEq

/-- What a script is run against: the hashes, the checks of a signature (key, message, signature),
the transaction and the index of the input spent. -/
structure Env where
  hash : Hashing
  hash160 : Bytes → ByteString 20
  verifies : Bytes → Bytes → Bytes → Bool
  /-- The signature is a valid one of this spend, by the key. -/
  signed : Bytes → Bytes → Bool
  /-- The first point is the second times the scalar. -/
  isMul : Bytes → Bytes → Bytes → Bool
  tx : Tx
  idx : ℕ

/-- The longest element a script may push or build. -/
def maxElement : ℕ := 520

/-- An element read as a condition: some byte is not zero, a negative zero apart. -/
def castToBool : Bytes → Bool
  | [] => false
  | [b] => b ≠ 0 && b ≠ 0x80
  | b :: bs => b ≠ 0 || castToBool bs

/-- The element an opcode pushes for a condition. -/
def ofBool (c : Bool) : Bytes := if c then [1] else []

/-- A condition that was pushed is read back. -/
@[simp] theorem castToBool_ofBool (c : Bool) : castToBool (ofBool c) = c := by
  cases c <;> rfl

/-- The index an introspection opcode takes from the stack. -/
def readIndex (b : Bytes) : Option ℕ :=
  match readScriptNum 4 b with
  | some (.ofNat i) => some i
  | _ => none

/-- An index that is read is the one written. -/
theorem eq_of_readIndex_scriptNum {j : ℕ} (h : readIndex (scriptNum i) = some j) : j = i := by
  unfold readIndex at h
  rw [readScriptNum_scriptNum] at h
  split_ifs at h
  exact (some.inj h).symm

/-- An index of 31 bits is read. -/
theorem readIndex_scriptNum (h : i < 2 ^ 31) : readIndex (scriptNum i) = some i := by
  have hlen : (scriptNum i).length ≤ 4 := length_scriptNum_le (w := 3) (by omega)
  unfold readIndex
  rw [readScriptNum_scriptNum, if_pos hlen]

/-- The lock time check: same kind as the transaction's (height or time), not past it, and the
input not final. -/
def lockTimeOk (E : Env) (n : ℤ) : Bool :=
  match E.tx.inputs[E.idx]? with
  | some i =>
    (decide (n < 500000000) == decide (E.tx.lockTime.toNat < 500000000)) &&
      n ≤ E.tx.lockTime.toNat && i.sequence ≠ 0xffffffff
  | none => false

/-- The relative lock check: passed where the operand disables it; else the transaction is of
version 2 on, the input's sequence is enabled, of the operand's kind and not below it. -/
def sequenceOk (E : Env) (n : ℕ) : Bool :=
  n.testBit 31 ||
    match E.tx.inputs[E.idx]? with
    | some i =>
      2 ≤ E.tx.version.toNat && !i.sequence.toNat.testBit 31 &&
        (n.testBit 22 == i.sequence.toNat.testBit 22) &&
        n % 2 ^ 16 ≤ i.sequence.toNat % 2 ^ 16
    | none => false

/-- The signature check of the spend: an empty signature is false, a wrong one fails the script;
with a key whose size is not 32 nothing is checked. -/
def checkSigResult (E : Env) (key sig : Bytes) : Option Bool :=
  if key = [] then none
  else if sig = [] then some false
  else if key.length = 32 then if E.signed key sig then some true else none
  else some true

/-- The stack after an introspection opcode that found the pair `f`. -/
def pushFields (f : Bytes × Bytes) (s : List Bytes) : List Bytes := f.2 :: f.1 :: s

/-- One opcode. `none` is a failed script. -/
def step (E : Env) : Op → List Bytes → Option (List Bytes)
  | .push b, s => if b.length ≤ maxElement then some (b :: s) else none
  | .drop, _ :: s => some s
  | .dup, x :: s => some (x :: x :: s)
  | .twoDup, x :: y :: s => some (x :: y :: x :: y :: s)
  | .over, x :: y :: s => some (y :: x :: y :: s)
  | .swap, x :: y :: s => some (y :: x :: s)
  | .rot, x :: y :: z :: s => some (z :: x :: y :: s)
  | .tuck, x :: y :: s => some (x :: y :: x :: s)
  | .verify, x :: s => if castToBool x then some s else none
  | .equal, x :: y :: s => some (ofBool (y = x) :: s)
  | .equalVerify, x :: y :: s => if y = x then some s else none
  | .cat, x :: y :: s => if (y ++ x).length ≤ maxElement then some ((y ++ x) :: s) else none
  | .size, x :: s => some (scriptNum x.length :: x :: s)
  | .oneAdd, x :: s => (readScriptNum 4 x).map fun n => scriptNumInt (n + 1) :: s
  | .hash160, x :: s => some ((E.hash160 x).bytes :: s)
  | .sha256, x :: s => some (E.hash.sha256 x :: s)
  | .sha256Initialize, x :: s => some (E.hash.context x :: s)
  | .sha256Update, x :: c :: s => (E.hash.update c x).map (· :: s)
  | .sha256Finalize, x :: c :: s => (E.hash.finalize c x).map (· :: s)
  | .greaterThan64, x :: y :: s =>
    if x.length = 8 ∧ y.length = 8 then some (ofBool (readS64 x < readS64 y) :: s) else none
  | .greaterThanOrEqual64, x :: y :: s =>
    if x.length = 8 ∧ y.length = 8 then some (ofBool (readS64 x ≤ readS64 y) :: s) else none
  | .sub64, x :: y :: s =>
    -- an overflow leaves the operands under a false element
    if x.length = 8 ∧ y.length = 8 then
      if IsS64 (readS64 y - readS64 x) then some ([1] :: le8s (readS64 y - readS64 x) :: s)
      else some ([] :: x :: y :: s)
    else none
  | .checkSig, key :: sig :: s => (checkSigResult E key sig).map fun ok => ofBool ok :: s
  | .checkSigVerify, key :: sig :: s => if checkSigResult E key sig = some true then some s else none
  | .checkSigFromStackVerify, key :: msg :: sig :: s =>
    if E.verifies key msg sig then some s else none
  | .ecMulScalarVerify, k :: p :: q :: s =>
    if k.length = 32 ∧ E.isMul q p k then some s else none
  | .checkLockTimeVerify, x :: s =>
    match readScriptNum 5 x with
    | some n => if 0 ≤ n ∧ lockTimeOk E n then some (x :: s) else none
    | none => none
  | .checkSequenceVerify, x :: s =>
    match readScriptNum 5 x with
    | some (.ofNat n) => if sequenceOk E n then some (x :: s) else none
    | _ => none
  | .pushCurrentInputIndex, s => some (scriptNum E.idx :: s)
  | .inspectInput f, x :: s =>
    (readIndex x).bind fun i =>
      (E.tx.inputs[i]?).map fun t => pushFields (t.spent.fields E.hash f) s
  | .inspectOutput f, x :: s =>
    (readIndex x).bind fun i =>
      (E.tx.outputs[i]?).map fun o => pushFields (o.fields E.hash f) s
  | _, _ => none

/-- `OP_CHECKLOCKTIMEVERIFY` on a number it can read. -/
theorem step_checkLockTimeVerify (E : Env) {x : Bytes} (s : List Bytes) {n : ℤ}
    (hn : readScriptNum 5 x = some n) :
    step E .checkLockTimeVerify (x :: s) =
      if 0 ≤ n ∧ lockTimeOk E n then some (x :: s) else none := by
  show (match readScriptNum 5 x with
    | some n => if 0 ≤ n ∧ lockTimeOk E n then some (x :: s) else none
    | none => none) = _
  rw [hn]

/-- `OP_CHECKSEQUENCEVERIFY` on a number it can read. -/
theorem step_checkSequenceVerify (E : Env) {x : Bytes} (s : List Bytes) {n : ℕ}
    (hn : readScriptNum 5 x = some (n : ℤ)) :
    step E .checkSequenceVerify (x :: s) = if sequenceOk E n then some (x :: s) else none := by
  show (match readScriptNum 5 x with
    | some (.ofNat n) => if sequenceOk E n then some (x :: s) else none
    | _ => none) = _
  rw [hn]

/-- A whole script. -/
def run (E : Env) : List Op → List Bytes → Option (List Bytes)
  | [], s => some s
  | o :: os, s => (step E o s).bind (run E os)

/-- The empty script. -/
@[simp] theorem run_nil (E : Env) (s : List Bytes) : run E [] s = some s := rfl

/-- The first opcode, then the others. -/
theorem run_cons (E : Env) (o : Op) (os : List Op) (s : List Bytes) :
    run E (o :: os) s = (step E o s).bind (run E os) := rfl

/-- The spend is valid: the initial elements are within the limit and the script leaves exactly
one element, a true one. -/
def satisfies (E : Env) (script : List Op) (stack : List Bytes) : Bool :=
  stack.all (fun x => x.length ≤ maxElement) &&
    match run E script stack with
    | some [x] => castToBool x
    | _ => false

variable {E : Env}

/-- What a valid spend is. -/
theorem satisfies_iff {script : List Op} {stack : List Bytes} :
    satisfies E script stack = true ↔
      (∀ x ∈ stack, x.length ≤ maxElement) ∧
        ∃ x, run E script stack = some [x] ∧ castToBool x = true := by
  unfold satisfies
  rw [Bool.and_eq_true, List.all_eq_true]
  simp only [decide_eq_true_eq]
  refine and_congr_right fun _ => ?_
  split
  · next x hx => simp [hx]
  · next hne =>
    simp only [Bool.false_eq_true, false_iff, not_exists, not_and]
    exact fun x hx => absurd hx (hne x)

/-! ### One lemma an opcode -/

section opcodes

variable {os : List Op} {x y z : Bytes} {s : List Bytes}

/-- An opcode that goes on under a condition. -/
theorem bind_ite_some {c : Prop} [Decidable c] (t : List Bytes) :
    (if c then some t else none).bind (run E os) = if c then run E os t else none := by
  split <;> rfl

/-- A push within the limit. -/
theorem run_push {b : Bytes} (h : b.length ≤ maxElement) :
    run E (.push b :: os) s = run E os (b :: s) :=
  (bind_ite_some _).trans (if_pos h)

/-- A push over the limit. -/
theorem run_push_of_long {b : Bytes} (h : ¬ b.length ≤ maxElement) :
    run E (.push b :: os) s = none :=
  (bind_ite_some _).trans (if_neg h)

/-- `OP_DROP`. -/
@[simp] theorem run_drop : run E (.drop :: os) (x :: s) = run E os s := rfl

/-- `OP_DUP`. -/
@[simp] theorem run_dup : run E (.dup :: os) (x :: s) = run E os (x :: x :: s) := rfl

/-- `OP_2DUP`. -/
@[simp] theorem run_twoDup :
    run E (.twoDup :: os) (x :: y :: s) = run E os (x :: y :: x :: y :: s) := rfl

/-- `OP_OVER`. -/
@[simp] theorem run_over : run E (.over :: os) (x :: y :: s) = run E os (y :: x :: y :: s) := rfl

/-- `OP_SWAP`. -/
@[simp] theorem run_swap : run E (.swap :: os) (x :: y :: s) = run E os (y :: x :: s) := rfl

/-- `OP_ROT`. -/
@[simp] theorem run_rot :
    run E (.rot :: os) (x :: y :: z :: s) = run E os (z :: x :: y :: s) := rfl

/-- `OP_TUCK`. -/
@[simp] theorem run_tuck : run E (.tuck :: os) (x :: y :: s) = run E os (x :: y :: x :: s) := rfl

/-- `OP_VERIFY`. -/
theorem run_verify :
    run E (.verify :: os) (x :: s) = if castToBool x then run E os s else none :=
  bind_ite_some s

/-- `OP_EQUAL`. -/
@[simp] theorem run_equal :
    run E (.equal :: os) (x :: y :: s) = run E os (ofBool (y = x) :: s) := rfl

/-- `OP_EQUALVERIFY`. -/
theorem run_equalVerify :
    run E (.equalVerify :: os) (x :: y :: s) = if y = x then run E os s else none :=
  bind_ite_some s

/-- `OP_CAT`. -/
theorem run_cat :
    run E (.cat :: os) (x :: y :: s) =
      if (y ++ x).length ≤ maxElement then run E os ((y ++ x) :: s) else none :=
  bind_ite_some _

/-- `OP_SIZE`. -/
@[simp] theorem run_size :
    run E (.size :: os) (x :: s) = run E os (scriptNum x.length :: x :: s) := rfl

/-- `OP_HASH160`. -/
@[simp] theorem run_hash160 :
    run E (.hash160 :: os) (x :: s) = run E os ((E.hash160 x).bytes :: s) := rfl

/-- `OP_SHA256`. -/
@[simp] theorem run_sha256 :
    run E (.sha256 :: os) (x :: s) = run E os (E.hash.sha256 x :: s) := rfl

/-- `OP_SHA256INITIALIZE`. -/
@[simp] theorem run_sha256Initialize :
    run E (.sha256Initialize :: os) (x :: s) = run E os (E.hash.context x :: s) := rfl

/-- `OP_SHA256UPDATE`. -/
@[simp] theorem run_sha256Update (m : Bytes) :
    run E (.sha256Update :: os) (x :: E.hash.context m :: s) =
      run E os (E.hash.context (m ++ x) :: s) := by
  show ((E.hash.update (E.hash.context m) x).map (· :: s)).bind (run E os) = _
  rw [E.hash.update_context, map_some, bind_some]

/-- `OP_SHA256FINALIZE`. -/
@[simp] theorem run_sha256Finalize (m : Bytes) :
    run E (.sha256Finalize :: os) (x :: E.hash.context m :: s) =
      run E os (E.hash.sha256 (m ++ x) :: s) := by
  show ((E.hash.finalize (E.hash.context m) x).map (· :: s)).bind (run E os) = _
  rw [E.hash.finalize_context, map_some, bind_some]

/-- `OP_GREATERTHAN64`. -/
theorem run_greaterThan64 :
    run E (.greaterThan64 :: os) (x :: y :: s) =
      if x.length = 8 ∧ y.length = 8 then run E os (ofBool (readS64 x < readS64 y) :: s)
      else none :=
  bind_ite_some _

/-- `OP_CHECKSIGFROMSTACKVERIFY`. -/
theorem run_checkSigFromStackVerify :
    run E (.checkSigFromStackVerify :: os) (x :: y :: z :: s) =
      if E.verifies x y z then run E os s else none :=
  bind_ite_some s

/-- `OP_CHECKLOCKTIMEVERIFY`. -/
theorem run_checkLockTimeVerify {n : ℤ} (hn : readScriptNum 5 x = some n) :
    run E (.checkLockTimeVerify :: os) (x :: s) =
      if 0 ≤ n ∧ lockTimeOk E n then run E os (x :: s) else none := by
  rw [run_cons, step_checkLockTimeVerify E s hn, bind_ite_some]

/-- `OP_CHECKSEQUENCEVERIFY`. -/
theorem run_checkSequenceVerify {n : ℕ} (hn : readScriptNum 5 x = some (n : ℤ)) :
    run E (.checkSequenceVerify :: os) (x :: s) =
      if sequenceOk E n then run E os (x :: s) else none := by
  rw [run_cons, step_checkSequenceVerify E s hn, bind_ite_some]

/-- `OP_PUSHCURRENTINPUTINDEX`. -/
@[simp] theorem run_pushCurrentInputIndex :
    run E (.pushCurrentInputIndex :: os) s = run E os (scriptNum E.idx :: s) := rfl

end opcodes

/-! ### Introspection -/

/-- The output at an index written as a script number, where the machine can read it. -/
def outputAt (E : Env) (i : ℕ) : Option TxOut :=
  (readIndex (scriptNum i)).bind fun j => E.tx.outputs[j]?

/-- The output spent by the input at an index written as a script number. -/
def spentAt (E : Env) (i : ℕ) : Option TxOut :=
  (readIndex (scriptNum i)).bind fun j => (E.tx.inputs[j]?).map TxIn.spent

/-- An output that was found is at its index. -/
theorem getElem?_of_outputAt {o : TxOut} (h : outputAt E i = some o) :
    E.tx.outputs[i]? = some o := by
  obtain ⟨j, hj, ho⟩ := bind_eq_some_iff.mp h
  rwa [eq_of_readIndex_scriptNum hj] at ho

/-- An output at an index of 31 bits is found. -/
theorem outputAt_eq (h : i < 2 ^ 31) : outputAt E i = E.tx.outputs[i]? := by
  rw [outputAt, readIndex_scriptNum h, bind_some]

/-- A spent output that was found is at its index. -/
theorem getElem?_of_spentAt {o : TxOut} (h : spentAt E i = some o) :
    ∃ t, E.tx.inputs[i]? = some t ∧ t.spent = o := by
  obtain ⟨j, hj, ho⟩ := bind_eq_some_iff.mp h
  rw [eq_of_readIndex_scriptNum hj] at ho
  exact map_eq_some_iff.mp ho

/-- A spent output at an index of 31 bits is found. -/
theorem spentAt_eq (h : i < 2 ^ 31) : spentAt E i = (E.tx.inputs[i]?).map TxIn.spent := by
  rw [spentAt, readIndex_scriptNum h, bind_some]

/-- A field of an output. -/
theorem run_inspectOutput (E : Env) (f : Field) (os : List Op) (i : ℕ) (s : List Bytes) :
    run E (.inspectOutput f :: os) (scriptNum i :: s) =
      (outputAt E i).bind fun o => run E os (pushFields (o.fields E.hash f) s) := by
  show ((readIndex (scriptNum i)).bind fun j => (E.tx.outputs[j]?).map fun o =>
    pushFields (o.fields E.hash f) s).bind (run E os) = _
  simp only [outputAt, bind_assoc, bind_map]
  rfl

/-- A field of the output that an input spends. -/
theorem run_inspectInput (E : Env) (f : Field) (os : List Op) (i : ℕ) (s : List Bytes) :
    run E (.inspectInput f :: os) (scriptNum i :: s) =
      (spentAt E i).bind fun o => run E os (pushFields (o.fields E.hash f) s) := by
  show ((readIndex (scriptNum i)).bind fun j => (E.tx.inputs[j]?).map fun t =>
    pushFields (t.spent.fields E.hash f) s).bind (run E os) = _
  simp only [spentAt, bind_assoc, bind_map]
  rfl

/-- A field of the output at the input's own index beside that of the output spent, the tops of the
two compared: the machine is left to compare the bodies. -/
def pairFields (f : Field) : List Op :=
  [.pushCurrentInputIndex, .inspectOutput f, .pushCurrentInputIndex, .inspectInput f, .rot,
    .equalVerify]

/-- The comparison of the tops of the two pairs. -/
theorem run_pairFields (E : Env) (f : Field) (os : List Op) (s : List Bytes) :
    run E (pairFields f ++ os) s =
      (outputAt E E.idx).bind fun o => (spentAt E E.idx).bind fun t =>
        if (t.fields E.hash f).2 = (o.fields E.hash f).2 then
          run E os ((t.fields E.hash f).1 :: (o.fields E.hash f).1 :: s) else none := by
  simp only [pairFields, List.cons_append, List.nil_append, run_pushCurrentInputIndex,
    run_inspectOutput, run_inspectInput, pushFields]
  refine congrArg _ (funext fun o => congrArg _ (funext fun t => ?_))
  rw [run_rot, run_equalVerify]

/-- A script that keeps a field goes on only where the output and the spent output agree on it. -/
theorem run_keepField (E : Env) (f : Field) (os : List Op) (s : List Bytes) :
    run E (pairFields f ++ .equalVerify :: os) s =
      (outputAt E E.idx).bind fun o => (spentAt E E.idx).bind fun t =>
        if o.fields E.hash f = t.fields E.hash f then run E os s else none := by
  rw [run_pairFields]
  refine congrArg _ (funext fun o => congrArg _ (funext fun t => ?_))
  rw [run_equalVerify]
  generalize o.fields E.hash f = p
  generalize t.fields E.hash f = q
  obtain ⟨p1, p2⟩ := p
  obtain ⟨q1, q2⟩ := q
  by_cases h1 : p1 = q1 <;> by_cases h2 : q2 = p2 <;> simp [h1, h2, eq_comm (a := p2)]

end SeqLN.Tapscript
