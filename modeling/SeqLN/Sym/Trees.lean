import SeqLN.Sym.Scripts

/-!
# The bytes of the leaves, and the trees over them

`common/sym_scripts.c` and `bitcoin/tapscript.c`: how a leaf is written out (`scriptBytes`), the
tagged hashes of leaves and branches, and the outputs made of them. The curve is a parameter (`Curve`).
`none` stands for the source's `abort` and failed assertions.
-/

namespace SeqLN.Sym

open Tapscript

/-! ### Writing a script -/

/-- Source: `bitcoin/script.c`, `script_push_bytes` -/
def scriptPushBytes (b : Bytes) : Bytes :=
  if b.length < 76 then UInt8.ofNat b.length :: b
  else if b.length < 256 then 0x4c :: UInt8.ofNat b.length :: b
  else if b.length < 65536 then 0x4d :: (leBytes 2 b.length ++ b)
  else 0x4e :: (leBytes 4 b.length ++ b)

/-- Source: `push_num` -/
def pushNumBytes (num : ℕ) : Bytes :=
  if num = 0 then [0x00]
  else if num ≤ 16 then [UInt8.ofNat (0x51 + num - 1)]
  else scriptPushBytes (scriptNum num)

/-- The opcode that inspects a field of an input. -/
def inputCode : Field → UInt8
  | .asset => 0xc8
  | .value => 0xc9
  | .scriptPubKey => 0xca

/-- The opcode that inspects a field of an output. -/
def outputCode : Field → UInt8
  | .asset => 0xce
  | .value => 0xcf
  | .scriptPubKey => 0xd1

/-- A push as the leaves write it: a number up to 16 has an opcode of its own. -/
def pushCode : Bytes → Bytes
  | [] => [0x00]
  | [b] => if 1 ≤ b ∧ b ≤ 16 then [0x50 + b] else scriptPushBytes [b]
  | b => scriptPushBytes b

/-- The bytes of an opcode. Source: `op`, `push`, `push_num` and the opcodes' numbers -/
def opBytes : Op → Bytes
  | .push b => pushCode b
  | .drop => [0x75]
  | .dup => [0x76]
  | .twoDup => [0x6e]
  | .over => [0x78]
  | .swap => [0x7c]
  | .rot => [0x7b]
  | .tuck => [0x7d]
  | .verify => [0x69]
  | .equal => [0x87]
  | .equalVerify => [0x88]
  | .cat => [0x7e]
  | .size => [0x82]
  | .oneAdd => [0x8b]
  | .hash160 => [0xa9]
  | .sha256 => [0xa8]
  | .sha256Initialize => [0xc4]
  | .sha256Update => [0xc5]
  | .sha256Finalize => [0xc6]
  | .greaterThan64 => [0xde]
  | .greaterThanOrEqual64 => [0xdf]
  | .sub64 => [0xd8]
  | .checkSig => [0xac]
  | .checkSigVerify => [0xad]
  | .checkSigFromStackVerify => [0xc2]
  | .ecMulScalarVerify => [0xe3]
  | .checkLockTimeVerify => [0xb1]
  | .checkSequenceVerify => [0xb2]
  | .pushCurrentInputIndex => [0xcd]
  | .inspectInput f => [inputCode f]
  | .inspectOutput f => [outputCode f]

/-- A leaf written out. -/
def scriptBytes (s : List Op) : Bytes := s.flatMap opBytes

@[simp] lemma scriptBytes_nil : scriptBytes [] = [] := rfl

@[simp] lemma scriptBytes_cons (o : Op) (s : List Op) :
    scriptBytes (o :: s) = opBytes o ++ scriptBytes s := rfl

@[simp] lemma scriptBytes_append (a b : List Op) :
    scriptBytes (a ++ b) = scriptBytes a ++ scriptBytes b := List.flatMap_append

/-- A script number is written as `push_num` writes it. -/
theorem opBytes_pushNum (n : ℕ) : opBytes (pushNum n) = pushNumBytes n := by
  unfold pushNumBytes
  split
  · next h =>
    subst h
    decide
  · split
    · next h0 h16 =>
      interval_cases n <;> first | exact absurd rfl h0 | decide
    · next h0 h16 =>
      have hval := leNat_scriptNum n
      change pushCode (scriptNum n) = scriptPushBytes (scriptNum n)
      match hb : scriptNum n with
      | [] =>
        rw [hb] at hval
        exact absurd hval.symm h0
      | [b] =>
        rw [hb] at hval
        have hbn : b.toNat = n := by simpa [leNat] using hval
        change (if 1 ≤ b ∧ b ≤ 16 then [0x50 + b] else scriptPushBytes [b]) = scriptPushBytes [b]
        rw [if_neg]
        rintro ⟨-, hle⟩
        have : b.toNat ≤ 16 := hle
        omega
      | _ :: _ :: _ => rfl

/-! ### Hashes -/

/-- The bytes of a text. -/
def ascii (s : String) : Bytes := s.toList.map fun c => UInt8.ofNat c.toNat

/-- A hash with its length. -/
def hash32 (H : Hashing) (m : Bytes) : ByteString 32 := ⟨H.sha256 m, H.sha256_length m⟩

/-- Source: `tagged_init` -/
def taggedHash (H : Hashing) (tag : String) (m : Bytes) : ByteString 32 :=
  hash32 H (H.sha256 (ascii tag) ++ (H.sha256 (ascii tag) ++ m))

/-- Source: `bitcoin/varint.c`, `varint_put` -/
def varintPut (v : ℕ) : Bytes :=
  if v < 0xfd then [UInt8.ofNat v]
  else if v ≤ 0xffff then 0xfd :: leBytes 2 v
  else if v ≤ 0xffffffff then 0xfe :: leBytes 4 v
  else 0xff :: leBytes 8 v

/-- Source: `TAPSCRIPT_LEAF_VERSION_ELEMENTS` -/
def tapscriptLeafVersion : UInt8 := 0xc4

/-- Source: `SIMPLICITY_LEAF_VERSION_ELEMENTS` -/
def simplicityLeafVersion : UInt8 := 0xbe

/-- Source: `tap_leaf_hash_version` -/
def tapLeafHashVersion (H : Hashing) (version : UInt8) (script : Bytes) : ByteString 32 :=
  taggedHash H "TapLeaf/elements" (version :: (varintPut script.length ++ script))

/-- Source: `tap_leaf_hash` -/
def tapLeafHash (H : Hashing) (script : Bytes) : ByteString 32 :=
  tapLeafHashVersion H tapscriptLeafVersion script

/-- The children are hashed in lexicographic order. Source: `tap_branch_hash` -/
def tapBranchHash (H : Hashing) (a b : ByteString 32) : ByteString 32 :=
  if b.bytes < a.bytes then taggedHash H "TapBranch/elements" (b.bytes ++ a.bytes)
  else taggedHash H "TapBranch/elements" (a.bytes ++ b.bytes)

/-! ### Output keys -/

/-- Adding a tweak to an x-only key: whether the result's y is odd, and its x; `none` where the key
is no point, the tweak no scalar or the result infinity. -/
structure Curve where
  addTweak : ByteString 32 → ByteString 32 → Option (Bool × ByteString 32)

/-- A point nobody knows the discrete logarithm of, compressed. Source: `nums_der` -/
def numsDer : ByteString 33 :=
  ⟨[0x02, 0x50, 0x92, 0x9b, 0x74, 0xc1, 0xa0, 0x49, 0x54, 0xb7, 0x8b,
    0x4b, 0x60, 0x35, 0xe9, 0x7a, 0x5e, 0x07, 0x8a, 0x5a, 0x0f, 0x28,
    0xec, 0x96, 0xd5, 0x47, 0xbf, 0xee, 0x9a, 0xce, 0x80, 0x3a, 0xc0], rfl⟩

/-- Source: `pubkey_to_xonly` -/
def xonly (key : ByteString 33) : ByteString 32 :=
  ⟨key.bytes.drop 1, key.length_xonly⟩

/-- The output key of an internal key and a merkle root: the key is lifted to its even form, and the
tagged hash of it and the root added. Source: `wally_ec_public_key_bip341_tweak` with
`EC_FLAG_ELEMENTS`, as `tap_tree2_finish` says -/
def bip341Tweak (H : Hashing) (E : Curve) (key : ByteString 33) (root : ByteString 32) :
    Option (Bool × ByteString 32) :=
  E.addTweak (xonly key) (taggedHash H "TapTweak/elements" ((xonly key).bytes ++ root.bytes))

/-- Source: `tweak_nums` -/
def tweakNums (H : Hashing) (E : Curve) (root : ByteString 32) : Option (Bool × ByteString 32) :=
  bip341Tweak H E numsDer root

/-- The scriptPubKey of a v1 program. Source: `sym_tree_spk`, `tap_tree2_scriptpubkey` -/
def p2tr (program : ByteString 32) : Bytes := 0x51 :: 32 :: program.bytes

/-! ### A state's tree -/

/-- Source: `struct sym_tree`; the parity and the program are its `output_der` -/
structure SymTree where
  n : ℤ
  upd : Bytes
  settle : Option Bytes
  updHash : ByteString 32
  settleHash : Option (ByteString 32)
  simHash : Option (ByteString 32)
  rest : ByteString 32
  odd : Bool
  program : ByteString 32
  deriving DecidableEq

/-- A scriptPubKey that the source asserts to be a segwit one. Source: `witness_program` -/
def isSegwitSpk (spk : Bytes) : Bool :=
  4 ≤ spk.length && (spk.getD 1 0).toNat = spk.length - 2 &&
    (spk.getD 0 0 = 0 || (0x51 ≤ spk.getD 0 0 && spk.getD 0 0 ≤ 0x60))

/-- The settlement leaf, written out. Source: `sym_leaf_settle` with its assertions -/
def symLeafSettleBytes (H : Hashing) (sc : SymChannel) (outs : List SymOutput) : Option Bytes :=
  if outs ≠ [] ∧ outs.all (fun o => isSegwitSpk o.spk) = true then
    some (scriptBytes (symLeafSettle H sc outs))
  else none

/-- A state's tree, with a Simplicity program's root beside the settlement or without.
Source: `sym_state_tree` -/
def symStateTree (H : Hashing) (E : Curve) (sc : SymChannel) (n : ℤ) (outs : List SymOutput)
    (simCmr : Option (ByteString 32)) : Option SymTree := do
  let upd := scriptBytes (symLeafUpd sc n)
  let settle ← symLeafSettleBytes H sc outs
  let updHash := tapLeafHash H upd
  let settleHash := tapLeafHash H settle
  let simHash := simCmr.map fun cmr => tapLeafHashVersion H simplicityLeafVersion cmr.bytes
  let rest := match simHash with
    | some sim => tapBranchHash H settleHash sim
    | none => settleHash
  let (odd, program) ← tweakNums H E (tapBranchHash H updHash rest)
  return ⟨n, upd, some settle, updHash, some settleHash, simHash, rest, odd, program⟩

lemma n_of_symStateTree {H : Hashing} {E : Curve} {sc : SymChannel} {n : ℤ} {outs : List SymOutput}
    {simCmr : Option (ByteString 32)} {t : SymTree} (h : symStateTree H E sc n outs simCmr = some t) :
    t.n = n := by
  obtain ⟨settle, -, h⟩ := Option.bind_eq_some_iff.1 h
  obtain ⟨_, -, h⟩ := Option.bind_eq_some_iff.1 h
  cases h
  rfl

/-- Source: `sym_upd_msg` -/
def symTreeMsg (H : Hashing) (sc : SymChannel) (t : SymTree) : ByteString 32 :=
  hash32 H (updPreimage sc (le8s t.n) t.program.bytes t.rest.bytes)

/-! ### HTLCs -/

/-- Source: `push_xonly` -/
def pushXonly (key : ByteString 33) : Bytes := scriptPushBytes (xonly key).bytes

/-- Source: `sym_leaf_htlc_success` -/
def symLeafHtlcSuccess (paymentRipemd : ByteString 20) (receiverKey : ByteString 33) : Bytes :=
  [0x82] ++ (pushNumBytes 32 ++ ([0x88, 0xa9] ++ (scriptPushBytes paymentRipemd.bytes ++
    ([0x88] ++ (pushXonly receiverKey ++ [0xac])))))

/-- Source: `sym_leaf_htlc_timeout` -/
def symLeafHtlcTimeout (offererKey : ByteString 33) (cltvExpiry : ℕ) : Bytes :=
  pushXonly offererKey ++ ([0xad] ++ (pushNumBytes cltvExpiry ++ [0xb1]))

/-- A tree of two leaves. Source: `struct tap_tree2` -/
structure TapTree2 where
  leaf : Bytes × Bytes
  leafHash : ByteString 32 × ByteString 32
  odd : Bool
  program : ByteString 32

/-- Source: `tap_tree2_finish`, for two leaves -/
def tapTree2Finish (H : Hashing) (E : Curve) (internalKey : ByteString 33) (leaf0 leaf1 : Bytes) :
    Option TapTree2 := do
  let hash0 := tapLeafHash H leaf0
  let hash1 := tapLeafHash H leaf1
  let (odd, program) ← bip341Tweak H E internalKey (tapBranchHash H hash0 hash1)
  return ⟨(leaf0, leaf1), (hash0, hash1), odd, program⟩

/-- Source: `sym_htlc_tree` -/
def symHtlcTree (H : Hashing) (E : Curve) (offererKey receiverKey : ByteString 33)
    (paymentRipemd : ByteString 20) (cltvExpiry : ℕ) : Option TapTree2 :=
  tapTree2Finish H E numsDer (symLeafHtlcSuccess paymentRipemd receiverKey)
    (symLeafHtlcTimeout offererKey cltvExpiry)

/-! ### A channel's constants -/

/-- Source: `SYM_TAG_PREFIX` -/
def symTagPrefix : String := "SeqLN symmetric update v1"

/-- Source: `sym_channel_init`; the asset is an open one, of which the scripts use the id -/
def symChannelInit (H : Hashing) (genesis fundingTxid : ByteString 32) (vout : ℕ)
    (openerUpdKey accepterUpdKey assetTag : ByteString 33) (delay : UInt16) : SymChannel where
  tag := hash32 H (ascii symTagPrefix ++ (genesis.bytes ++ (fundingTxid.bytes ++ leBytes 4 vout)))
  updKey
    | .opener => xonly openerUpdKey
    | .accepter => xonly accepterUpdKey
  asset := xonly assetTag
  delay
  hasClock := false

/-- Source: `sym_channel_set_clock`, as far as the state's leaves go -/
def symChannelSetClock (sc : SymChannel) : SymChannel := { sc with hasClock := true }

/-- The number of a side's commitment as a state, where the source's assertion holds.
Source: `sym_state_num` -/
def symStateNum (commitmentIndex : ℕ) (opener : Bool) : Option ℤ :=
  if commitmentIndex < 2 ^ 61 then some ((commitmentIndex * 2 + if opener then 0 else 1 : ℕ) : ℤ) else none

end SeqLN.Sym
