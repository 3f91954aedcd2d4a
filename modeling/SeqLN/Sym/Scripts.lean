import SeqLN.Common
import SeqLN.Lib.Tapscript

/-!
# The leaves of a symmetric channel

`common/sym_scripts.c` and `common/sym_factory.c`: the update leaf `symLeafUpd`, the settlement leaf
`symLeafSettle` with the digest it compares to, and the factory's `symLeafSplit`. A script is the list
of its opcodes; the push encodings of `push_num` and `script_push_bytes` are one `Op.push`. A
`SymChannel` holds the x-only keys, and of the clock only whether there is one.
-/

namespace SeqLN.Sym

open Tapscript

/-- The two ends of a channel as seen by the scripts. -/
inductive SymSide where
  | opener
  | accepter
  deriving DecidableEq

/-- The constants of one channel.
Source: `common/sym_scripts.h`, `struct sym_channel` -/
structure SymChannel where
  tag : ByteString 32
  /-- The update keys, x-only. -/
  updKey : SymSide → ByteString 32
  /-- The channel asset's id. -/
  asset : ByteString 32
  /-- The shared delay, blocks. -/
  delay : UInt16
  hasClock : Bool

/-- A non-negative script number, minimally encoded. Source: `push_num` -/
def pushNum (num : ℕ) : Op := .push (scriptNum num)

/-- A push of a word. -/
theorem run_pushNum {E : Env} {os : List Op} {s : List Bytes} {n : ℕ} (h : n < 2 ^ 32) :
    run E (pushNum n :: os) s = run E os (scriptNum n :: s) :=
  run_push ((length_scriptNum_le (w := 4) (by omega)).trans (by decide))

/-- The lock time every update carries under a settle clock. -/
def symClockLocktimeFloor : ℕ := 500000001

/-! ### Updates -/

/-- The check of the settle clock's floor, in the update leaf of a channel that has one. -/
def clockFloor (sc : SymChannel) : List Op :=
  if sc.hasClock then [pushNum symClockLocktimeFloor, .checkLockTimeVerify, .drop] else []

/-- `n > k`. -/
def newerThan (k : ℤ) : List Op := [.over, .push (le8s k), .greaterThan64, .verify]

/-- The v1 program at this input's index. -/
def ownProgram : List Op :=
  [.pushCurrentInputIndex, .inspectOutput .scriptPubKey, .push [1], .equalVerify]

/-- `m = SHA256(tag || n || P || R)`. -/
def updateHash (sc : SymChannel) : List Op :=
  [.rot, .swap, .cat, .swap, .cat, .push sc.tag.bytes, .swap, .cat, .sha256]

/-- Both signatures over `m`. -/
def bothSigned (sc : SymChannel) : List Op :=
  [.tuck, .push (sc.updKey .opener).bytes, .checkSigFromStackVerify,
    .push (sc.updKey .accepter).bytes, .checkSigFromStackVerify]

/-- The update leaf of state `k`.
Source: `common/sym_scripts.c`, `sym_leaf_upd` -/
def symLeafUpd (sc : SymChannel) (k : ℤ) : List Op :=
  clockFloor sc ++ (newerThan k ++ (ownProgram ++ (updateHash sc ++ (bothSigned sc ++
    -- the output keeps this input's value and its asset
    (pairFields .value ++ .equalVerify :: (pairFields .asset ++ [.equal]))))))

/-- A state both sides sign: its number, its output's program and the hash of the rest of its tree.
Source: `struct sym_tree`, with the assertion of `sym_upd_msg` -/
structure SymState where
  n : ℤ
  program : ByteString 32
  rest : ByteString 32
  n_nonneg : 0 ≤ n
  n_lt : n < 2 ^ 63

/-- The string a state's signatures are over, hashed. -/
def updPreimage (sc : SymChannel) (n program rest : Bytes) : Bytes :=
  sc.tag.bytes ++ n ++ program ++ rest

/-- The message both sides sign for a state.
Source: `common/sym_scripts.c`, `sym_upd_msg` -/
def symUpdMsg (H : Hashing) (sc : SymChannel) (st : SymState) : Bytes :=
  H.sha256 (updPreimage sc (le8s st.n) st.program.bytes st.rest.bytes)

/-- The stack an update leaf is run on, its top first: the witness without the leaf and the control
block.
Source: `common/sym_scripts.c`, `sym_update_witness` -/
def symUpdateWitness (sigOpener sigAccepter : Bytes) (st : SymState) : List Bytes :=
  [st.rest.bytes, le8s st.n, sigOpener, sigAccepter]

/-! ### Settlements -/

/-- The two kinds of settlement outputs. -/
inductive SymOutputKind where
  | balance
  | htlc
  deriving DecidableEq

/-- A settlement output. The caller's handle of an HTLC output is left out.
Source: `common/sym_scripts.h`, `struct sym_output` -/
structure SymOutput where
  kind : SymOutputKind
  side : Side
  amount : ℕ
  spk : Bytes
  /-- Its asset's id, or none: the channel's. -/
  asset : Option (ByteString 32)
  cltvExpiry : ℕ
  deriving DecidableEq

/-- The version and program of a segwit scriptPubKey, of which the source asserts the length and
the opcode.
Source: `common/sym_scripts.c`, `witness_program` -/
def segwitProgram (spk : Bytes) : ℕ × Bytes :=
  (if spk.getD 0 0 = 0 then 0 else (spk.getD 0 0).toNat - 0x50, spk.drop 2)

/-- The version as the introspection opcode pushes it: a script number, so v0 is empty. -/
def versionBytes (version : ℕ) : Bytes := if version = 0 then [] else [UInt8.ofNat version]

/-- What one output adds to a digest: asset, value and the hash of program and version. -/
def outputFields (H : Hashing) (asset : ByteString 32) (amount : ℕ) (program version : Bytes) :
    Bytes :=
  asset.bytes ++ [1] ++ leBytes 8 amount ++ [1] ++ H.sha256 (program ++ version)

/-- What one settlement output adds to the digest. -/
def settleFields (H : Hashing) (sc : SymChannel) (o : SymOutput) : Bytes :=
  outputFields H (o.asset.getD sc.asset) o.amount (segwitProgram o.spk).2
    (versionBytes (segwitProgram o.spk).1)

/-- The digest of a settlement.
Source: `common/sym_scripts.c`, `sym_settle_digest` -/
def symSettleDigest (H : Hashing) (sc : SymChannel) (outs : List SymOutput) : Bytes :=
  H.sha256 (outs.flatMap (settleFields H sc))

/-- Output `i` hashed into the running context: a first output opens it, a last one closes it. -/
def hashOutput (first last : Bool) (i : ℕ) : List Op :=
  [pushNum i, .inspectOutput .asset, .cat, if first then .sha256Initialize else .sha256Update,
    pushNum i, .inspectOutput .value, .cat, .sha256Update,
    pushNum i, .inspectOutput .scriptPubKey, .cat, .sha256,
    if last then .sha256Finalize else .sha256Update]

/-- The `m` outputs from index `i` on, hashed in order.
Source: the loops of `sym_leaf_settle` and `sym_leaf_split` -/
def hashOutputs (first : Bool) : ℕ → ℕ → List Op
  | _, 0 => []
  | i, m + 1 => hashOutput first (m = 0) i ++ hashOutputs false (i + 1) m

/-- The head of a settlement leaf: under a settle clock the marker stays where it is, and without
one the delay has passed. -/
def settleGuard (sc : SymChannel) : List Op :=
  if sc.hasClock then
    pairFields .scriptPubKey ++ .equalVerify :: (pairFields .asset ++ .equalVerify ::
      (pairFields .value ++ [.equalVerify]))
  else [pushNum sc.delay.toNat, .checkSequenceVerify, .drop]

/-- The index of the first settlement output: the clock's marker comes before it. -/
def settleFirst (sc : SymChannel) : ℕ := if sc.hasClock then 1 else 0

/-- The settlement leaf; the source asserts that there is an output.
Source: `common/sym_scripts.c`, `sym_leaf_settle` -/
def symLeafSettle (H : Hashing) (sc : SymChannel) (outs : List SymOutput) : List Op :=
  settleGuard sc ++ (hashOutputs true (settleFirst sc) outs.length ++
    [.push (symSettleDigest H sc outs), .equal])

/-! ### The factory's split -/

/-- A slot of a channel factory.
Source: `common/sym_factory.h`, `struct sym_factory_slot` -/
structure SymFactorySlot where
  program : ByteString 32
  amount : ℕ

/-- The digest of a factory's outputs, each a v1 program in the factory's asset.
Source: `common/sym_factory.c`, `sym_split_digest` -/
def symSplitDigest (H : Hashing) (asset : ByteString 32) (slots : List SymFactorySlot) : Bytes :=
  H.sha256 (slots.flatMap fun s => outputFields H asset s.amount s.program.bytes [1])

/-- The factory's split leaf; the source asserts that there is a slot.
Source: `common/sym_factory.c`, `sym_leaf_split` -/
def symLeafSplit (H : Hashing) (asset : ByteString 32) (slots : List SymFactorySlot) : List Op :=
  hashOutputs true 0 slots.length ++ [.push (symSplitDigest H asset slots), .equal]

end SeqLN.Sym
