import SeqLN.Sym.Trees
import SeqLN.Signer.SymStates

/-!
# The device's symmetric states

`contrib/seqln-signer/src/sym.rs` builds a symmetric channel's leaves and trees for itself. Compared with
the node's (`Sym.Scripts`, `Sym.Trees`), every leaf, the output and the message of a state, and an
HTLC's tree are the same bytes (`stateIn_eq`, `htlcTree_eq`), and the device fails to build exactly
where the node's assertions fail.
-/

namespace SeqLN.Signer.SymBuild

open Lib Tapscript List

/-! ### Writing a script -/

/-- A direct push: every operand is under 76 bytes. Source: `push` -/
def push (b : Bytes) : Bytes := UInt8.ofNat b.length :: b

/-- The bytes of a word, least significant first. Source: the loop of `push_num` -/
def numLoop : ℕ → ℕ → Bytes
  | 0, _ => []
  | fuel + 1, num => if num = 0 then [] else UInt8.ofNat (num % 256) :: numLoop fuel (num / 256)

/-- Source: `push_num`; `num` is a 32-bit word -/
def pushNum (num : ℕ) : Bytes :=
  if num = 0 then [0x00]
  else if num ≤ 16 then [UInt8.ofNat (0x51 + num - 1)]
  else
    let buf := numLoop 4 num
    push (if signBit buf then buf ++ [0] else buf)

/-! ### Hashes and trees -/

/-- Source: `tagged_hash` -/
def taggedHash (H : Hashing) (tag : String) (data : Bytes) : Hash :=
  Sym.hash32 H (H.sha256 (Sym.ascii tag) ++ (H.sha256 (Sym.ascii tag) ++ data))

/-- Source: `compact_size` -/
def compactSize (n : ℕ) : Bytes :=
  if n ≤ 0xfc then [UInt8.ofNat n]
  else if n ≤ 0xffff then 0xfd :: leBytes 2 n
  else if n ≤ 0xffffffff then 0xfe :: leBytes 4 n
  else 0xff :: leBytes 8 n

/-- Source: `leaf_hash` -/
def leafHash (H : Hashing) (script : Bytes) : Hash :=
  taggedHash H "TapLeaf/elements" (0xc4 :: (compactSize script.length ++ script))

/-- Source: `branch_hash` -/
def branchHash (H : Hashing) (a b : Hash) : Hash :=
  let (lo, hi) := if a.bytes ≤ b.bytes then (a, b) else (b, a)
  taggedHash H "TapBranch/elements" (lo.bytes ++ hi.bytes)

/-- Source: `NUMS` -/
def numsBytes : Bytes :=
  [0x02, 0x50, 0x92, 0x9b, 0x74, 0xc1, 0xa0, 0x49, 0x54, 0xb7, 0x8b, 0x4b, 0x60, 0x35, 0xe9,
    0x7a, 0x5e, 0x07, 0x8a, 0x5a, 0x0f, 0x28, 0xec, 0x96, 0xd5, 0x47, 0xbf, 0xee, 0x9a, 0xce,
    0x80, 0x3a, 0xc0]

lemma length_numsBytes : numsBytes.length = 33 := rfl

def nums : Key := ⟨numsBytes, length_numsBytes⟩

/-- The x-only form of a compressed key. -/
def xOf (key : Key) : Hash := ⟨key.bytes.drop 1, by rw [length_drop, ByteString.length_bytes]⟩

/-- The output key of a tree of two leaves, with its parity. Source: `Tree2::new` -/
def tree2 (H : Hashing) (E : Sym.Curve) (internalKey : Key) (leaf0 leaf1 : Bytes) :
    Option (Bool × Hash) :=
  let merkleRoot := branchHash H (leafHash H leaf0) (leafHash H leaf1)
  let internal := xOf internalKey
  E.addTweak internal (taggedHash H "TapTweak/elements" (internal.bytes ++ merkleRoot.bytes))

/-- Source: `p2tr` -/
def p2tr (program : Hash) : Bytes := 0x51 :: 32 :: program.bytes

/-! ### The channel's leaves -/

/-- The settle clock. Source: `Clock` -/
structure Clock where
  marker : Hash
  fundingProg : Hash
  capacity : ℕ
  deriving DecidableEq

/-- A channel's constants; `keys` are the opener's and the accepter's. Source: `Channel` -/
structure Channel where
  tag : Hash
  keys : Key × Key
  asset : Key
  delay : UInt16
  clock : Option Clock
  deriving DecidableEq

/-- Source: `Channel::new` -/
def Channel.new (H : Hashing) (genesis fundingTxid : Hash) (fundingVout : ℕ)
    (openerKey accepterKey asset : Key) (delay : UInt16) : Channel where
  tag := Sym.hash32 H (Sym.ascii "SeqLN symmetric update v1" ++ (genesis.bytes ++
    (fundingTxid.bytes ++ leBytes 4 fundingVout)))
  keys := (openerKey, accepterKey)
  asset
  delay
  clock := none

/-- Source: `Channel::with_clock` -/
def Channel.withClock (c : Channel) (clock : Clock) : Channel := { c with clock := some clock }

section channel

variable (H : Hashing) (E : Sym.Curve) (c : Channel)

/-- Source: `leaf_upd` -/
def leafUpd (k : ℤ) : Bytes :=
  (if c.clock.isSome then pushNum 500000001 ++ [0xb1, 0x75] else []) ++ (0x78 :: (push (le8s k) ++
    ([0xde, 0x69, 0xcd, 0xd1, 0x51, 0x88, 0x7b, 0x7c, 0x7e, 0x7c, 0x7e] ++ (push c.tag.bytes ++
    ([0x7c, 0x7e, 0xa8, 0x7d] ++ (push (xOf c.keys.1).bytes ++ (0xc2 :: (push (xOf c.keys.2).bytes ++
    [0xc2, 0xcd, 0xcf, 0xcd, 0xc9, 0x7b, 0x88, 0x88, 0xcd, 0xce, 0xcd, 0xc8, 0x7b, 0x88,
      0x87]))))))))

/-- A segwit scriptPubKey's version and program. Source: `witness_program` -/
def witnessProgram (spk : Bytes) : Option (UInt8 × Bytes) :=
  if spk.length < 4 ∨ (spk.getD 1 0).toNat ≠ spk.length - 2 then none
  else if spk.getD 0 0 = 0 then some (0, spk.drop 2)
  else if 0x51 ≤ spk.getD 0 0 ∧ spk.getD 0 0 ≤ 0x60 then some (spk.getD 0 0 - 0x51 + 1, spk.drop 2)
  else none

/-- What one output adds to the digest. -/
def digestOut (assets : List (Option Key)) (o : Out) (i : ℕ) : Option Bytes := do
  let (version, prog) ← witnessProgram o.spk
  let asset := (assets[i]?).join.getD c.asset
  return (xOf asset).bytes ++ (1 :: (leBytes 8 o.amount ++ (1 ::
    H.sha256 (prog ++ if version ≠ 0 then [version] else []))))

/-- Source: the loop of `settle_digest_in` -/
def digestOuts (assets : List (Option Key)) : List (Out × ℕ) → Option Bytes
  | [] => some []
  | (o, i) :: rest => do
    let b ← digestOut H c assets o i
    let bs ← digestOuts assets rest
    return b ++ bs

/-- Source: `settle_digest_in` -/
def settleDigestIn (outs : List Out) (assets : List (Option Key)) : Option Hash :=
  (digestOuts H c assets outs.zipIdx).map (Sym.hash32 H)

/-- A pair of inspections that have to agree. -/
def samePair (o i : UInt8) : Bytes := [0xcd, o, 0xcd, i, 0x7b, 0x88, 0x88]

/-- Output `j` of `m`, hashed into the running context. Source: the loop of `leaf_settle_in` -/
def settleTurn (first m j : ℕ) : Bytes :=
  let i := pushNum ((first + j) % 2 ^ 32)
  i ++ ([0xce, 0x7e, if j = 0 then 0xc4 else 0xc5] ++ (i ++ ([0xcf, 0x7e, 0xc5] ++ (i ++
    [0xd1, 0x7e, 0xa8, if j = m - 1 then 0xc6 else 0xc5]))))

/-- What a settlement leaf starts with: under a clock the marker stays where it is, and without one
the delay has passed. -/
def settleHead : Bytes :=
  if c.clock.isSome then samePair 0xd1 0xca ++ (samePair 0xce 0xc8 ++ samePair 0xcf 0xc9)
  else pushNum c.delay.toNat ++ [0xb2, 0x75]

/-- Source: `leaf_settle_in` -/
def leafSettleIn (outs : List Out) (assets : List (Option Key)) : Option Bytes :=
  let m := outs.length
  if m = 0 ∨ 2 ^ 32 - 1 < m then none
  else
    let first := if c.clock.isSome then 1 else 0
    (settleDigestIn H c outs assets).map fun digest =>
      settleHead c ++ ((List.range m).flatMap (settleTurn first m) ++ (push digest.bytes ++ [0x87]))

/-- The program and the rest of a state's output. Source: `state_in` -/
def stateIn (n : ℤ) (outs : List Out) (assets : List (Option Key)) : Option (Hash × Hash) := do
  let settle ← leafSettleIn H c outs assets
  let rest := leafHash H settle
  let tree ← tree2 H E nums (leafUpd c n) settle
  return (tree.2, rest)

/-- Source: `upd_msg` -/
def updMsg (n : ℤ) (program rest : Hash) : Hash :=
  Sym.hash32 H (c.tag.bytes ++ (le8s n ++ (program.bytes ++ rest.bytes)))

end channel

/-! ### HTLCs -/

/-- Source: `leaf_htlc_success` -/
def leafHtlcSuccess (paymentRipemd : ByteString 20) (receiverKey : Key) : Bytes :=
  [0x82] ++ (pushNum 32 ++ ([0x88, 0xa9] ++ (push paymentRipemd.bytes ++
    (0x88 :: (push (xOf receiverKey).bytes ++ [0xac])))))

/-- Source: `leaf_htlc_timeout` -/
def leafHtlcTimeout (offererKey : Key) (cltvExpiry : ℕ) : Bytes :=
  push (xOf offererKey).bytes ++ (0xad :: (pushNum cltvExpiry ++ [0xb1]))

/-- The hashes the scripts use besides SHA256. -/
structure Ripemd where
  ripemd160 : Bytes → ByteString 20

/-- Source: `htlc_tree`, `script_pubkey` -/
def htlcTree (H : Hashing) (E : Sym.Curve) (R : Ripemd) (offererKey receiverKey : Key)
    (paymentHash : Hash) (cltvExpiry : ℕ) : Option Bytes :=
  (tree2 H E nums (leafHtlcSuccess (R.ripemd160 paymentHash.bytes) receiverKey)
    (leafHtlcTimeout offererKey cltvExpiry)).map fun t => p2tr t.2

/-- Source: `taproot::p2wpkh` -/
def p2wpkh (H : Hashing) (R : Ripemd) (key : Key) : Bytes :=
  0x00 :: 20 :: (R.ripemd160 (H.sha256 key.bytes)).bytes

/-- The scripts that a settlement is held to. -/
def scripts (H : Hashing) (E : Sym.Curve) (R : Ripemd) : SymScripts where
  p2wpkh := p2wpkh H R
  htlcTree := htlcTree H E R

/-! ### The same bytes -/

variable {assets : List (Option Key)} {outs : List Sym.SymOutput} {cltvExpiry : ℕ}

lemma scriptPushBytes_eq_push {b : Bytes} (h : b.length < 76) : Sym.scriptPushBytes b = push b :=
  if_pos h

lemma numLoop_eq_magnitude {fuel n : ℕ} (h : n < 256 ^ fuel) : numLoop fuel n = magnitude n := by
  induction fuel generalizing n with
  | zero =>
    obtain rfl : n = 0 := by simpa using h
    rfl
  | succ fuel ih =>
    unfold numLoop
    split
    · next h0 =>
      subst h0
      rfl
    · next h0 =>
      rw [pow_succ] at h
      unfold magnitude
      rw [Nat.digits_def' (by norm_num) (Nat.pos_of_ne_zero h0), map_cons,
        ih (Nat.div_lt_of_lt_mul (by omega))]
      rfl

/-- Both write a number in the same way. -/
theorem pushNumBytes_eq {n : ℕ} (h : n < 2 ^ 32) : Sym.pushNumBytes n = pushNum n := by
  unfold Sym.pushNumBytes pushNum
  split
  · rfl
  · split
    · rfl
    · have hlen : (scriptNum n).length < 76 := by
        have := length_scriptNum_le (w := 4) (n := n) (by omega)
        omega
      rw [scriptPushBytes_eq_push hlen, numLoop_eq_magnitude (by omega)]
      rfl

lemma opBytes_push {b : Bytes} (h2 : 2 ≤ b.length) (h : b.length < 76) :
    Sym.opBytes (.push b) = push b := by
  match b with
  | [] => simp at h2
  | [_] => simp at h2
  | _ :: _ :: _ => exact scriptPushBytes_eq_push h

lemma opBytes_pushNum {n : ℕ} (h : n < 2 ^ 32) : Sym.opBytes (Sym.pushNum n) = pushNum n := by
  rw [Sym.opBytes_pushNum, pushNumBytes_eq h]

lemma opBytes_push32 (b : ByteString 32) : Sym.opBytes (.push b.bytes) = push b.bytes :=
  opBytes_push (by simp) (by simp)

/-- The node's constants of a channel. -/
def Channel.toSym (c : Channel) : Sym.SymChannel where
  tag := c.tag
  updKey
    | .opener => xOf c.keys.1
    | .accepter => xOf c.keys.2
  asset := xOf c.asset
  delay := c.delay
  hasClock := c.clock.isSome

section same

variable {H : Hashing} {E : Sym.Curve} {c : Channel}

/-- The device's update leaf is the node's. -/
lemma leafUpd_eq (k : ℤ) : leafUpd c k = Sym.scriptBytes (Sym.symLeafUpd c.toSym k) := by
  have hk : Sym.opBytes (.push (le8s k)) = push (le8s k) := opBytes_push (by simp) (by simp)
  have hfloor : Sym.scriptBytes (Sym.clockFloor c.toSym) =
      if c.clock.isSome then pushNum 500000001 ++ [0xb1, 0x75] else [] := by
    change Sym.scriptBytes (if c.clock.isSome then _ else _) = _
    split
    · rw [Sym.scriptBytes_cons, opBytes_pushNum (by decide)]
      rfl
    · rfl
  have htag : Sym.opBytes (.push c.toSym.tag.bytes) = push c.tag.bytes := opBytes_push32 c.tag
  have hopener : Sym.opBytes (.push (c.toSym.updKey .opener).bytes) = push (xOf c.keys.1).bytes :=
    opBytes_push32 _
  have haccepter : Sym.opBytes (.push (c.toSym.updKey .accepter).bytes) = push (xOf c.keys.2).bytes :=
    opBytes_push32 _
  unfold Sym.symLeafUpd Sym.newerThan Sym.ownProgram Sym.updateHash Sym.bothSigned pairFields
  simp only [Sym.scriptBytes_append, Sym.scriptBytes_cons, Sym.scriptBytes_nil, hfloor, hk, htag,
    hopener, haccepter, append_nil, append_assoc]
  rfl

/-- The settlement's head: the marker stays where it is, or the delay has passed. -/
theorem scriptBytes_settleGuard : Sym.scriptBytes (Sym.settleGuard c.toSym) = settleHead c := by
  unfold settleHead
  change Sym.scriptBytes (if c.clock.isSome then _ else _) = _
  split
  · rfl
  · have hdelay : Sym.opBytes (Sym.pushNum c.toSym.delay.toNat) = pushNum c.delay.toNat :=
      opBytes_pushNum (c.delay.toNat_lt.trans (by norm_num))
    rw [Sym.scriptBytes_cons, hdelay]
    rfl

/-- One output of the loop. -/
theorem scriptBytes_hashOutput {f m j : ℕ} (hj : j < m) (hm : f + m ≤ 2 ^ 32) :
    Sym.scriptBytes (Sym.hashOutput (j = 0) (j = m - 1) (f + j)) = settleTurn f m j := by
  have hlt : f + j < 2 ^ 32 := by omega
  unfold Sym.hashOutput settleTurn
  rw [Nat.mod_eq_of_lt hlt]
  simp only [Sym.scriptBytes_cons, Sym.scriptBytes_nil, opBytes_pushNum hlt, decide_eq_true_eq,
    append_nil]
  split <;> split <;> rfl

/-- The loop from output `j` on. -/
theorem scriptBytes_hashOutputs {f m r j : ℕ} (hr : j + r = m) (hm : f + m ≤ 2 ^ 32) :
    Sym.scriptBytes (Sym.hashOutputs (j = 0) (f + j) r) =
      (List.range' j r).flatMap (settleTurn f m) := by
  induction r generalizing j with
  | zero => rfl
  | succ r ih =>
    have hlast : decide (r = 0) = decide (j = m - 1) := by
      congr 1
      exact propext (by omega)
    have hrest := ih (j := j + 1) (by omega)
    rw [show decide (j + 1 = 0) = false from rfl, ← Nat.add_assoc] at hrest
    rw [Sym.hashOutputs, Sym.scriptBytes_append, hlast, scriptBytes_hashOutput (by omega) hm, hrest,
      range'_succ, flatMap_cons]

/-- A version opcode above 0, less what it counts from. -/
theorem version_eq {v : UInt8} (h : 0x51 ≤ v) :
    v - 0x51 + 1 = UInt8.ofNat (v.toNat - 0x50) ∧ v.toNat - 0x50 ≠ 0 ∧ v - 0x51 + 1 ≠ 0 := by
  have hv : 0x51 ≤ v.toNat := h
  have hlt : v.toNat < 256 := v.toNat_lt
  have hval : (v - 0x51 + 1).toNat = v.toNat - 0x50 := by
    rw [UInt8.toNat_add, UInt8.toNat_sub_of_le _ _ h]
    change (v.toNat - 0x51 + 1) % 256 = _
    omega
  refine ⟨UInt8.toNat_inj.1 ?_, by omega, fun hzero => ?_⟩
  · rw [hval, UInt8.toNat_ofNat_of_lt' (by change _ < 256; omega)]
  · rw [hzero] at hval
    change 0 = _ at hval
    omega

/-- The version and program of the scripts that the node takes. -/
theorem witnessProgram_eq (spk : Bytes) : (witnessProgram spk).map (fun p =>
      p.2 ++ if p.1 ≠ 0 then [p.1] else []) =
    if Sym.isSegwitSpk spk then
      some ((Sym.segwitProgram spk).2 ++ Sym.versionBytes (Sym.segwitProgram spk).1) else none := by
  unfold witnessProgram Sym.isSegwitSpk Sym.segwitProgram Sym.versionBytes
  generalize spk.getD 0 0 = v
  generalize (spk.getD 1 0).toNat = len
  by_cases hlen : spk.length < 4 ∨ len ≠ spk.length - 2
  · rw [if_pos hlen, if_neg]
    · rfl
    · simp only [Bool.and_eq_true, decide_eq_true_eq]
      rintro ⟨⟨h4, hpush⟩, -⟩
      omega
  · have h4 : 4 ≤ spk.length := by omega
    have hpush : len = spk.length - 2 := by omega
    rw [if_neg hlen]
    by_cases h0 : v = 0
    · simp [h0, h4, hpush]
    · by_cases hv : 0x51 ≤ v ∧ v ≤ 0x60
      · obtain ⟨hval, hne, hne'⟩ := version_eq hv.1
        rw [if_neg h0, if_pos hv, if_pos (by simp [h4, hpush, hv])]
        rw [Option.map_some, if_pos hne', if_neg h0, if_neg hne, hval]
      · rw [if_neg h0, if_neg hv, if_neg]
        · rfl
        · simp only [Bool.and_eq_true, Bool.or_eq_true, decide_eq_true_eq]
          rintro ⟨-, h | h⟩
          · exact h0 h
          · exact hv h

/-- An output as the device's request names it. -/
def toOut (o : Sym.SymOutput) : Out := ⟨o.amount, o.spk⟩

/-- The request names the asset of each output that is in another than the channel's. -/
def Names (assets : List (Option Key)) (outs : List Sym.SymOutput) : Prop :=
  ∀ (i : ℕ) (o : Sym.SymOutput), outs[i]? = some o → (assets[i]?).join = o.asset.map explicitKey

lemma digestOut_eq {o : Sym.SymOutput} {i : ℕ}
    (hasset : (assets[i]?).join = o.asset.map explicitKey) :
    digestOut H c assets (toOut o) i =
      if Sym.isSegwitSpk o.spk then some (Sym.settleFields H c.toSym o) else none := by
  have hid : xOf ((assets[i]?).join.getD c.asset) = o.asset.getD c.toSym.asset := by
    rw [hasset]
    cases o.asset <;> rfl
  have hprog := witnessProgram_eq o.spk
  change ((witnessProgram o.spk).bind fun p => some ((xOf ((assets[i]?).join.getD c.asset)).bytes ++
    (1 :: (leBytes 8 o.amount ++ (1 :: H.sha256 (p.2 ++ if p.1 ≠ 0 then [p.1] else [])))))) = _
  rw [hid]
  cases hw : witnessProgram o.spk with
  | none =>
    rw [hw] at hprog
    split at hprog
    · cases hprog
    · next hno =>
      rw [if_neg hno]
      rfl
  | some p =>
    rw [hw] at hprog
    split at hprog
    · next hyes =>
      rw [if_pos hyes]
      have hfields := Option.some.inj hprog
      dsimp only at hfields
      rw [Option.bind_some, hfields]
      unfold Sym.settleFields Sym.outputFields
      simp
    · cases hprog

/-- The digest is built where every output has a segwit script, and is the node's. -/
theorem digestOuts_eq {start : ℕ}
    (hnames : ∀ (i : ℕ) (o : Sym.SymOutput), outs[i]? = some o →
      (assets[start + i]?).join = o.asset.map explicitKey) :
    digestOuts H c assets ((outs.map toOut).zipIdx start) =
      if outs.all (fun o => Sym.isSegwitSpk o.spk) then
        some (outs.flatMap (Sym.settleFields H c.toSym)) else none := by
  induction outs generalizing start with
  | nil => rfl
  | cons o outs ih =>
    have hrest := @ih (start + 1) (by
      intro i o' ho'
      rw [Nat.add_assoc, Nat.add_comm 1 i]
      exact hnames (i + 1) o' ho')
    have hfirst : digestOut H c assets (toOut o) start = _ := digestOut_eq (hnames 0 o rfl)
    rw [map_cons, zipIdx_cons, digestOuts, hfirst, hrest, all_cons, flatMap_cons]
    cases Sym.isSegwitSpk o.spk <;> cases outs.all (fun o => Sym.isSegwitSpk o.spk) <;> rfl

/-- The device's settlement leaf is the node's. -/
lemma leafSettleIn_eq (hlen : outs.length < 2 ^ 32) (hnames : Names assets outs) :
    leafSettleIn H c (outs.map toOut) assets = Sym.symLeafSettleBytes H c.toSym outs := by
  have hdigest : settleDigestIn H c (outs.map toOut) assets =
      if outs.all (fun o => Sym.isSegwitSpk o.spk) then
        some (Sym.hash32 H (outs.flatMap (Sym.settleFields H c.toSym))) else none := by
    unfold settleDigestIn
    rw [digestOuts_eq (by simpa [Names] using hnames)]
    split <;> rfl
  unfold leafSettleIn Sym.symLeafSettleBytes
  dsimp only
  rw [length_map, hdigest]
  by_cases hnil : outs = []
  · subst hnil
    rfl
  · have hpos : 0 < outs.length := length_pos_iff.2 hnil
    rw [if_neg (by omega)]
    by_cases hall : outs.all (fun o => Sym.isSegwitSpk o.spk) = true
    · have hok : outs ≠ [] ∧ outs.all (fun o => Sym.isSegwitSpk o.spk) = true := ⟨hnil, hall⟩
      have hfirst : Sym.settleFirst c.toSym = if c.clock.isSome then 1 else 0 := rfl
      have hbound : Sym.settleFirst c.toSym + outs.length ≤ 2 ^ 32 := by
        rw [hfirst]
        split <;> omega
      have hloop : Sym.scriptBytes (Sym.hashOutputs true (Sym.settleFirst c.toSym) outs.length) =
          (List.range' 0 outs.length).flatMap (settleTurn (Sym.settleFirst c.toSym) outs.length) :=
        scriptBytes_hashOutputs (Nat.zero_add outs.length) hbound
      have hpush : Sym.opBytes (.push (Sym.symSettleDigest H c.toSym outs)) = push _ :=
        opBytes_push32 (Sym.hash32 H (outs.flatMap (Sym.settleFields H c.toSym)))
      rw [if_pos hall, if_pos hok, Option.map_some, range_eq_range', ← hfirst, ← hloop,
        ← scriptBytes_settleGuard]
      unfold Sym.symLeafSettle
      rw [Sym.scriptBytes_append, Sym.scriptBytes_append, Sym.scriptBytes_cons, hpush]
      rfl
    · rw [if_neg hall, if_neg fun h => hall (And.right h)]
      rfl

lemma leafHash_eq (script : Bytes) : leafHash H script = Sym.tapLeafHash H script := by
  have hsize : compactSize script.length = Sym.varintPut script.length := by
    unfold compactSize Sym.varintPut
    have : script.length ≤ 0xfc ↔ script.length < 0xfd := Nat.lt_succ_iff.symm
    simp only [this]
  unfold leafHash
  rw [hsize]
  rfl

lemma branchHash_eq (a b : Hash) : branchHash H a b = Sym.tapBranchHash H a b := by
  unfold branchHash Sym.tapBranchHash
  by_cases h : b.bytes < a.bytes
  · have hle : ¬ a.bytes ≤ b.bytes := fun hle => hle h
    rw [if_neg hle, if_pos h]
    rfl
  · have hle : a.bytes ≤ b.bytes := h
    rw [if_pos hle, if_neg h]
    rfl

lemma tree2_eq (internalKey : Key) (leaf0 leaf1 : Bytes) :
    tree2 H E internalKey leaf0 leaf1 = Sym.bip341Tweak H E internalKey
      (Sym.tapBranchHash H (Sym.tapLeafHash H leaf0) (Sym.tapLeafHash H leaf1)) := by
  unfold tree2
  rw [leafHash_eq, leafHash_eq, branchHash_eq]
  rfl

/-- The device builds the node's state output, and fails where the node's assertions do. -/
theorem stateIn_eq (n : ℤ) (hlen : outs.length < 2 ^ 32) (hnames : Names assets outs) :
    stateIn H E c n (outs.map toOut) assets =
      (Sym.symStateTree H E c.toSym n outs none).map fun t => (t.program, t.rest) := by
  unfold stateIn Sym.symStateTree
  rw [leafSettleIn_eq hlen hnames]
  cases Sym.symLeafSettleBytes H c.toSym outs with
  | none => rfl
  | some settle =>
    dsimp only [Option.bind_eq_bind, Option.bind_some]
    rw [tree2_eq, leafUpd_eq, leafHash_eq]
    dsimp only [Option.map_none]
    change (Sym.tweakNums H E _).bind _ = _
    cases Sym.tweakNums H E _ with
    | none => rfl
    | some t => rfl

lemma updMsg_eq (t : Sym.SymTree) : updMsg H c t.n t.program t.rest = Sym.symTreeMsg H c.toSym t := by
  unfold updMsg Sym.symTreeMsg Sym.updPreimage
  rw [append_assoc, append_assoc]
  rfl

lemma leafHtlcSuccess_eq (ripemd : ByteString 20) (receiverKey : Key) :
    leafHtlcSuccess ripemd receiverKey = Sym.symLeafHtlcSuccess ripemd receiverKey := by
  unfold leafHtlcSuccess Sym.symLeafHtlcSuccess Sym.pushXonly
  rw [pushNumBytes_eq (by norm_num), scriptPushBytes_eq_push (by simp), scriptPushBytes_eq_push (by simp)]
  rfl

lemma leafHtlcTimeout_eq (offererKey : Key) (h : cltvExpiry < 2 ^ 32) :
    leafHtlcTimeout offererKey cltvExpiry = Sym.symLeafHtlcTimeout offererKey cltvExpiry := by
  unfold leafHtlcTimeout Sym.symLeafHtlcTimeout Sym.pushXonly
  rw [pushNumBytes_eq h, scriptPushBytes_eq_push (by simp)]
  rfl

/-- An HTLC's output is the node's. -/
theorem htlcTree_eq (R : Ripemd) (offererKey receiverKey : Key) (paymentHash : Hash)
    (h : cltvExpiry < 2 ^ 32) :
    htlcTree H E R offererKey receiverKey paymentHash cltvExpiry =
      (Sym.symHtlcTree H E offererKey receiverKey (R.ripemd160 paymentHash.bytes) cltvExpiry).map
        fun t => Sym.p2tr t.program := by
  unfold htlcTree Sym.symHtlcTree Sym.tapTree2Finish
  rw [tree2_eq, leafHtlcSuccess_eq, leafHtlcTimeout_eq _ h]
  dsimp only
  change Option.map _ (Sym.bip341Tweak H E Sym.numsDer _) = _
  cases Sym.bip341Tweak H E Sym.numsDer _ with
  | none => rfl
  | some t => rfl

end same

lemma stateNum_eq (index : ℕ) (opener : Bool) :
    (stateNum index opener).map (fun n => (n : ℤ)) = Sym.symStateNum index opener := by
  unfold stateNum Sym.symStateNum
  by_cases h : index < 2 ^ 61
  · rw [if_neg (by omega), if_pos h]
    rfl
  · rw [if_pos (by omega), if_neg h]
    rfl

/-! ### The two builders -/

section builders

variable (H : Hashing) (E : Sym.Curve) (R : Ripemd)

/-- What the device derives for a state of a channel is what the node derives. -/
structure SameState (dev : Channel) (node : Sym.SymChannel) (n : ℤ) (outs : List Sym.SymOutput)
    (assets : List (Option Key)) : Prop where
  upd : leafUpd dev n = Sym.scriptBytes (Sym.symLeafUpd node n)
  settle : leafSettleIn H dev (outs.map toOut) assets = Sym.symLeafSettleBytes H node outs
  output : stateIn H E dev n (outs.map toOut) assets =
    (Sym.symStateTree H E node n outs none).map fun t => (t.program, t.rest)
  message : ∀ t, Sym.symStateTree H E node n outs none = some t →
    updMsg H dev n t.program t.rest = Sym.symTreeMsg H node t

/-- What the device derives for an HTLC is what the node derives. -/
structure SameHtlc (offererKey receiverKey : Key) (paymentHash : Hash) (cltvExpiry : ℕ) : Prop where
  success : leafHtlcSuccess (R.ripemd160 paymentHash.bytes) receiverKey =
    Sym.symLeafHtlcSuccess (R.ripemd160 paymentHash.bytes) receiverKey
  timeout : leafHtlcTimeout offererKey cltvExpiry = Sym.symLeafHtlcTimeout offererKey cltvExpiry
  output : htlcTree H E R offererKey receiverKey paymentHash cltvExpiry =
    (Sym.symHtlcTree H E offererKey receiverKey (R.ripemd160 paymentHash.bytes) cltvExpiry).map
      fun t => Sym.p2tr t.program

variable {H E R}

lemma sameState {dev : Channel} {n : ℤ} (hlen : outs.length < 2 ^ 32)
    (hnames : Names assets outs) : SameState H E dev dev.toSym n outs assets := by
  refine ⟨leafUpd_eq n, leafSettleIn_eq hlen hnames, stateIn_eq n hlen hnames, fun t ht => ?_⟩
  rw [← Sym.n_of_symStateTree ht]
  exact updMsg_eq t

lemma sameHtlc (offererKey receiverKey : Key) (paymentHash : Hash) (h : cltvExpiry < 2 ^ 32) :
    SameHtlc H E R offererKey receiverKey paymentHash cltvExpiry :=
  ⟨leafHtlcSuccess_eq _ _, leafHtlcTimeout_eq _ h, htlcTree_eq R _ _ _ h⟩

end builders

end SeqLN.Signer.SymBuild
