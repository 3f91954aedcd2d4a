import SeqLN.Lib.SpendScript
import SeqLN.Sym.Trees

/-!
# The scripts of a taproot-covenant channel

`common/tcov_scripts.c`: the outputs of a commitment held by one side ("self", the other being
"other") are taproot outputs of two leaves under the revocation key: the holder's balance
(`tcovToLocalTree`) and the HTLCs, whose holder's leaf has a covenant on the output at the input's own
index (`addCov`). The leaves are lists of opcodes.
-/

namespace SeqLN.Tcov

open Tapscript SeqLN.Sym

/-- What the outputs are made with: SHA256, the tweak of a key, and HASH160. -/
structure Crypto where
  hash : Hashing
  curve : Curve
  hash160 : Bytes → ByteString 20

/-- Source: `struct keyset` -/
structure Keyset where
  selfRevocationKey : ByteString 33
  selfHtlcKey : ByteString 33
  otherHtlcKey : ByteString 33
  selfDelayedPaymentKey : ByteString 33
  otherPaymentKey : ByteString 33

/-- How an HTLC opens: with a preimage of a hash, of which the leaf has the RIPEMD160, or with the
scalar of a point. -/
inductive Lock where
  | hash (paymentRipemd : ByteString 20)
  | point (lockPoint : ByteString 33)

/-- The generator, compressed. Source: `generator_der` -/
def generatorDer : Bytes :=
  [0x02, 0x79, 0xbe, 0x66, 0x7e, 0xf9, 0xdc, 0xbb, 0xac, 0x55, 0xa0,
    0x62, 0x95, 0xce, 0x87, 0x0b, 0x07, 0x02, 0x9b, 0xfc, 0xdb, 0x2d,
    0xce, 0x28, 0xd9, 0x59, 0xf2, 0x81, 0x5b, 0x16, 0xf8, 0x17, 0x98]

/-- Source: `push_le8` -/
def pushLe8 (x : UInt64) : Op := .push (leBytes 8 x.toNat)

/-- Source: `push_xonly` -/
def pushXonly (key : ByteString 33) : Op := .push (xonly key).bytes

/-- The id of an asset, which is the policy asset if none is given; `none` where the source's
assertion fails. Source: `tcov_asset_id` -/
def tcovAssetId (feeAssetTag : ByteString 33) (assetTag : Option (ByteString 33)) :
    Option (ByteString 32) :=
  let tag := assetTag.getD feeAssetTag
  if tag.bytes.head? = some 0x01 then some (xonly tag) else none

/-! ### The leaves -/

/-- The output at the input's own index has the asset, at least `x` of it, and the v1 program.
Source: `add_cov` -/
def addCov (assetId : ByteString 32) (x : UInt64) (dProgram : ByteString 32) : List Op :=
  [.pushCurrentInputIndex, .dup, .dup,
    .inspectOutput .asset, .push [1], .equalVerify,
    .push assetId.bytes, .equalVerify,
    .inspectOutput .value, .push [1], .equalVerify,
    pushLe8 x, .greaterThanOrEqual64, .verify,
    .inspectOutput .scriptPubKey, .push [1], .equalVerify,
    .push dProgram.bytes, .equal]

/-- The output at the input's own index has the input's asset, at least its value, and the script,
which is a segwit one. Source: `add_keep` -/
def addKeep (destSpk : Bytes) : List Op :=
  [.pushCurrentInputIndex, .dup,
    .inspectOutput .asset, .push [1], .equalVerify,
    .over, .inspectInput .asset, .push [1], .equalVerify, .equalVerify,
    .dup, .inspectOutput .value, .push [1], .equalVerify,
    .over, .inspectInput .value, .push [1], .equalVerify,
    .greaterThanOrEqual64, .verify,
    .inspectOutput .scriptPubKey,
    .push (versionBytes (segwitProgram destSpk).1), .equalVerify,
    .push (segwitProgram destSpk).2, .equal]

/-- Source: `tcov_leaf_delay` -/
def tcovLeafDelay (delayedKey : ByteString 33) (toSelfDelay : UInt16) : List Op :=
  [pushXonly delayedKey, .checkSigVerify, pushNum toSelfDelay.toNat, .checkSequenceVerify]

/-- Source: `add_pointlock` -/
def addPointlock (lockPoint : ByteString 33) : List Op :=
  [.push lockPoint.bytes, .push generatorDer, .rot, .ecMulScalarVerify]

/-- Source: `add_hashlock` -/
def addHashlock (paymentRipemd : ByteString 20) : List Op :=
  [.size, pushNum 32, .equalVerify, .hash160, .push paymentRipemd.bytes, .equalVerify]

/-- Source: `add_hashlock`, `add_pointlock` -/
def addLock : Lock → List Op
  | .hash paymentRipemd => addHashlock paymentRipemd
  | .point lockPoint => addPointlock lockPoint

/-- Source: `tcov_leaf_revoke` -/
def tcovLeafRevoke (perCommitmentPoint : ByteString 33) (destSpk : Bytes) : List Op :=
  [.push perCommitmentPoint.bytes, .push generatorDer, .rot, .ecMulScalarVerify] ++
    addKeep destSpk

/-- Source: `tcov_leaf_offered_timeout` -/
def tcovLeafOfferedTimeout (selfHtlcKey : ByteString 33) (cltvExpiry : UInt32)
    (assetId : ByteString 32) (x : UInt64) (dProgram : ByteString 32) : List Op :=
  [pushXonly selfHtlcKey, .checkSigVerify, pushNum cltvExpiry.toNat, .checkLockTimeVerify,
    .drop] ++ addCov assetId x dProgram

/-- Source: `tcov_leaf_offered_success`, `tcov_leaf_offered_success_point` -/
def tcovLeafOfferedSuccess (lock : Lock) (otherHtlcKey : ByteString 33) : List Op :=
  addLock lock ++ [pushXonly otherHtlcKey, .checkSig]

/-- Source: `tcov_leaf_received_success`, `tcov_leaf_received_success_point` -/
def tcovLeafReceivedSuccess (lock : Lock) (selfHtlcKey : ByteString 33) (assetId : ByteString 32)
    (x : UInt64) (dProgram : ByteString 32) : List Op :=
  addLock lock ++ ([pushXonly selfHtlcKey, .checkSigVerify] ++ addCov assetId x dProgram)

/-- Source: `tcov_leaf_received_timeout` -/
def tcovLeafReceivedTimeout (otherHtlcKey : ByteString 33) (cltvExpiry : UInt32) : List Op :=
  [pushXonly otherHtlcKey, .checkSigVerify, pushNum cltvExpiry.toNat, .checkLockTimeVerify]

/-! ### The trees -/

/-- Source: `scriptpubkey_p2wpkh` -/
def scriptpubkeyP2wpkh (K : Crypto) (key : ByteString 33) : Bytes :=
  0x00 :: scriptPushBytes (K.hash160 key.bytes).bytes

/-- The other side's static payment script. Source: `tcov_revoke_dest` -/
def tcovRevokeDest (K : Crypto) (keyset : Keyset) : Bytes :=
  scriptpubkeyP2wpkh K keyset.otherPaymentKey

section trees

variable (K : Crypto) (keyset : Keyset) (perCommitmentPoint : ByteString 33) (toSelfDelay : UInt16)
variable (feeAssetTag : ByteString 33) (assetTag : Option (ByteString 33))
variable (lock : Lock) (cltvExpiry : UInt32) (htlcSats : UInt64)

/-- Source: `tcov_to_local_tree` -/
def tcovToLocalTree : Option TapTree2 :=
  tapTree2Finish K.hash K.curve keyset.selfRevocationKey
    (scriptBytes (tcovLeafDelay keyset.selfDelayedPaymentKey toSelfDelay))
    (scriptBytes (tcovLeafRevoke perCommitmentPoint (tcovRevokeDest K keyset)))

/-- Source: `tcov_offered_htlc_tree` -/
def tcovOfferedHtlcTree : Option TapTree2 := do
  let d ← tcovToLocalTree K keyset perCommitmentPoint toSelfDelay
  let assetId ← tcovAssetId feeAssetTag assetTag
  tapTree2Finish K.hash K.curve keyset.selfRevocationKey
    (scriptBytes (tcovLeafOfferedTimeout keyset.selfHtlcKey cltvExpiry assetId htlcSats d.program))
    (scriptBytes (tcovLeafOfferedSuccess lock keyset.otherHtlcKey))

/-- Source: `tcov_received_htlc_tree` -/
def tcovReceivedHtlcTree : Option TapTree2 := do
  let d ← tcovToLocalTree K keyset perCommitmentPoint toSelfDelay
  let assetId ← tcovAssetId feeAssetTag assetTag
  tapTree2Finish K.hash K.curve keyset.selfRevocationKey
    (scriptBytes (tcovLeafReceivedSuccess lock keyset.selfHtlcKey assetId htlcSats d.program))
    (scriptBytes (tcovLeafReceivedTimeout keyset.otherHtlcKey cltvExpiry))

end trees

lemma leaf_of_tapTree2Finish {H : Hashing} {C : Curve} {key : ByteString 33} {leaf0 leaf1 : Bytes}
    {t : TapTree2} (h : tapTree2Finish H C key leaf0 leaf1 = some t) : t.leaf = (leaf0, leaf1) := by
  obtain ⟨_, -, h⟩ := Option.bind_eq_some_iff.1 h
  cases h
  rfl

end SeqLN.Tcov
