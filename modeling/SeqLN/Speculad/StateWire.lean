import SeqLN.Common
import SeqLN.Lib.Cursor
import SeqLN.Sym.Clock

/-!
# States, factories and lanes on the wire

The parts of a symmetric channel that are stored and read back: a state with its settlement and its
signatures, a factory with its slots, a lane. Each writer stands beside its reader, and one lemma
says that the reader takes exactly what the writer wrote: `takes_symState`, `takes_symFactory`,
`takes_symLane`.
-/

namespace SeqLN.Speculad

open Tapscript Lib Lib.Fromwire SeqLN.Sym

/-! ### States -/

/-- Source: `common/sym_state.h`, `struct sym_state_out` -/
structure SymStateOut where
  amount : UInt64
  spk : Bytes
  asset : Option (ByteString 33)
  deriving DecidableEq

/-- A state with its settlement and each side's signature.
Source: `common/sym_state.h`, `struct sym_state` -/
structure SymStateRecord where
  owner : Side
  commitNum : UInt64
  num : Int64
  outs : List SymStateOut
  hasSig : Side → Bool
  sig : Side → ByteString 64

/-- Whether an output names its asset. -/
def SymStateRecord.assets (st : SymStateRecord) : Bool := st.outs.any fun o => o.asset.isSome

/-- What its invariants say of a state: as many outputs and as long scripts as their counts hold, and
every asset it names an open one. -/
structure SymStateRecord.Ok (st : SymStateRecord) : Prop where
  outs_lt : st.outs.length < 2 ^ 16
  spk_lt : ∀ o ∈ st.outs, o.spk.length < 2 ^ 16
  asset_open : ∀ o ∈ st.outs, ∀ a ∈ o.asset, a.bytes.head? = some 1

/-- Source: `SYM_STATE_ASSETS` -/
def symStateAssets : UInt8 := 0x80

/-- Source: `common/htlc.h`, `enum side` -/
def sideByte : Side → UInt8
  | .LOCAL => 0
  | .REMOTE => 1

/-- Source: `towire_sym_state`, an output -/
def towireSymStateOut (assets : Bool) (o : SymStateOut) : Bytes :=
  beBytes 8 o.amount.toNat ++ (beBytes 2 o.spk.length ++
    (o.spk ++ if assets then flaggedBytes (fun a => a.bytes) o.asset else []))

/-- Source: `towire_sym_state` -/
def towireSymState (st : SymStateRecord) : Bytes :=
  beBytes 1 (sideByte st.owner ||| if st.assets then symStateAssets else 0).toNat ++
    (beBytes 8 st.commitNum.toNat ++ (beBytes 8 st.num.toUInt64.toNat ++
      (beBytes 2 st.outs.length ++ (st.outs.flatMap (towireSymStateOut st.assets) ++
        (boolBytes (st.hasSig .LOCAL) ++ ((st.sig .LOCAL).bytes ++
          (boolBytes (st.hasSig .REMOTE) ++ (st.sig .REMOTE).bytes)))))))

/-- The next `n` bytes, none where there are not as many.
Source: `fromwire_tal_arrn` -/
def fromwireTalArrn (n : ℕ) : Fromwire (Option (ByteString n)) := do
  let b ← fixed n
  orNone b

/-- Source: `fromwire_sym_state`, an output's asset -/
def fromwireOutAsset : Fromwire (Option (ByteString 33)) := do
  let a ← fromwireTalArrn 33
  check (∀ t ∈ a, t.bytes.head? = some 1)
  return a

/-- An output's asset, in a state that names assets. Source: `fromwire_sym_state` -/
def fromwireAssetIf (assets : Bool) : Fromwire (Option (ByteString 33)) :=
  if assets then flagged fromwireOutAsset else pure none

/-- Source: `fromwire_sym_state`, an output -/
def fromwireSymStateOut (assets : Bool) : Fromwire SymStateOut := do
  let amount ← u64
  let len ← u16
  let spk ← fromwireTalArrn len.toNat
  let asset ← fromwireAssetIf assets
  return { amount, spk := spk.elim [] fun b => b.bytes, asset }

/-- Source: `fromwire_sym_state`, the owner in the first byte -/
def ownerByte (b : UInt8) : UInt8 := b &&& ~~~symStateAssets

/-- The state of what was read: the first byte, both numbers, the outputs and, of the local and the
remote side, whether it signed and its signature. -/
def stateOf (owner : UInt8) (commitNum num : UInt64) (outs : List SymStateOut) (hasSig : Bool × Bool)
    (sig : ByteString 64 × ByteString 64) : SymStateRecord where
  owner := if ownerByte owner = 0 then .LOCAL else .REMOTE
  commitNum
  num := num.toInt64
  outs
  hasSig
    | .LOCAL => hasSig.1
    | .REMOTE => hasSig.2
  sig
    | .LOCAL => sig.1
    | .REMOTE => sig.2

/-- Source: `fromwire_sym_state` -/
def fromwireSymState : Fromwire (Option SymStateRecord) := do
  let owner ← u8
  check (ownerByte owner = 0 ∨ ownerByte owner = 1)
  let commitNum ← u64
  let num ← u64
  let n ← u16
  let outs ← times n.toNat (fromwireSymStateOut (owner &&& symStateAssets ≠ 0))
  let hasLocal ← bool
  let sigLocal ← fixed 64
  let hasRemote ← bool
  let sigRemote ← fixed 64
  orNone (stateOf owner commitNum num outs (hasLocal, hasRemote) (sigLocal, sigRemote))

instance (n : ℕ) : Sticky (fromwireTalArrn n) := inferInstanceAs (Sticky (_ >>= _))

instance : Sticky fromwireOutAsset := inferInstanceAs (Sticky (_ >>= _))

instance (assets : Bool) : Sticky (fromwireAssetIf assets) := inferInstanceAs (Sticky (ite _ _ _))

instance (assets : Bool) : Sticky (fromwireSymStateOut assets) := inferInstanceAs (Sticky (_ >>= _))

instance : Sticky fromwireSymState := inferInstanceAs (Sticky (_ >>= _))

lemma takes_talArrn {n : ℕ} (b : ByteString n) : Takes (fromwireTalArrn n) b.bytes (some b) :=
  (Takes.fixed b).bind_nil (.orNone b)

lemma takes_outAsset {a : ByteString 33} (h : a.bytes.head? = some 1) :
    Takes fromwireOutAsset a.bytes (some a) := by
  have hcheck : ∀ t ∈ some a, t.bytes.head? = some 1 := by
    rintro t ⟨⟩
    exact h
  exact (takes_talArrn a).bind_nil ((Takes.check hcheck).bind_nil (.pure _))

/-- An output that is written is read back. -/
lemma takes_symStateOut {assets : Bool} {o : SymStateOut} (hspk : o.spk.length < 2 ^ 16)
    (hopen : ∀ a ∈ o.asset, a.bytes.head? = some 1) (hassets : o.asset.isSome → assets = true) :
    Takes (fromwireSymStateOut assets) (towireSymStateOut assets o) o := by
  have hlen : (UInt16.ofNat o.spk.length).toNat = o.spk.length := UInt16.toNat_ofNat_of_lt hspk
  have hasset : Takes (fromwireAssetIf assets)
      (if assets then flaggedBytes (fun a => a.bytes) o.asset else []) o.asset := by
    cases assets with
    | true => exact .flagged fun a ha => takes_outAsset (hopen a ha)
    | false =>
      have hnone : o.asset = none := by
        cases h : o.asset with
        | none => rfl
        | some a => exact absurd (hassets (by rw [h]; rfl)) (by decide)
      rw [hnone]
      exact .pure none
  have hscript : Takes (fromwireTalArrn (UInt16.ofNat o.spk.length).toNat) o.spk
      (some ⟨o.spk, hlen.symm⟩) := takes_talArrn ⟨o.spk, hlen.symm⟩
  exact (Takes.u64 o.amount).bind ((Takes.count hspk).bind (hscript.bind hasset.map))

/-- The first byte gives back the owner and the flag. -/
theorem ownerByte_or (s : Side) (assets : Bool) :
    ownerByte (sideByte s ||| if assets then symStateAssets else 0) = sideByte s ∧
    (((sideByte s ||| if assets then symStateAssets else 0) &&& symStateAssets ≠ 0) ↔
      assets = true) := by
  cases s <;> cases assets <;> decide

lemma stateOf_eq {st : SymStateRecord} {owner : UInt8} (h : ownerByte owner = sideByte st.owner) :
    stateOf owner st.commitNum st.num.toUInt64 st.outs (st.hasSig .LOCAL, st.hasSig .REMOTE)
      (st.sig .LOCAL, st.sig .REMOTE) = st := by
  obtain ⟨side, commitNum, num, outs, hasSig, sig⟩ := st
  have hside : (if ownerByte owner = 0 then Side.LOCAL else Side.REMOTE) = side := by
    rw [h]
    cases side <;> rfl
  rw [stateOf, hside]
  congr 1
  · funext s
    cases s <;> rfl
  · funext s
    cases s <;> rfl

/-- A state that is written is read back. -/
lemma takes_symState {st : SymStateRecord} (h : st.Ok) :
    Takes fromwireSymState (towireSymState st) (some st) := by
  obtain ⟨hside, hassets⟩ := ownerByte_or st.owner st.assets
  have howner : ownerByte (sideByte st.owner ||| if st.assets then symStateAssets else 0) = 0 ∨
      ownerByte (sideByte st.owner ||| if st.assets then symStateAssets else 0) = 1 := by
    rw [hside]
    cases st.owner
    · exact .inl rfl
    · exact .inr rfl
  have hlen : (UInt16.ofNat st.outs.length).toNat = st.outs.length := UInt16.toNat_ofNat_of_lt h.outs_lt
  have houts : Takes (times (UInt16.ofNat st.outs.length).toNat (fromwireSymStateOut
      ((sideByte st.owner ||| if st.assets then symStateAssets else 0) &&& symStateAssets ≠ 0)))
      (st.outs.flatMap (towireSymStateOut st.assets)) st.outs := by
    have hflag : decide (((sideByte st.owner ||| if st.assets then symStateAssets else 0) &&&
        symStateAssets) ≠ 0) = st.assets := Bool.eq_iff_iff.2 (by rw [decide_eq_true_eq, hassets])
    rw [hlen, hflag]
    refine .times fun o ho => takes_symStateOut (h.spk_lt o ho) (h.asset_open o ho) fun hsome => ?_
    exact List.any_eq_true.2 ⟨o, ho, hsome⟩
  have hlast : Takes (orNone (stateOf (sideByte st.owner ||| if st.assets then symStateAssets else 0)
      st.commitNum st.num.toUInt64 st.outs (st.hasSig .LOCAL, st.hasSig .REMOTE)
      (st.sig .LOCAL, st.sig .REMOTE))) [] (some st) := by
    rw [stateOf_eq hside]
    exact .orNone st
  exact (Takes.u8 _).bind ((Takes.check howner).nil_bind ((Takes.u64 _).bind ((Takes.u64 _).bind
    ((Takes.count h.outs_lt).bind (houts.bind ((Takes.bool _).bind ((Takes.fixed _).bind
      ((Takes.bool _).bind ((Takes.fixed _).bind_nil hlast)))))))))

/-! ### Factories and lanes -/

/-- Source: `common/sym_factory.h`, `struct sym_factory_slot` -/
structure FactorySlot where
  program : ByteString 32
  amount : UInt64
  deriving DecidableEq

/-- Source: `common/sym_factory.h`, `struct sym_factory` -/
structure SymFactory where
  nonce : ByteString 32
  slot : UInt16
  asset : ByteString 33
  out : Outpoint
  slots : List FactorySlot
  deriving DecidableEq

/-- Source: `SYM_FACTORY_MAX_SLOTS` -/
def symFactoryMaxSlots : ℕ := 1000

/-- Source: `towire_bitcoin_outpoint` -/
def towireBitcoinOutpoint (o : Outpoint) : Bytes := o.txid.bytes ++ beBytes 4 o.n.toNat

/-- Source: `fromwire_bitcoin_outpoint` -/
def fromwireBitcoinOutpoint : Fromwire Outpoint := do
  let txid ← fixed 32
  let n ← u32
  return { txid, n }

/-- Source: `towire_sym_factory`, a slot -/
def towireSlot (s : FactorySlot) : Bytes := s.program.bytes ++ beBytes 8 s.amount.toNat

/-- Source: `fromwire_sym_factory`, a slot -/
def fromwireSlot : Fromwire FactorySlot := do
  let program ← fixed 32
  let amount ← u64
  return { program, amount }

/-- Source: `towire_sym_factory` -/
def towireSymFactory (f : SymFactory) : Bytes :=
  f.nonce.bytes ++ (beBytes 2 f.slot.toNat ++ (f.asset.bytes ++ (towireBitcoinOutpoint f.out ++
    (beBytes 2 f.slots.length ++ f.slots.flatMap towireSlot))))

/-- The slots of a factory, as many as were counted.
Source: `fromwire_sym_factory` -/
def fromwireSlots (n : UInt16) : Fromwire (Option (List FactorySlot)) :=
  if symFactoryMaxSlots < n.toNat then do
    fail
    return none
  else do
    let slots ← times n.toNat fromwireSlot
    orNone slots

/-- Source: `fromwire_sym_factory` -/
def fromwireSymFactory : Fromwire (Option SymFactory) := do
  let nonce ← fixed 32
  let slot ← u16
  let asset ← fixed 33
  let out ← fromwireBitcoinOutpoint
  let n ← u16
  let slots ← fromwireSlots n
  return slots.map fun slots => { nonce, slot, asset, out, slots }

instance : Sticky fromwireBitcoinOutpoint := inferInstanceAs (Sticky (_ >>= _))

instance : Sticky fromwireSlot := inferInstanceAs (Sticky (_ >>= _))

instance (n : UInt16) : Sticky (fromwireSlots n) := inferInstanceAs (Sticky (ite _ _ _))

instance : Sticky fromwireSymFactory := inferInstanceAs (Sticky (_ >>= _))

lemma takes_outpoint (o : Outpoint) : Takes fromwireBitcoinOutpoint (towireBitcoinOutpoint o) o :=
  (Takes.fixed o.txid).bind (Takes.u32 o.n).map

lemma takes_slot (s : FactorySlot) : Takes fromwireSlot (towireSlot s) s :=
  (Takes.fixed s.program).bind (Takes.u64 s.amount).map

lemma takes_symFactory {f : SymFactory} (h : f.slots.length ≤ symFactoryMaxSlots) :
    Takes fromwireSymFactory (towireSymFactory f) (some f) := by
  have hlt : f.slots.length < 2 ^ 16 := lt_of_le_of_lt h (by decide)
  have hlen : (UInt16.ofNat f.slots.length).toNat = f.slots.length := UInt16.toNat_ofNat_of_lt hlt
  have hslots : Takes (fromwireSlots (UInt16.ofNat f.slots.length)) (f.slots.flatMap towireSlot)
      (some f.slots) := by
    rw [fromwireSlots, hlen, if_neg (not_lt.2 h)]
    exact (Takes.times fun s _ => takes_slot s).bind_nil (.orNone _)
  exact (Takes.fixed _).bind ((Takes.u16 _).bind ((Takes.fixed _).bind ((takes_outpoint _).bind
    ((Takes.count hlt).bind hslots.map))))

/-- Source: `common/sym_lanes.h`, `struct sym_lane` -/
structure SymLane where
  asset : ByteString 33
  outnum : UInt32
  fundingSats : UInt64
  deriving DecidableEq

/-- Source: `SYM_MAX_LANES` -/
def symMaxLanes : ℕ := 8

/-- Source: `towire_sym_lane` -/
def towireSymLane (l : SymLane) : Bytes :=
  l.asset.bytes ++ (beBytes 4 l.outnum.toNat ++ beBytes 8 l.fundingSats.toNat)

/-- Source: `fromwire_sym_lane` -/
def fromwireSymLane : Fromwire SymLane := do
  let asset ← fixed 33
  let outnum ← u32
  let fundingSats ← u64
  return { asset, outnum, fundingSats }

instance : Sticky fromwireSymLane := inferInstanceAs (Sticky (_ >>= _))

lemma takes_symLane (l : SymLane) : Takes fromwireSymLane (towireSymLane l) l :=
  (Takes.fixed l.asset).bind ((Takes.u32 l.outnum).bind (Takes.u64 l.fundingSats).map)

end SeqLN.Speculad
