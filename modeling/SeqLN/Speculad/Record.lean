import SeqLN.Speculad.StateWire

/-!
# The watchtower's record of a symmetric channel

The node writes what the tower needs of a symmetric channel to a file (`wtStorePutSym`), in one of four
versions, and the tower reads it back (`readSym`), through a cursor that is lost at the first read that
does not fit, and looked for only at the end; in between the channel's constants are made, whose asset
must be an open one or the process stops. `readSym_wtStorePutSym_and_prefixes`: every record
(`Channel.record`) is read back, and which prefixes are rejected.
-/

namespace SeqLN.Speculad

open Tapscript Lib Lib.Fromwire SeqLN.Sym List

/-! ### What the node writes -/

/-- A symmetric channel as the node holds it, as far as its record goes. It is a plain one, a
factory's, one of several assets or one with a settle clock.
Source: `lightningd/channel.h`, `struct channel`; `sym_factory_check`, `sym_lanes_check` and the
channel types for the last fields -/
structure Channel (validKey : ByteString 33 → Bool) where
  dbid : UInt64
  funding : Outpoint
  scid : Option UInt64
  fundingSats : UInt64
  channelAsset : ByteString 33
  /-- The delay each side's config asks for. -/
  toSelfDelay : Side → UInt16
  /-- Each side's delayed payment basepoint. -/
  delayedPayment : Side → ByteString 33
  /-- Each side's funding key. -/
  fundingPubkey : Side → ByteString 33
  opener : Side
  symLocal : Option SymStateRecord
  symRemote : Option SymStateRecord
  symRemotePending : Option SymStateRecord
  symFactory : Option SymFactory
  symLanes : Option (List SymLane)
  /-- The issuer of a settle-clock channel's marker. -/
  symClock : Option Outpoint
  asset_open : channelAsset.bytes.head? = some 1
  delayedPayment_valid : ∀ s, validKey (delayedPayment s) = true
  fundingPubkey_valid : ∀ s, validKey (fundingPubkey s) = true
  local_ok : ∀ st ∈ symLocal, st.Ok
  remote_ok : ∀ st ∈ symRemote, st.Ok
  pending_ok : ∀ st ∈ symRemotePending, st.Ok
  factory_slots : ∀ f ∈ symFactory, f.slots.length ≤ symFactoryMaxSlots
  factory_slot : ∀ f ∈ symFactory, f.slot.toNat < f.slots.length
  lanes_count : ∀ ls ∈ symLanes, 0 < ls.length ∧ ls.length ≤ symMaxLanes
  lanes_no_factory : symLanes.isSome → symFactory = none
  clock_alone : symClock.isSome → symFactory = none ∧ symLanes = none

namespace Channel

variable {validKey : ByteString 33 → Bool} (ch : Channel validKey)

/-- The better signed of the two states.
Source: `lightningd/symmetric.c`, `sym_best_state` -/
def symBestState : Option SymStateRecord :=
  [ch.symLocal, ch.symRemote].foldl (fun best cand => cand.elim best fun st =>
    if st.hasSig .LOCAL ∧ st.hasSig .REMOTE ∧ ∀ b ∈ best, b.num < st.num then some st else best) none

/-- Source: `lightningd/symmetric.c`, `sym_channel_delay` -/
def symChannelDelay : UInt16 :=
  if ch.toSelfDelay .LOCAL > ch.toSelfDelay .REMOTE then ch.toSelfDelay .LOCAL
  else ch.toSelfDelay .REMOTE

/-- The update keys. Source: `sym_channel_from` -/
def updKey : SymSide → ByteString 33
  | .opener => ch.delayedPayment ch.opener
  | .accepter => ch.delayedPayment ch.opener.other

/-- Source: `wt_store_put_sym` -/
def version : UInt64 :=
  if ch.symClock.isSome then 4 else if ch.symLanes.isSome then 3
  else if ch.symFactory.isSome then 2 else 1

/-- The height the funding was mined at, zero where it is not known.
Source: `wt_store_put_sym`, `short_channel_id_blocknum` -/
def fundingHeight : UInt32 :=
  match ch.scid with
  | some scid => (scid >>> 40).toUInt32
  | none => 0

/-- The constants, up to the asset. Source: `wt_store_put_sym` -/
def putConstants (genesis : ByteString 32) : Bytes :=
  beBytes 8 ch.dbid.toNat ++ (genesis.bytes ++ (towireBitcoinOutpoint ch.funding ++
    (beBytes 4 ch.fundingHeight.toNat ++ (beBytes 8 ch.fundingSats.toNat ++ ch.channelAsset.bytes))))

/-- Source: `wt_store_put_sym`, the factory -/
def putFactory : Bytes :=
  match ch.symFactory with
  | some f => boolBytes true ++ towireSymFactory f
  | none => if ch.symLanes.isSome ∨ ch.symClock.isSome then boolBytes false else []

/-- Source: `wt_store_put_sym`, the lanes -/
def putLanes : Bytes :=
  match ch.symLanes with
  | some ls => boolBytes true ++ (beBytes 2 ls.length ++ ls.flatMap towireSymLane)
  | none => if ch.symClock.isSome then boolBytes false else []

/-- Source: `wt_store_put_sym`, the clock -/
def putClock : Bytes :=
  match ch.symClock with
  | some issuer => boolBytes true ++ (towireBitcoinOutpoint issuer ++
      ((ch.fundingPubkey .LOCAL).bytes ++ (ch.fundingPubkey .REMOTE).bytes))
  | none => []

/-- What follows the constants, up to the clock. Source: `wt_store_put_sym` -/
def putBody : Bytes :=
  beBytes 2 ch.symChannelDelay.toNat ++ ((ch.updKey .opener).bytes ++ ((ch.updKey .accepter).bytes ++
    (boolBytes (ch.opener = .LOCAL) ++ (flaggedBytes towireSymState ch.symBestState ++
      (flaggedBytes towireSymState ch.symRemotePending ++ (ch.putFactory ++ ch.putLanes))))))

/-- The record of a channel. Source: `wt_store_put_sym` -/
def wtStorePutSym (genesis : ByteString 32) : Bytes :=
  beBytes 8 ch.version.toNat ++ (ch.putConstants genesis ++ (ch.putBody ++ ch.putClock))

end Channel

/-! ### What the tower reads -/

/-- Source: `fromwire_pubkey` -/
def fromwirePubkey (validKey : ByteString 33 → Bool) : Fromwire (ByteString 33) := do
  let der ← fixed 33
  check (validKey der = true)
  return der

/-- The first part of a record. -/
structure Constants where
  dbid : UInt64
  genesis : ByteString 32
  funding : Outpoint
  fundingHeight : UInt32
  fundingSats : UInt64
  asset : ByteString 33
  deriving DecidableEq

/-- Source: `read_sym`, up to the asset -/
def readConstants : Fromwire Constants := do
  let dbid ← u64
  let genesis ← fixed 32
  let funding ← fromwireBitcoinOutpoint
  let fundingHeight ← u32
  let fundingSats ← u64
  let asset ← fixed 33
  return { dbid, genesis, funding, fundingHeight, fundingSats, asset }

/-- The second part of a record. -/
structure Body where
  delay : UInt16
  key : SymSide → ByteString 33
  weOpened : Bool
  best : Option SymStateRecord
  pending : Option SymStateRecord
  factory : Option SymFactory
  lanes : Option (List SymLane)

/-- Source: `read_sym`, the factory behind its flag -/
def readFactoryRecord : Fromwire (Option SymFactory) := do
  let f ← fromwireSymFactory
  let f := f.filter fun f => f.slot.toNat < f.slots.length
  check (f.isSome = true)
  return f

/-- Source: `read_sym`, the factory -/
def readFactory (version : UInt64) : Fromwire (Option SymFactory) :=
  if 2 ≤ version then flagged readFactoryRecord else pure none

/-- As many lanes as were counted. Source: `read_sym` -/
def readLaneList (factory : Option SymFactory) (n : UInt16) : Fromwire (Option (List SymLane)) :=
  if n.toNat = 0 ∨ symMaxLanes < n.toNat ∨ factory.isSome then do
    fail
    return none
  else do
    let lanes ← times n.toNat fromwireSymLane
    return some lanes

/-- Source: `read_sym`, the lanes -/
def readLanes (version : UInt64) (factory : Option SymFactory) : Fromwire (Option (List SymLane)) :=
  if 3 ≤ version then flagged (u16 >>= readLaneList factory) else pure none

/-- Source: `read_sym`, from the delay to the lanes -/
def readBody (validKey : ByteString 33 → Bool) (version : UInt64) : Fromwire Body := do
  let delay ← u16
  let opener ← fromwirePubkey validKey
  let accepter ← fromwirePubkey validKey
  let weOpened ← bool
  let best ← flagged fromwireSymState
  let pending ← flagged fromwireSymState
  let factory ← readFactory version
  let lanes ← readLanes version factory
  return { delay, key := fun | .opener => opener | .accepter => accepter, weOpened, best, pending,
           factory, lanes }

/-- What a record says of a settle clock: the issuer and both funding keys. -/
structure ClockRecord where
  issuer : Outpoint
  fk : ByteString 33 × ByteString 33

/-- Source: `read_sym`, the clock behind its flag -/
def readClockRecord (validKey : ByteString 33 → Bool) (b : Body) : Fromwire (Option ClockRecord) := do
  let issuer ← fromwireBitcoinOutpoint
  let fk0 ← fromwirePubkey validKey
  let fk1 ← fromwirePubkey validKey
  check (b.factory = none ∧ b.lanes = none)
  orNone { issuer, fk := (fk0, fk1) }

/-- Source: `read_sym`, the clock -/
def readClock (validKey : ByteString 33 → Bool) (version : UInt64) (b : Body) :
    Fromwire (Option ClockRecord) :=
  if 4 ≤ version then flagged (readClockRecord validKey b) else pure none

/-- What the tower holds of a symmetric channel.
Source: `speculad/speculad.c`, `struct spd_sym`; its `sc` with the clock beside it -/
structure SpdSym where
  constants : Constants
  body : Body
  sc : SymChannel
  clock : Option SymClock
  /-- The marker's asset tag, of a settle-clock channel. -/
  marker : Option (ByteString 33)

/-- How a reading ends: with a record, with a refusal, or in an assertion. -/
inductive ReadSym where
  | record (s : SpdSym)
  | rejected
  | aborted

/-- The channel's constants, where the source's assertion on the asset holds.
Source: `sym_channel_init` -/
def symChannelInitAsserted (H : Hashing) (c : Constants) (b : Body) : Option SymChannel :=
  if c.asset.bytes.head? = some 1 then
    some (symChannelInit H c.genesis c.funding.txid c.funding.n.toNat (b.key .opener) (b.key .accepter)
      c.asset b.delay)
  else none

section reader

variable (H : Hashing) (markerId : Outpoint → ByteString 32) (validKey : ByteString 33 → Bool)

/-- The tower's channel of what was read, the clock's constants made from the issuer and the keys.
Source: `read_sym`, `sym_channel_set_clock` -/
def spdSym (c : Constants) (b : Body) (sc : SymChannel) (k : Option ClockRecord) : SpdSym :=
  let clock := k.map fun k =>
    symClockConstants H (markerId k.issuer) (bitcoinRedeem2of2 k.fk.1 k.fk.2) c.fundingSats
  { constants := c, body := b, sc := if k.isSome then symChannelSetClock sc else sc, clock,
    marker := clock.map symClockMarkerAsset }

/-- What follows the version. The channel's constants are made before the cursor is looked at.
Source: `read_sym` -/
def readVersioned (version : UInt64) (cur : Option Bytes) : ReadSym :=
  match readConstants cur with
  | (c, cur) => match readBody validKey version cur with
    | (b, cur) => match symChannelInitAsserted H c b with
      | none => .aborted
      | some sc => match readClock validKey version b cur with
        | (k, some _) => .record (spdSym H markerId c b sc k)
        | (_, none) => .rejected

/-- The tower's reading of a record. Source: `read_sym` -/
def readSym (contents : Bytes) : ReadSym :=
  match u64 (some contents) with
  | (version, cur) =>
    if version = 1 ∨ version = 2 ∨ version = 3 ∨ version = 4 then
      readVersioned H markerId validKey version cur
    else .rejected

end reader

/-! ### The record of a channel -/

namespace Channel

variable {validKey : ByteString 33 → Bool} (ch : Channel validKey)

/-- The constants the tower should hold. -/
def constants (genesis : ByteString 32) : Constants where
  dbid := ch.dbid
  genesis
  funding := ch.funding
  fundingHeight := ch.fundingHeight
  fundingSats := ch.fundingSats
  asset := ch.channelAsset

/-- The delay, keys, states, factory and lanes the tower should hold. -/
def body : Body where
  delay := ch.symChannelDelay
  key := ch.updKey
  weOpened := ch.opener = .LOCAL
  best := ch.symBestState
  pending := ch.symRemotePending
  factory := ch.symFactory
  lanes := ch.symLanes

/-- The node's own constants of the channel's scripts.
Source: `lightningd/symmetric.c`, `sym_channel_from` -/
def symChannelFrom (H : Hashing) (genesis : ByteString 32) : SymChannel :=
  let sc := symChannelInit H genesis ch.funding.txid ch.funding.n.toNat (ch.updKey .opener)
    (ch.updKey .accepter) ch.channelAsset ch.symChannelDelay
  if ch.symClock.isSome then symChannelSetClock sc else sc

/-- The node's own constants of the settle clock.
Source: `lightningd/symmetric.c`, `sym_channel_from` -/
def clockFrom (H : Hashing) (markerId : Outpoint → ByteString 32) : Option SymClock :=
  ch.symClock.map fun issuer => symClockConstants H (markerId issuer)
    (bitcoinRedeem2of2 (ch.fundingPubkey .LOCAL) (ch.fundingPubkey .REMOTE)) ch.fundingSats

/-- What the tower should hold of the channel. -/
def record (H : Hashing) (markerId : Outpoint → ByteString 32) (genesis : ByteString 32) : SpdSym where
  constants := ch.constants genesis
  body := ch.body
  sc := ch.symChannelFrom H genesis
  clock := ch.clockFrom H markerId
  marker := (ch.clockFrom H markerId).map symClockMarkerAsset

/-! ### What the reader takes -/

instance : Sticky (fromwirePubkey validKey) := inferInstanceAs (Sticky (_ >>= _))

instance : Sticky readConstants := inferInstanceAs (Sticky (_ >>= _))

instance : Sticky readFactoryRecord := inferInstanceAs (Sticky (_ >>= _))

instance (version : UInt64) : Sticky (readFactory version) := inferInstanceAs (Sticky (ite _ _ _))

instance (factory : Option SymFactory) (n : UInt16) : Sticky (readLaneList factory n) :=
  inferInstanceAs (Sticky (ite _ _ _))

instance (version : UInt64) (factory : Option SymFactory) : Sticky (readLanes version factory) :=
  inferInstanceAs (Sticky (ite _ _ _))

instance (version : UInt64) : Sticky (readBody validKey version) := inferInstanceAs (Sticky (_ >>= _))

instance (b : Body) : Sticky (readClockRecord validKey b) := inferInstanceAs (Sticky (_ >>= _))

instance (version : UInt64) (b : Body) : Sticky (readClock validKey version b) :=
  inferInstanceAs (Sticky (ite _ _ _))

lemma takes_pubkey {key : ByteString 33} (h : validKey key = true) :
    Takes (fromwirePubkey validKey) key.bytes key :=
  (Takes.fixed key).bind_nil ((Takes.check h).bind_nil (.pure key))

lemma takes_constants (genesis : ByteString 32) :
    Takes readConstants (ch.putConstants genesis) (ch.constants genesis) :=
  (Takes.u64 _).bind ((Takes.fixed _).bind ((takes_outpoint _).bind ((Takes.u32 _).bind
    ((Takes.u64 _).bind (Takes.fixed _).map))))

lemma symBestState_ok : ∀ st ∈ ch.symBestState, st.Ok := by
  -- the best state is one of the two candidates
  have hmem : ∀ st ∈ ch.symBestState, st ∈ ch.symLocal ∨ st ∈ ch.symRemote := by
    intro st hst
    rw [symBestState] at hst
    cases hl : ch.symLocal <;> cases hr : ch.symRemote <;> simp only [hl, hr, foldl_cons,
      foldl_nil, Option.elim] at hst <;> grind
  intro st hst
  rcases hmem st hst with h | h
  · exact ch.local_ok st h
  · exact ch.remote_ok st h

lemma two_le_version : 2 ≤ ch.version ↔
    ch.symFactory.isSome ∨ ch.symLanes.isSome ∨ ch.symClock.isSome := by
  unfold version
  generalize ch.symClock.isSome = k, ch.symLanes.isSome = l, ch.symFactory.isSome = f
  decide +revert

lemma three_le_version : 3 ≤ ch.version ↔ ch.symLanes.isSome ∨ ch.symClock.isSome := by
  unfold version
  generalize ch.symClock.isSome = k, ch.symLanes.isSome = l, ch.symFactory.isSome = f
  decide +revert

lemma four_le_version : 4 ≤ ch.version ↔ ch.symClock.isSome := by
  unfold version
  generalize ch.symClock.isSome = k, ch.symLanes.isSome = l, ch.symFactory.isSome = f
  decide +revert

lemma version_known : ch.version = 1 ∨ ch.version = 2 ∨ ch.version = 3 ∨ ch.version = 4 := by
  unfold version
  generalize ch.symClock.isSome = k, ch.symLanes.isSome = l, ch.symFactory.isSome = f
  decide +revert

lemma takes_factoryRecord {f : SymFactory} (h : f ∈ ch.symFactory) :
    Takes readFactoryRecord (towireSymFactory f) (some f) := by
  have hslot : (some f).filter (fun f => f.slot.toNat < f.slots.length) = some f :=
    Option.filter_eq_some_iff.2 ⟨rfl, decide_eq_true (ch.factory_slot f h)⟩
  have hcheck : Takes (do
      check (((some f).filter fun f => f.slot.toNat < f.slots.length).isSome = true)
      return (some f).filter fun f => f.slot.toNat < f.slots.length) [] (some f) := by
    rw [hslot]
    exact (Takes.check rfl).bind_nil (.pure _)
  exact (takes_symFactory (ch.factory_slots f h)).bind_nil hcheck

/-- The factory's part of a channel that is written is read back. -/
lemma takes_factory : Takes (readFactory ch.version) ch.putFactory ch.symFactory := by
  rw [readFactory, putFactory]
  by_cases hv : 2 ≤ ch.version
  · have htakes := Takes.flagged (fun f hf => ch.takes_factoryRecord (f := f) hf)
    rw [if_pos hv]
    cases hf : ch.symFactory with
    | some f => simpa only [hf, flaggedBytes] using htakes
    | none =>
      have hmore : ch.symLanes.isSome ∨ ch.symClock.isSome := by
        simpa only [hf, Option.isSome_none, Bool.false_eq_true, false_or] using ch.two_le_version.1 hv
      simpa only [hf, flaggedBytes, if_pos hmore] using htakes
  · have hnone := mt ch.two_le_version.2 hv
    obtain ⟨hf, hl, hk⟩ : ch.symFactory = none ∧ ch.symLanes = none ∧ ch.symClock = none := by
      simpa only [not_or, Option.not_isSome_iff_eq_none] using hnone
    rw [if_neg hv, hf, hl, hk]
    exact .pure none

lemma takes_laneList (ls : List SymLane) (h : ls ∈ ch.symLanes) :
    Takes (u16 >>= readLaneList ch.symFactory) (beBytes 2 ls.length ++ ls.flatMap towireSymLane)
      (some ls) := by
  obtain ⟨hpos, hle⟩ := ch.lanes_count ls h
  have hfactory : ch.symFactory = none := ch.lanes_no_factory (Option.isSome_of_mem h)
  have hlt : ls.length < 2 ^ 16 := lt_of_le_of_lt hle (by decide)
  have hlen : (UInt16.ofNat ls.length).toNat = ls.length := UInt16.toNat_ofNat_of_lt hlt
  have hcount : ¬ (ls.length = 0 ∨ symMaxLanes < ls.length ∨
      (none : Option SymFactory).isSome = true) := by
    simp only [Option.isSome_none, Bool.false_eq_true, or_false]
    omega
  refine (Takes.count hlt).bind ?_
  rw [readLaneList, hlen, hfactory, if_neg hcount]
  exact (Takes.times fun l _ => takes_symLane l).map

/-- The lanes that are written are read back. -/
lemma takes_lanes : Takes (readLanes ch.version ch.symFactory) ch.putLanes ch.symLanes := by
  rw [readLanes, putLanes]
  by_cases hv : 3 ≤ ch.version
  · have htakes := Takes.flagged ch.takes_laneList
    rw [if_pos hv]
    cases hl : ch.symLanes with
    | some ls => simpa only [hl, flaggedBytes] using htakes
    | none =>
      have hmore : ch.symClock.isSome := by
        simpa only [hl, Option.isSome_none, Bool.false_eq_true, false_or] using ch.three_le_version.1 hv
      simpa only [hl, flaggedBytes, if_pos hmore] using htakes
  · have hnone := mt ch.three_le_version.2 hv
    obtain ⟨hl, hk⟩ : ch.symLanes = none ∧ ch.symClock = none := by
      simpa only [not_or, Option.not_isSome_iff_eq_none] using hnone
    rw [if_neg hv, hl, hk]
    exact .pure none

lemma updKey_valid (s : SymSide) : validKey (ch.updKey s) = true := by
  cases s
  · exact ch.delayedPayment_valid _
  · exact ch.delayedPayment_valid _

/-- The body of a channel that is written is read back. -/
lemma takes_body : Takes (readBody validKey ch.version) ch.putBody ch.body := by
  have hstate : ∀ st : SymStateRecord, st.Ok → Takes fromwireSymState (towireSymState st) (some st) :=
    fun _ h => takes_symState h
  have hlanes : Takes (readLanes ch.version ch.symFactory >>= fun lanes => pure
      (⟨ch.symChannelDelay, fun | .opener => ch.updKey .opener | .accepter => ch.updKey .accepter,
        ch.opener = .LOCAL, ch.symBestState, ch.symRemotePending, ch.symFactory, lanes⟩ : Body))
      ch.putLanes ch.body := by
    have hkey : (fun | .opener => ch.updKey .opener | .accepter => ch.updKey .accepter) = ch.updKey := by
      funext s
      cases s <;> rfl
    rw [hkey]
    exact ch.takes_lanes.map
  exact (Takes.u16 _).bind ((takes_pubkey (ch.updKey_valid _)).bind ((takes_pubkey (ch.updKey_valid _)).bind
    ((Takes.bool _).bind ((Takes.flagged fun st h => hstate st (ch.symBestState_ok st h)).bind
      ((Takes.flagged fun st h => hstate st (ch.pending_ok st h)).bind
        (ch.takes_factory.bind hlanes))))))

/-- The clock as the record has it. -/
def clockRecord : Option ClockRecord :=
  ch.symClock.map fun issuer => ⟨issuer, (ch.fundingPubkey .LOCAL, ch.fundingPubkey .REMOTE)⟩

/-- The clock that is written is read back. -/
lemma takes_clock : Takes (readClock validKey ch.version ch.body) ch.putClock ch.clockRecord := by
  rw [readClock, putClock, clockRecord]
  cases hk : ch.symClock with
  | none =>
    have hv : ¬ 4 ≤ ch.version := fun h => by simpa [hk] using ch.four_le_version.1 h
    rw [if_neg hv]
    exact .pure none
  | some issuer =>
    have hsome : ch.symClock.isSome := by rw [hk]; rfl
    have halone : ch.body.factory = none ∧ ch.body.lanes = none := ch.clock_alone hsome
    rw [if_pos (ch.four_le_version.2 hsome)]
    exact (Takes.bool true).bind ((takes_outpoint issuer).bind
      ((takes_pubkey (ch.fundingPubkey_valid .LOCAL)).bind
        ((takes_pubkey (ch.fundingPubkey_valid .REMOTE)).bind_nil
          ((Takes.check halone).nil_bind (.orNone _)))))

lemma length_putConstants (genesis : ByteString 32) : (ch.putConstants genesis).length = 121 := by
  simp [putConstants, towireBitcoinOutpoint]

/-! ### The reading of a record and of its prefixes -/

section reading

variable (H : Hashing) (markerId : Outpoint → ByteString 32) (genesis : ByteString 32)

/-- Where the constants were read, the assertion on the asset holds. -/
theorem symChannelInitAsserted_constants (b : Body) :
    symChannelInitAsserted H (ch.constants genesis) b = some (symChannelInit H genesis ch.funding.txid
      ch.funding.n.toNat (b.key .opener) (b.key .accepter) ch.channelAsset b.delay) :=
  if_pos ch.asset_open

/-- Where they could not be read, it does not. -/
theorem symChannelInitAsserted_lost {cur : Option Bytes} {c : Constants}
    (h : readConstants cur = (c, none)) (b : Body) : symChannelInitAsserted H c b = none := by
  have hlost : (readConstants cur).2 = none := by rw [h]
  have hasset : (readConstants cur).1.asset = ByteString.replicate 33 0 := fixed_eq_zeros hlost
  rw [h] at hasset
  rw [symChannelInitAsserted, hasset]
  rfl

lemma spdSym_record (b : Body) (hb : b = ch.body) :
    spdSym H markerId (ch.constants genesis) b (symChannelInit H genesis ch.funding.txid
      ch.funding.n.toNat (b.key .opener) (b.key .accepter) ch.channelAsset b.delay) ch.clockRecord =
    ch.record H markerId genesis := by
  subst hb
  unfold spdSym record symChannelFrom clockFrom clockRecord
  cases ch.symClock with
  | none => rfl
  | some issuer => rfl

/-- The tower reads back a whole record. -/
theorem readVersioned_whole :
    readVersioned H markerId validKey ch.version
      (some (ch.putConstants genesis ++ (ch.putBody ++ ch.putClock))) =
    .record (ch.record H markerId genesis) := by
  rw [readVersioned, (ch.takes_constants genesis).whole]
  simp only [ch.takes_body.whole, ch.symChannelInitAsserted_constants, ch.takes_clock.run,
    ch.spdSym_record H markerId genesis ch.body rfl]

/-- Cut inside the constants, it stops in the assertion. -/
theorem readVersioned_cut_constants {q : Bytes} (hq : q <+: ch.putConstants genesis)
    (hne : q ≠ ch.putConstants genesis) (version : UInt64) :
    readVersioned H markerId validKey version (some q) = .aborted := by
  have hlost := (ch.takes_constants genesis).cut q hq hne
  rw [readVersioned]
  obtain ⟨c, hc⟩ : ∃ c, readConstants (some q) = (c, none) := ⟨_, Prod.ext rfl hlost⟩
  simp only [hc, symChannelInitAsserted_lost H hc]
  rfl

/-- Cut behind the constants, it rejects. -/
theorem readVersioned_cut_body {q : Bytes} (hq : q <+: ch.putBody ++ ch.putClock)
    (hne : q ≠ ch.putBody ++ ch.putClock) :
    readVersioned H markerId validKey ch.version (some (ch.putConstants genesis ++ q)) = .rejected := by
  obtain ⟨b, cur, hb⟩ : ∃ b cur, readBody validKey ch.version (some q) = (b, cur) := ⟨_, _, rfl⟩
  have hlost : (readClock validKey ch.version b cur).2 = none := by
    have hcut : (readClock validKey ch.version (readBody validKey ch.version (some q)).1
        (readBody validKey ch.version (some q)).2).2 = none :=
      (ch.takes_body.bind ch.takes_clock).cut q hq hne
    rwa [hb] at hcut
  obtain ⟨k, hk⟩ : ∃ k, readClock validKey ch.version b cur = (k, none) := ⟨_, Prod.ext rfl hlost⟩
  rw [readVersioned, (ch.takes_constants genesis).whole]
  simp only [ch.symChannelInitAsserted_constants, hb, hk]

/-- The tower reads back the record of every channel: its constants, both states, the factory, the
lanes and the clock. A proper prefix of the record it rejects exactly where the prefix ends inside
the version or behind the asset: anywhere between the two it makes the constants of an asset of
zeros, and stops in their assertion. -/
theorem readSym_wtStorePutSym_and_prefixes :
    readSym H markerId validKey (ch.wtStorePutSym genesis) = .record (ch.record H markerId genesis) ∧
    ∀ p, p <+: ch.wtStorePutSym genesis → p ≠ ch.wtStorePutSym genesis →
      (readSym H markerId validKey p = .rejected ↔ p.length < 8 ∨ 129 ≤ p.length) := by
  have hread : ∀ q, readSym H markerId validKey (beBytes 8 ch.version.toNat ++ q) =
      readVersioned H markerId validKey ch.version (some q) := by
    intro q
    rw [readSym, (Takes.u64 ch.version).whole]
    exact if_pos ch.version_known
  refine ⟨?_, fun p hp hne => ?_⟩
  · rw [wtStorePutSym, hread, readVersioned_whole]
  rw [wtStorePutSym] at hp hne
  rcases prefix_or_prefix_of_prefix hp (prefix_append _ _) with hshort | ⟨q, rfl⟩
  · by_cases heq : p = beBytes 8 ch.version.toNat
    · -- the version alone
      have habort : readSym H markerId validKey p = .aborted := by
        have hcut := ch.readVersioned_cut_constants H markerId genesis nil_prefix
          (fun h => by simpa [← h] using ch.length_putConstants genesis) ch.version
        rw [← hread, append_nil] at hcut
        rw [heq, hcut]
      have hlen : p.length = 8 := by rw [heq, length_beBytes]
      rw [habort]
      exact iff_of_false (by simp) (by omega)
    · obtain ⟨cur, hzero⟩ : ∃ cur, u64 (some p) = (0, cur) :=
        ⟨_, Prod.ext (u64_eq_zero ((Takes.u64 ch.version).cut p hshort heq)) rfl⟩
      have hlt : p.length < 8 := by
        have hle : p.length ≤ 8 := by simpa using hshort.length_le
        refine lt_of_le_of_ne hle fun h8 => heq (hshort.eq_of_length ?_)
        rw [h8, length_beBytes]
      have hrej : readSym H markerId validKey p = .rejected := by
        rw [readSym, hzero]
        rfl
      exact iff_of_true hrej (.inl hlt)
  have hq := (prefix_append_right_inj _).1 hp
  have hlen : (beBytes 8 ch.version.toNat ++ q).length = 8 + q.length := by simp
  have hconst := ch.length_putConstants genesis
  rw [hread, hlen]
  rcases prefix_or_prefix_of_prefix hq (prefix_append _ _) with hin | ⟨r, rfl⟩
  · by_cases heq : q = ch.putConstants genesis
    · have hcut := ch.readVersioned_cut_body H markerId genesis nil_prefix fun h0 => hne (by
        rw [heq, ← h0, append_nil])
      rw [append_nil] at hcut
      rw [heq, hcut]
      exact iff_of_true rfl (.inr (by omega))
    · have hlt : q.length < 121 := by
        refine lt_of_le_of_ne (hconst ▸ hin.length_le) fun h => heq (hin.eq_of_length ?_)
        rw [h, hconst]
      rw [ch.readVersioned_cut_constants H markerId genesis hin heq]
      exact iff_of_false (by simp) (by omega)
  · rw [ch.readVersioned_cut_body H markerId genesis ((prefix_append_right_inj _).1 hq)
      fun h => hne (by rw [h])]
    refine iff_of_true rfl (.inr ?_)
    rw [length_append]
    omega

end reading

end Channel

namespace RecordExample

/-- Compressed keys of an even point. -/
def evenKey (key : ByteString 33) : Bool := key.bytes.head? == some 2

def key (b : UInt8) : ByteString 33 := ⟨2 :: List.replicate 32 b, rfl⟩

/-- A plain channel that has not exchanged a state yet. -/
def plain : Channel evenKey where
  dbid := 7
  funding := ⟨.replicate 32 0xaa, 0⟩
  scid := some 0x0000650000010000
  fundingSats := 1000000
  channelAsset := ⟨1 :: List.replicate 32 0x5a, rfl⟩
  toSelfDelay _ := 144
  delayedPayment _ := key 0x11
  fundingPubkey _ := key 0x22
  opener := .LOCAL
  symLocal := none
  symRemote := none
  symRemotePending := none
  symFactory := none
  symLanes := none
  symClock := none
  asset_open := rfl
  delayedPayment_valid _ := rfl
  fundingPubkey_valid _ := rfl
  local_ok := by simp
  remote_ok := by simp
  pending_ok := by simp
  factory_slots := by simp
  factory_slot := by simp
  lanes_count := by simp
  lanes_no_factory := by simp
  clock_alone := by simp

/-- Two outputs, the second in an asset of its own. -/
def outs : List SymStateOut :=
  [⟨600000, [0x51], none⟩, ⟨400, [0x51, 0x20], some ⟨1 :: List.replicate 32 0x5b, rfl⟩⟩]

/-- A state both sides signed. -/
def signed (num : Int64) : SymStateRecord where
  owner := .LOCAL
  commitNum := 3
  num
  outs
  hasSig _ := true
  sig _ := .replicate 64 0x33

lemma signed_ok (num : Int64) : (signed num).Ok := by
  have houts : outs.length < 2 ^ 16 ∧ (∀ o ∈ outs, o.spk.length < 2 ^ 16) ∧
      ∀ o ∈ outs, ∀ a ∈ o.asset, a.bytes.head? = some 1 := by decide
  exact ⟨houts.1, houts.2.1, houts.2.2⟩

/-- A channel of two assets that has exchanged states, with one more pending. -/
def laned : Channel evenKey :=
  { plain with
    symLocal := some (signed 5)
    symRemote := some (signed 6)
    symRemotePending := some (signed 7)
    symLanes := some [⟨⟨1 :: List.replicate 32 0x5b, rfl⟩, 1, 400⟩]
    local_ok := by simp [signed_ok]
    remote_ok := by simp [signed_ok]
    pending_ok := by simp [signed_ok]
    lanes_count := by decide
    lanes_no_factory := fun _ => rfl
    clock_alone := fun h => absurd h (by decide) }

/-- A settle-clock channel that has exchanged a state. -/
def clocked : Channel evenKey :=
  { plain with
    symLocal := some (signed 5)
    symClock := some ⟨.replicate 32 0xbb, 2⟩
    local_ok := by simp [signed_ok]
    clock_alone := fun _ => ⟨rfl, rfl⟩ }

-- The better state, the pending one and the lane are read back, and the clock's issuer.
example : laned.version = 3 ∧ clocked.version = 4 ∧
    (readBody evenKey 3 (some laned.putBody)).1.best.map (·.num) = some 6 ∧
    (readBody evenKey 3 (some laned.putBody)).1.pending.map (·.outs) = some outs ∧
    (readBody evenKey 3 (some laned.putBody)).1.lanes = laned.symLanes ∧
    (readClock evenKey 4 clocked.body (some clocked.putClock)).1.map (·.issuer) = clocked.symClock := by
  decide +kernel

/-- A record cut after its first eight bytes is not rejected: the tower stops. -/
theorem readSym_aborts_on_cut_record :
    ∃ p, p <+: plain.wtStorePutSym (.replicate 32 6) ∧ p ≠ plain.wtStorePutSym (.replicate 32 6) ∧
      readSym Hashing.standard (fun issuer => issuer.txid) evenKey p = .aborted := by
  refine ⟨(plain.wtStorePutSym (.replicate 32 6)).take 8, take_prefix _ _, ?_, rfl⟩
  intro h
  have hlen := congrArg List.length h
  simp [Channel.wtStorePutSym, Channel.length_putConstants] at hlen

end RecordExample

end SeqLN.Speculad
