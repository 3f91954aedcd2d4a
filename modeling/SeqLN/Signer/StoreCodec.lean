import SeqLN.Lib.Wire
import SeqLN.Lib.Checks
import SeqLN.Signer.Channel

/-!
# The saved store

The bytes the host keeps of the device's store across restarts. The encoder writes the latest
version (`encodeChannelStore`); the decoder takes every version (`decodeChannelStore`), each of which
appends fields to those before, and holds every list to a bound of its own.

Source: `contrib/seqln-signer/src/policy.rs`
-/

namespace SeqLN.Signer

open Lib Reader

/-- The parts of a saved store that have a flag or a bound. -/
inductive StoreField where
  | opener | counter | split | validated | side | offered | asset | walletIndex | predatesValidation
  | limits | reserve | channelType | credit | creditNote | preimage | symmetric | lanes | laneOutnum
  | settleClock | clockIssuer | clockSeed | broadcast | approvals | charges | closes | chargedTxids
  deriving DecidableEq

/-- Why a saved store is not read. -/
inductive StoreError where
  | tooShort
  | badMac
  | badMagic
  | unsupportedVersion (version : ℕ)
  | length
  | truncated
  | badFlag (field : StoreField) (v : ℕ)
  | tooMany (field : StoreField) (n : ℕ)
  | badAssetKey
  | trailing
  deriving DecidableEq

/-- Source: `StoreReader` -/
abbrev StoreReader (α : Type) : Type := Reader StoreError α

/-! ### The parts -/

/-- Source: `AssetKey::decode` -/
def AssetKey.decode (b : ByteString 33) : StoreReader AssetKey :=
  match b.bytes with
  | tag :: id =>
    if tag = 0 ∧ id = List.replicate 32 0 then return .btc
    else if tag = 1 then
      if h : id.length = 32 then return .asset ⟨id, h⟩ else fail .badAssetKey
    else fail .badAssetKey
  | [] => fail .badAssetKey

/-- Source: `AssetKey::encode` -/
def AssetKey.encode : AssetKey → Bytes
  | .btc => 0 :: List.replicate 32 0
  | .asset id => 1 :: id.bytes

namespace StoreReader

variable {α : Type}

def u8 : StoreReader ℕ := le .truncated 1
def u16 : StoreReader ℕ := le .truncated 2
def u32 : StoreReader ℕ := le .truncated 4
def u64 : StoreReader ℕ := le .truncated 8

/-- A byte that is 0 or 1. -/
def flag (field : StoreField) : StoreReader Bool := do
  match ← u8 with
  | 0 => return false
  | 1 => return true
  | v => fail (.badFlag field v)

def pushFlag (b : Bool) : Bytes := if b then [1] else [0]

/-- A flag, then a value where it is set. -/
def opt (field : StoreField) (r : StoreReader α) : StoreReader (Option α) := do
  if ← flag field then
    let a ← r
    return some a
  else return none

def pushOpt (push : α → Bytes) : Option α → Bytes
  | none => pushFlag false
  | some a => pushFlag true ++ push a

/-- A count of `w` bytes within a bound, then so many. -/
def counted (w : ℕ) (field : StoreField) (max : ℕ) (r : StoreReader α) : StoreReader (List α) := do
  let n ← le .truncated w
  check (n ≤ max) (.tooMany field n)
  times n r

def pushCounted (w : ℕ) (push : α → Bytes) (as : List α) : Bytes :=
  leBytes w as.length ++ as.flatMap push

/-- Source: `StoreReader::opt_bool` -/
def optBool : StoreReader (Option Bool) := do
  match ← u8 with
  | 0 => return none
  | 1 => return some false
  | 2 => return some true
  | v => fail (.badFlag .opener v)

/-- Source: `push_opt_bool` -/
def pushOptBool : Option Bool → Bytes
  | none => [0]
  | some false => [1]
  | some true => [2]

/-- Source: `StoreReader::script` -/
def script : StoreReader Bytes := do
  let len ← u16
  take .truncated len

/-- Source: `push_script` -/
def pushScript (script : Bytes) : Bytes := leBytes 2 script.length ++ script

/-- Source: `StoreReader::opt_split` -/
def optSplit : StoreReader (Option (ℕ × Split)) :=
  opt .split do
    let n ← u64
    let ours ← u64
    let fee ← u64
    let anchors ← u64
    return (n, ⟨ours, fee, anchors⟩)

/-- Source: `push_opt_split` -/
def pushOptSplit : Option (ℕ × Split) → Bytes :=
  pushOpt fun (n, s) => leBytes 8 n ++ (leBytes 8 s.ours ++ (leBytes 8 s.fee ++ leBytes 8 s.anchors))

def assetKeyReader : StoreReader AssetKey := do
  let b ← fixed .truncated 33
  AssetKey.decode b

def offeredReader : StoreReader Offered := do
  let amountMsat ← u64
  let hash ← fixed .truncated 32
  let cltv ← u32
  return ⟨amountMsat, hash, cltv⟩

def pushOffered (h : Offered) : Bytes := leBytes 8 h.amountMsat ++ (h.hash.bytes ++ leBytes 4 h.cltv)

/-- Source: `StoreReader::side` -/
def side : StoreReader (Option SideTrack) :=
  opt .side do
    let n ← u64
    let value ← u64
    let lost ← u64
    let offered ← counted 2 .offered maxOffered offeredReader
    return ⟨n, value, offered, lost⟩

/-- Source: `push_side` -/
def pushSide : Option SideTrack → Bytes :=
  pushOpt fun t => leBytes 8 t.n ++ (leBytes 8 t.value ++ (leBytes 8 t.lost ++
    pushCounted 2 pushOffered t.offered))

/-- Source: `StoreReader::pay` -/
def pay : StoreReader PayTrack := do
  let asset ← opt .asset assetKeyReader
  let localSide ← side
  let remoteSide ← side
  let chargedLost ← u64
  return ⟨asset, localSide, remoteSide, chargedLost⟩

/-- Source: `push_pay` -/
def pushPay (p : PayTrack) : Bytes :=
  pushOpt AssetKey.encode p.asset ++ (pushSide p.localSide ++ (pushSide p.remoteSide ++
    leBytes 8 p.chargedLost))

/-- Source: `StoreReader::ledger` -/
def ledger : StoreReader Ledger := do
  let approvals ← counted 2 .approvals maxApprovals do
    let hash ← fixed .truncated 32
    let time ← u64
    return (⟨hash, time⟩ : Approval)
  let spends ← counted 2 .charges maxSpends do
    let asset ← assetKeyReader
    let time ← u64
    let msat ← u64
    return (⟨asset, time, msat⟩ : Spend)
  return ⟨approvals, spends, []⟩

/-- Source: `push_ledger` -/
def pushLedger (l : Ledger) : Bytes :=
  pushCounted 2 (fun a => a.hash.bytes ++ leBytes 8 a.time) l.approvals ++
    pushCounted 2 (fun s => s.asset.encode ++ (leBytes 8 s.time ++ leBytes 8 s.msat)) l.spends

/-! ### An entry

Each version appends to the one before; a reader of a version's fields sets them in the record. -/

/-- A byte of which anything but 0 counts as set. -/
def nonzero : StoreReader Bool := do
  let b ← u8
  return b ≠ 0

/-- Source: the fixed part of an entry in `decode_channel_store` -/
def fixedPart (version : ℕ) : StoreReader (ChannelKey × ChannelState) := do
  let nodeId ← fixed .truncated 33
  let dbid ← u64
  let fundingSats ← u64
  let fundingTxid ← fixed .truncated 32
  let fundingTxout ← u16
  let localToSelfDelay ← u16
  let remoteToSelfDelay ← u16
  let remoteRevocation ← fixed .truncated 33
  let remotePayment ← fixed .truncated 33
  let remoteHtlc ← fixed .truncated 33
  let remoteDelayed ← fixed .truncated 33
  let remoteFunding ← fixed .truncated 33
  let optionStaticRemotekey ← nonzero
  let optionAnchors ← nonzero
  return ((nodeId, dbid),
    { fundingSats, fundingTxid, fundingTxout, localToSelfDelay, remoteToSelfDelay,
      remoteRevocation, remotePayment, remoteHtlc, remoteDelayed, remoteFunding,
      optionStaticRemotekey, optionAnchors
      optionTcov := false
      isOutbound := none
      localShutdownScript := []
      remoteShutdownScript := []
      localShutdownWalletIndex := none
      revokedThrough := none
      validatedThrough := none
      localSplit := none
      remoteSplit := none
      validated := []
      pay := PayTrack.new
      -- `CHSTORE_FIRST_VALIDATING`
      predatesValidation := version < 6
      limits := none
      peerReachedReserve := false
      optionCredit := false
      credit := none
      optionSym := false
      lanes := []
      optionSymClock := false
      clockIssuer := none
      clockSeed := none
      broadcastFrom := none })

def pushFixedPart (key : ChannelKey) (st : ChannelState) : Bytes :=
  key.1.bytes ++ (leBytes 8 key.2 ++ (leBytes 8 st.fundingSats ++ (st.fundingTxid.bytes ++
    (leBytes 2 st.fundingTxout ++ (leBytes 2 st.localToSelfDelay ++ (leBytes 2 st.remoteToSelfDelay ++
    (st.remoteRevocation.bytes ++ (st.remotePayment.bytes ++ (st.remoteHtlc.bytes ++
    (st.remoteDelayed.bytes ++ (st.remoteFunding.bytes ++ (pushFlag st.optionStaticRemotekey ++
    pushFlag st.optionAnchors))))))))))))

/-- Version 2. -/
def counters (st : ChannelState) : StoreReader ChannelState := do
  let isOutbound ← optBool
  let revokedThrough ← opt .counter u64
  let validatedThrough ← opt .counter u64
  let localShutdownScript ← script
  let remoteShutdownScript ← script
  return { st with
    isOutbound, revokedThrough, validatedThrough, localShutdownScript, remoteShutdownScript }

def pushCounters (st : ChannelState) : Bytes :=
  pushOptBool st.isOutbound ++ (pushOpt (leBytes 8) st.revokedThrough ++
    (pushOpt (leBytes 8) st.validatedThrough ++ (pushScript st.localShutdownScript ++
    pushScript st.remoteShutdownScript)))

/-- Version 3. -/
def splits (st : ChannelState) : StoreReader ChannelState := do
  let localSplit ← optSplit
  let remoteSplit ← optSplit
  return { st with localSplit, remoteSplit }

def pushSplits (st : ChannelState) : Bytes := pushOptSplit st.localSplit ++ pushOptSplit st.remoteSplit

/-- Version 4. -/
def validated (st : ChannelState) : StoreReader ChannelState := do
  let validated ← counted 1 .validated maxValidated do
    let n ← u64
    let txid ← fixed .truncated 32
    return (n, txid)
  return { st with validated }.dropRevoked

def pushValidated (st : ChannelState) : Bytes :=
  pushCounted 1 (fun e => leBytes 8 e.1 ++ e.2.bytes) st.validated

/-- Version 5. -/
def payments (st : ChannelState) : StoreReader ChannelState := do
  let pay ← pay
  return { st with pay }

/-- Version 6. -/
def walletIndex (st : ChannelState) : StoreReader ChannelState := do
  let localShutdownWalletIndex ← opt .walletIndex u32
  return { st with localShutdownWalletIndex }

/-- Version 8. -/
def predates (st : ChannelState) : StoreReader ChannelState := do
  let predatesValidation ← flag .predatesValidation
  return { st with predatesValidation }

/-- Version 9. -/
def reserves (st : ChannelState) : StoreReader ChannelState := do
  let limits ← opt .limits do
    let ourDust ← u64
    let peerDust ← u64
    let ourReserve ← u64
    let peerReserve ← u64
    return ⟨ourDust, peerDust, ourReserve, peerReserve⟩
  let peerReachedReserve ← flag .reserve
  return { st with limits, peerReachedReserve }

def pushLimits (l : ChannelLimits) : Bytes :=
  leBytes 8 l.ourDust ++ (leBytes 8 l.peerDust ++ (leBytes 8 l.ourReserve ++ leBytes 8 l.peerReserve))

/-- Version 10. -/
def channelType (st : ChannelState) : StoreReader ChannelState := do
  let optionTcov ← flag .channelType
  return { st with optionTcov }

def noteReader : StoreReader CreditNote := do
  let credit ← u64
  let paymentHash ← fixed .truncated 32
  let sig ← fixed .truncated 64
  let preimage ← opt .preimage (fixed .truncated 32)
  return ⟨credit, paymentHash, sig, preimage⟩

/-- Version 11. -/
def credit (st : ChannelState) : StoreReader ChannelState := do
  let optionCredit ← flag .credit
  let credit ← opt .creditNote noteReader
  return { st with optionCredit, credit }

def pushNote (n : CreditNote) : Bytes :=
  leBytes 8 n.credit ++ (n.paymentHash.bytes ++ (n.sig.bytes ++ pushOpt ByteString.bytes n.preimage))

/-- Version 12. -/
def symmetric (st : ChannelState) : StoreReader ChannelState := do
  let optionSym ← flag .symmetric
  return { st with optionSym }

def lane : StoreReader Lane := do
  let asset ← fixed .truncated 33
  let sats ← u64
  let outnum ← opt .laneOutnum u32
  let pay ← pay
  return ⟨asset, sats, outnum, pay⟩

def pushLane (l : Lane) : Bytes :=
  l.asset.bytes ++ (leBytes 8 l.sats ++ (pushOpt (leBytes 4) l.outnum ++ pushPay l.pay))

/-- Version 13. -/
def lanes (st : ChannelState) : StoreReader ChannelState := do
  let lanes ← counted 1 .lanes maxLanes lane
  return { st with lanes }

/-- Version 14. -/
def clock (st : ChannelState) : StoreReader ChannelState := do
  let optionSymClock ← flag .settleClock
  let clockIssuer ← opt .clockIssuer do
    let txid ← fixed .truncated 32
    let vout ← u32
    return (txid, vout)
  let clockSeed ← opt .clockSeed u32
  return { st with optionSymClock, clockIssuer, clockSeed }

def pushClock (st : ChannelState) : Bytes :=
  pushFlag st.optionSymClock ++ (pushOpt (fun i => i.1.bytes ++ leBytes 4 i.2) st.clockIssuer ++
    pushOpt (leBytes 4) st.clockSeed)

/-- Version 16. -/
def broadcast (st : ChannelState) : StoreReader ChannelState := do
  let broadcastFrom ← opt .broadcast u64
  return { st with broadcastFrom }

/-- The fields of a version, where the store has them. -/
def since (version v : ℕ) (r : ChannelState → StoreReader ChannelState) (st : ChannelState) :
    StoreReader ChannelState :=
  if v ≤ version then r st else pure st

/-- Source: the loop of `decode_channel_store` -/
def entry (version : ℕ) : StoreReader (ChannelKey × ChannelState) := do
  let (key, st) ← fixedPart version
  let st ← since version 2 counters st
  let st ← since version 3 splits st
  let st ← since version 4 validated st
  let st ← since version 5 payments st
  let st ← since version 6 walletIndex st
  let st ← since version 8 predates st
  let st ← since version 9 reserves st
  let st ← since version 10 channelType st
  let st ← since version 11 credit st
  let st ← since version 12 symmetric st
  let st ← since version 13 lanes st
  let st ← since version 14 clock st
  let st ← since version 16 broadcast st
  return (key, st)

/-- Source: the loop of `encode_channel_store` -/
def pushEntry (e : ChannelKey × ChannelState) : Bytes :=
  let st := e.2
  pushFixedPart e.1 st ++ (pushCounters st ++ (pushSplits st ++ (pushValidated st ++ (pushPay st.pay ++
    (pushOpt (leBytes 4) st.localShutdownWalletIndex ++ (pushFlag st.predatesValidation ++
    ((pushOpt pushLimits st.limits ++ pushFlag st.peerReachedReserve) ++ (pushFlag st.optionTcov ++
    ((pushFlag st.optionCredit ++ pushOpt pushNote st.credit) ++ (pushFlag st.optionSym ++
    (pushCounted 1 pushLane st.lanes ++ (pushClock st ++
    pushOpt (leBytes 8) st.broadcastFrom))))))))))))

/-- A decoded store: its channels, its ledger and the closes. Source: `DecodedStore` -/
structure Decoded where
  entries : List (ChannelKey × ChannelState)
  ledger : Ledger
  closes : List Hash

/-- What follows the header. -/
def body (version count : ℕ) : StoreReader Decoded := do
  let entries ← times count (entry version)
  let ledger ← if 5 ≤ version then ledger else pure Ledger.empty
  let closes ← if 7 ≤ version then counted 2 .closes maxCloseTxids (fixed .truncated 32) else pure []
  let chargedTxids ← if 15 ≤ version then
    counted 2 .chargedTxids maxChargedTxids (fixed .truncated 32) else pure []
  return ⟨entries, { ledger with chargedTxids }, closes⟩

end StoreReader

/-- Source: `CHSTORE_MAGIC` -/
def chstoreMagic : Bytes := [0x53, 0x51, 0x43, 0x48]

/-- Source: `CHSTORE_VERSION` -/
def chstoreVersion : ℕ := 16

/-- Source: `CHSTORE_ENTRY_LEN` -/
def chstoreEntryLen : ℕ := 33 + 8 + 8 + 32 + 2 + 2 + 2 + 33 * 5 + 1 + 1

/-- Source: `decode_channel_store` -/
def decodeChannelStore (bytes : Bytes) : Except StoreError StoreReader.Decoded := do
  require (9 ≤ bytes.length ∧ bytes.take 4 = chstoreMagic) .badMagic
  let version := leNat ((bytes.drop 4).take 1)
  require (1 ≤ version ∧ version ≤ chstoreVersion) (.unsupportedVersion version)
  let count := leNat ((bytes.drop 5).take 4)
  require (version = 1 → bytes.length = 9 + count * chstoreEntryLen) .length
  let (store, rest) ← StoreReader.body version count (bytes.drop 9)
  require (rest = []) .trailing
  return store

/-- The channels in the order of their keys. Source: `ChannelStore::entries_sorted` -/
def ChannelStore.entriesSorted (store : ChannelStore) : List (ChannelKey × ChannelState) :=
  (store.map.entries.map fun e => (e.1, e.2)).insertionSort fun a b =>
    ((compare a.1.1.bytes b.1.1.bytes).then (compare a.1.2 b.1.2)).isLE = true

/-- Source: `encode_channel_store` -/
def encodeChannelStore (store : ChannelStore) : Bytes :=
  let entries := store.entriesSorted
  chstoreMagic ++ (leBytes 1 chstoreVersion ++ (leBytes 4 entries.length ++
    (entries.flatMap StoreReader.pushEntry ++ (StoreReader.pushLedger store.ledger ++
    (StoreReader.pushCounted 2 ByteString.bytes store.closeTxids ++
    StoreReader.pushCounted 2 ByteString.bytes store.ledger.chargedTxids)))))

/-! ### What is written opens -/

/-- The HTLCs tracked of a channel's latest commitments are within their bound. -/
def PayTrack.Storable (p : PayTrack) : Prop :=
  (∀ t ∈ p.localSide, t.offered.length ≤ maxOffered) ∧ ∀ t ∈ p.remoteSide, t.offered.length ≤ maxOffered

/-- The lists and scripts of a record are within their bounds. -/
structure ChannelState.Storable (st : ChannelState) : Prop where
  localScript : st.localShutdownScript.length < 256 ^ 2
  remoteScript : st.remoteShutdownScript.length < 256 ^ 2
  validated : st.validated.length ≤ maxValidated
  pay : st.pay.Storable
  lanes : st.lanes.length ≤ maxLanes
  lanePays : ∀ l ∈ st.lanes, l.pay.Storable

/-- The lists of a store are within their bounds. -/
structure ChannelStore.Storable (store : ChannelStore) : Prop where
  count : store.entriesSorted.length < 256 ^ 4
  entries : ∀ e ∈ store.entriesSorted, e.2.Storable
  approvals : store.ledger.approvals.length ≤ maxApprovals
  spends : store.ledger.spends.length ≤ maxSpends
  closes : store.closeTxids.length ≤ maxCloseTxids
  chargedTxids : store.ledger.chargedTxids.length ≤ maxChargedTxids

namespace StoreReader

variable {α γ : Type} {r : StoreReader α} {push : γ → Bytes} {field : StoreField} {n : ℕ} {b : Bool}

instance : Opens u64 (leBytes 8 n) := inferInstanceAs (Opens (le _ _) _)
instance : Opens u32 (leBytes 4 n) := inferInstanceAs (Opens (le _ _) _)
instance : Opens u16 (leBytes 2 n) := inferInstanceAs (Opens (le _ _) _)
instance : Opens (flag field) (pushFlag b) := by cases b <;> exact ⟨_, fun _ => rfl⟩
instance : Opens nonzero (pushFlag b) := by cases b <;> exact ⟨_, fun _ => rfl⟩
instance (o : Option Bool) : Opens optBool (pushOptBool o) := by
  rcases o with _ | _ | _ <;> exact ⟨_, fun _ => rfl⟩

/-- A flag and what it stands for. -/
theorem opens_opt {o : Option γ} (h : ∀ a ∈ o, Opens r (push a)) :
    Opens (opt field r) (pushOpt push o) := by
  cases o with
  | none => exact ⟨none, fun _ => rfl⟩
  | some a =>
    have := h a rfl
    have hflag : Reads (flag field) (pushFlag true) true := fun _ => rfl
    exact hflag.opens (inferInstanceAs (Opens (r >>= fun a => pure (some a)) _))

instance [h : ∀ a, Opens r (push a)] {o : Option γ} : Opens (opt field r) (pushOpt push o) :=
  opens_opt fun a _ => h a

/-- A count within its bound and so many parts. -/
theorem opens_counted {w max : ℕ} {as : List γ} (h : ∀ a ∈ as, Opens r (push a))
    (hlen : as.length ≤ max) (hmax : max < 256 ^ w) :
    Opens (counted w field max r) (pushCounted w push as) := by
  have hcount := reads_le (e := StoreError.truncated) w as.length
  rw [Nat.mod_eq_of_lt (hlen.trans_lt hmax)] at hcount
  refine hcount.opens ?_
  rw [check, if_pos hlen]
  exact opens_times h

/-- A script whose length fits. -/
theorem opens_script {s : Bytes} (h : s.length < 256 ^ 2) : Opens script (pushScript s) := by
  have hlen := reads_le (e := StoreError.truncated) 2 s.length
  rw [Nat.mod_eq_of_lt h] at hlen
  exact hlen.opens ⟨s, reads_take s⟩

instance (k : AssetKey) : Opens assetKeyReader k.encode := by
  have hlen : k.encode.length = 33 := by cases k <;> simp [AssetKey.encode]
  have hdecode : AssetKey.decode ⟨k.encode, hlen⟩ = pure k := by
    cases k with
    | btc => rfl
    | asset id =>
      simp only [AssetKey.decode, AssetKey.encode, ByteString.bytes, id.2]
      rfl
  have hopen : Opens assetKeyReader (k.encode ++ []) :=
    (reads_fixed ⟨k.encode, hlen⟩).opens ⟨k, hdecode ▸ fun _ => rfl⟩
  rwa [List.append_nil] at hopen

instance (h : Offered) : Opens offeredReader (pushOffered h) := by
  unfold offeredReader pushOffered
  infer_instance

instance {o : Option (ℕ × Split)} : Opens optSplit (pushOptSplit o) :=
  opens_opt fun _ _ => inferInstanceAs (Opens _ (leBytes 8 _ ++ _))

instance (n : CreditNote) : Opens noteReader (pushNote n) := by
  unfold noteReader pushNote
  infer_instance

/-- What the latest commitment of a side left. -/
theorem opens_side {o : Option SideTrack} (h : ∀ t ∈ o, t.offered.length ≤ maxOffered) :
    Opens side (pushSide o) := by
  refine opens_opt fun t ht => ?_
  have : Opens (counted 2 .offered maxOffered offeredReader) (pushCounted 2 pushOffered t.offered) :=
    opens_counted (fun _ _ => inferInstance) (h t ht) (by decide)
  infer_instance

/-- The payments that are tracked. -/
theorem opens_pay {p : PayTrack} (h : p.Storable) : Opens pay (pushPay p) := by
  have := opens_side h.1
  have := opens_side h.2
  unfold pay pushPay
  infer_instance

/-- A lane. -/
theorem opens_lane {l : Lane} (h : l.pay.Storable) : Opens lane (pushLane l) := by
  have := opens_pay h
  unfold lane pushLane
  infer_instance

/-- A channel, as the latest version writes it. -/
theorem opens_entry {e : ChannelKey × ChannelState} (h : e.2.Storable) :
    Opens (entry chstoreVersion) (pushEntry e) := by
  have := opens_script h.localScript
  have := opens_script h.remoteScript
  have := opens_pay h.pay
  have hvalidated (st) : Opens (validated st) (pushValidated e.2) := by
    refine Opens.last (h := opens_counted (fun _ _ => ?_) h.validated (by decide))
    infer_instance
  have : Opens (counted 1 .lanes maxLanes lane) (pushCounted 1 pushLane e.2.lanes) :=
    opens_counted (fun l hl => opens_lane (h.lanePays l hl)) h.lanes (by decide)
  simp only [entry, since, chstoreVersion, Nat.reduceLeDiff, if_true, fixedPart, counters, splits,
    payments, walletIndex, predates, reserves, channelType, credit, symmetric, lanes, clock, broadcast,
    pushEntry, pushFixedPart, pushCounters, pushSplits, pushClock]
  unfold pushLimits
  repeat refine Opens.bind (k := fun _ => ?_)
  infer_instance

/-- The approvals and the charges. -/
theorem opens_ledger {l : Ledger} (happrovals : l.approvals.length ≤ maxApprovals)
    (hspends : l.spends.length ≤ maxSpends) : Opens ledger (pushLedger l) := by
  refine Opens.bind (h := opens_counted (fun _ _ => ?_) happrovals (by decide)) (k := fun _ => ?_)
  · infer_instance
  refine Opens.last (h := opens_counted (fun _ _ => ?_) hspends (by decide))
  infer_instance

/-- What follows the header, as the latest version writes it. -/
theorem opens_body {store : ChannelStore} (h : store.Storable) :
    Opens (body chstoreVersion store.entriesSorted.length)
      (store.entriesSorted.flatMap pushEntry ++ (pushLedger store.ledger ++
        (pushCounted 2 ByteString.bytes store.closeTxids ++
        pushCounted 2 ByteString.bytes store.ledger.chargedTxids))) := by
  have := opens_ledger h.approvals h.spends
  have : Opens (counted 2 .closes maxCloseTxids (fixed .truncated 32))
      (pushCounted 2 ByteString.bytes store.closeTxids) :=
    opens_counted (fun _ _ => inferInstance) h.closes (by decide)
  have : Opens (counted 2 .chargedTxids maxChargedTxids (fixed .truncated 32))
      (pushCounted 2 ByteString.bytes store.ledger.chargedTxids) :=
    opens_counted (fun _ _ => inferInstance) h.chargedTxids (by decide)
  refine Opens.bind (h := opens_times fun e he => opens_entry (h.entries e he)) (k := fun _ => ?_)
  simp only [chstoreVersion, Nat.reduceLeDiff, if_true]
  infer_instance

end StoreReader

/-- A store whose lists are within their bounds is read back. -/
theorem decodeChannelStore_encode {store : ChannelStore} (h : store.Storable) :
    ∃ d, decodeChannelStore (encodeChannelStore store) = .ok d := by
  obtain ⟨d, hbody⟩ := StoreReader.opens_body h
  have hrest := hbody []
  rw [List.append_nil] at hrest
  have hcount : leNat (leBytes 4 store.entriesSorted.length) = store.entriesSorted.length :=
    leNat_leBytes_of_lt h.count
  refine ⟨d, ?_⟩
  unfold encodeChannelStore
  dsimp only
  generalize store.entriesSorted.flatMap StoreReader.pushEntry ++ _ = rest at hrest ⊢
  generalize store.entriesSorted.length = n at hrest hcount ⊢
  have hversion : leNat (((chstoreMagic ++ (leBytes 1 chstoreVersion ++ (leBytes 4 n ++ rest))).drop
      4).take 1) = chstoreVersion := rfl
  refine bind_eq_ok.2 ⟨(), require_eq_ok.2 ⟨?_, rfl⟩, ?_⟩
  · simp only [List.length_append, length_leBytes, chstoreMagic, List.length_cons, List.length_nil]
    omega
  dsimp only
  rw [hversion]
  refine bind_eq_ok.2 ⟨(), require_eq_ok.2 (by decide), ?_⟩
  refine bind_eq_ok.2 ⟨(), require_eq_ok.2 (fun h1 => absurd h1 (by decide)), ?_⟩
  refine bind_eq_ok.2 ⟨(d, []), ?_, rfl⟩
  change StoreReader.body chstoreVersion (leNat (leBytes 4 n)) rest = _
  rw [hcount]
  exact hrest

end SeqLN.Signer
