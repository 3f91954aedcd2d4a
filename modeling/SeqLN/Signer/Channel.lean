import SeqLN.Signer.Payments

/-!
# Channel records

What the device keeps of each channel (`ChannelState`), from `setup_channel` and from the
commitments it has validated and signed since, and the store of all channels with the payment
ledger and the closes it signed (`ChannelStore`).

Source: `contrib/seqln-signer/src/policy.rs`
-/

namespace SeqLN.Signer

/-- A compressed public key, or an asset with its prefix byte. -/
abbrev Key := ByteString 33

/-- A transaction id, or another 32-byte hash. -/
abbrev Hash := ByteString 32

/-- A channel is known by its peer and its database id. -/
abbrev ChannelKey := Key × ℕ

/-- What one commitment pays this side. Source: `Split` -/
structure Split where
  ours : ℕ
  fee : ℕ
  anchors : ℕ
  deriving DecidableEq

/-- This side's share of the channel by a commitment: the opener pays the fee and the anchors.
Source: `Split::share` -/
def Split.share (sp : Split) (isOutbound : Option Bool) : ℕ :=
  if isOutbound = some true then satAdd (satAdd sp.ours sp.fee) sp.anchors else sp.ours

/-- A channel's dust limits and reserves. Source: `ChannelLimits` -/
structure ChannelLimits where
  ourDust : ℕ
  peerDust : ℕ
  ourReserve : ℕ
  peerReserve : ℕ
  deriving DecidableEq

/-- The provider owes the holder `credit` atoms in all, given the preimage of `paymentHash`.
Source: `CreditNote` -/
structure CreditNote where
  credit : ℕ
  paymentHash : Hash
  sig : ByteString 64
  preimage : Option Hash
  deriving DecidableEq

/-- A further lane of a channel of several assets. Source: `Lane` -/
structure Lane where
  asset : Key
  sats : ℕ
  outnum : Option ℕ
  pay : PayTrack
  deriving DecidableEq

/-- Source: `MAX_LANES` -/
def maxLanes : ℕ := 8

/-- Source: `MAX_VALIDATED` -/
def maxValidated : ℕ := 8

/-- What the device keeps of a channel. Source: `ChannelState` -/
structure ChannelState where
  fundingSats : ℕ
  fundingTxid : Hash
  fundingTxout : ℕ
  localToSelfDelay : ℕ
  remoteToSelfDelay : ℕ
  remoteRevocation : Key
  remotePayment : Key
  remoteHtlc : Key
  remoteDelayed : Key
  remoteFunding : Key
  optionStaticRemotekey : Bool
  optionAnchors : Bool
  optionTcov : Bool
  /-- Whether we opened the channel; unknown in the oldest stores. -/
  isOutbound : Option Bool
  localShutdownScript : Bytes
  remoteShutdownScript : Bytes
  localShutdownWalletIndex : Option ℕ
  /-- The highest of our commitment numbers whose secret the device has revealed. -/
  revokedThrough : Option ℕ
  /-- The highest of our commitment numbers the device has validated. -/
  validatedThrough : Option ℕ
  localSplit : Option (ℕ × Split)
  remoteSplit : Option (ℕ × Split)
  /-- Our commitments the device validated and has not revoked. -/
  validated : List (ℕ × Hash)
  pay : PayTrack
  predatesValidation : Bool
  limits : Option ChannelLimits
  peerReachedReserve : Bool
  optionCredit : Bool
  credit : Option CreditNote
  optionSym : Bool
  lanes : List Lane
  optionSymClock : Bool
  clockIssuer : Option (Hash × ℕ)
  clockSeed : Option ℕ
  /-- The lowest of our commitments the device signed for broadcast. -/
  broadcastFrom : Option ℕ
  deriving DecidableEq

/-- Source: `max_opt` -/
def maxOpt : Option ℕ → Option ℕ → Option ℕ
  | some x, some y => some (max x y)
  | x, none => x
  | none, y => y

/-- Source: the merge of `broadcast_from` -/
def minOpt : Option ℕ → Option ℕ → Option ℕ
  | some x, some y => some (min x y)
  | x, none => x
  | none, y => y

/-- The newer of two records of a split. Source: `newer` -/
def newer : Option (ℕ × Split) → Option (ℕ × Split) → Option (ℕ × Split)
  | some x, some y => some (if x.1 < y.1 then y else x)
  | x, none => x
  | none, y => y

namespace ChannelState

variable (st : ChannelState)

/-- The number of an entry, then its txid. -/
def cmpValidated (a b : ℕ × Hash) : Ordering :=
  (compare a.1 b.1).then (compare a.2.bytes b.2.bytes)

/-- Records a commitment of ours that was validated; a revoked number is never recorded.
Source: `ChannelState::record_validated` -/
def recordValidated (n : ℕ) (txid : Hash) : ChannelState :=
  if st.revokedThrough.any (n ≤ ·) || st.validated.any (·.2 = txid) then st
  else
    let sorted := (st.validated ++ [(n, txid)]).insertionSort fun a b =>
      (cmpValidated a b).isLE = true
    { st with validated := keepLast maxValidated sorted }

/-- Source: `ChannelState::drop_revoked` -/
def dropRevoked : ChannelState :=
  match st.revokedThrough with
  | some r => { st with validated := st.validated.filter (r < ·.1) }
  | none => st

/-- Source: `ChannelState::is_validated` -/
def isValidated (txid : Hash) : Bool := st.validated.any (·.2 = txid)

/-- Keeps the latest note. Source: `ChannelState::learn_credit` -/
def learnCredit (note : CreditNote) : ChannelState :=
  match st.credit with
  | some held =>
    if note.credit < held.credit then st
    else if held.credit = note.credit then
      if held.preimage.isNone && note.preimage.isSome && held.paymentHash = note.paymentHash then
        { st with credit := some { held with preimage := note.preimage } }
      else st
    else { st with credit := some note }
  | none => { st with credit := some note }

/-! The parts of `merge_from`, in its order. -/

def mergeCounters (old : ChannelState) : ChannelState :=
  { st with
    revokedThrough := maxOpt st.revokedThrough old.revokedThrough
    validatedThrough := maxOpt st.validatedThrough old.validatedThrough
    localSplit := newer st.localSplit old.localSplit
    remoteSplit := newer st.remoteSplit old.remoteSplit }

def mergeValidated (old : ChannelState) : ChannelState :=
  (old.validated.foldl (fun st e => st.recordValidated e.1 e.2) st).dropRevoked

def mergeTerms (old : ChannelState) : ChannelState :=
  { st with
    pay := if st.pay = PayTrack.new then old.pay else st.pay
    localShutdownScript :=
      if old.localShutdownScript.isEmpty then st.localShutdownScript else old.localShutdownScript
    localShutdownWalletIndex :=
      if old.localShutdownScript.isEmpty then st.localShutdownWalletIndex
      else old.localShutdownWalletIndex
    remoteShutdownScript :=
      if old.remoteShutdownScript.isEmpty then st.remoteShutdownScript else old.remoteShutdownScript
    isOutbound := st.isOutbound.or old.isOutbound
    predatesValidation := st.predatesValidation || old.predatesValidation
    limits := old.limits.or st.limits
    peerReachedReserve := st.peerReachedReserve || old.peerReachedReserve
    optionCredit := st.optionCredit || old.optionCredit }

def mergeCredit (old : ChannelState) : ChannelState :=
  match old.credit with
  | some note => st.learnCredit note
  | none => st

def mergeLanes (old : ChannelState) : ChannelState :=
  { st with
    lanes := if st.lanes.isEmpty then old.lanes else st.lanes
    clockIssuer := st.clockIssuer.or old.clockIssuer
    clockSeed := st.clockSeed.or old.clockSeed
    broadcastFrom := minOpt st.broadcastFrom old.broadcastFrom }

/-- What an earlier record of the channel knew, folded into a fresh one from `setup_channel`.
Source: `ChannelState::merge_from` -/
def mergeFrom (old : ChannelState) : ChannelState :=
  ((((st.mergeCounters old).mergeValidated old).mergeTerms old).mergeCredit old).mergeLanes old

/-! ### What each of these changes -/

variable {st}

lemma recordValidated_eq (st : ChannelState) (n : ℕ) (txid : Hash) :
    ∃ validated, st.recordValidated n txid = { st with validated } := by
  unfold recordValidated
  split
  · exact ⟨st.validated, rfl⟩
  · exact ⟨_, rfl⟩

lemma foldl_recordValidated_eq (es : List (ℕ × Hash)) (st : ChannelState) :
    ∃ validated, es.foldl (fun st e => st.recordValidated e.1 e.2) st = { st with validated } := by
  induction es generalizing st with
  | nil => exact ⟨st.validated, rfl⟩
  | cons e es ih =>
    obtain ⟨v, hv⟩ := recordValidated_eq st e.1 e.2
    obtain ⟨v', hv'⟩ := ih (st.recordValidated e.1 e.2)
    exact ⟨v', by rw [List.foldl_cons, hv', hv]⟩

lemma dropRevoked_eq (st : ChannelState) : ∃ validated, st.dropRevoked = { st with validated } := by
  unfold dropRevoked
  split
  · exact ⟨_, rfl⟩
  · exact ⟨st.validated, rfl⟩

lemma learnCredit_eq (st : ChannelState) (note : CreditNote) :
    ∃ credit, st.learnCredit note = { st with credit } := by
  unfold learnCredit
  split
  · split
    · exact ⟨st.credit, rfl⟩
    · split
      · split
        · exact ⟨_, rfl⟩
        · exact ⟨st.credit, rfl⟩
      · exact ⟨_, rfl⟩
  · exact ⟨_, rfl⟩

lemma mergeValidated_eq (st old : ChannelState) :
    ∃ validated, st.mergeValidated old = { st with validated } := by
  obtain ⟨v, hv⟩ := foldl_recordValidated_eq old.validated st
  obtain ⟨v', hv'⟩ := dropRevoked_eq { st with validated := v }
  exact ⟨v', by rw [mergeValidated, hv, hv']⟩

lemma mergeCredit_eq (st old : ChannelState) : ∃ credit, st.mergeCredit old = { st with credit } := by
  unfold mergeCredit
  split
  · exact learnCredit_eq st _
  · exact ⟨st.credit, rfl⟩

/-- A merged record but for the list of validated commitments and the credit note. -/
theorem mergeFrom_eq (st old : ChannelState) : ∃ validated credit, st.mergeFrom old =
    ChannelState.mergeLanes { ((st.mergeCounters old).mergeTerms old) with validated, credit } old := by
  obtain ⟨v, hv⟩ := mergeValidated_eq (st.mergeCounters old) old
  obtain ⟨c, hc⟩ := mergeCredit_eq
    (ChannelState.mergeTerms { st.mergeCounters old with validated := v } old) old
  exact ⟨v, c, by rw [mergeFrom, hv, hc]; rfl⟩

end ChannelState

/-- The channels, the payment ledger and the closes the device signed. Source: `ChannelStore` -/
structure ChannelStore where
  map : AList fun _ : ChannelKey => ChannelState
  ledger : Ledger
  closeTxids : List Hash

/-- Source: `MAX_CLOSE_TXIDS` -/
def maxCloseTxids : ℕ := 256

namespace ChannelStore

/-- Source: `ChannelStore::new` -/
def new : ChannelStore := ⟨∅, Ledger.empty, []⟩

variable (store : ChannelStore)

/-- Source: `ChannelStore::record_close` -/
def recordClose (txid : Hash) : ChannelStore :=
  if store.closeTxids.contains txid then store
  else { store with closeTxids := keepLast maxCloseTxids (store.closeTxids ++ [txid]) }

/-- Source: `ChannelStore::merge_closes` -/
def mergeCloses (txids : List Hash) : ChannelStore :=
  txids.foldl (fun store t => store.recordClose t) store

/-- Source: `ChannelStore::insert` -/
def insert (key : ChannelKey) (st : ChannelState) : ChannelStore :=
  { store with map := store.map.insert key st }

/-- Source: `ChannelStore::get` -/
def get (key : ChannelKey) : Option ChannelState := store.map.lookup key

/-- A record changed in place. Source: `ChannelStore::get_mut` -/
def modify (key : ChannelKey) (f : ChannelState → ChannelState) : ChannelStore :=
  match store.get key with
  | some st => store.insert key (f st)
  | none => store

/-- Source: `ChannelStore::remove` -/
def remove (key : ChannelKey) : ChannelStore := { store with map := store.map.erase key }

/-- A live record stays; only that it predates validation spreads to it.
Source: `ChannelStore::insert_if_absent` -/
def insertIfAbsent (key : ChannelKey) (st : ChannelState) : ChannelStore :=
  match store.get key with
  | some live => store.insert key
      { live with predatesValidation := live.predatesValidation || st.predatesValidation }
  | none => store.insert key st

variable {store} {key key' : ChannelKey} {st : ChannelState}

@[simp] lemma get_new : ChannelStore.new.get key = none := AList.lookup_empty key

@[simp] lemma get_insert : (store.insert key st).get key = some st := AList.lookup_insert _

lemma get_insert_of_ne (h : key' ≠ key) : (store.insert key st).get key' = store.get key' :=
  AList.lookup_insert_ne h

@[simp] lemma ledger_insert : (store.insert key st).ledger = store.ledger := rfl

variable {f : ChannelState → ChannelState}

lemma get_modify : (store.modify key f).get key = (store.get key).map f := by
  unfold modify
  split
  · next st h => rw [get_insert, h, Option.map_some]
  · next h => rw [h, Option.map_none]

lemma get_modify_of_ne (h : key' ≠ key) : (store.modify key f).get key' = store.get key' := by
  unfold modify
  split
  · exact get_insert_of_ne h
  · rfl

@[simp] lemma ledger_modify : (store.modify key f).ledger = store.ledger := by
  unfold modify
  split <;> rfl

@[simp] lemma ledger_recordClose (txid : Hash) : (store.recordClose txid).ledger = store.ledger := by
  unfold recordClose
  split <;> rfl

@[simp] lemma get_recordClose (txid : Hash) : (store.recordClose txid).get key = store.get key := by
  unfold recordClose get
  split <;> simp only

lemma get_ledger (ledger : Ledger) : { store with ledger }.get key = store.get key := rfl

lemma get_remove_of_ne (h : key' ≠ key) : (store.remove key).get key' = store.get key' :=
  AList.lookup_erase_ne h

end ChannelStore

end SeqLN.Signer
