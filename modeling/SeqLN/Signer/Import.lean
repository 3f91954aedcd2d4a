import SeqLN.Signer.StoreCodec
import SeqLN.Signer.OwnCommitments

/-!
# Importing a saved store

A device that starts again reads the store the host kept for it (`importChannels`), under a MAC. The
ledger and the closes are merged. A channel is added where the device has none; else the live record
stays, but for the mark that it predates validation, so what a saved record knows is lost where the live
one knows less (`import_remembers_iff`).

Source: `contrib/seqln-signer/src/dispatch.rs`, `contrib/seqln-signer/src/payments.rs`
-/

namespace SeqLN.Signer

open Lib List ChannelStore
open StoreReader (Decoded)

namespace Ledger

/-- Source: the first branch on approvals of `Ledger::merge_from` -/
def mergeApproval (approvals : List Approval) (a : Approval) : List Approval :=
  match approvals.findIdx? (·.hash = a.hash) with
  | some i => approvals.modify i fun x => { x with time := max x.time a.time }
  | none => approvals ++ [a]

/-- Source: the loop on charges of `Ledger::merge_from` -/
def mergeSpend (spends : List Spend) (s : Spend) : List Spend :=
  if spends.contains s then spends else spends ++ [s]

/-- Source: `Ledger::merge_from` -/
def mergeFrom (l other : Ledger) : Ledger :=
  let l := other.chargedTxids.foldl markChargedTxid l
  { l with
    approvals := keepLast maxApprovals
      ((other.approvals.foldl mergeApproval l.approvals).insertionSort fun a b => a.time ≤ b.time)
    spends := other.spends.foldl mergeSpend l.spends }

end Ledger

namespace Device

/-- The bytes of the store, then their MAC. Source: `export_channels` -/
def exportChannels (mac : Bytes → Hash) (s : Device) : Bytes :=
  let out := encodeChannelStore s.store
  out ++ (mac out).bytes

/-- The store in a blob whose MAC is right. Source: the first half of `import_channels` -/
def openBlob (mac : Bytes → Hash) (bytes : Bytes) : Except StoreError Decoded := do
  require (32 ≤ bytes.length) .tooShort
  let payload := bytes.take (bytes.length - 32)
  require ((mac payload).bytes = bytes.drop (bytes.length - 32)) .badMac
  decodeChannelStore payload

/-- Source: the loop of `import_channels` -/
def addEntries (store : ChannelStore) (entries : List (ChannelKey × ChannelState)) : ChannelStore :=
  entries.foldl (fun store e => store.insertIfAbsent e.1 e.2) store

/-- The device with a decoded store merged in. Source: the second half of `import_channels` -/
def importStore (s : Device) (d : Decoded) : Device :=
  let store := addEntries s.store d.entries
  let store := { store with ledger := store.ledger.mergeFrom d.ledger }
  { s with store := store.mergeCloses d.closes }

/-- Source: `import_channels` -/
def importChannels (mac : Bytes → Hash) (s : Device) (bytes : Bytes) : Except StoreError Device := do
  let d ← openBlob mac bytes
  return s.importStore d

end Device

/-! ### What a record must not forget -/

/-- A counter that only grows has not gone back. -/
def AtLeast (now before : Option ℕ) : Prop := ∀ n ∈ before, ∃ m ∈ now, n ≤ m

/-- A bound that only falls has not gone up. -/
def AtMost (now before : Option ℕ) : Prop := ∀ n ∈ before, ∃ m ∈ now, m ≤ n

instance (x y : Option ℕ) : Decidable (AtLeast x y) := inferInstanceAs (Decidable (∀ _ ∈ _, _))
instance (x y : Option ℕ) : Decidable (AtMost x y) := inferInstanceAs (Decidable (∀ _ ∈ _, _))

/-- What the device has revealed, validated and holds in credit is at least what an earlier record
says, and what it signed for broadcast at most. -/
structure ChannelState.Remembers (st old : ChannelState) : Prop where
  revoked : AtLeast st.revokedThrough old.revokedThrough
  validated : AtLeast st.validatedThrough old.validatedThrough
  credit : AtLeast (st.credit.map CreditNote.credit) (old.credit.map CreditNote.credit)
  broadcast : AtMost st.broadcastFrom old.broadcastFrom

lemma ChannelState.remembers_iff {st old : ChannelState} :
    st.Remembers old ↔ AtLeast st.revokedThrough old.revokedThrough ∧
      AtLeast st.validatedThrough old.validatedThrough ∧
      AtLeast (st.credit.map CreditNote.credit) (old.credit.map CreditNote.credit) ∧
      AtMost st.broadcastFrom old.broadcastFrom :=
  ⟨fun h => ⟨h.1, h.2, h.3, h.4⟩, fun h => ⟨h.1, h.2.1, h.2.2.1, h.2.2.2⟩⟩

instance (st old : ChannelState) : Decidable (st.Remembers old) :=
  decidable_of_iff _ ChannelState.remembers_iff.symm

lemma ChannelState.Remembers.refl (st : ChannelState) : st.Remembers st :=
  ⟨fun n hn => ⟨n, hn, le_rfl⟩, fun n hn => ⟨n, hn, le_rfl⟩, fun n hn => ⟨n, hn, le_rfl⟩,
    fun n hn => ⟨n, hn, le_rfl⟩⟩

/-! ### The records after an import -/

variable {key : ChannelKey} {entries : List (ChannelKey × ChannelState)}

/-- The record of a channel in a list of entries. -/
def recordIn (entries : List (ChannelKey × ChannelState)) (key : ChannelKey) : Option ChannelState :=
  (entries.find? (·.1 = key)).map Prod.snd

/-- The record after an import, from the live one and the saved one. -/
def imported : Option ChannelState → Option ChannelState → Option ChannelState
  | some live, some saved =>
    some { live with predatesValidation := live.predatesValidation || saved.predatesValidation }
  | some live, none => some live
  | none, saved => saved

lemma imported_none (live : Option ChannelState) : imported live none = live := by
  cases live <;> rfl

lemma recordIn_cons_self (key : ChannelKey) (st : ChannelState)
    (entries : List (ChannelKey × ChannelState)) : recordIn ((key, st) :: entries) key = some st := by
  rw [recordIn, List.find?_cons_of_pos (by simp)]
  rfl

lemma recordIn_cons_of_ne {e : ChannelKey × ChannelState} (h : e.1 ≠ key)
    (entries : List (ChannelKey × ChannelState)) :
    recordIn (e :: entries) key = recordIn entries key := by
  rw [recordIn, List.find?_cons_of_neg (by simpa using h)]
  rfl

lemma recordIn_of_not_mem (h : key ∉ entries.map Prod.fst) : recordIn entries key = none := by
  rw [recordIn, Option.map_eq_none_iff, List.find?_eq_none]
  intro e he heq
  exact h (List.mem_map.2 ⟨e, he, of_decide_eq_true heq⟩)

lemma mem_of_recordIn {st : ChannelState} (h : recordIn entries key = some st) :
    (key, st) ∈ entries := by
  obtain ⟨⟨key', st'⟩, hfind, rfl⟩ := Option.map_eq_some_iff.1 h
  have hkey := List.find?_some hfind
  rw [← of_decide_eq_true hkey]
  exact List.mem_of_find?_eq_some hfind

namespace Device

variable {store : ChannelStore} {key : ChannelKey} {entries : List (ChannelKey × ChannelState)}

lemma get_insertIfAbsent (st : ChannelState) :
    (store.insertIfAbsent key st).get key = imported (store.get key) (some st) := by
  unfold insertIfAbsent
  split
  · next live h => rw [get_insert, h]; rfl
  · next h => rw [get_insert, h]; rfl

lemma get_insertIfAbsent_of_ne {key' : ChannelKey} (st : ChannelState) (h : key' ≠ key) :
    (store.insertIfAbsent key' st).get key = store.get key := by
  unfold insertIfAbsent
  split <;> exact get_insert_of_ne (Ne.symm h)

/-- Each channel has the record that its live and its saved one give. -/
theorem get_addEntries (hkeys : (entries.map Prod.fst).Nodup) :
    (addEntries store entries).get key = imported (store.get key) (recordIn entries key) := by
  induction entries generalizing store with
  | nil => exact (imported_none _).symm
  | cons e entries ih =>
    obtain ⟨key', st⟩ := e
    obtain ⟨hnew, hkeys⟩ := nodup_cons.1 hkeys
    rw [addEntries, foldl_cons]
    refine (ih hkeys).trans ?_
    by_cases heq : key' = key
    · subst heq
      rw [recordIn_of_not_mem hnew, imported_none, get_insertIfAbsent, recordIn_cons_self]
    · rw [get_insertIfAbsent_of_ne st heq, recordIn_cons_of_ne heq]

lemma get_mergeCloses (txids : List Hash) : (store.mergeCloses txids).get key = store.get key := by
  unfold mergeCloses
  induction txids generalizing store with
  | nil => rfl
  | cons t txids ih => rw [foldl_cons, ih, get_recordClose]

/-- What a device exports can be opened, where its lists are within their bounds. -/
theorem openBlob_exportChannels (mac : Bytes → Hash) {s : Device} (h : s.store.Storable) :
    ∃ d, openBlob mac (s.exportChannels mac) = .ok d := by
  obtain ⟨d, hd⟩ := decodeChannelStore_encode h
  refine ⟨d, ?_⟩
  unfold exportChannels
  dsimp only
  generalize encodeChannelStore s.store = out at hd ⊢
  have hlen : (out ++ (mac out).bytes).length - 32 = out.length := by simp
  refine bind_eq_ok.2 ⟨(), require_eq_ok.2 (by simp), ?_⟩
  dsimp only
  rw [hlen, List.take_left, List.drop_left]
  exact bind_eq_ok.2 ⟨(), require_eq_ok.2 rfl, hd⟩

/-! ### The closes after an import -/

/-- Closes of a list are recorded, or the record is full. -/
def KeepsCloses (txids : List Hash) (store : ChannelStore) : Prop :=
  (∀ t ∈ txids, t ∈ store.closeTxids) ∨ store.closeTxids.length = maxCloseTxids

/-- A close that is recorded is kept. -/
theorem KeepsCloses.recordClose {txids : List Hash} (h : KeepsCloses txids store) (t : Hash) :
    KeepsCloses (txids ++ [t]) (store.recordClose t) := by
  unfold ChannelStore.recordClose
  split
  · next hmem =>
    refine h.imp_left fun h t' ht' => ?_
    rcases mem_append.1 ht' with ht' | ht'
    · exact h t' ht'
    · cases mem_singleton.1 ht'
      simpa using hmem
  · by_cases hfull : store.closeTxids.length < maxCloseTxids
    · left
      have hle : (store.closeTxids ++ [t]).length ≤ maxCloseTxids := by
        rw [length_append, length_singleton]
        exact hfull
      dsimp only
      rw [keepLast_of_le hle]
      intro t' ht'
      rcases mem_append.1 ht' with ht' | ht'
      · have hkept := h.resolve_right fun heq => absurd heq hfull.ne
        exact mem_append_left _ (hkept t' ht')
      · exact mem_append_right _ ht'
    · right
      dsimp only
      rw [keepLast, length_drop, length_append, length_singleton]
      omega

lemma KeepsCloses.mergeCloses {txids : List Hash} (h : KeepsCloses txids store)
    (more : List Hash) : KeepsCloses (txids ++ more) (store.mergeCloses more) := by
  unfold ChannelStore.mergeCloses
  induction more generalizing txids store with
  | nil => rwa [append_nil]
  | cons t more ih =>
    have := ih (h.recordClose t)
    rwa [append_assoc] at this

lemma closeTxids_addEntries : (addEntries store entries).closeTxids = store.closeTxids := by
  unfold addEntries
  induction entries generalizing store with
  | nil => rfl
  | cons e entries ih =>
    rw [foldl_cons, ih]
    unfold insertIfAbsent
    split <;> rfl

/-- A record that an import leaves to a live channel remembers what the live one does, and no
more. -/
theorem imported_remembers_iff {live saved old : ChannelState} :
    (∃ st, imported (some live) (some saved) = some st ∧ st.Remembers old) ↔ live.Remembers old := by
  constructor
  · rintro ⟨st, hst, h⟩
    cases Option.some.inj hst
    exact ⟨h.revoked, h.validated, h.credit, h.broadcast⟩
  · intro h
    exact ⟨_, rfl, h.revoked, h.validated, h.credit, h.broadcast⟩

/-- A blob that opens is imported: each channel has the record its live and its saved one give, and
the closes of both are kept until the record is full. What either record of a channel knows is
remembered exactly where the live one knows what the saved one does. -/
theorem import_remembers_iff (mac : Bytes → Hash) (s : Device) (bytes : Bytes) (d : Decoded)
    (hopen : openBlob mac bytes = .ok d) (hkeys : (d.entries.map Prod.fst).Nodup) :
    ∃ s', s.importChannels mac bytes = .ok s' ∧
      (∀ key, s'.store.get key = imported (s.store.get key) (recordIn d.entries key)) ∧
      KeepsCloses (s.store.closeTxids ++ d.closes) s'.store ∧
      ((∀ key old, s.store.get key = some old ∨ recordIn d.entries key = some old →
          ∃ st, s'.store.get key = some st ∧ st.Remembers old) ↔
        ∀ key live saved, s.store.get key = some live → recordIn d.entries key = some saved →
          live.Remembers saved) := by
  have hget : ∀ key, (s.importStore d).store.get key =
      imported (s.store.get key) (recordIn d.entries key) := by
    intro key
    exact (get_mergeCloses d.closes).trans ((get_ledger _).trans (get_addEntries hkeys))
  refine ⟨s.importStore d, ?_, hget, ?_, ?_⟩
  · rw [importChannels, hopen]
    rfl
  · refine KeepsCloses.mergeCloses (.inl ?_) d.closes
    intro t ht
    change t ∈ (addEntries s.store d.entries).closeTxids
    rwa [closeTxids_addEntries]
  · constructor
    · intro h key live saved hlive hsaved
      obtain ⟨st, hst, hrem⟩ := h key saved (.inr hsaved)
      rw [hget, hlive, hsaved] at hst
      exact imported_remembers_iff.1 ⟨st, hst, hrem⟩
    · intro h key old hold
      rw [hget]
      cases hlive : s.store.get key with
      | none =>
        rw [hlive] at hold
        have hsaved := hold.resolve_left nofun
        exact ⟨old, by rw [hsaved]; rfl, .refl old⟩
      | some live =>
        cases hsaved : recordIn d.entries key with
        | none =>
          rw [hlive, hsaved] at hold
          cases Option.some.inj (hold.resolve_right nofun)
          exact ⟨old, rfl, .refl old⟩
        | some saved =>
          apply imported_remembers_iff.2
          rw [hlive, hsaved] at hold
          rcases hold with hold | hold
          · cases Option.some.inj hold
            exact .refl old
          · cases Option.some.inj hold
            exact h key live old hlive hsaved

end Device

namespace Example

/-- A device whose channel revoked commitment 0. -/
def revoked : Device :=
  (device none).run kernel [.setupChannel channel (setup 1000), validate 0 0, validate 1 1,
    .revokeCommitmentTx channel 0]

/-- The same device after it went on to revoke commitment 1. -/
def further : Device := revoked.run kernel [validate 2 2, .revokeCommitmentTx channel 1]

def mac (_ : Bytes) : Hash := bytes 32 0

/-- What was saved can be opened, its channels are told apart, and the device that went on knows all
of it and has the channel. -/
theorem opens_revoked : (Device.openBlob mac (revoked.exportChannels mac)).toOption.any (fun d =>
    (d.entries.map Prod.fst).Nodup ∧ (recordIn d.entries channel).isSome ∧
      (further.store.get channel).isSome ∧
      ∀ e ∈ d.entries, (further.store.get e.1).all (·.Remembers e.2)) = true := by
  decide +kernel

/-- A new device reads the store back before it does anything; the one that went on reads it back
and remembers both. -/
theorem import_remembers_iff_new :
    ∃ d, Device.openBlob mac (revoked.exportChannels mac) = .ok d ∧
      (∃ s', (device none).importChannels mac (revoked.exportChannels mac) = .ok s' ∧
        ∀ key, s'.store.get key = recordIn d.entries key) ∧
      ∃ s', further.importChannels mac (revoked.exportChannels mac) = .ok s' ∧
        (further.store.get channel).isSome ∧ (recordIn d.entries channel).isSome ∧
        ∀ key old, further.store.get key = some old ∨ recordIn d.entries key = some old →
          ∃ st, s'.store.get key = some st ∧ st.Remembers old := by
  have hsaved := opens_revoked
  cases hopen : Device.openBlob mac (revoked.exportChannels mac) with
  | error why =>
    rw [hopen] at hsaved
    cases hsaved
  | ok d =>
    rw [hopen] at hsaved
    obtain ⟨hkeys, hrecord, hlive, hknows⟩ := of_decide_eq_true hsaved
    refine ⟨d, rfl, ?_, ?_⟩
    · obtain ⟨s', himport, hget, -⟩ := Device.import_remembers_iff mac (device none) _ d hopen hkeys
      refine ⟨s', himport, fun key => ?_⟩
      rw [hget]
      rfl
    · obtain ⟨s', himport, -, -, hiff⟩ := Device.import_remembers_iff mac further _ d hopen hkeys
      refine ⟨s', himport, hlive, hrecord, hiff.2 fun key live saved hget hin => ?_⟩
      have hall := hknows (key, saved) (mem_of_recordIn hin)
      rw [hget] at hall
      exact of_decide_eq_true hall

/-- The channel was set up again before the import: the device does not know that commitment 0 is
revoked, and signs it for broadcast. -/
theorem import_forgets_revocation :
    (((device none).run kernel [.setupChannel channel (setup 1000)]).importChannels mac
      (revoked.exportChannels mac)).toOption.any (fun s =>
        (revoked.store.get channel).any (·.revokedThrough = some 0) &&
        (s.store.get channel).any (·.revokedThrough = none) &&
        ((s.run kernel [validate 0 0]).signCommitmentTx kernel.toKernel (broadcast 0 0)).isOk) =
      true := by
  decide +kernel

end Example

end SeqLN.Signer
