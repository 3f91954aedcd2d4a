import Mathlib.Data.List.AList
import SeqLN.Lib.Bytes

/-!
# Hold invoices

`contrib/holdinvoice-seq/holdinvoice.py` holds the HTLCs of a registered payment hash until the
operator settles or cancels the hold. Everything runs under the plugin's lock, so the plugin is a
machine with one step for each call; a restart rebuilds the holds from the datastore. The machine keeps
a log of registrations, of the HTLCs that a hold has, and of the answers to hook calls.
-/

namespace SeqLN.Holdinvoice

abbrev PaymentHash := ByteString 32

abbrev Preimage := Bytes

abbrev AssetId := ByteString 32

/-! ### Holds -/

inductive HoldState where
  | waiting
  | accepted
  | settled
  | cancelled
  deriving DecidableEq

/-- What a hold says of its asset; older versions wrote the policy asset without its id. -/
inductive HoldAsset where
  /-- Source: `LEGACY_POLICY` -/
  | legacyPolicy
  | id (a : AssetId)
  deriving DecidableEq

/-- What the datastore has of a hold. Source: `rec` in `_persist` -/
structure Record where
  state : HoldState
  preimage : Option Preimage
  amountMsat : ℤ
  asset : Option HoldAsset

/-- A hold, with the HTLCs it counted and the hook calls not answered. `κ` names the HTLCs: a
channel and an id on it. Source: `_new_entry` -/
structure Hold (κ : Type) where
  state : HoldState
  preimage : Option Preimage
  amountMsat : ℤ
  asset : Option HoldAsset
  receivedMsat : ℕ
  htlcs : List κ
  requests : List ℕ

/-- An HTLC as the hook gives it. -/
structure Htlc where
  paymentHash : PaymentHash
  asset : Option AssetId
  amountMsat : ℕ
  cltvExpiry : ℤ
  deriving DecidableEq

inductive Failure where
  /-- `400f`, with the amount and the height. Source: `_wrong_payment` -/
  | wrongPayment (amountMsat : ℕ) (height : ℤ)
  /-- `2002` -/
  | temporary
  /-- `0017` -/
  | mppTimeout
  deriving DecidableEq

inductive Answer where
  | cont
  | fail (failure : Failure)
  | resolve (preimage : Option Preimage)
  deriving DecidableEq

/-- What happened, for the record. -/
inductive Note (κ : Type) where
  | registered (ph : PaymentHash) (amountMsat : ℤ) (asset : Option HoldAsset)
  /-- The HTLCs of a hold, after one was added. -/
  | holding (ph : PaymentHash) (htlcs : List κ)
  /-- The answer to the `call`-th hook call. -/
  | answered (call : ℕ) (ph : PaymentHash) (a : Answer)
  deriving DecidableEq

/-- The HTLCs that arrive, by their names, the network, and the hash. -/
structure World (κ : Type) where
  htlc : κ → Htlc
  onSequentia : Bool
  /-- Source: `POLICY_ASSETS` at the network -/
  policyAsset : Option AssetId
  sha256 : Preimage → PaymentHash

structure State (κ : Type) where
  held : AList fun _ : PaymentHash => Hold κ
  disk : AList fun _ : PaymentHash => Record
  /-- The HTLC of each hook call. -/
  calls : List κ
  /-- What happened, the newest first. -/
  log : List (Note κ)

section plugin

variable {κ : Type}

namespace Hold

/-- A new hold. Source: `_new_entry` -/
def new (r : Record) : Hold κ := ⟨r.state, r.preimage, r.amountMsat, r.asset, 0, [], []⟩

/-- Source: `_persist` -/
def record (e : Hold κ) : Record := ⟨e.state, e.preimage, e.amountMsat, e.asset⟩

/-- The hold without its HTLCs. Source: `_drop_parts` -/
def dropped (e : Hold κ) : Hold κ := { e with requests := [], htlcs := [], receivedMsat := 0 }

/-- Whether an HTLC arrived in the hold's asset. Source: `_asset_matches` -/
def assetMatches (e : Hold κ) (htlc : Htlc) : Bool :=
  match e.asset with
  | none => true
  | some .legacyPolicy => false
  | some (.id a) => htlc.asset = some a

/-- An HTLC is counted once. Source: `_on_held_htlc` -/
def count [DecidableEq κ] (e : Hold κ) (k : κ) (amountMsat : ℕ) : Hold κ :=
  if k ∈ e.htlcs then e
  else { e with htlcs := k :: e.htlcs, receivedMsat := e.receivedMsat + amountMsat }

/-- The hold with a hook call and its HTLC, accepted if it has the amount.
Source: `_on_held_htlc`, for a hold that waits or is accepted -/
def add [DecidableEq κ] (e : Hold κ) (k : κ) (amountMsat call : ℕ) : Hold κ :=
  let e := e.count k amountMsat
  { e with
    requests := e.requests ++ [call]
    state := if e.state = .accepted ∨ e.amountMsat ≤ e.receivedMsat then .accepted else e.state }

end Hold

/-- All hook calls of a hold are answered alike. -/
def answerAll (ph : PaymentHash) (a : Answer) (requests : List ℕ) : List (Note κ) :=
  (requests.map fun call => .answered call ph a).reverse

/-- The one asset that the usable channels hold. Source: `_default_asset` -/
def defaultAsset (usable : List (Option AssetId)) : Option AssetId :=
  match usable.dedup with
  | [some a] => some a
  | _ => none

/-- The asset argument of `holdinvoice`: none, a 32-byte hex id or something else. -/
inductive AssetArg where
  | absent
  | id (a : AssetId)
  | malformed

/-- The asset of a new hold, or `none` where the call is refused. Source: `holdinvoice` -/
def holdAsset (w : World κ) (usable : List (Option AssetId)) (asset : AssetArg) :
    Option (Option HoldAsset) :=
  if w.onSequentia then
    match asset with
    | .id a => some (some (.id a))
    | .malformed => none
    | .absent => (defaultAsset usable).map fun a => some (.id a)
  else some none

namespace State

/-- The plugin before its first start. -/
def init : State κ := ⟨∅, ∅, [], []⟩

variable (w : World κ) (s : State κ)

/-- A hold is kept in memory and written to the datastore. -/
def put (ph : PaymentHash) (e : Hold κ) : State κ :=
  { s with held := s.held.insert ph e, disk := s.disk.insert ph e.record }

/-- Source: `holdinvoice` -/
def holdinvoice (ph : PaymentHash) (amountMsat mppTimeout : ℤ) (asset : AssetArg)
    (usable : List (Option AssetId)) : State κ :=
  if (s.held.lookup ph).any fun e => e.state = .accepted ∨ e.state = .settled then s
  else if mppTimeout ≤ 0 then s
  else
    match holdAsset w usable asset with
    | none => s
    | some asset =>
      let drops := ((s.held.lookup ph).map (·.requests)).getD []
      let s := s.put ph (Hold.new ⟨.waiting, none, amountMsat, asset⟩)
      { s with
        log := .registered ph amountMsat asset :: (answerAll ph (.fail .temporary) drops ++ s.log) }

/-- Source: `holdinvoicesettle` -/
def holdinvoicesettle (ph : PaymentHash) (preimage : Preimage) : State κ :=
  match s.held.lookup ph with
  | none => s
  | some e =>
    if w.sha256 preimage ≠ ph then s
    else if e.state = .waiting ∧ e.requests ≠ [] then s
    else
      let s := s.put ph { e with preimage := some preimage, state := .settled, requests := [] }
      { s with log := answerAll ph (.resolve (some preimage)) e.requests ++ s.log }

/-- Source: `holdinvoicecancel` -/
def holdinvoicecancel (ph : PaymentHash) : State κ :=
  match s.held.lookup ph with
  | none => s
  | some e =>
    let s := s.put ph { e.dropped with state := .cancelled }
    { s with log := answerAll ph (.fail .temporary) e.requests ++ s.log }

/-- The timer of a hold. Source: `_time_out` -/
def timeOut (ph : PaymentHash) : State κ :=
  match s.held.lookup ph with
  | none => s
  | some e =>
    if e.state ≠ .waiting ∨ e.requests = [] then s
    else
      { s with
        held := s.held.insert ph e.dropped
        log := answerAll ph (.fail .mppTimeout) e.requests ++ s.log }

/-- The hook is called for an HTLC. Source: `on_htlc_accepted`, `_on_held_htlc` -/
def htlcAccepted [DecidableEq κ] (k : κ) (cltvExpiryRelative : ℤ) : State κ :=
  let htlc := w.htlc k
  let ph := htlc.paymentHash
  let call := s.calls.length
  let s := { s with calls := s.calls ++ [k] }
  match s.held.lookup ph with
  | none => { s with log := .answered call ph .cont :: s.log }
  | some e =>
    if e.assetMatches htlc = false then
      let failure := Failure.wrongPayment htlc.amountMsat (htlc.cltvExpiry - cltvExpiryRelative)
      { s with log := .answered call ph (.fail failure) :: s.log }
    else
      match e.state with
      | .settled => { s with log := .answered call ph (.resolve e.preimage) :: s.log }
      | .cancelled => { s with log := .answered call ph (.fail .temporary) :: s.log }
      | .waiting | .accepted =>
        let e := e.add k htlc.amountMsat call
        { s with held := s.held.insert ph e, log := .holding ph e.htlcs :: s.log }

/-- What a restart makes of a record: an accepted hold waits again for its HTLCs. Source: the loop
of `init` -/
def restored (r : Record) : Hold κ :=
  .new { r with
    state := if r.state = .accepted then .waiting else r.state
    asset := if r.asset = some .legacyPolicy then
        (w.policyAsset.map HoldAsset.id).orElse fun _ => r.asset
      else r.asset }

/-- Source: `init` -/
def restart : State κ :=
  { s with held := ⟨s.disk.entries.map fun r => ⟨r.1, restored w r.2⟩, by
      have h := s.disk.nodupKeys
      rw [List.NodupKeys, List.keys] at h ⊢
      simpa [Function.comp_def] using h⟩ }

end State

inductive Event (κ : Type) where
  | holdinvoice (ph : PaymentHash) (amountMsat mppTimeout : ℤ) (asset : AssetArg)
      (usable : List (Option AssetId))
  | holdinvoicesettle (ph : PaymentHash) (preimage : Preimage)
  | holdinvoicecancel (ph : PaymentHash)
  | htlcAccepted (k : κ) (cltvExpiryRelative : ℤ)
  | timeOut (ph : PaymentHash)
  | restarted

variable [DecidableEq κ] (w : World κ)

/-- A call, a hook call, a timeout or a restart. A timer stopped too late finds another hold, or no
parts. -/
def step (s : State κ) : Event κ → State κ
  | .holdinvoice ph amountMsat mppTimeout asset usable =>
    s.holdinvoice w ph amountMsat mppTimeout asset usable
  | .holdinvoicesettle ph preimage => s.holdinvoicesettle w ph preimage
  | .holdinvoicecancel ph => s.holdinvoicecancel ph
  | .htlcAccepted k rel => s.htlcAccepted w k rel
  | .timeOut ph => s.timeOut ph
  | .restarted => s.restart w

/-- The state after a list of events. -/
def runFrom (s : State κ) (es : List (Event κ)) : State κ := es.foldl (step w) s

end plugin

end SeqLN.Holdinvoice
