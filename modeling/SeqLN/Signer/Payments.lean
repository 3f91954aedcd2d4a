import SeqLN.Common
import SeqLN.Lib.Bytes
import SeqLN.Lib.SlidingWindow

/-!
# Payment approval and limits

The ledger of approved payment hashes and of what was charged to each asset's allowance (`Ledger`), and
for each channel what its latest commitments left this side (`PayTrack`). `PayTrack.plan` says what a
commitment means for payments before it is signed. `satAdd` and `satMul` stop at the largest word.

Source: `contrib/seqln-signer/src/payments.rs`
-/

namespace SeqLN.Signer

open Lib

/-! ### Words -/

/-- Source: `u64::MAX` -/
def u64Max : ℕ := 2 ^ 64 - 1

/-- Source: `saturating_add` -/
def satAdd (a b : ℕ) : ℕ := min (a + b) u64Max

/-- Source: `saturating_mul` -/
def satMul (a b : ℕ) : ℕ := min (a * b) u64Max

lemma satAdd_of_lt {a b : ℕ} (h : a + b ≤ u64Max) : satAdd a b = a + b := min_eq_left h

lemma satAdd_le (a b : ℕ) : satAdd a b ≤ u64Max := min_le_right _ _

lemma satAdd_le_add (a b : ℕ) : satAdd a b ≤ a + b := min_le_left _ _

/-- A sum that saturates. Source: `fold(0u64, |t, x| t.saturating_add(x))` -/
def satSum (xs : List ℕ) : ℕ := xs.foldl satAdd 0

lemma foldl_satAdd (xs : List ℕ) {t : ℕ} (ht : t ≤ u64Max) :
    xs.foldl satAdd t = min (t + xs.sum) u64Max := by
  induction xs generalizing t with
  | nil => simp [ht]
  | cons x xs ih =>
    rw [List.foldl_cons, ih (satAdd_le t x), List.sum_cons, satAdd]
    omega

lemma satSum_eq (xs : List ℕ) : satSum xs = min xs.sum u64Max := by
  rw [satSum, foldl_satAdd xs (Nat.zero_le _), Nat.zero_add]

lemma satSum_le_sum (xs : List ℕ) : satSum xs ≤ xs.sum := by
  rw [satSum_eq]
  exact min_le_left _ _

/-! ### Assets and limits -/

/-- The asset an amount is in: an issued asset by its id, or Bitcoin on a Bitcoin channel.
Source: `AssetKey` -/
inductive AssetKey where
  | btc
  | asset (id : ByteString 32)
  deriving DecidableEq

/-- The limit of an asset that has none of its own. Source: `DefaultLimit` -/
inductive DefaultLimit where
  | reference (atoms : ℕ)
  | atoms (atoms : ℕ)
  | none

/-- Source: `UNRATED_LIMIT_ATOMS` -/
def unratedLimitAtoms : ℕ := 10000000

/-- A default for every asset, overrides per asset (`some none` is no limit), the rates the default
is converted at, and the period they apply over. Source: `Limits` -/
structure Limits where
  default : DefaultLimit
  perAsset : AssetKey → Option (Option ℕ)
  rates : AssetKey → Option ℕ
  periodSecs : ℕ

/-- Source: `reference_to_atoms` -/
def referenceToAtoms (reference rate : ℕ) : ℕ :=
  if rate = 0 then u64Max else min (reference * 100000000 / rate) u64Max

namespace Limits

/-- The limit of an asset, in its atoms. Source: `Limits::limit_atoms` -/
def limitAtoms (l : Limits) (asset : AssetKey) : Option ℕ :=
  match l.perAsset asset with
  | some own => own
  | none =>
    match l.default with
    | .none => none
    | .atoms a => some a
    | .reference r =>
      match l.rates asset with
      | some rate => if 0 < rate then some (referenceToAtoms r rate) else some unratedLimitAtoms
      | none => some unratedLimitAtoms

/-- Source: `Limits::limit_msat` -/
def limitMsat (l : Limits) (asset : AssetKey) : Option ℕ :=
  (l.limitAtoms asset).map fun a => satMul a 1000

/-- The limit of a payment that names no asset, before any channel says which.
Source: `Limits::unnamed_limit_atoms` -/
def unnamedLimitAtoms (l : Limits) : Option ℕ :=
  match l.default with
  | .none => none
  | .atoms a => some a
  | .reference _ => some unratedLimitAtoms

end Limits

/-- What routing may cost on top of a payment. Source: `fee_allowance_msat` -/
def feeAllowanceMsat (amountMsat : ℕ) : ℕ := max (amountMsat / 200) 5000

/-! ### The ledger -/

/-- An amount charged to an asset's allowance, and when. Source: `Spend` -/
structure Spend where
  asset : AssetKey
  time : ℕ
  msat : ℕ
  deriving DecidableEq

/-- An approved payment hash, and when it was approved. Source: `Approval` -/
structure Approval where
  hash : ByteString 32
  time : ℕ
  deriving DecidableEq

/-- What the device has approved and charged, across every channel. Source: `Ledger` -/
structure Ledger where
  approvals : List Approval
  spends : List Spend
  chargedTxids : List (ByteString 32)
  deriving DecidableEq

/-- Source: `MAX_APPROVALS` -/
def maxApprovals : ℕ := 256

/-- Source: `MAX_SPENDS` -/
def maxSpends : ℕ := 512

/-- Source: `MAX_CHARGED_TXIDS` -/
def maxChargedTxids : ℕ := 256

/-- The oldest go first. Source: `while v.len() > max { v.remove(0); }` -/
def keepLast {α : Type} (max : ℕ) (l : List α) : List α := l.drop (l.length - max)

lemma keepLast_of_le {α : Type} {max : ℕ} {l : List α} (h : l.length ≤ max) :
    keepLast max l = l := by
  rw [keepLast, Nat.sub_eq_zero_of_le h, List.drop_zero]

/-- Source: `within` -/
abbrev within (time now period : ℕ) : Bool := Window.within time now period

/-- Source: `self.spends.sort_by_key(|s| s.at)` -/
def byTime (spends : List Spend) : List Spend := spends.insertionSort fun a b => a.time ≤ b.time

/-- A charge folded into the next of the same asset, where there is one. -/
def foldInto (first : Spend) : List Spend → Option (List Spend)
  | [] => none
  | s :: rest =>
    if s.asset = first.asset then some ({ s with msat := satAdd s.msat first.msat } :: rest)
    else (foldInto first rest).map (s :: ·)

/-- The oldest charges are folded into the next of the same asset while there are more than
`maxSpends` of them; the number says how many are too many. Source: the loop of `Ledger::charge` -/
def foldOldest : ℕ → List Spend → List Spend
  | 0, spends => spends
  | _, [] => []
  | n + 1, first :: rest =>
    match foldInto first rest with
    | some spends => foldOldest n spends
    | none => first :: rest

namespace Ledger

/-- Source: `Ledger::default` -/
def empty : Ledger := ⟨[], [], []⟩

variable (l : Ledger)

/-- Source: `Ledger::prune` -/
def prune (now period : ℕ) : Ledger :=
  { l with
    approvals := l.approvals.filter fun a => within a.time now period
    spends := l.spends.filter fun s => within s.time now period }

/-- Source: `Ledger::spent_msat` -/
def spentMsat (asset : AssetKey) (now period : ℕ) : ℕ :=
  satSum ((l.spends.filter fun s => s.asset = asset && within s.time now period).map Spend.msat)

/-- Source: `Ledger::remaining_msat` -/
def remainingMsat (limits : Limits) (asset : AssetKey) (now : ℕ) : Option ℕ :=
  (limits.limitMsat asset).map fun limit => limit - l.spentMsat asset now limits.periodSecs

/-- Source: `Ledger::is_approved` -/
def isApproved (hash : ByteString 32) (now period : ℕ) : Bool :=
  l.approvals.any fun a => a.hash = hash && within a.time now period

/-- Source: `Ledger::approve` -/
def approve (hash : ByteString 32) (now : ℕ) : Ledger :=
  let others := l.approvals.filter fun a => a.hash ≠ hash
  { l with approvals := keepLast maxApprovals (others ++ [⟨hash, now⟩]) }

/-- Whether `msat` more of an asset fits in its allowance. Source: `Ledger::check_spend` -/
def checkSpend (limits : Limits) (asset : AssetKey) (msat now : ℕ) : Bool :=
  msat = 0 ||
    match limits.limitMsat asset with
    | none => true
    | some limit => satAdd (l.spentMsat asset now limits.periodSecs) msat ≤ limit

/-- Source: `Ledger::charge` -/
def charge (asset : AssetKey) (msat now : ℕ) : Ledger :=
  if msat = 0 then l
  else
    let spends := byTime (l.spends ++ [⟨asset, now, msat⟩])
    { l with spends := foldOldest (spends.length - maxSpends) spends }

/-- A charge, once what is older than the period is gone. Source: the end of `apply_plan` -/
def pruneAndCharge (asset : AssetKey) (msat now period : ℕ) : Ledger :=
  if 0 < msat then (l.prune now period).charge asset msat now else l

/-- Source: `Ledger::is_charged_txid` -/
def isChargedTxid (txid : ByteString 32) : Bool := l.chargedTxids.contains txid

/-- Source: `Ledger::mark_charged_txid` -/
def markChargedTxid (txid : ByteString 32) : Ledger :=
  if l.isChargedTxid txid then l
  else { l with chargedTxids := keepLast maxChargedTxids (l.chargedTxids ++ [txid]) }

end Ledger

/-! ### What a channel's commitments pay away -/

/-- An HTLC we offered, as a commitment request lists it. Source: `Offered` -/
structure Offered where
  amountMsat : ℕ
  hash : ByteString 32
  cltv : ℕ
  deriving DecidableEq

/-- The order of the fields. -/
def Offered.cmp (a b : Offered) : Ordering :=
  (compare a.amountMsat b.amountMsat).then <| (compare a.hash.bytes b.hash.bytes).then <|
    compare a.cltv b.cltv

/-- The latest commitment on one side of a channel, as far as payments go. Source: `SideTrack` -/
structure SideTrack where
  n : ℕ
  /-- What it leaves this side, in atoms. -/
  value : ℕ
  /-- The HTLCs we offered that it lists. -/
  offered : List Offered
  /-- What has left this side with no listed HTLC to account for it. -/
  lost : ℕ
  deriving DecidableEq

/-- The channel's asset, the latest commitment on each side, and how much of the unlisted loss has
been charged. Source: `PayTrack` -/
structure PayTrack where
  asset : Option AssetKey
  localSide : Option SideTrack
  remoteSide : Option SideTrack
  chargedLost : ℕ
  deriving DecidableEq

/-- Source: `PayTrack::default` -/
def PayTrack.new : PayTrack := ⟨none, none, none, 0⟩

/-- Source: `MAX_OFFERED` -/
def maxOffered : ℕ := 966

/-- The elements of `a` beyond the multiplicity `b` gives them; `seen` are those before.
Source: the loop of `minus` -/
def minusLoop (b seen : List Offered) : List Offered → List Offered
  | [] => []
  | x :: a =>
    if b.count x < (seen ++ [x]).count x then x :: minusLoop b (seen ++ [x]) a
    else minusLoop b (seen ++ [x]) a

/-- Source: `minus` -/
def minus (a b : List Offered) : List Offered := minusLoop b [] a

/-- Each element at the larger of its two multiplicities. Source: `max_union` -/
def maxUnion (a b : List Offered) : List Offered := a ++ minus b a

/-- What a commitment leaves this side, against what the device tracks for it.
Source: `BalanceCheck` -/
structure BalanceCheck where
  prevN : ℕ
  prevValue : ℕ
  removedAtoms : ℕ
  value : ℕ
  /-- The atoms it is short by, beyond rounding. -/
  short : ℕ
  deriving DecidableEq

/-- What a commitment means for payments, before it is signed. Source: `Plan` -/
structure Plan where
  asset : AssetKey
  newOffered : List Offered
  chargeMsat : ℕ
  track : PayTrack
  balance : Option BalanceCheck

/-- The whole atoms of the HTLCs. -/
def offeredAtoms (offered : List Offered) : ℕ := satSum (offered.map fun h => h.amountMsat / 1000)

/-- The HTLCs of a commitment as the record keeps them. Source: `offered.sort()`,
`offered.truncate(MAX_OFFERED)` -/
def keptOffered (offered : List Offered) : List Offered :=
  (offered.insertionSort fun a b => (Offered.cmp a b).isLE = true).take maxOffered

/-- What rounding to whole atoms may move. -/
def tolerance (listed : ℕ) (t : SideTrack) (removed : List Offered) : ℕ :=
  2 + listed + t.offered.length + removed.length

/-- The check of a commitment against the latest one on its side. -/
def balanceCheck (t : SideTrack) (value : ℕ) (offered : List Offered) (listed : ℕ) : BalanceCheck :=
  let removed := minus t.offered offered
  { prevN := t.n
    prevValue := t.value
    removedAtoms := offeredAtoms removed
    value
    short := t.value - value - offeredAtoms removed - tolerance listed t removed }

namespace PayTrack

variable (p : PayTrack)

/-- The record of one side. -/
def side (ours : Bool) : Option SideTrack := if ours then p.localSide else p.remoteSide

def setSide (ours : Bool) (t : SideTrack) : PayTrack :=
  if ours then { p with localSide := some t } else { p with remoteSide := some t }

/-- The HTLCs a commitment newly offers. -/
def newOffered (ours : Bool) (offered : List Offered) : List Offered :=
  if p.localSide.isNone && p.remoteSide.isNone then []
  else minus offered (maxUnion (((p.side ours).map SideTrack.offered).getD [])
    (((p.side !ours).map SideTrack.offered).getD []))

/-- Plans a commitment of ours or of the peer's, number `n`, that leaves this side `value` atoms
and lists our HTLCs `offered`; `listed` is the number of HTLCs it carries. Source: `PayTrack::plan` -/
def plan (ours : Bool) (n : ℕ) (asset : AssetKey) (value : ℕ) (offered : List Offered)
    (listed : ℕ) : Plan :=
  let offered := keptOffered offered
  let newOffered := p.newOffered ours offered
  let newMsat := satSum (newOffered.map Offered.amountMsat)
  let track := { p with asset := some asset }
  -- an older commitment than the latest on this side: the record stays
  if (p.side ours).any (n < ·.n) then ⟨asset, newOffered, newMsat, track, none⟩
  else
    let balance := (p.side ours).map fun t => balanceCheck t value offered listed
    let lost := match p.side ours with
      | none => 0
      | some t => satAdd t.lost (balanceCheck t value offered listed).short
    let otherLost := ((p.side !ours).map SideTrack.lost).getD 0
    let maxLost := max lost otherLost
    { asset
      newOffered
      chargeMsat := satAdd newMsat (satMul (maxLost - p.chargedLost) 1000)
      track := { track.setSide ours ⟨n, value, offered, lost⟩ with
        chargedLost := max p.chargedLost maxLost }
      balance }

end PayTrack

end SeqLN.Signer
