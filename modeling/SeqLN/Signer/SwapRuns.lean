import SeqLN.Signer.Kickoff
import SeqLN.Signer.PeerCommitments

/-!
# Swaps and the states they account for

On a channel of several assets a state that leaves this side less in a lane than the device tracks is
signed if a swap that the device approved accounts for it (`lanes_balance`).

* `accounts`, `approvals` — the swaps that account for the signed states of a run, and those that it
  approved; a swap accounts for one state of each side (`accounts_le_approvals`).
* `SwapLegs` — what a state with a swap may do to the lanes: one falls, by what the swap gives, and the
  other rises by what it takes, above what the state settles there.
* `heldHtlcs`, `settledIn` — the HTLCs of the state that a lane's record is from, and the received ones
  of them that a new state no longer lists.
-/

namespace SeqLN.Signer

open Lib List Option

/-! ### Counting in a list that changes at one place -/

variable {i : ℕ}

section counting

variable {α : Type} (P : α → Bool)

lemma countP_modify (f : α → α) {l : List α} {x : α} (h : l[i]? = some x) :
    (l.modify i f).countP P + (if P x then 1 else 0) = l.countP P + (if P (f x) then 1 else 0) := by
  induction l generalizing i with
  | nil => cases h
  | cons a l ih =>
    cases i with
    | zero =>
      cases h
      rw [modify_zero_cons, countP_cons, countP_cons]
      omega
    | succ i =>
      have := ih h
      rw [modify_succ_cons, countP_cons, countP_cons]
      omega

lemma countP_eraseIdx {l : List α} {x : α} (h : l[i]? = some x) :
    (l.eraseIdx i).countP P + (if P x then 1 else 0) = l.countP P := by
  induction l generalizing i with
  | nil => cases h
  | cons a l ih =>
    cases i with
    | zero =>
      cases h
      rw [eraseIdx_cons_zero, countP_cons]
    | succ i =>
      have := ih h
      rw [eraseIdx_cons_succ, countP_cons, countP_cons]
      omega

end counting

/-! ### Approvals and their use -/

variable {sw : SwapApproval} {ours : Bool}

namespace SwapApproval

/-- The swap without what it was used for. -/
def terms (sw : SwapApproval) : SwapApproval := { sw with usedLocal := false, usedRemote := false }

/-- A state of the side has used it. -/
def used (sw : SwapApproval) (ours : Bool) : Bool := if ours then sw.usedLocal else sw.usedRemote

/-- A state of the side uses it. -/
def use (ours : Bool) (sw : SwapApproval) : SwapApproval :=
  if ours then { sw with usedLocal := true } else { sw with usedRemote := true }

lemma terms_use (ours : Bool) (sw : SwapApproval) : (sw.use ours).terms = sw.terms := by
  cases ours <;> rfl

lemma used_use (ours side : Bool) (sw : SwapApproval) :
    (sw.use ours).used side = (side == ours || sw.used side) := by
  cases ours <;> cases side <;> rfl

/-- It has the terms, and is there for a state of the side. -/
def isOpen (X : SwapApproval) (side : Bool) (sw : SwapApproval) : Bool :=
  sw.terms = X && !sw.used side

end SwapApproval

namespace Device

variable (k : SymKernel)

/-- The swap that accounts for a state that is signed, and whether the state is ours. -/
def accountOf (s : Device) : Request → Option (SwapApproval × Bool)
  | .signSymLanesState key q =>
    match s.signSymLanesState k key q, s.checkSymLanesState k key q with
    | .ok _, .ok c =>
      match s.lanesBalance key c with
      | .ok (some i) => (s.swaps[i]?).map fun sw => (sw, c.base.ours)
      | _ => none
    | _, _ => none
  | _ => none

/-- The swap that a request has approved. -/
def approvalOf (s : Device) : Request → Option SwapApproval
  | .approveSymSwap key giveAsset giveMsat takeAsset takeMsat =>
    if (s.approveSymSwap key giveAsset giveMsat takeAsset takeMsat).isOk then
      some ⟨key, giveAsset, giveMsat, takeAsset, takeMsat, false, false⟩
    else none
  | _ => none

/-- The swaps that account for the states signed in a run, each with the state's side. -/
def accounts (s : Device) : List Request → List (SwapApproval × Bool)
  | [] => []
  | req :: reqs => (s.accountOf k req).toList ++ accounts (s.after k req) reqs

/-- The swaps approved in a run. -/
def approvals (s : Device) : List Request → List SwapApproval
  | [] => []
  | req :: reqs => (s.approvalOf req).toList ++ approvals (s.after k req) reqs

variable {k} {s s' : Device}

/-! ### One request -/

variable {c : LanesChecked}

lemma swaps_applyLanePlans (key : ChannelKey) (plans : List Plan) (l : ℕ) (s : Device) :
    (applyLanePlans key l plans s).swaps = s.swaps := by
  induction plans generalizing l s with
  | nil => rfl
  | cons plan plans ih =>
    rw [applyLanePlans, ih]
    rfl

/-- Only the two requests about swaps change the approvals. -/
theorem swaps_of_step {req : Request} (h : s.step k req = .ok s')
    (hstate : ∀ key q, req ≠ .signSymLanesState key q)
    (happrove : ∀ key a m b n, req ≠ .approveSymSwap key a m b n) : s'.swaps = s.swaps := by
  cases req with
  | setNow now => cases h; rfl
  | setupChannel key setup => cases h; rfl
  | forgetChannel key => cases h; rfl
  | signRemoteCommitmentTx req =>
    obtain ⟨v, plan, -, -, rfl⟩ := signRemoteCommitmentTx_ok h
    rfl
  | validateCommitmentTx req =>
    obtain ⟨v, plan, -, -, rfl⟩ := validateCommitmentTx_ok h
    rfl
  | signCommitmentTx req =>
    obtain ⟨st, n, -, -, -, rfl⟩ | ⟨-, rfl⟩ := signCommitmentTx_ok h
    · rfl
    · rfl
  | revokeCommitmentTx key n =>
    obtain ⟨st, -, -, rfl⟩ := revokeCommitmentTx_ok h
    rfl
  | preapprove hash amountMsat asset => rw [preapprove_ok h]
  | signSymState key q ck =>
    obtain ⟨c, plan, -, -, rfl⟩ := signSymState_ok h
    rfl
  | signSymLanesState key q => exact absurd rfl (hstate key q)
  | approveSymSwap key a m b n => exact absurd rfl (happrove key a m b n)
  | signSymKickoff req =>
    obtain ⟨-, rfl⟩ | ⟨outnum, asset, sats, -, rfl⟩ := signSymKickoff_ok h
    · rfl
    · rfl
  | checkSymClockFunding key tx txid fundingTxid vout issuer =>
    obtain ⟨st, seed, -, -, -, -, rfl⟩ := checkSymClockFunding_ok h
    rfl
  | signMutualCloseTx key bt => rw [signMutualCloseTx_ok h]
  | signMutualCloseLanes key bt remoteFunding => rw [signMutualCloseLanes_ok h]
  | creditNote key cid note => rw [creditNote_ok h]
  | signWithdrawal w =>
    obtain ⟨-, ⟨-, rfl⟩ | rfl⟩ := signWithdrawal_ok h
    · rfl
    · rfl

/-- The approvals of some terms that are there for a state of the side. -/
def openSwaps (s : Device) (X : SwapApproval) (side : Bool) : ℕ := s.swaps.countP (X.isOpen side)

/-- A use of the terms by a state of the side. -/
def uses (X : SwapApproval) (side : Bool) (a : SwapApproval × Bool) : Bool :=
  a.1.terms = X && a.2 = side

/-- Using an approval closes it. -/
lemma openSwaps_useSwap (h : s.swaps[i]? = some sw) (hunused : sw.used ours = false)
    (X : SwapApproval) (side : Bool) :
    (s.useSwap ours i).openSwaps X side + (if uses X side (sw, ours) then 1 else 0) =
      s.openSwaps X side := by
  have hcount := countP_modify (X.isOpen side) (SwapApproval.use ours) h
  have hget : (s.swaps.modify i (SwapApproval.use ours))[i]? = some (sw.use ours) := by
    rw [List.getElem?_modify, h]
    simp
  have hopen : X.isOpen side (sw.use ours) = (sw.terms = X && !(side == ours || sw.used side)) := by
    rw [SwapApproval.isOpen, SwapApproval.terms_use, SwapApproval.used_use]
  -- the swap is open for its side before and not after, and as before for the other
  have hstep : (s.swaps.modify i (SwapApproval.use ours)).countP (X.isOpen side) +
      (if uses X side (sw, ours) then 1 else 0) = s.openSwaps X side := by
    rw [hopen] at hcount
    unfold openSwaps uses
    by_cases hX : sw.terms = X
    · by_cases hside : side = ours
      · subst hside
        simp [SwapApproval.isOpen, hX, hunused] at hcount ⊢
        omega
      · have hne : ours ≠ side := fun h => hside h.symm
        simp [SwapApproval.isOpen, hX, hside, hne] at hcount ⊢
        omega
    · simp [SwapApproval.isOpen, hX] at hcount ⊢
      omega
  rw [← hstep]
  have hswaps : (s.useSwap ours i).swaps =
      if (sw.use ours).usedLocal && (sw.use ours).usedRemote then
        (s.swaps.modify i (SwapApproval.use ours)).eraseIdx i
      else s.swaps.modify i (SwapApproval.use ours) := by
    unfold useSwap
    dsimp only
    split
    · next sw' hsw' =>
      obtain rfl := some.inj (hget.symm.trans hsw')
      rfl
    · next hnone => cases hget.symm.trans hnone
  rw [openSwaps, hswaps]
  split
  · next hboth =>
    obtain ⟨hl, hr⟩ := Bool.and_eq_true_iff.1 hboth
    have herase := countP_eraseIdx (X.isOpen side) hget
    have hclosed : X.isOpen side (sw.use ours) = false := by
      have : (sw.use ours).used side = true := by
        cases side
        · exact hr
        · exact hl
      simp [SwapApproval.isOpen, this]
    rw [hclosed] at herase
    simp only [Bool.false_eq_true, if_false, Nat.add_zero] at herase
    rw [herase]
  · rfl

/-- The swap that accounts for the one lane that is short. -/
theorem lanesBalance_eq_some {key : ChannelKey} (h : s.lanesBalance key c = .ok (some i)) :
    ∃ g b sw, shortLanes c.plans = [(g, b)] ∧ s.swaps[i]? = some sw ∧
      swapCovers key c g b.short sw = true := by
  unfold lanesBalance at h
  split at h
  · cases h
  · next g b hshort =>
    cases hfind : s.swaps.findIdx? (swapCovers key c g b.short) with
    | none =>
      rw [hfind] at h
      cases h
    | some j =>
      rw [hfind] at h
      obtain rfl : j = i := some.inj (Except.ok.inj h)
      obtain ⟨hlt, hcovers, -⟩ := List.findIdx?_eq_some_iff_getElem.1 hfind
      exact ⟨g, b, s.swaps[j], hshort, List.getElem?_eq_getElem hlt, hcovers⟩
  · cases h

section state

variable {key : ChannelKey} {q : SymLanesRequest}

lemma accountOf_of_ok {swapUsed : Option ℕ} (hsign : s.signSymLanesState k key q = .ok s')
    (hc : s.checkSymLanesState k key q = .ok c) (hbalance : s.lanesBalance key c = .ok swapUsed) :
    s.accountOf k (.signSymLanesState key q) =
      swapUsed.bind fun i => (s.swaps[i]?).map fun sw => (sw, c.base.ours) := by
  unfold accountOf
  dsimp only
  rw [hsign, hc]
  dsimp only
  rw [hbalance]
  cases swapUsed <;> rfl

/-- What a state that a swap accounts for went through. -/
theorem accountOf_eq_some (h : s.accountOf k (.signSymLanesState key q) = some (sw, ours)) :
    ∃ c g b, s.checkSymLanesState k key q = .ok c ∧ c.base.ours = ours ∧
      shortLanes c.plans = [(g, b)] ∧ swapCovers key c g b.short sw = true := by
  cases hsign : s.signSymLanesState k key q with
  | error why =>
    unfold accountOf at h
    dsimp only at h
    rw [hsign] at h
    cases h
  | ok s' =>
    obtain ⟨c, swapUsed, hc, hbalance, -, -⟩ := signSymLanesState_ok hsign
    rw [accountOf_of_ok hsign hc hbalance] at h
    obtain ⟨i, rfl, h⟩ := bind_eq_some_iff.1 h
    obtain ⟨sw', hsw, heq⟩ := map_eq_some_iff.1 h
    obtain ⟨rfl, rfl⟩ := Prod.mk.inj heq
    obtain ⟨g, b, sw, hshort, hsw', hcovers⟩ := lanesBalance_eq_some hbalance
    cases some.inj (hsw.symm.trans hsw')
    exact ⟨c, g, b, hc, rfl, hshort, hcovers⟩

/-- A swap that accounts for a state was not used on its side. -/
theorem unused_of_swapCovers {g short : ℕ} (h : swapCovers key c g short sw = true) :
    sw.used c.base.ours = false := by
  unfold swapCovers at h
  simp only [Bool.and_eq_true] at h
  have := h.1.1.1.2
  unfold SwapApproval.used
  simpa using this

/-- A signed state closes the swap it is accounted to. -/
lemma openSwaps_signSymLanesState (hsign : s.signSymLanesState k key q = .ok s')
    (X : SwapApproval) (side : Bool) :
    s'.openSwaps X side +
        (s.accountOf k (.signSymLanesState key q)).toList.countP (uses X side) =
      s.openSwaps X side := by
  obtain ⟨c, swapUsed, hc, hbalance, -, rfl⟩ := signSymLanesState_ok hsign
  rw [accountOf_of_ok hsign hc hbalance]
  have hd := swaps_applyLanePlans key c.plans 0 { s with
    store := (s.store.modify key (pinLanes c.pin)).modify key (recordSymState c.base) }
  generalize applyLanePlans key 0 c.plans _ = d at hd ⊢
  have hopen : d.openSwaps X side = s.openSwaps X side := by rw [openSwaps, hd]; rfl
  cases swapUsed with
  | none => exact hopen
  | some i =>
    obtain ⟨g, b, sw, -, hsw, hcovers⟩ := lanesBalance_eq_some hbalance
    have huse := openSwaps_useSwap (s := d) (by rw [hd]; exact hsw) (unused_of_swapCovers hcovers)
      X side
    rw [bind_some, hsw, map_some, toList_some, countP_singleton, ← hopen,
      ← huse]
    rfl

end state

/-- An approval opens one swap at most. -/
lemma openSwaps_approveSymSwap {key : ChannelKey} {giveAsset takeAsset : Key} {giveMsat takeMsat : ℕ}
    (h : s.approveSymSwap key giveAsset giveMsat takeAsset takeMsat = .ok s') (X : SwapApproval)
    (side : Bool) :
    s'.openSwaps X side ≤ s.openSwaps X side +
      (s.approvalOf (.approveSymSwap key giveAsset giveMsat takeAsset takeMsat)).toList.count X := by
  have happroval : s.approvalOf (.approveSymSwap key giveAsset giveMsat takeAsset takeMsat) =
      some ⟨key, giveAsset, giveMsat, takeAsset, takeMsat, false, false⟩ := by
    unfold approvalOf
    dsimp only
    rw [h]
    rfl
  rw [happroval]
  obtain ⟨_, -, h⟩ := bind_eq_ok.1 h
  obtain ⟨_, -, h⟩ := bind_eq_ok.1 h
  obtain ⟨_, -, h⟩ := bind_eq_ok.1 h
  cases Except.ok.inj h
  have htail : (if maxSwaps ≤ s.swaps.length then s.swaps.tail else s.swaps).countP (X.isOpen side) ≤
      s.openSwaps X side := by
    split
    · exact (tail_sublist _).countP_le
    · exact le_rfl
  rw [openSwaps, countP_append, countP_singleton, toList_some, count_singleton]
  refine Nat.add_le_add htail ?_
  by_cases hX : (⟨key, giveAsset, giveMsat, takeAsset, takeMsat, false, false⟩ : SwapApproval) = X
  · subst hX
    rw [beq_self_eq_true]
    split <;> simp
  · have : X.isOpen side ⟨key, giveAsset, giveMsat, takeAsset, takeMsat, false, false⟩ = false := by
      simp [SwapApproval.isOpen, SwapApproval.terms, hX]
    rw [this]
    exact Nat.zero_le _

/-- A request opens no more for a side than it approves, and closes what it uses. -/
theorem openSwaps_step {req : Request} (h : s.step k req = .ok s') (X : SwapApproval) (side : Bool) :
    s'.openSwaps X side + (s.accountOf k req).toList.countP (uses X side) ≤
      s.openSwaps X side + (s.approvalOf req).toList.count X := by
  by_cases hstate : ∃ key q, req = .signSymLanesState key q
  · obtain ⟨key, q, rfl⟩ := hstate
    rw [openSwaps_signSymLanesState h]
    exact Nat.le_add_right _ _
  · have hnone : s.accountOf k req = none := by
      cases req <;> first | rfl | exact absurd ⟨_, _, rfl⟩ hstate
    rw [hnone]
    by_cases happrove : ∃ key a m b n, req = .approveSymSwap key a m b n
    · obtain ⟨key, a, m, b, n, rfl⟩ := happrove
      exact openSwaps_approveSymSwap h X side
    · rw [openSwaps, swaps_of_step h (fun key q heq => hstate ⟨key, q, heq⟩)
        (fun key a m b n heq => happrove ⟨key, a, m, b, n, heq⟩)]
      exact Nat.le_add_right _ _

/-- A refused request accounts for nothing and approves nothing. -/
theorem openSwaps_after (s : Device) (req : Request) (X : SwapApproval) (side : Bool) :
    (s.after k req).openSwaps X side + (s.accountOf k req).toList.countP (uses X side) ≤
      s.openSwaps X side + (s.approvalOf req).toList.count X := by
  cases h : s.step k req with
  | ok s' =>
    have : s.after k req = s' := by rw [after, h]
    rw [this]
    exact openSwaps_step h X side
  | error why =>
    have hsame : s.after k req = s := by rw [after, h]
    have hnone : s.accountOf k req = none := by
      cases ha : s.accountOf k req with
      | none => rfl
      | some a =>
        cases req with
        | signSymLanesState key q =>
          unfold accountOf at ha
          dsimp only at ha
          rw [show s.signSymLanesState k key q = .error why from h] at ha
          cases ha
        | _ => cases ha
    rw [hsame, hnone]
    exact Nat.le_add_right _ _

/-- Along a run the states that terms account for on a side are no more than their approvals, and those
that were open. -/
theorem accounts_le_approvals (s : Device) (reqs : List Request) (X : SwapApproval) (side : Bool) :
    (s.accounts k reqs).countP (uses X side) ≤
      s.openSwaps X side + (s.approvals k reqs).count X := by
  induction reqs generalizing s with
  | nil => exact Nat.zero_le _
  | cons req reqs ih =>
    have hstep := openSwaps_after (k := k) s req X side
    have hrest := ih (s.after k req)
    rw [accounts, approvals, countP_append, count_append]
    omega

end Device

/-! ### The lanes of a state -/

/-- What a state makes of a lane: the record it is held to, what it leaves this side, and the HTLCs it
carries. -/
structure LaneState where
  prev : Option SideTrack
  value : ℕ
  htlcs : List StateHtlc

namespace LaneState

variable (L : LaneState)

/-- The HTLCs that we offered. -/
def offered : List Offered := stateOffered L.htlcs

/-- The lane falls beyond the HTLCs that are removed and what rounding may move. -/
def falls : Bool := L.prev.any fun t => L.value + slack t L.offered L.htlcs.length < t.value

/-- It falls by no more than the swap gives on top, rounded up. -/
def givesAtMost (sw : SwapApproval) : Bool := L.prev.all fun t =>
  t.value ≤ L.value + slack t L.offered L.htlcs.length + (sw.giveMsat / 1000 + 1)

/-- It leaves what the swap takes, rounded down, above what was left before, less the HTLCs that are
removed, with the received HTLCs that the state settles to this side. -/
def takesAtLeast (sw : SwapApproval) (settled : List StateHtlc) : Bool := L.prev.any fun t =>
  t.value + (settled.map fun h => h.amountMsat / 1000).sum + sw.takeMsat / 1000 ≤
    L.value + offeredAtoms (minus t.offered L.offered) + 1

/-- The record that the lane is held to is not newer, and loses no HTLC that both carry; its value
and what the swap takes fit in a word. -/
def Held (n : ℕ) (sw : SwapApproval) : Prop := ∀ t ∈ L.prev,
  t.n ≤ n ∧ KeepsShared t L.offered ∧ t.value + sw.takeMsat / 1000 ≤ u64Max

instance (n : ℕ) (sw : SwapApproval) : Decidable (L.Held n sw) :=
  inferInstanceAs (Decidable (∀ t ∈ L.prev, _))

end LaneState

/-- One lane alone falls, that of the asset which the swap gives, by what it gives; and the lane of the
other asset rises by what it takes, above the received HTLCs that are settled in it. -/
def SwapLegs (assets : List Key) (lanes : List LaneState) (sw : SwapApproval)
    (settled : ℕ → List StateHtlc) : Prop :=
  ∃ (g t : ℕ) (Lg Lt : LaneState), assets[g]? = some sw.giveAsset ∧ assets[t]? = some sw.takeAsset ∧
    lanes[g]? = some Lg ∧ lanes[t]? = some Lt ∧
    (∀ (l : ℕ) (L : LaneState), lanes[l]? = some L → (L.falls = true ↔ l = g)) ∧
    Lg.givesAtMost sw = true ∧ Lt.takesAtLeast sw (settled t) = true

/-- The received HTLCs of a state that a later one no longer lists. -/
def settledIn (held listed : List StateHtlc) : List StateHtlc :=
  (held.filter fun h => !h.ours).diff listed

/-- The number of a state or commitment of one side of a channel, and the HTLCs it has in a lane. -/
def Request.listed (key : ChannelKey) (ours : Bool) (l : ℕ) : Request → Option (ℕ × List StateHtlc)
  | .signSymLanesState key' q =>
    if key' = key ∧ decide (q.base.owner = 0) = ours then
      some (q.base.commitNum, Device.laneHtlcs q l)
    else none
  | .signSymState key' q _ =>
    if key' = key ∧ decide (q.owner = 0) = ours ∧ l = 0 then some (q.commitNum, stateHtlcs q.htlcs)
    else none
  | .signRemoteCommitmentTx req =>
    if req.key = key ∧ ours = false ∧ l = 0 then some (req.commitNum, stateHtlcs req.htlcs) else none
  | .validateCommitmentTx req =>
    if req.key = key ∧ ours = true ∧ l = 0 then some (req.commitNum, stateHtlcs req.htlcs) else none
  | _ => none

namespace Device

/-- The number of the state that a lane's record of a side is from. -/
def recordNum (s : Device) (key : ChannelKey) (ours : Bool) (l : ℕ) : Option ℕ := do
  let st ← s.store.get key
  let t ← (lanePay st l).side ours
  return t.n

/-- The HTLCs in a lane of the request of a run that the lane's record is from: the last one accepted
that was not older than the record. -/
def heldHtlcs (k : SymKernel) (key : ChannelKey) (ours : Bool) (l : ℕ) (held : List StateHtlc)
    (s : Device) : List Request → List StateHtlc
  | [] => held
  | req :: reqs =>
    match s.step k req, req.listed key ours l with
    | .ok s', some (n, htlcs) =>
      heldHtlcs k key ours l (if s'.recordNum key ours l = some n then htlcs else held) s' reqs
    | _, _ => heldHtlcs k key ours l held (s.after k req) reqs

/-- The lanes of a state that a request asks to sign. -/
def laneStates (k : SymKernel) (s : Device) (key : ChannelKey) (q : SymLanesRequest) :
    Option (List LaneState) := do
  let st ← s.store.get key
  let ours ← (checkOwner q.base).toOption
  let lanes := (q.base.asset, st.fundingSats) :: q.lanes
  let outLane ← (outLanes q.base (lanes.map Prod.fst) q.base.outs.zipIdx).toOption
  let plans ← (lanePlans k (symKeys k key st) st q ours outLane lanes.zipIdx).toOption
  return plans.zipIdx.map fun p =>
    ⟨(lanePay st p.2).side ours, satAdd p.1.1.ours p.1.1.offered, laneHtlcs q p.2⟩

section lanes

variable {k : SymKernel} {s : Device} {key : ChannelKey} {q : SymLanesRequest} {c : LanesChecked}

/-- Each lane's plan is the one of its record, and the lanes' assets are those the request names. -/
theorem laneStates_of_check (hc : s.checkSymLanesState k key q = .ok c) :
    ∃ lanes, s.laneStates k key q = some lanes ∧
      c.laneAssets = q.base.asset :: q.lanes.map Prod.fst ∧
      (∀ (l : ℕ) (L : LaneState), lanes[l]? = some L → ∃ (p : PayTrack) (asset : AssetKey) (plan : Plan),
        c.plans[l]? = some plan ∧ L.prev = p.side c.base.ours ∧
        plan = p.plan c.base.ours q.base.commitNum asset L.value L.offered L.htlcs.length) ∧
      ∀ (l : ℕ) (plan : Plan), c.plans[l]? = some plan → ∃ L, lanes[l]? = some L := by
  obtain ⟨st, hst, h⟩ := bind_eq_ok.1 hc
  obtain ⟨_, -, h⟩ := bind_eq_ok.1 h
  obtain ⟨asset, -, h⟩ := bind_eq_ok.1 h
  obtain ⟨_, -, h⟩ := bind_eq_ok.1 h
  obtain ⟨_, -, h⟩ := bind_eq_ok.1 h
  obtain ⟨pin, -, h⟩ := bind_eq_ok.1 h
  obtain ⟨_, -, h⟩ := bind_eq_ok.1 h
  obtain ⟨ours, hours, h⟩ := bind_eq_ok.1 h
  obtain ⟨_, -, h⟩ := bind_eq_ok.1 h
  obtain ⟨outLane, hout, h⟩ := bind_eq_ok.1 h
  obtain ⟨plans, hplans, h⟩ := bind_eq_ok.1 h
  obtain ⟨peerSigned, -, h⟩ := bind_eq_ok.1 h
  cases Except.ok.inj h
  refine ⟨plans.zipIdx.map fun p =>
    ⟨(lanePay st p.2).side ours, satAdd p.1.1.ours p.1.1.offered, laneHtlcs q p.2⟩, ?_, rfl, ?_, ?_⟩
  · unfold laneStates
    rw [fromOption_eq_ok.1 hst, hours]
    simp only [bind_eq_bind, bind_some, Except.toOption]
    rw [hout]
    simp only [bind_some]
    rw [hplans]
    rfl
  · intro l L hL
    rw [List.getElem?_map, List.getElem?_zipIdx, Option.map_map] at hL
    obtain ⟨p, hp, rfl⟩ := map_eq_some_iff.1 hL
    obtain ⟨asset, hplan⟩ := lanePlans_at hplans l p hp
    rw [Nat.zero_add] at hplan
    refine ⟨lanePay st l, asset, p.2, ?_, ?_, ?_⟩
    · rw [List.getElem?_map, hp]
      rfl
    · simp
    · simpa [LaneState.offered] using hplan
  · intro l plan hplan
    rw [List.getElem?_map] at hplan
    obtain ⟨p, hp, -⟩ := map_eq_some_iff.1 hplan
    exact ⟨_, by rw [List.getElem?_map, List.getElem?_zipIdx, hp]; rfl⟩

variable {b : BalanceCheck}

lemma mem_shortLanes {plans : List Plan} {l : ℕ} :
    (l, b) ∈ shortLanes plans ↔
      ∃ plan, plans[l]? = some plan ∧ plan.balance = some b ∧ 0 < b.short := by
  unfold shortLanes
  rw [mem_filterMap]
  constructor
  · rintro ⟨⟨plan, i⟩, hmem, h⟩
    obtain ⟨b', hb', h⟩ := bind_eq_some_iff.1 h
    split at h
    · next hpos =>
      cases h
      exact ⟨plan, List.mem_zipIdx_iff_getElem?.1 hmem, hb', hpos⟩
    · cases h
  · rintro ⟨plan, hplan, hb, hpos⟩
    refine ⟨(plan, l), List.mem_zipIdx_iff_getElem?.2 hplan, ?_⟩
    show plan.balance.bind _ = _
    rw [hb, bind_some, if_pos hpos]

variable {L : LaneState} {n : ℕ} {p : PayTrack}

/-- Where a lane is held to its record, its plan's check is of the HTLCs as they are. -/
theorem balance_of_held {t : SideTrack} (hheld : L.Held n sw) (hprev : L.prev = p.side ours)
    (ht : L.prev = some t) (asset : AssetKey) :
    ∃ b, (p.plan ours n asset L.value L.offered L.htlcs.length).balance = some b ∧
      b.prevValue = t.value ∧ b.value = L.value ∧
      b.removedAtoms = offeredAtoms (minus t.offered L.offered) ∧
      b.short = t.value - (L.value + slack t L.offered L.htlcs.length) := by
  obtain ⟨hn, hshared, -⟩ := hheld t ht
  have hslack := slack_kept hshared L.htlcs.length
  have hatoms : offeredAtoms (minus t.offered (keptOffered L.offered)) =
      offeredAtoms (minus t.offered L.offered) :=
    (offeredAtoms_perm ((minus_subperm_minus_kept _ _).perm_of_length_le hshared.le)).symm
  refine ⟨_, balance_plan (hprev.symm.trans ht) hn asset L.value L.offered L.htlcs.length, rfl, rfl,
    hatoms, ?_⟩
  rw [← hslack]
  unfold balanceCheck slack
  dsimp only
  omega

lemma balance_of_none (h : p.side ours = none) (n : ℕ) (asset : AssetKey) (value : ℕ)
    (offered : List Offered) (listed : ℕ) :
    (p.plan ours n asset value offered listed).balance = none := by
  unfold PayTrack.plan
  dsimp only
  rw [h]
  rfl

/-- A lane that is held to its record falls exactly if its plan is short. -/
theorem falls_iff_short (hheld : L.Held n sw) (hprev : L.prev = p.side ours) (asset : AssetKey) :
    L.falls = true ↔
      ∃ b, (p.plan ours n asset L.value L.offered L.htlcs.length).balance = some b ∧ 0 < b.short := by
  cases ht : L.prev with
  | none =>
    rw [LaneState.falls, ht, balance_of_none (hprev.symm.trans ht)]
    simp
  | some t =>
    obtain ⟨b, hbal, -, -, -, hshort⟩ := balance_of_held hheld hprev ht asset
    rw [LaneState.falls, ht, hbal]
    simp only [any_some, decide_eq_true_eq, Option.some.injEq, exists_eq_left', hshort]
    omega

/-- The lane of a plan that is short by no more than the swap gives. -/
theorem givesAtMost_of_short (hheld : L.Held n sw) (hprev : L.prev = p.side ours) {asset : AssetKey}
    (hb : (p.plan ours n asset L.value L.offered L.htlcs.length).balance = some b)
    (hle : b.short ≤ sw.giveMsat / 1000 + 1) : L.givesAtMost sw = true := by
  unfold LaneState.givesAtMost
  cases ht : L.prev with
  | none => rfl
  | some t =>
    obtain ⟨b', hbal, -, -, -, hshort⟩ := balance_of_held hheld hprev ht asset
    cases some.inj (hb.symm.trans hbal)
    rw [all_some, decide_eq_true_eq]
    omega

/-- The lane of a plan that leaves what the swap takes on top. -/
theorem takesAtLeast_of_check (hheld : L.Held n sw) (hprev : L.prev = p.side ours)
    {asset : AssetKey}
    (hb : (p.plan ours n asset L.value L.offered L.htlcs.length).balance = some b)
    (hle : satAdd (b.prevValue - b.removedAtoms) (sw.takeMsat / 1000) ≤ satAdd b.value 1) :
    L.takesAtLeast sw [] = true := by
  unfold LaneState.takesAtLeast
  cases ht : L.prev with
  | none =>
    rw [balance_of_none (hprev.symm.trans ht)] at hb
    cases hb
  | some t =>
    obtain ⟨b', hbal, hprevValue, hvalue, hremoved, -⟩ := balance_of_held hheld hprev ht asset
    cases some.inj (hb.symm.trans hbal)
    obtain ⟨-, -, hfits⟩ := hheld t ht
    rw [hprevValue, hvalue, hremoved, satAdd_of_lt (by omega)] at hle
    have hadd := hle.trans (satAdd_le_add L.value 1)
    rw [any_some, decide_eq_true_eq, map_nil, List.sum_nil]
    omega

/-- A state that a swap accounts for moves the lanes as the swap says, where its lanes are held to
their records and no received HTLC is settled in the lane that rises. -/
theorem swapLegs_of_account (h : s.accountOf k (.signSymLanesState key q) = some (sw, ours)) :
    sw.key = key ∧ ∃ lanes, s.laneStates k key q = some lanes ∧
      ∀ settled : ℕ → List StateHtlc, (∀ L ∈ lanes, L.Held q.base.commitNum sw) →
        (∀ t : ℕ, (q.base.asset :: q.lanes.map Prod.fst)[t]? = some sw.takeAsset → settled t = []) →
        SwapLegs (q.base.asset :: q.lanes.map Prod.fst) lanes sw settled := by
  obtain ⟨c, g, b, hc, rfl, hshort, hcovers⟩ := accountOf_eq_some h
  obtain ⟨lanes, hlanes, hassets, hplan, hlane⟩ := laneStates_of_check hc
  unfold swapCovers at hcovers
  simp only [Bool.and_eq_true, decide_eq_true_eq] at hcovers
  obtain ⟨⟨⟨⟨hkey, -⟩, hgive⟩, hle⟩, htake⟩ := hcovers
  refine ⟨hkey, lanes, hlanes, fun settled hall hsettled => ?_⟩
  have hheld : ∀ (l : ℕ) (L : LaneState), lanes[l]? = some L → L.Held q.base.commitNum sw :=
    fun l L hL => hall L (mem_of_getElem? hL)
  -- the lane that is short is the one of the asset given
  obtain ⟨plan, hplang, hbg, -⟩ := mem_shortLanes.1
    (show (g, b) ∈ shortLanes c.plans by rw [hshort]; exact mem_singleton_self _)
  obtain ⟨Lg, hLg⟩ := hlane g plan hplang
  have hfalls : ∀ (l : ℕ) (L : LaneState), lanes[l]? = some L → (L.falls = true ↔ l = g) := by
    intro l L hL
    obtain ⟨p, asset, planl, hplanl, hprev, rfl⟩ := hplan l L hL
    rw [falls_iff_short (hheld l L hL) hprev asset]
    constructor
    · rintro ⟨b', hb', hpos⟩
      have hmem := mem_shortLanes.2 ⟨_, hplanl, hb', hpos⟩
      rw [hshort] at hmem
      exact congrArg Prod.fst (mem_singleton.1 hmem)
    · rintro rfl
      obtain ⟨plan', hplan', hb', hpos⟩ := mem_shortLanes.1
        (show (l, b) ∈ shortLanes c.plans by rw [hshort]; exact mem_singleton_self _)
      cases some.inj (hplanl.symm.trans hplan')
      exact ⟨b, hb', hpos⟩
  have hgives : Lg.givesAtMost sw = true := by
    obtain ⟨p, asset, plan', hplan', hprev, rfl⟩ := hplan g Lg hLg
    cases some.inj (hplang.symm.trans hplan')
    exact givesAtMost_of_short (hheld g Lg hLg) hprev hbg hle
  split at htake
  · cases htake
  · next t hfind =>
    rw [Bool.and_eq_true] at htake
    have htake := htake.2
    split at htake
    · cases htake
    · next tb htb =>
      obtain ⟨plant, hplant, hbt⟩ := bind_eq_some_iff.1 htb
      obtain ⟨Lt, hLt⟩ := hlane t plant hplant
      obtain ⟨hlt, hasset, -⟩ := List.findIdx?_eq_some_iff_getElem.1 hfind
      have htakes : Lt.takesAtLeast sw [] = true := by
        obtain ⟨p, asset, plan', hplan', hprev, rfl⟩ := hplan t Lt hLt
        cases some.inj (hplant.symm.trans hplan')
        exact takesAtLeast_of_check (hheld t Lt hLt) hprev hbt (of_decide_eq_true htake)
      have hassett : c.laneAssets[t]? = some sw.takeAsset := by
        rw [List.getElem?_eq_getElem hlt, of_decide_eq_true hasset]
      rw [hassets] at hgive hassett
      rw [← hsettled t hassett] at htakes
      exact ⟨g, t, Lg, Lt, hgive, hassett, hLg, hLt, hfalls, hgives, htakes⟩

end lanes

/-- From a device without approvals: the states of a side that swaps of some terms account for are no
more than the approvals of these terms. A state that a swap accounts for, whose lanes are held to their
records, lets one lane fall, by what the swap gives; and it leaves what the swap takes on top in the
other, above the received HTLCs that it settles there, where there are none: where it lists every
received HTLC of the state that the lane's record is from. -/
theorem swaps_account_for_states (k : SymKernel) (s : Device) (hempty : s.swaps = [])
    (reqs : List Request) :
    (∀ X side, (s.accounts k reqs).countP (uses X side) ≤ (s.approvals k reqs).count X) ∧
    ∀ before key q after' sw ours, reqs = before ++ .signSymLanesState key q :: after' →
      s.store.get key = none →
      (s.run k before).accountOf k (.signSymLanesState key q) = some (sw, ours) →
      let assets := q.base.asset :: q.lanes.map Prod.fst
      let settled := fun t => settledIn (s.heldHtlcs k key ours t [] before) (laneHtlcs q t)
      sw.key = key ∧ ∃ lanes, (s.run k before).laneStates k key q = some lanes ∧
        ((∀ L ∈ lanes, L.Held q.base.commitNum sw) →
          (∀ t : ℕ, assets[t]? = some sw.takeAsset → settled t = []) →
          SwapLegs assets lanes sw settled) := by
  constructor
  · intro X side
    have hle := accounts_le_approvals (k := k) s reqs X side
    have hzero : s.openSwaps X side = 0 := by rw [openSwaps, hempty]; rfl
    omega
  · rintro before key q after' sw ours - - h
    obtain ⟨hkey, lanes, hlanes, hlegs⟩ := swapLegs_of_account h
    exact ⟨hkey, lanes, hlanes, hlegs _⟩

end Device

/-! ### A payment for a swap -/

namespace Example

/-- Our state `n` of a channel of two assets: what it pays us and the peer in each, and the HTLCs of
the second, of which the outputs are given. -/
def twoLanes (n : ℕ) (first second : ℕ × ℕ) (htlcs : List Htlc) (outs : List Out) :
    SymLanesRequest where
  base :=
    { fundingTxid := bytes 32 5
      fundingVout := 0
      weOpened := false
      remoteUpdateKey := bytes 33 35
      asset := laneKey 8
      delay := 6
      owner := 0
      commitNum := n
      num := 2 * n + 1
      outs := [⟨first.1, [17]⟩, ⟨first.2, [33]⟩, ⟨second.1, [17]⟩, ⟨second.2, [33]⟩] ++ outs
      assets := [none, none, some (laneKey 9), some (laneKey 9), some (laneKey 9)]
      sigRemote := none
      htlcs }
  fundingSats := 1000
  lanes := [(laneKey 9, 500)]
  htlcLanes := htlcs.map fun _ => 1

/-- An HTLC of a hundred atoms that the peer offers, and its output. -/
def incoming : Htlc := ⟨1, 100000, bytes 32 7, 500⟩

def incomingOut : Out := ⟨100, [34, 244] ++ (bytes 32 7).bytes⟩

/-- We have the first lane whole, and a hundred of the second, before a swap of a hundred for a hundred
is approved. -/
def beforeSwap (htlcs : List Htlc) (outs : List Out) (theirs : ℕ) : List Request :=
  [.setupChannel channel symSetup,
    .signSymLanesState channel (twoLanes 1 (1000, 0) (100, theirs) htlcs outs),
    .approveSymSwap channel (laneKey 8) 100000 (laneKey 9) 100000]

/-- The swap, once approved. -/
def hundred : SwapApproval := ⟨channel, laneKey 8, 100000, laneKey 9, 100000, false, false⟩

/-- The state with the swap. -/
def swapped (htlcs : List Htlc) (outs : List Out) (theirs : ℕ) : SymLanesRequest :=
  twoLanes 2 (900, 100) (200, theirs) htlcs outs

/-- The HTLC that the peer offers stays, and the swap pays both of its legs. -/
theorem swaps_account_for_states_swapped :
    let s := (device none).run kernel (beforeSwap [incoming] [incomingOut] 300)
    let q := swapped [incoming] [incomingOut] 200
    s.accountOf kernel (.signSymLanesState channel q) = some (hundred, true) ∧
      (device none).heldHtlcs kernel channel true 1 [] (beforeSwap [incoming] [incomingOut] 300) =
        stateHtlcs [incoming] ∧
      ∃ lanes, s.laneStates kernel channel q = some lanes ∧
        SwapLegs [laneKey 8, laneKey 9] lanes hundred fun t => settledIn ((device none).heldHtlcs
          kernel channel true t [] (beforeSwap [incoming] [incomingOut] 300))
          (Device.laneHtlcs q t) := by
  intro s q
  have haccount : s.accountOf kernel (.signSymLanesState channel q) = some (hundred, true) := by
    decide +kernel
  obtain ⟨-, hstates⟩ := Device.swaps_account_for_states kernel (device none) rfl
    (beforeSwap [incoming] [incomingOut] 300 ++ [.signSymLanesState channel q])
  obtain ⟨-, lanes, hlanes, hlegs⟩ := hstates _ _ _ _ _ _ rfl rfl haccount
  refine ⟨haccount, by decide +kernel, lanes, hlanes, hlegs ?_ ?_⟩
  · have hheld : (s.laneStates kernel channel q).all (fun lanes => ∀ L ∈ lanes, L.Held 2 hundred) =
        true := by decide +kernel
    rw [hlanes] at hheld
    exact of_decide_eq_true hheld
  · intro t ht
    have hlt : t < 2 := (List.getElem?_eq_some_iff.1 ht).1
    interval_cases t
    · exact absurd ht (by decide)
    · decide +kernel

/-- The HTLC that the peer offers is paid to us in the state that the swap accounts for: nothing of the
swap's other leg is left to us. -/
theorem payment_passes_for_swap :
    let s := (device none).run kernel (beforeSwap [incoming] [incomingOut] 300)
    let q := swapped [] [] 300
    s.accountOf kernel (.signSymLanesState channel q) = some (hundred, true) ∧
      settledIn ((device none).heldHtlcs kernel channel true 1 []
        (beforeSwap [incoming] [incomingOut] 300)) (Device.laneHtlcs q 1) = stateHtlcs [incoming] ∧
      (s.laneStates kernel channel q).any (fun lanes =>
        (∀ L ∈ lanes, L.Held 2 hundred) ∧ lanes.map LaneState.value = [900, 200] ∧
          (lanes[1]?).any fun L => !L.takesAtLeast hundred (stateHtlcs [incoming])) = true := by
  decide +kernel

end Example

end SeqLN.Signer
