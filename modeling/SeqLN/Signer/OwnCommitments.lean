import SeqLN.Signer.Accepted

/-!
# Our commitments and their secrets

A commitment of ours that was signed for broadcast must never be a revoked one. What guards this is two
numbers, the highest secret revealed and the lowest commitment signed, which move in two ways only
(`Touch.guard`). The number that is signed is the one the transaction carries, and the device does not
compare it with the one under which it validated the transaction.
-/

namespace SeqLN.Signer

open Lib

namespace Device

variable {k : SymKernel} {s s' : Device} {key : ChannelKey} {st st' : ChannelState} {req : Request}

/-- Which secret belongs to a commitment: the lower 48 bits count. Source: `per_commit_secret`,
`shachain_from_seed` -/
def secretIndex (n : ℕ) : ℤ := (2 ^ 48 - 1 - n) % 2 ^ 48

variable {n : ℕ}

lemma secretIndex_ne {m : ℕ} (hn : n < m) (hm : m < 2 ^ 48) : secretIndex n ≠ secretIndex m := by
  unfold secretIndex
  omega

/-! ### The two numbers -/

/-- The highest reveal and the lowest broadcast change when a commitment is signed for broadcast and
when a secret is revealed, and in no other way. -/
theorem Touch.guard (h : Touch k key req st st') :
    (st'.revokedThrough = st.revokedThrough ∧ st'.broadcastFrom = st.broadcastFrom) ∨
      (∃ own n, checkBroadcast k.toKernel st own = .ok (some n) ∧ st' = recordBroadcast n st) ∨
      (∃ n, checkRevoke st n = .ok () ∧ st' = recordRevoked n st) := by
  cases h with
  | @setup c hreq st =>
    left
    obtain ⟨v, credit, hmerge⟩ := ChannelState.mergeFrom_eq c.fresh st
    rw [hmerge]
    constructor
    · change maxOpt none st.revokedThrough = _
      cases st.revokedThrough <;> rfl
    · change minOpt none st.broadcastFrom = _
      cases st.broadcastFrom <;> rfl
  | remote n v st =>
    left
    obtain ⟨_, _, heq⟩ := recordRemote_eq n v st
    rw [heq]
    exact ⟨rfl, rfl⟩
  | @ours q hreq hkey v st =>
    left
    obtain ⟨_, _, _, _, heq⟩ := recordLocal_eq q.commitNum v q.bt.txid st
    rw [heq]
    exact ⟨rfl, rfl⟩
  | broadcast h => exact .inr (.inl ⟨_, _, h, rfl⟩)
  | revoked h => exact .inr (.inr ⟨_, h, rfl⟩)
  | pay => exact .inl ⟨rfl, rfl⟩
  | @sym c q hreq hc st =>
    left
    obtain ⟨_, _, _, _, heq, -⟩ := recordSymState_eq c st
    rw [heq]
    exact ⟨rfl, rfl⟩
  | @pinState _ _ pin st =>
    left
    obtain ⟨lanes, hlanes⟩ := pinLanes_eq pin st
    rw [hlanes]
    exact ⟨rfl, rfl⟩
  | lanePay => exact .inl ⟨rfl, rfl⟩
  | pinKickoff h => exact .inl ⟨rfl, rfl⟩
  | credit note st =>
    left
    obtain ⟨credit, hc⟩ := ChannelState.learnCredit_eq st note
    rw [hc]
    exact ⟨rfl, rfl⟩
  | clock => exact .inl ⟨rfl, rfl⟩

/-! ### What the checks give -/

lemma not_revoked_of_checkBroadcast {k : Kernel} {req : OwnCommitment}
    (h : checkBroadcast k st req = .ok (some n)) :
    n = (commitmentNumber k req.key st req.bt.tx).getD req.commitNum ∧
      ∀ r, st.revokedThrough = some r → r < n := by
  obtain ⟨_, hrev, h⟩ := bind_eq_ok.1 h
  obtain ⟨_, -, h⟩ := bind_eq_ok.1 h
  cases Except.ok.inj h
  refine ⟨rfl, ?_⟩
  intro r hr
  have hany := require_eq_ok.1 hrev
  rw [hr] at hany
  simpa using hany

/-- A secret that is revealed was revealed before, or lies below every commitment signed for
broadcast. -/
theorem below_broadcast_of_checkRevoke {b : ℕ} (h : checkRevoke st n = .ok ())
    (hb : st.broadcastFrom = some b) : (∃ r, st.revokedThrough = some r ∧ n ≤ r) ∨ n < b := by
  unfold checkRevoke at h
  split at h
  · next hany =>
    left
    obtain ⟨r, hr, hle⟩ := (Option.any_eq_true _ _).1 hany
    exact ⟨r, hr, of_decide_eq_true hle⟩
  · right
    obtain ⟨_, hsigned, -⟩ := bind_eq_ok.1 h
    have hany := require_eq_ok.1 hsigned
    rw [hb] at hany
    simpa using hany

/-- After a reveal the record counts it. -/
theorem revokedThrough_recordRevoked (n : ℕ) (st : ChannelState) :
    ∃ r, (recordRevoked n st).revokedThrough = some r ∧ n ≤ r := by
  unfold recordRevoked
  split
  · next hany =>
    obtain ⟨r, hr, hle⟩ := (Option.any_eq_true _ _).1 hany
    exact ⟨r, hr, of_decide_eq_true hle⟩
  · obtain ⟨v, hv⟩ := ChannelState.dropRevoked_eq { st with revokedThrough := some n }
    rw [hv]
    exact ⟨n, rfl, le_rfl⟩

lemma revokedThrough_recordRevoked_cases (n : ℕ) (st : ChannelState) :
    (recordRevoked n st).broadcastFrom = st.broadcastFrom ∧
      ((recordRevoked n st).revokedThrough = st.revokedThrough ∨
        (recordRevoked n st).revokedThrough = some n ∧ ∀ r, st.revokedThrough = some r → r < n) := by
  unfold recordRevoked
  split
  · exact ⟨rfl, .inl rfl⟩
  · next hnew =>
    obtain ⟨v, hv⟩ := ChannelState.dropRevoked_eq { st with revokedThrough := some n }
    rw [hv]
    refine ⟨rfl, .inr ⟨rfl, ?_⟩⟩
    intro r hr
    rw [hr] at hnew
    simpa using hnew

/-! ### Runs -/

variable {req : Request} {reqs : List Request}

/-- A channel's secrets are revealed up to a number at least. -/
def Revealed (key : ChannelKey) (n : ℕ) (s : Device) : Prop :=
  ∃ st r, s.store.get key = some st ∧ st.revokedThrough = some r ∧ n ≤ r

/-- A channel's commitment was signed for broadcast at number `n`: no secret from `n` on is
revealed, and none will be. -/
def Signed (key : ChannelKey) (n : ℕ) (s : Device) : Prop :=
  ∃ st b, s.store.get key = some st ∧ st.broadcastFrom = some b ∧ b ≤ n ∧
    ∀ r, st.revokedThrough = some r → r < n

/-- A reveal is never forgotten. -/
theorem Touch.revealed {r : ℕ} (h : Touch k key req st st') (hr : st.revokedThrough = some r)
    (hn : n ≤ r) : ∃ r', st'.revokedThrough = some r' ∧ n ≤ r' := by
  obtain ⟨hrev, -⟩ | ⟨req, m, -, rfl⟩ | ⟨m, -, rfl⟩ := h.guard
  · exact ⟨r, hrev.trans hr, hn⟩
  · exact ⟨r, hr, hn⟩
  · obtain ⟨-, hsame | ⟨hnew, hlt⟩⟩ := revokedThrough_recordRevoked_cases m st
    · exact ⟨r, hsame.trans hr, hn⟩
    · exact ⟨m, hnew, hn.trans (hlt r hr).le⟩

/-- The guard of a signed commitment holds through every change. -/
theorem Touch.signed {b : ℕ} (h : Touch k key req st st') (hb : st.broadcastFrom = some b)
    (hle : b ≤ n) (hrev : ∀ r, st.revokedThrough = some r → r < n) :
    ∃ b', st'.broadcastFrom = some b' ∧ b' ≤ n ∧ ∀ r, st'.revokedThrough = some r → r < n := by
  obtain ⟨hsame, hfrom⟩ | ⟨req, m, -, rfl⟩ | ⟨m, hcheck, rfl⟩ := h.guard
  · exact ⟨b, hfrom.trans hb, hle, hsame ▸ hrev⟩
  · refine ⟨min b m, ?_, (min_le_left b m).trans hle, hrev⟩
    change minOpt st.broadcastFrom (some m) = _
    rw [hb]
    rfl
  · obtain ⟨hfrom, hsame | ⟨hnew, -⟩⟩ := revokedThrough_recordRevoked_cases m st
    · exact ⟨b, hfrom.trans hb, hle, hsame ▸ hrev⟩
    · refine ⟨b, hfrom.trans hb, hle, ?_⟩
      intro r hr
      obtain rfl : m = r := Option.some.inj (hnew.symm.trans hr)
      rcases below_broadcast_of_checkRevoke hcheck hb with ⟨r, hr', hmr⟩ | hlt
      · exact hmr.trans_lt (hrev r hr')
      · exact hlt.trans_le hle

lemma Revealed.step (hs : Revealed key n s) (h : s.step k req = .ok s')
    (hreq : req ≠ .forgetChannel key) : Revealed key n s' := by
  obtain ⟨st, r, hst, hr, hn⟩ := hs
  obtain ⟨st', hst', htouch⟩ := step_record h hst hreq
  have hkeep : ∃ r', st'.revokedThrough = some r' ∧ n ≤ r' := by
    clear hst hst'
    induction htouch with
    | refl => exact ⟨r, hr, hn⟩
    | tail _ hlast ih =>
      obtain ⟨r', hr', hn'⟩ := ih
      exact hlast.revealed hr' hn'
  obtain ⟨r', hr', hn'⟩ := hkeep
  exact ⟨st', r', hst', hr', hn'⟩

lemma Signed.step (hs : Signed key n s) (h : s.step k req = .ok s')
    (hreq : req ≠ .forgetChannel key) : Signed key n s' := by
  obtain ⟨st, b, hst, hb, hle, hrev⟩ := hs
  obtain ⟨st', hst', htouch⟩ := step_record h hst hreq
  have hkeep : ∃ b', st'.broadcastFrom = some b' ∧ b' ≤ n ∧
      ∀ r, st'.revokedThrough = some r → r < n := by
    clear hst hst'
    induction htouch with
    | refl => exact ⟨b, hb, hle, hrev⟩
    | tail _ hlast ih =>
      obtain ⟨b', hb', hle', hrev'⟩ := ih
      exact hlast.signed hb' hle' hrev'
  obtain ⟨b', hb', hle', hrev'⟩ := hkeep
  exact ⟨st', b', hst', hb', hle', hrev'⟩

lemma Revealed.run (hs : Revealed key n s) (hreqs : .forgetChannel key ∉ reqs) :
    Revealed key n (s.run k reqs) := by
  refine run_keeps hs ?_
  intro req hreq s s' hs h
  exact hs.step h fun heq => hreqs (heq ▸ hreq)

/-! ### What a run reveals and validates -/

section
variable (k) (key)

/-- The number of the commitment whose secret a request makes the device reveal. -/
def reveals (s : Device) : Request → Option ℕ
  | .revokeCommitmentTx key' n =>
    if key' = key ∧ (s.revokeCommitmentTx key' n).isOk = true then some n else none
  | _ => none

/-- The secrets of a channel that a run reveals. -/
def revealed : Device → List Request → List ℕ
  | _, [] => []
  | s, req :: reqs => (s.reveals key req).toList ++ revealed (s.after k req) reqs

/-- The number and the txid of a commitment that a request makes the device validate. -/
def validates (s : Device) : Request → Option (ℕ × Hash)
  | .validateCommitmentTx req =>
    if req.key = key ∧ (s.validateCommitmentTx k.toKernel req).isOk = true then
      some (req.commitNum, req.bt.txid)
    else none
  | _ => none

/-- The commitments of a channel that a run validates. -/
def validatedIn : Device → List Request → List (ℕ × Hash)
  | _, [] => []
  | s, req :: reqs => (s.validates k key req).toList ++ validatedIn (s.after k req) reqs

end

/-- The number the device takes a commitment to have. -/
def broadcastNumber (k : Kernel) (s : Device) (req : OwnCommitment) : ℕ :=
  ((s.store.get req.key).bind fun st => commitmentNumber k req.key st req.bt.tx).getD req.commitNum

lemma revealed_append (s : Device) (reqs reqs' : List Request) :
    revealed k key s (reqs ++ reqs') = revealed k key s reqs ++ revealed k key (s.run k reqs) reqs' := by
  induction reqs generalizing s with
  | nil => rfl
  | cons req reqs ih => rw [List.cons_append, revealed, revealed, ih, List.append_assoc, run_cons]

/-- A secret is revealed by a revocation that passes its check. -/
lemma reveals_eq_some (h : s.reveals key req = some n) :
    req = .revokeCommitmentTx key n ∧ ∃ st, s.store.get key = some st ∧ checkRevoke st n = .ok () ∧
      s.after k req = { s with store := s.store.modify key (recordRevoked n) } := by
  unfold reveals at h
  split at h
  · next key' m =>
    split at h
    · next hok =>
      obtain ⟨rfl, hok⟩ := hok
      obtain rfl := Option.some.inj h
      refine ⟨rfl, ?_⟩
      cases hstep : s.revokeCommitmentTx key' m with
      | error why =>
        rw [hstep] at hok
        cases hok
      | ok s' =>
        obtain ⟨st, hst, hcheck, rfl⟩ := revokeCommitmentTx_ok hstep
        refine ⟨st, hst, hcheck, ?_⟩
        have : s.step k (.revokeCommitmentTx key' m) = .ok _ := hstep
        rw [after, this]
    · cases h
  · cases h

/-- What a run has revealed, the record counts at its end. -/
theorem revealed_counted (hn : n ∈ revealed k key s reqs) (hreqs : .forgetChannel key ∉ reqs) :
    Revealed key n (s.run k reqs) := by
  induction reqs generalizing s with
  | nil => exact absurd hn List.not_mem_nil
  | cons req reqs ih =>
    have hreqs' : .forgetChannel key ∉ reqs := fun hmem => hreqs (List.mem_cons_of_mem req hmem)
    rw [run_cons]
    rcases List.mem_append.1 hn with hn | hn
    · obtain ⟨-, st, hst, -, hafter⟩ := reveals_eq_some (k := k) (Option.mem_toList.1 hn)
      refine Revealed.run ?_ hreqs'
      obtain ⟨r, hr, hle⟩ := revokedThrough_recordRevoked n st
      rw [hafter]
      exact ⟨recordRevoked n st, r, by rw [ChannelStore.get_modify, hst]; rfl, hr, hle⟩
    · exact ih hn hreqs'

/-- After a commitment was signed, what is revealed lies below it. -/
theorem Signed.below {m : ℕ} (hs : Signed key n s) (hm : m ∈ revealed k key s reqs)
    (hreqs : .forgetChannel key ∉ reqs) : m < n := by
  induction reqs generalizing s with
  | nil => exact absurd hm List.not_mem_nil
  | cons req reqs ih =>
    have hreqs' : .forgetChannel key ∉ reqs := fun hmem => hreqs (List.mem_cons_of_mem req hmem)
    rcases List.mem_append.1 hm with hm | hm
    · obtain ⟨-, st, hst, hcheck, -⟩ := reveals_eq_some (k := k) (Option.mem_toList.1 hm)
      obtain ⟨st', b, hst', hb, hle, hrev⟩ := hs
      obtain rfl := Option.some.inj (hst.symm.trans hst')
      rcases below_broadcast_of_checkRevoke hcheck hb with ⟨r, hr, hmr⟩ | hlt
      · exact hmr.trans_lt (hrev r hr)
      · exact hlt.trans_le hle
    · refine ih (after_keeps hs ?_) hm hreqs'
      intro s' hok
      exact hs.step hok fun heq => hreqs (heq ▸ List.mem_cons_self)

/-- Signing a commitment sets the guard at its number. -/
theorem signed_of_signCommitmentTx {req : OwnCommitment} (h : s.signCommitmentTx k.toKernel req = .ok s')
    (hshape : isCommitmentShaped req.bt.tx = true) :
    (∀ n, Revealed req.key n s → n < broadcastNumber k.toKernel s req) ∧
      Signed req.key (broadcastNumber k.toKernel s req) s' := by
  rcases signCommitmentTx_ok h with ⟨st, n, hst, -, hcheck, rfl⟩ | ⟨hnot, -⟩
  · obtain ⟨hn, hrev⟩ := not_revoked_of_checkBroadcast hcheck
    have hnumber : broadcastNumber k.toKernel s req = n := by
      rw [broadcastNumber, hst]
      exact hn.symm
    rw [hnumber]
    constructor
    · rintro m ⟨st', r, hst', hr, hle⟩
      obtain rfl := Option.some.inj (hst.symm.trans hst')
      exact hle.trans_lt (hrev r hr)
    · have hmin : ∃ b, minOpt st.broadcastFrom (some n) = some b ∧ b ≤ n := by
        cases st.broadcastFrom with
        | none => exact ⟨n, rfl, le_rfl⟩
        | some b => exact ⟨min b n, rfl, min_le_right b n⟩
      obtain ⟨b, hb, hle⟩ := hmin
      exact ⟨recordBroadcast n st, b, by rw [ChannelStore.get_modify, hst]; rfl, hb, hle, hrev⟩
  · rw [hshape] at hnot
    cases hnot

/-- A commitment that was validated under number `m` and signed for broadcast has a secret that was
not revealed before and is not revealed afterwards, where the number it carries is at most `m`. -/
theorem signed_commitment_is_not_revealed (k : SymKernel) (s : Device) (req : OwnCommitment)
    (pre post : List Request) (m : ℕ)
    (hforget : .forgetChannel req.key ∉ pre ++ post) (hshape : isCommitmentShaped req.bt.tx = true)
    (_hvalidated : (m, req.bt.txid) ∈ validatedIn k req.key s pre)
    (hsigned : ((s.run k pre).signCommitmentTx k.toKernel req).isOk = true)
    (hnumber : broadcastNumber k.toKernel (s.run k pre) req ≤ m) (hm : m < 2 ^ 48) :
    ∀ n ∈ revealed k req.key s (pre ++ .signCommitmentTx req :: post), secretIndex n ≠ secretIndex m := by
  intro n hn
  cases h : (s.run k pre).signCommitmentTx k.toKernel req with
  | error why =>
    rw [h] at hsigned
    cases hsigned
  | ok s' =>
    obtain ⟨hbefore, hafter⟩ := signed_of_signCommitmentTx h hshape
    have hstep : (s.run k pre).after k (.signCommitmentTx req) = s' := by
      have : (s.run k pre).step k (.signCommitmentTx req) = .ok s' := h
      rw [after, this]
    refine secretIndex_ne (lt_of_lt_of_le ?_ hnumber) hm
    rw [revealed_append] at hn
    rcases List.mem_append.1 hn with hn | hn
    · refine hbefore n (revealed_counted hn ?_)
      exact fun hmem => hforget (List.mem_append_left post hmem)
    · rw [revealed, hstep] at hn
      refine hafter.below hn ?_
      exact fun hmem => hforget (List.mem_append_right pre hmem)

end Device

namespace Example

/-- Our commitment, which carries the number `carried`. -/
def ours (carried : ℕ) : BitcoinTx :=
  ⟨commitment carried 1000, bytes 32 carried.toUInt8, [some 1000], none⟩

/-- Asks to validate it under number `n`. -/
def validate (n carried : ℕ) : Request := .validateCommitmentTx ⟨channel, ours carried, [], n, []⟩

def broadcast (n carried : ℕ) : Device.OwnCommitment := ⟨channel, ours carried, bytes 33 36, n⟩

/-- Commitment 1 is signed after commitment 0 was revoked; its own secret is then refused. -/
theorem signed_commitment_is_not_revealed_first :
    (((device none).run kernel [.setupChannel channel (setup 1000), validate 0 0, validate 1 1,
      .revokeCommitmentTx channel 0]).signCommitmentTx kernel.toKernel (broadcast 1 1)).isOk = true ∧
    ∀ n ∈ Device.revealed kernel channel (device none)
        ([.setupChannel channel (setup 1000), validate 0 0, validate 1 1,
          .revokeCommitmentTx channel 0] ++
          .signCommitmentTx (broadcast 1 1) :: [validate 2 2, .revokeCommitmentTx channel 1]),
      Device.secretIndex n ≠ Device.secretIndex 1 := by
  refine ⟨by decide +kernel, ?_⟩
  exact Device.signed_commitment_is_not_revealed kernel (device none) (broadcast 1 1) _ _ 1
    (by simp [validate]) (by decide) (by decide +kernel) (by decide +kernel) (by decide +kernel)
    (by decide)

/-- Commitment 0 carries the number 100. Its secret is revealed after it was signed for
broadcast. -/
theorem signed_commitment_is_revealed :
    (0, (ours 100).txid) ∈ Device.validatedIn kernel channel (device none)
        [.setupChannel channel (setup 1000), validate 0 100] ∧
      isCommitmentShaped (ours 100).tx = true ∧
      (((device none).run kernel
        [.setupChannel channel (setup 1000), validate 0 100]).signCommitmentTx kernel.toKernel
          (broadcast 0 100)).isOk = true ∧
      0 ∈ Device.revealed kernel channel (device none)
        ([.setupChannel channel (setup 1000), validate 0 100] ++
          .signCommitmentTx (broadcast 0 100) :: [validate 1 1, .revokeCommitmentTx channel 0]) := by
  decide +kernel

end Example

end SeqLN.Signer
