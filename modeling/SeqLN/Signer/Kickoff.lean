import SeqLN.Lib.Runs
import SeqLN.Signer.Accepted

/-!
# Kickoffs and the lanes the device records

The kickoff of a lane moves its funding output to the channel's kickoff script. The signature covers
the input and output 0 alone, so what output 0 does not carry is free for whoever broadcasts.

The first lane is held to the funding amount of the setup, a further one to what the device recorded
for its asset when a state or a kickoff first named it; without a record it is held to nothing. Assets
are apart in every run (`run_assets_apart`), output indexes where no lane of the kickoff's own asset
stands before the one that has the output (`run_lanes_apart`).
-/

namespace SeqLN.Signer

open Lib List Option

/-- Two lanes of different assets, which are not known to be the same output of the funding. -/
def Lane.Apart (a b : Lane) : Prop := a.asset ≠ b.asset ∧ (a.outnum = b.outnum → a.outnum = none)

instance (a b : Lane) : Decidable (Lane.Apart a b) := inferInstanceAs (Decidable (_ ∧ _))

namespace Device

variable {k : SymKernel} {s s' : Device} {st st' : ChannelState} {req : Request}

/-! ### Recording a lane -/

variable {asset : Key}

/-- A lane of the asset, with the output it is now known to be. -/
def noteOutnum (asset : Key) (outnum : Option ℕ) (l : Lane) : Lane :=
  if l.asset = asset then { l with outnum := l.outnum.or outnum } else l

lemma asset_noteOutnum (asset : Key) (outnum : Option ℕ) (l : Lane) :
    (noteOutnum asset outnum l).asset = l.asset := by
  unfold noteOutnum
  split <;> rfl

lemma noteOutnum_of_ne {l : Lane} (outnum : Option ℕ) (h : l.asset ≠ asset) :
    noteOutnum asset outnum l = l := if_neg h

/-- Where assets are apart, changing the first lane of an asset changes every lane of it. -/
theorem modify_findIdx (outnum : Option ℕ) {lanes : List Lane} {i : ℕ}
    (h : lanes.Pairwise (·.asset ≠ ·.asset)) (hi : lanes.findIdx? (·.asset = asset) = some i) :
    (lanes.modify i fun l => { l with outnum := l.outnum.or outnum }) =
      lanes.map (noteOutnum asset outnum) := by
  induction lanes generalizing i with
  | nil => cases hi
  | cons l lanes ih =>
    obtain ⟨hl, hlanes⟩ := pairwise_cons.1 h
    rw [List.findIdx?_cons] at hi
    split at hi
    · next heq =>
      cases hi
      have hrest : lanes.map (noteOutnum asset outnum) = lanes := by
        have hsame : ∀ b ∈ lanes, noteOutnum asset outnum b = id b := by
          intro b hb
          exact noteOutnum_of_ne outnum fun hasset => hl b hb ((of_decide_eq_true heq).trans hasset.symm)
        rw [map_congr_left hsame, List.map_id]
      rw [map_cons, hrest, noteOutnum, if_pos (of_decide_eq_true heq)]
      rfl
    · next hne =>
      obtain ⟨j, hj, rfl⟩ := map_eq_some_iff.1 hi
      rw [map_cons, ← ih hlanes hj, noteOutnum_of_ne outnum (by simpa using hne)]
      rfl

/-- The lanes after one was recorded: one of them changed, or it is new. -/
theorem pinnedLanes_cases (asset : Key) (sats : ℕ) (outnum : Option ℕ) {lanes : List Lane}
    (h : lanes.Pairwise (·.asset ≠ ·.asset)) :
    pinnedLanes asset sats outnum lanes = lanes.map (noteOutnum asset outnum) ∨
      pinnedLanes asset sats outnum lanes = lanes ∨
      (∀ l ∈ lanes, l.asset ≠ asset) ∧
        pinnedLanes asset sats outnum lanes = lanes ++ [⟨asset, sats, outnum, PayTrack.new⟩] := by
  unfold pinnedLanes
  split
  · next i hi => exact .inl (modify_findIdx outnum h hi)
  · next hnone =>
    split
    · refine .inr (.inr ⟨?_, rfl⟩)
      intro l hl
      simpa using List.findIdx?_eq_none_iff.1 hnone l hl
    · exact .inr (.inl rfl)

lemma assets_pinnedLanes {sats : ℕ} (outnum : Option ℕ) {lanes : List Lane}
    (h : lanes.Pairwise (·.asset ≠ ·.asset)) :
    (pinnedLanes asset sats outnum lanes).Pairwise (·.asset ≠ ·.asset) := by
  obtain heq | heq | ⟨hnew, heq⟩ := pinnedLanes_cases asset sats outnum h <;> rw [heq]
  · refine pairwise_map.2 (h.imp ?_)
    intro a b hab
    rwa [asset_noteOutnum, asset_noteOutnum]
  · exact h
  · refine pairwise_append.2 ⟨h, pairwise_singleton _ _, ?_⟩
    intro a ha b hb
    cases mem_singleton.1 hb
    exact hnew a ha

/-- Lanes stay apart where the output that a lane is recorded with is no other lane's. -/
theorem apart_pinnedLanes {sats : ℕ} {outnum : Option ℕ} {lanes : List Lane}
    (h : lanes.Pairwise Lane.Apart)
    (hout : ∀ l ∈ lanes, l.outnum = outnum → l.asset = asset ∨ outnum = none) :
    (pinnedLanes asset sats outnum lanes).Pairwise Lane.Apart := by
  obtain heq | heq | ⟨hnew, heq⟩ :=
    pinnedLanes_cases asset sats outnum (h.imp And.left) <;> rw [heq]
  · refine pairwise_map.2 (h.imp_of_mem ?_)
    rintro a b ha hb ⟨hne, hind⟩
    refine ⟨by rwa [asset_noteOutnum, asset_noteOutnum], ?_⟩
    unfold noteOutnum
    split
    · next hasset =>
      rw [if_neg fun hb => hne (hasset.trans hb.symm)]
      dsimp only
      intro hor
      cases hn : a.outnum with
      | some n =>
        rw [hn] at hor hind
        exact hind hor
      | none =>
        rw [hn, none_or] at hor
        rw [none_or]
        exact (hout b hb hor.symm).resolve_left fun hb => hne (hasset.trans hb.symm)
    · next hasset =>
      split
      · dsimp only
        intro hor
        cases hn : b.outnum with
        | some n =>
          rw [hn] at hor hind
          exact hind hor
        | none =>
          rw [hn, none_or] at hor
          rw [hor]
          exact (hout a ha hor).resolve_left hasset
      · exact hind
  · exact h
  · refine pairwise_append.2 ⟨h, pairwise_singleton _ _, ?_⟩
    intro a ha b hb
    cases mem_singleton.1 hb
    refine ⟨hnew a ha, ?_⟩
    intro hind
    rw [hind]
    exact (hout a ha hind).resolve_left (hnew a ha)

/-! ### The lanes over a run -/

/-- What tells a lane from the others. -/
def laneTag (l : Lane) : Key × Option ℕ := (l.asset, l.outnum)

lemma tags_modify (f : Lane → Lane) (hf : ∀ l, laneTag (f l) = laneTag l) (lanes : List Lane) (i : ℕ) :
    (lanes.modify i f).map laneTag = lanes.map laneTag := by
  apply ext_getElem?
  intro j
  rw [List.getElem?_map, List.getElem?_map, List.getElem?_modify]
  cases lanes[j]? with
  | none => rfl
  | some l =>
    rw [Option.map_eq_map, map_some, map_some, map_some]
    split
    · rw [hf]
    · rfl

/-- The lanes are told apart as before a change, or it records lanes: those of a state, or that of a
kickoff. -/
theorem Touch.lanes (h : Touch k key req st st') :
    st'.lanes.map laneTag = st.lanes.map laneTag ∨ (∃ pin, st' = pinLanes pin st) ∨
      ∃ q inp o id v, req = .signSymKickoff q ∧ q.bt.tx.inputs = [inp] ∧
        q.bt.tx.outputs.head? = some o ∧ o.asset = some id ∧
        st' = pinLane (explicitKey id) v (some inp.index) st := by
  cases h with
  | @setup c hreq st =>
    left
    obtain ⟨v, credit, hmerge⟩ := ChannelState.mergeFrom_eq c.fresh st
    rw [hmerge]
    rfl
  | remote n v st =>
    left
    obtain ⟨_, _, heq⟩ := recordRemote_eq n v st
    rw [heq]
  | @ours q hreq hkey v st =>
    left
    obtain ⟨_, _, _, _, heq⟩ := recordLocal_eq q.commitNum v q.bt.txid st
    rw [heq]
  | broadcast h => exact .inl rfl
  | @revoked n st h =>
    left
    obtain ⟨_, _, heq⟩ := recordRevoked_eq n st
    rw [heq]
  | pay => exact .inl rfl
  | sym hreq hc st => exact .inl (congrArg _ (lanes_recordSymState _ st))
  | pinState h hlen hknown => exact .inr (.inl ⟨_, rfl⟩)
  | lanePay l ours n asset value offered listed st =>
    left
    apply tags_modify
    intro lane
    rfl
  | pinKickoff hreq hinp ho hid h => exact .inr (.inr ⟨_, _, _, _, _, hreq, hinp, ho, hid, rfl⟩)
  | credit note st =>
    left
    obtain ⟨credit, hc⟩ := ChannelState.learnCredit_eq st note
    rw [hc]
  | clock => exact .inl rfl

/-- What two lanes are apart by. -/
theorem pairwise_of_tags {R : Key × Option ℕ → Key × Option ℕ → Prop} {lanes lanes' : List Lane}
    (heq : lanes'.map laneTag = lanes.map laneTag)
    (h : lanes.Pairwise fun a b => R (laneTag a) (laneTag b)) :
    lanes'.Pairwise fun a b => R (laneTag a) (laneTag b) := by
  rw [← pairwise_map] at h ⊢
  rwa [heq]

/-- What recording a lane of a state keeps, recording them all keeps. -/
theorem pinLanes_keeps {P : List Lane → Prop} (hpin : ∀ asset sats lanes, P lanes →
    P (pinnedLanes asset sats none lanes)) (pin : List (Key × ℕ)) (hst : P st.lanes) :
    P (pinLanes pin st).lanes := by
  unfold pinLanes
  induction pin generalizing st with
  | nil => exact hst
  | cons p pin ih =>
    rw [foldl_cons]
    apply ih
    exact hpin p.1 p.2 st.lanes hst

/-- The assets of the lanes are apart in every run. -/
theorem run_assets_apart (hs : s.Records fun st => st.lanes.Pairwise (·.asset ≠ ·.asset))
    (reqs : List Request) :
    (s.run k reqs).Records fun st => st.lanes.Pairwise (·.asset ≠ ·.asset) := by
  refine run_keeps hs ?_
  intro req _ s s' hs h
  refine hs.step h (fun _ => List.Pairwise.nil) ?_
  intro _ st st' hst htouch
  obtain heq | ⟨pin, rfl⟩ | ⟨q, inp, o, id, v, -, -, -, -, rfl⟩ := htouch.lanes
  · exact pairwise_of_tags (R := (·.1 ≠ ·.1)) heq hst
  · exact pinLanes_keeps (fun _ _ _ => assets_pinnedLanes none) pin hst
  · exact assets_pinnedLanes _ hst

/-- No lane of another asset that has the output stands behind a lane of the asset. The check of a
kickoff takes the first lane of its asset or its output, and does not see one behind it. -/
def Seen (asset : Key) (outnum : ℕ) (lanes : List Lane) : Prop :=
  lanes.Pairwise fun a b => a.asset = asset → b.outnum = some outnum → b.asset = asset

instance (asset : Key) (outnum : ℕ) (lanes : List Lane) : Decidable (Seen asset outnum lanes) :=
  inferInstanceAs (Decidable (lanes.Pairwise _))

/-- A kickoff that is signed finds every lane that has its output seen. -/
def OutputSeen (k : SymKernel) (s : Device) : Request → Prop
  | .signSymKickoff q => (s.signSymKickoff k q).isOk = true →
    ∀ st ∈ s.store.get q.key, ∀ inp ∈ q.bt.tx.inputs, ∀ o ∈ q.bt.tx.outputs.head?,
      ∀ id ∈ o.asset, Seen (explicitKey id) inp.index st.lanes
  | _ => True

instance (k : SymKernel) (s : Device) : (req : Request) → Decidable (OutputSeen k s req)
  | .signSymKickoff _ => inferInstanceAs (Decidable (_ → _))
  | .setNow .. | .setupChannel .. | .forgetChannel .. | .signRemoteCommitmentTx ..
  | .validateCommitmentTx .. | .signCommitmentTx .. | .revokeCommitmentTx .. | .preapprove ..
  | .signSymState .. | .signSymLanesState .. | .approveSymSwap .. | .checkSymClockFunding ..
  | .signMutualCloseTx .. | .signMutualCloseLanes .. | .creditNote .. | .signWithdrawal .. =>
    isTrue trivial

/-- A kickoff that passes is not of another lane's output, where the lanes that have it are seen. -/
theorem asset_of_checkLaneKickoff {inp : TxIn} {v : ℕ} (hseen : Seen asset inp.index st.lanes)
    (h : checkLaneKickoff st inp asset v = .ok ()) :
    ∀ l ∈ st.lanes, l.outnum = some inp.index → l.asset = asset := by
  obtain ⟨_, -, h⟩ := bind_eq_ok.1 h
  intro l hl hout
  split at h
  · next first hfind =>
    -- none before the first match has the output, and of those behind it `Seen` speaks
    obtain ⟨-, before, behind, hlanes, hbefore⟩ := List.find?_eq_some_iff_append.1 hfind
    have hfirst : first.asset = asset := (require_eq_ok.1 h).1
    unfold Seen at hseen
    rw [hlanes] at hl hseen
    rcases mem_append.1 hl with hl | hl
    · simpa [hout] using hbefore l hl
    · rcases mem_cons.1 hl with rfl | hl
      · exact hfirst
      · exact (pairwise_cons.1 (pairwise_append.1 hseen).2.1).1 l hl hfirst hout
  · next hnone =>
    have := List.find?_eq_none.1 hnone l hl
    simp [hout] at this

/-- One request keeps the lanes apart. -/
theorem lanes_apart_step (hs : s.Records fun st => st.lanes.Pairwise Lane.Apart)
    (hseen : OutputSeen k s req) (h : s.step k req = .ok s') :
    s'.Records fun st => st.lanes.Pairwise Lane.Apart := by
  by_cases hkick : ∃ q, req = .signSymKickoff q
  · obtain ⟨q, rfl⟩ := hkick
    have hok : (s.signSymKickoff k q).isOk = true := by
      rw [show s.signSymKickoff k q = .ok s' from h]
      rfl
    obtain ⟨-, rfl⟩ | ⟨outnum, asset, sats, hcheck, rfl⟩ := signSymKickoff_ok h
    · exact hs
    · intro key st' hst'
      by_cases hkey : key = q.key
      · subst hkey
        obtain ⟨st, inp, o, id, hst, hinp, ho, hid, -, ⟨-, hlane⟩ | ⟨v, -, -, hcheck, -, hlane⟩ |
          ⟨-, -, hlane⟩⟩ := checkSymKickoff_ok hcheck
        · cases hlane
        · cases hlane
          dsimp only at hst'
          rw [ChannelStore.get_modify, hst] at hst'
          cases hst'
          refine apart_pinnedLanes (hs q.key st hst) ?_
          have hmem : inp ∈ q.bt.tx.inputs := hinp ▸ mem_singleton_self inp
          intro l hl hout
          exact .inl (asset_of_checkLaneKickoff (hseen hok st hst inp hmem o ho id hid) hcheck l hl hout)
        · cases hlane
      · dsimp only at hst'
        rw [ChannelStore.get_modify_of_ne hkey] at hst'
        exact hs key st' hst'
  · refine hs.step h (fun _ => List.Pairwise.nil) ?_
    intro _ st st' hst htouch
    obtain heq | ⟨pin, rfl⟩ | ⟨q, inp, o, id, v, hreq, -⟩ := htouch.lanes
    · exact pairwise_of_tags (R := fun a b => a.1 ≠ b.1 ∧ (a.2 = b.2 → a.2 = none)) heq hst
    · refine pinLanes_keeps ?_ pin hst
      intro asset sats lanes hlanes
      exact apart_pinnedLanes hlanes fun _ _ _ => .inr rfl
    · exact absurd ⟨q, hreq⟩ hkick

/-- Where each kickoff that is signed finds the lanes of its output seen, the lanes are apart in every
run. -/
theorem run_lanes_apart {reqs : List Request} (hs : s.Records fun st => st.lanes.Pairwise Lane.Apart)
    (hseen : Along (fun s req => some (s.after k req)) (OutputSeen k) s reqs) :
    (s.run k reqs).Records fun st => st.lanes.Pairwise Lane.Apart :=
  hseen.keeps_foldl hs fun _ _ hs hok => after_keeps hs fun _ h => lanes_apart_step hs hok h

/-! ### What a signed kickoff moves -/

/-- Output 0 pays the channel's kickoff script, in the asset and for the value. -/
def Moves (k : SymKernel) (st : ChannelState) (q : KickoffRequest) (asset : Key) (value : ℕ) : Prop :=
  ∃ o, q.bt.tx.outputs.head? = some o ∧ o.asset.map explicitKey = some asset ∧
    o.value = some value ∧ k.kickoffSpk q.key st asset = some o.script

/-- A lane that the device knows has the kickoff's value. -/
theorem sats_of_checkLaneKickoff {inp : TxIn} {v : ℕ} {l : Lane}
    (h : checkLaneKickoff st inp asset v = .ok ()) (hst : st.lanes.Pairwise (·.asset ≠ ·.asset))
    (hl : l ∈ st.lanes) (hasset : l.asset = asset) : l.sats = v := by
  obtain ⟨_, -, h⟩ := bind_eq_ok.1 h
  split at h
  · next l' hfind =>
    obtain ⟨hasset', hsats, -⟩ := require_eq_ok.1 h
    have hnodup : (st.lanes.map Lane.asset).Nodup := pairwise_map.2 hst
    rw [inj_on_of_nodup_map hnodup hl (List.mem_of_find?_eq_some hfind)
      (hasset.trans hasset'.symm), hsats]
  · next hnone =>
    have := List.find?_eq_none.1 hnone l hl
    simp [hasset] at this

/-- A signed kickoff moves what the lane has, where the first lane's funding amount is true and a
further lane is recorded with its true value. -/
theorem moves_of_signSymKickoff {q : KickoffRequest} {inp : TxIn} {value : ℕ}
    (h : s.signSymKickoff k q = .ok s') (hst : s.store.get q.key = some st)
    (hassets : st.lanes.Pairwise (·.asset ≠ ·.asset)) (hclock : st.optionSymClock = false)
    (hinp : q.bt.tx.inputs = [inp]) (hasset : q.bt.inputAsset = some asset.bytes)
    (hfirst : inp.index = st.fundingTxout → st.fundingSats = value)
    (hfurther : inp.index ≠ st.fundingTxout → ∃ l ∈ st.lanes, l.asset = asset ∧ l.sats = value) :
    Moves k st q asset value := by
  have hcheck : ∃ lane, s.checkSymKickoff k q = .ok lane := by
    obtain ⟨hcheck, -⟩ | ⟨outnum, asset, sats, hcheck, -⟩ := signSymKickoff_ok h
    · exact ⟨_, hcheck⟩
    · exact ⟨_, hcheck⟩
  obtain ⟨lane, hcheck⟩ := hcheck
  obtain ⟨st', inp', o, id, hst', hinp', ho, hid, hpsbt, hcases⟩ := checkSymKickoff_ok hcheck
  cases some.inj (hst.symm.trans hst')
  cases singleton_inj.1 (hinp.symm.trans hinp')
  have hkey : asset = explicitKey id := by
    have hall := hpsbt.resolve_left (by rw [hclock]; exact Bool.false_ne_true)
    rw [hasset] at hall
    have hbytes : asset.bytes = (explicitKey id).bytes := by simpa using hall
    exact Subtype.ext hbytes
  have hscript : ∀ {o : TxOut}, checkKickoffScript k st q (explicitKey id) o = .ok () →
      k.kickoffSpk q.key st asset = some o.script := by
    intro o hscript
    obtain ⟨ko, hko, hscript⟩ := bind_eq_ok.1 hscript
    rw [hkey, fromOption_eq_ok.1 hko, require_eq_ok.1 hscript]
  obtain ⟨hyes, -⟩ | ⟨v, hindex, hv, hlane, hko, -⟩ | ⟨hcheck, hko, -⟩ := hcases
  · rw [hclock] at hyes
    cases hyes
  · obtain ⟨l, hl, hlasset, rfl⟩ := hfurther hindex
    rw [← sats_of_checkLaneKickoff hlane hassets hl (hlasset.trans hkey)] at hv
    exact ⟨o, ho, by rw [hid, hkey]; rfl, hv, hscript hko⟩
  · obtain ⟨_, hfunding, hcheck⟩ := bind_eq_ok.1 hcheck
    obtain ⟨_, -, hcheck⟩ := bind_eq_ok.1 hcheck
    obtain ⟨-, hindex, -⟩ := require_eq_ok.1 hfunding
    have hv := require_eq_ok.1 hcheck
    rw [hfirst hindex] at hv
    exact ⟨o, ho, by rw [hid, hkey]; rfl, hv, hscript hko⟩

/-- From a device without channels: a kickoff that the device signs, whose PSBT states the asset and
the value of the output it spends, moves that value to the channel's kickoff script, where the device
has recorded the lane with it; and the recorded lanes are apart, where at no kickoff that is signed a
lane of another asset, which has the kickoff's output, stands behind a lane of the kickoff's asset. -/
theorem kickoff_moves_whole_value (k : SymKernel) (s : Device) (hnew : ∀ key, s.store.get key = none) :
    (∀ (reqs : List Request) (q : KickoffRequest) (st : ChannelState) (inp : TxIn) (asset : Key)
      (value : ℕ), (s.run k reqs).store.get q.key = some st → st.optionSymClock = false →
      q.bt.tx.inputs = [inp] → q.bt.inputAsset = some asset.bytes →
      q.bt.inputValue 0 = some value → ((s.run k reqs).signSymKickoff k q).isOk = true →
      (inp.index = st.fundingTxout → st.fundingSats = value) →
      (inp.index ≠ st.fundingTxout → ∃ l ∈ st.lanes, l.asset = asset ∧ l.sats = value) →
      Moves k st q asset value) ∧
    ∀ reqs, Along (fun s req => some (s.after k req)) (OutputSeen k) s reqs →
      ∀ key st, (s.run k reqs).store.get key = some st → st.lanes.Pairwise Lane.Apart := by
  have hnone : ∀ P, s.Records P := by
    intro P key st hst
    rw [hnew] at hst
    cases hst
  constructor
  · intro reqs q st inp asset value hst hclock hinp hasset _ hok hfirst hfurther
    cases h : (s.run k reqs).signSymKickoff k q with
    | error why =>
      rw [h] at hok
      cases hok
    | ok s' =>
      exact moves_of_signSymKickoff h hst (run_assets_apart (hnone _) reqs q.key st hst) hclock hinp
        hasset hfirst hfurther
  · intro reqs hseen
    exact run_lanes_apart (hnone _) hseen

end Device

namespace Example

/-- A symmetric channel of 1000 in asset 8 that the peer opened. -/
def symSetup : ChannelSetup := { setup 1000 with optionSym := true }

def laneKey (asset : UInt8) : Key := explicitKey (bytes 32 asset)

/-- The kickoff of output `index`, in an asset, of which the PSBT states the value; output 0 pays
`paid`. -/
def kickoff (index : ℕ) (asset : UInt8) (value paid : ℕ) : Device.KickoffRequest where
  key := channel
  bt :=
    { tx :=
        { network := .elements
          locktime := 0
          inputs := [⟨bytes 32 5, index, 0, false⟩]
          outputs := [⟨some (bytes 32 asset), some paid, [9]⟩] }
      txid := bytes 32 6
      inputValues := [some value]
      inputAsset := some (laneKey asset).bytes }
  remoteFunding := bytes 33 36

/-- Our state 1 of a channel with further lanes of 500 in each of two assets; each lane pays us. -/
def lanesState : SymLanesRequest where
  base :=
    { fundingTxid := bytes 32 5
      fundingVout := 0
      weOpened := false
      remoteUpdateKey := bytes 33 35
      asset := laneKey 8
      delay := 6
      owner := 0
      commitNum := 1
      num := 3
      outs := [⟨1000, [17]⟩, ⟨500, [17]⟩, ⟨500, [17]⟩]
      assets := [none, some (laneKey 9), some (laneKey 10)]
      sigRemote := none
      htlcs := [] }
  fundingSats := 1000
  lanes := [(laneKey 9, 500), (laneKey 10, 500)]
  htlcLanes := []

/-- A device that signed the state. -/
def withLanes : List Request :=
  [.setupChannel channel symSetup, .signSymLanesState channel lanesState]

/-- A lane that a state recorded is kicked off; a kickoff of its output in the other lane's asset is
refused; and then the other lane is kicked off. -/
theorem kickoff_moves_whole_value_lanes :
    (∃ st, ((device none).run kernel withLanes).store.get channel = some st ∧
      Device.Moves kernel st (kickoff 1 9 500 500) (laneKey 9) 500) ∧
    ∀ key st, ((device none).run kernel (withLanes ++ [.signSymKickoff (kickoff 1 9 500 500),
      .signSymKickoff (kickoff 1 10 500 500), .signSymKickoff (kickoff 2 10 500 500)])).store.get
        key = some st → st.lanes.Pairwise Lane.Apart := by
  obtain ⟨hmoves, hapart⟩ :=
    Device.kickoff_moves_whole_value kernel (device none) fun _ => ChannelStore.get_new
  constructor
  · have hfacts : (((device none).run kernel withLanes).store.get channel).any (fun st =>
        st.optionSymClock = false ∧ st.fundingTxout = 0 ∧
          ∃ l ∈ st.lanes, l.asset = laneKey 9 ∧ l.sats = 500) = true := by
      decide +kernel
    obtain ⟨st, hst, hfacts⟩ := (Option.any_eq_true _ _).1 hfacts
    obtain ⟨hclock, hout, hlane⟩ := of_decide_eq_true hfacts
    refine ⟨st, hst, ?_⟩
    refine hmoves withLanes (kickoff 1 9 500 500) st _ _ _ hst hclock rfl rfl rfl (by decide +kernel)
      ?_ fun _ => hlane
    intro hindex
    rw [hout] at hindex
    cases hindex
  · apply hapart
    decide +kernel

/-- A kickoff of an unknown lane, of an output of 500, is signed although it moves one atom; and two
lanes are recorded with one output, where the kickoff of the second names the first one's. -/
theorem kickoff_leaves_value :
    (((device none).run kernel [.setupChannel channel symSetup]).signSymKickoff kernel
        (kickoff 1 9 500 1)).isOk = true ∧
      (kickoff 1 9 500 1).bt.inputValue 0 = some 500 ∧
      ((kickoff 1 9 500 1).bt.tx.outputs.head?.bind TxOut.value) = some 1 ∧
      (((device none).run kernel (withLanes ++ [.signSymKickoff (kickoff 1 10 500 500),
        .signSymKickoff (kickoff 1 9 500 500)])).store.get channel).map
          (·.lanes.map Device.laneTag) = some [(laneKey 9, some 1), (laneKey 10, some 1)] := by
  decide +kernel

end Example

end SeqLN.Signer
