import SeqLN.Channeld.Settled

/-!
# Restarting `channeld`

`channel_force_htlcs` and what surrounds it in `init_channel`: a channel is built anew from our settled
balance of each lane, and the live HTLCs are put back one by one through `add_htlc` without the
aggregate limits. `restart_eq_running`: this gives the running channel again. One limit stays on: an
HTLC that is no longer counted, but comes after as many as are allowed, stops the restart
(`restart_fails_of_order`).
-/

namespace SeqLN.Channeld

open HtlcState List Option

/-! ### Putting the HTLCs back -/

/-- All but the mark that it is to be failed once committed. Source: `common/htlc_wire.h`, `struct
existing_htlc` -/
def Htlc.existing (h : Htlc) : Htlc := { h with failImmediate := false }

/-- The effect of an HTLC on a view, from its flags; `none` where it left unfulfilled and not
failed. Source: `adjust_balance` -/
def adjustBalance (view : Side) (h : Htlc) (owed : Owed) : Option Owed :=
  if h.has (HTLC_FLAG view HTLC_F_WAS_COMMITTED) then
    let owed := owed.onLane h.lane fun b s => balanceAddHtlc b h s
    if h.has (HTLC_FLAG view HTLC_F_COMMITTED) then some owed
    else if h.failed = false ∧ h.r = none then none
    else some (owed.onLane h.lane fun b s => balanceRemoveHtlc b h s)
  else some owed

/-- An HTLC put back into a channel. -/
def forceHtlc (cp : ChainParams) (c : Channel) (e : Htlc) : Option (Channel × Htlc) := do
  let (_, h) ← (addHtlc cp c e.state e.addArgs false false).toOption
  let h := { h with r := e.r, failed := e.failed }
  return ({ c with htlcs := h :: c.htlcs }, h)

/-- The loop of `channel_force_htlcs` over the HTLCs. -/
def forceLoop (cp : ChainParams) :
    List Htlc → Channel → (Side → Owed) → Option (Channel × (Side → Owed))
  | [], c, owed => some (c, owed)
  | e :: es, c, owed => do
    let (c, h) ← forceHtlc cp c e
    let ours ← adjustBalance .LOCAL h (owed .LOCAL)
    let theirs ← adjustBalance .REMOTE h (owed .REMOTE)
    forceLoop cp es c fun
      | .LOCAL => ours
      | .REMOTE => theirs

/-- A swap in flight moves the views that committed it. -/
def forceSwap (swap : Option SymSwap) (owed : Side → Owed) : Side → Owed := fun v =>
  match swap with
  | some s => if s.state.has (HTLC_FLAG v HTLC_F_COMMITTED) then balanceSwap (owed v) s else owed v
  | none => owed v

/-- Source: `channel_force_htlcs` -/
def channelForceHtlcs (cp : ChainParams) (c : Channel) (htlcs : List Htlc) : Option Channel := do
  guard (∀ v : Side, BalancesFit c v)
  let (c', owed) ← forceLoop cp htlcs c fun v l s => c.owed v l s
  let owed := forceSwap c.symSwap owed
  guard (∀ l < symNumLanes c.setup, ∀ v s : Side, 0 ≤ owed v l s)
  return { c' with owed := fun v l s =>
    if l < symNumLanes c.setup then (owed v l s).toNat else c.owed v l s }

/-- Built from our settled balances, the fee states, the swap and the one asked for, and the live
HTLCs in some order. These are the running object's: `lightningd` drops uncommitted updates. Source:
`channeld/channeld.c`, `init_channel` -/
def restart (cp : ChainParams) (c : Channel) (htlcs : List Htlc) : Option Channel := do
  let c' ← newFullChannel c.setup c.feeStates c.blockheightStates
    fun l => (settledMsat c .LOCAL l .LOCAL).toNat
  channelForceHtlcs cp { c' with symSwap := c.symSwap, symSwapReq := c.symSwapReq } htlcs

/-! ### The effect on the views -/

variable {h : Htlc}

/-- An HTLC that is being removed has been fulfilled or failed. -/
def Htlc.Marked (h : Htlc) : Prop := 5 ≤ h.state.phase → h.failed = true ∨ h.r.isSome = true

/-- What the flags of an HTLC say it has done to a view is what it has done. -/
theorem adjustBalance_eq (hm : h.Marked) (view : Side) (owed : Owed) :
    ∃ owed', adjustBalance view h owed = some owed' ∧ ∀ lane side x,
      owed lane side = wrapS64 x →
      owed' lane side = wrapS64 (x + cutMove (viewStage view) h lane side) := by
  have hwas : h.has (HTLC_FLAG view HTLC_F_WAS_COMMITTED) =
      h.state.addedAt (viewStage view h.owner) := wasCommitted_eq h.state view
  have hcom : h.has (HTLC_FLAG view HTLC_F_COMMITTED) =
      (h.state.addedAt (viewStage view h.owner) &&
        !h.state.removedAt (viewStage view h.owner.other)) := committed_eq h.state view
  have hadd : ∀ {o : Owed} {lane side x}, o lane side = wrapS64 x →
      o.onLane h.lane (fun b s => balanceAddHtlc b h s) lane side =
        wrapS64 (x + if lane = h.lane then addMove h side else 0) := fun hw =>
    onLane_eq_wrapS64 (f := fun b s => balanceAddHtlc b h s) h.lane hw
      (balanceAddHtlc_wrapS64 _ h _)
  have hrem : ∀ {o : Owed} {lane side x}, o lane side = wrapS64 x →
      o.onLane h.lane (fun b s => balanceRemoveHtlc b h s) lane side =
        wrapS64 (x + if lane = h.lane then removeMove h side else 0) := fun hw =>
    onLane_eq_wrapS64 (f := fun b s => balanceRemoveHtlc b h s) h.lane hw
      (balanceRemoveHtlc_wrapS64 _ h _)
  have himp : h.state.removedAt (viewStage view h.owner.other) = true →
      h.state.addedAt (viewStage view h.owner) = true :=
    HtlcState.addedAt_of_removedAt (le_trans (viewStage_le _ _) (by omega))
  unfold adjustBalance
  rw [hwas, hcom]
  cases ha : h.state.addedAt (viewStage view h.owner)
  · have hr : h.state.removedAt (viewStage view h.owner.other) = false := by
      rw [← Bool.not_eq_true]
      exact fun hr => by simp [himp hr] at ha
    refine ⟨owed, rfl, fun lane side x hw => ?_⟩
    simp [cutMove, ha, hr, hw]
  · cases hr : h.state.removedAt (viewStage view h.owner.other)
    · refine ⟨_, rfl, fun lane side x hw => ?_⟩
      rw [hadd hw]
      by_cases hl : lane = h.lane <;> simp [cutMove, ha, hr, hl, eq_comm]
    · have hmark : ¬ (h.failed = false ∧ h.r = none) := by
        have hphase : 5 ≤ h.state.phase := by
          simp only [HtlcState.removedAt, decide_eq_true_eq] at hr
          omega
        rintro ⟨hf, hnone⟩
        rcases hm hphase with hmark | hmark
        · simp [hf] at hmark
        · simp [hnone] at hmark
      simp only [Bool.true_and, Bool.not_true, if_true, hmark, if_false]
      refine ⟨_, rfl, fun lane side x hw => ?_⟩
      rw [hrem (hadd hw)]
      by_cases hl : lane = h.lane <;> simp [cutMove, ha, hr, hl, eq_comm, add_assoc]

/-! ### What every live HTLC has passed -/

variable {htlcs : List Htlc} {cp : ChainParams} {c : Channel} {past : Past} {init : ℕ → Side → ℤ}

/-- The checks of an HTLC that do not depend on the others, and that it fits its lane. -/
structure Htlc.Static (cp : ChainParams) (su : ChannelSetup) (h : Htlc) : Prop where
  lane_lt : h.lane < symNumLanes su
  expiry_lt : h.expiry < 500000000
  amount_ne : h.amount ≠ 0
  minimum_le : (su.config h.owner.other).htlcMinimum ≤ h.amount
  payment_le : ¬ (h.owner = .LOCAL ∧ cp.maxPayment < h.amount ∧ su.optionWumbo = false)
  amount_le : h.amount ≤ symLaneFunding su h.lane * 1000

/-- The live HTLCs have passed their checks, those being removed are fulfilled or failed, and ids
are used once. -/
structure Admitted (cp : ChainParams) (c : Channel) : Prop where
  static : ∀ h ∈ c.htlcs, h.Static cp c.setup
  marked : ∀ h ∈ c.htlcs, h.Marked
  distinct : c.htlcs.Pairwise fun g h => ¬ (g.id = h.id ∧ g.owner = h.owner)

lemma htlcGet_eq_none {id : ℕ} {owner : Side} :
    htlcGet htlcs id owner = none ↔ ∀ h ∈ htlcs, ¬ (h.id = id ∧ h.owner = owner) := by
  unfold htlcGet
  rw [List.find?_eq_none]
  simp only [Htlc.has, has_owner, Bool.and_eq_true, beq_iff_eq, decide_eq_true_eq]
  rfl

lemma phase_of_phase_advance (st : CommitStep) {s : HtlcState} (h : 5 ≤ (st.advance s).phase) :
    5 ≤ s.phase := by
  revert st s
  decide

/-- The checks of an HTLC depend on these of its fields. -/
theorem Htlc.Static.congr {su : ChannelSetup} {g : Htlc} (hg : g.Static cp su)
    (howner : h.owner = g.owner) (hlane : h.lane = g.lane) (hexpiry : h.expiry = g.expiry)
    (hamt : h.amount = g.amount) : h.Static cp su := by
  obtain ⟨h1, h2, h3, h4, h5, h6⟩ := hg
  rw [← howner, ← hamt] at h4 h5
  rw [← hamt] at h3 h6
  rw [← hlane] at h1 h6
  exact ⟨h1, hexpiry ▸ h2, h3, h4, h5, h6⟩

lemma Admitted.replace (had : Admitted cp c) {g : Htlc} (hg : g ∈ c.htlcs) (hid : h.id = g.id)
    (hnext : removeState g.state = some h.state) (hlane : h.lane = g.lane)
    (hexpiry : h.expiry = g.expiry) (hamt : h.amount = g.amount) (hmarked : h.Marked) :
    Admitted cp (c.replace g h) where
  static := by
    intro k hk
    rcases mem_cons.1 hk with rfl | hk
    · exact (had.static g hg).congr (removeState_spec hnext).2.2.1 hlane hexpiry hamt
    · exact had.static k (mem_of_mem_erase hk)
  marked := by
    intro k hk
    rcases mem_cons.1 hk with rfl | hk
    · exact hmarked
    · exact had.marked k (mem_of_mem_erase hk)
  distinct := by
    have hperm := (perm_cons_erase hg).pairwise_iff
      (R := fun g h => ¬ (g.id = h.id ∧ g.owner = h.owner)) (by
        intro a b hab hba
        exact hab ⟨hba.1.symm, hba.2.symm⟩)
    obtain ⟨hne, hrest⟩ := pairwise_cons.1 (hperm.1 had.distinct)
    refine pairwise_cons.2 ⟨?_, hrest⟩
    intro k hk
    have howner : h.owner = g.owner := (removeState_spec hnext).2.2.1
    rw [hid, howner]
    exact hne k hk

/-- A commitment step keeps the HTLCs admitted. -/
theorem Admitted.change {c' : Channel} {st : CommitStep} {flags : ℕ} (had : Admitted cp c)
    (hsort : Sorted past c) (h : changeHtlcs c st = some (c', flags)) : Admitted cp c' := by
  have hsetup := (changeHtlcs_spec h).2.2.1
  have hmem : ∀ k ∈ c'.htlcs, ∃ g ∈ c.htlcs, st.advanceHtlc g = k := by
    intro k hk
    rw [changeHtlcs_htlcs hsort h] at hk
    exact List.mem_map.1 (mem_of_mem_filter hk)
  refine ⟨?_, ?_, ?_⟩
  · intro k hk
    obtain ⟨g, hg, rfl⟩ := hmem k hk
    rw [hsetup]
    exact (had.static g hg).congr (st.owner_advanceHtlc g) rfl rfl rfl
  · intro k hk
    obtain ⟨g, hg, rfl⟩ := hmem k hk
    exact fun hphase => had.marked g hg (phase_of_phase_advance st hphase)
  · rw [changeHtlcs_htlcs hsort h]
    refine List.Pairwise.filter _ (pairwise_map.2 (had.distinct.imp ?_))
    intro g k hgk
    rw [st.owner_advanceHtlc, st.owner_advanceHtlc]
    exact hgk

/-- An HTLC that its sender has room for fits the lane. -/
theorem amount_le_of_room
    (hs : Solvent init past c) (hlane : h.lane < symNumLanes c.setup)
    (hroom : 0 ≤ init h.lane h.owner + htlcTotal (nextCut h.owner.other) past c h.lane h.owner +
      swapSafe (viewStage h.owner.other) past c h.lane h.owner - h.amount) :
    (h.amount : ℤ) ≤ init h.lane .LOCAL + init h.lane .REMOTE := by
  have hmono := swapSafe_mono past c h.lane h.owner (a := nextCut h.owner.other)
    (b := viewStage h.owner.other) fun o => Nat.sub_le _ _
  have hswap := fun p => swapSafe_le_swapTotal past c h.lane p (nextCut h.owner.other)
  have hnext := hs.next h.owner.other h.lane hlane h.owner.other
  have hsum := cutTotal_add_nonpos past c (nextCut_le h.owner.other) h.lane
  have h1 := hswap h.owner
  have h2 := hswap h.owner.other
  unfold cutTotal at hsum
  cases ho : h.owner <;> rw [ho] at hroom hmono hnext h1 h2 hsum <;>
    simp only [Side.other_LOCAL, Side.other_REMOTE] at * <;> linarith

lemma Admitted.add
    (had : Admitted cp c) (hs : Solvent init past c) {enforce : Bool}
    (hp : h.state.phase = 0) (hbasic : BasicChecks cp c h enforce)
    (hroom : 0 ≤ init h.lane h.owner + htlcTotal (nextCut h.owner.other) past c h.lane h.owner +
      swapSafe (viewStage h.owner.other) past c h.lane h.owner - h.amount)
    (hfund : init h.lane .LOCAL + init h.lane .REMOTE = symLaneFunding c.setup h.lane * 1000) :
    Admitted cp { c with htlcs := h :: c.htlcs } where
  static := by
    intro k hk
    rcases mem_cons.1 hk with rfl | hk
    · have hle := amount_le_of_room hs hbasic.lane_lt hroom
      rw [hfund] at hle
      exact ⟨hbasic.lane_lt, hbasic.expiry_lt, hbasic.amount_ne, hbasic.minimum_le,
        hbasic.payment_le, by exact_mod_cast hle⟩
    · exact had.static k hk
  marked := by
    intro k hk
    rcases mem_cons.1 hk with rfl | hk
    · intro hphase
      omega
    · exact had.marked k hk
  distinct := by
    refine pairwise_cons.2 ⟨?_, had.distinct⟩
    intro k hk hc
    exact htlcGet_eq_none.1 hbasic.fresh k hk ⟨hc.1.symm, hc.2.symm⟩

/-- Every accepted operation keeps the HTLCs admitted. -/
theorem Admitted.step {lk : Locks}
    {c' : Channel} {op : Op} (hl : Ledger init past c) (hs : Solvent init past c)
    (had : Admitted cp c)
    (hfund : ∀ l < symNumLanes c.setup,
      init l .LOCAL + init l .REMOTE = symLaneFunding c.setup l * 1000)
    (hT : ∀ l < symNumLanes c.setup, init l .LOCAL + init l .REMOTE < 2 ^ 64)
    (hfit : ChecksFit c op) (h : Effect cp lk c op c') : Admitted cp c' := by
  cases h with
  | add sender a imm fi basic room =>
    have hroom := room_of_hasRoom hl hs basic.lane_lt (hT _ basic.lane_lt) room hfit
    exact had.add (h := { newHtlc (addState sender) a with failImmediate := fi }) hs
      (phase_addState sender) ⟨basic.1, basic.2, basic.3, basic.4, basic.5, basic.6, basic.7, basic.8⟩
      hroom (hfund _ basic.lane_lt)
  | fulfill owner id preimage g state get unset opens next =>
    exact had.replace (mem_of_htlcGet get) rfl next rfl rfl rfl fun _ => Or.inr rfl
  | fail owner id g state get next =>
    exact had.replace (mem_of_htlcGet get) rfl next rfl rfl rfl fun _ => Or.inl rfl
  | commitStep st c' flags hc => exact had.change hl.toSorted hc
  | _ => exact ⟨had.static, had.marked, had.distinct⟩

/-! ### The sums of the channel's own lane -/

/-- The amounts of the HTLCs of a list. -/
def amounts (htlcs : List Htlc) : ℕ := (htlcs.map (·.amount)).sum

lemma amounts_le_of_sublist {l l' : List Htlc} (h : l.Sublist l') : amounts l ≤ amounts l' :=
  (h.map _).sum_le_sum fun _ _ => Nat.zero_le _

lemma foldlM_offered (side : Side) (htlcs : List Htlc) (total : ℕ)
    (h : total + amounts htlcs < 2 ^ 64) :
    htlcs.foldlM (fun total h => if h.owner = side then amountAdd total h.amount else some total)
      total = some (total + amounts (htlcs.filter (·.owner = side))) := by
  induction htlcs generalizing total with
  | nil => rfl
  | cons g htlcs ih =>
    have hcons : amounts (g :: htlcs) = g.amount + amounts htlcs := rfl
    rw [foldlM_cons, filter_cons]
    by_cases ho : g.owner = side
    · rw [if_pos ho, amountAdd_of_lt (by omega), if_pos (decide_eq_true ho)]
      change List.foldlM _ (total + g.amount) htlcs = _
      rw [ih _ (by omega)]
      exact congrArg some (by simp [amounts]; omega)
    · rw [if_neg ho, if_neg (by simpa using ho)]
      exact ih _ (by omega)

lemma sumOffered_eq (h : amounts htlcs < 2 ^ 64) (side : Side) :
    sumOfferedMsatoshis htlcs side = some (amounts (htlcs.filter (·.owner = side))) := by
  have := foldlM_offered side htlcs 0 (by omega)
  rwa [zero_add] at this

/-- The sum of the trimmed HTLCs does not overflow. -/
lemma commitTxAmountTrimmed_eq (cp : ChainParams) (su : ChannelSetup) (feerate dustLimit : ℕ)
    (side : Side) {amt : ℕ} (h : amt + amounts htlcs < 2 ^ 64) :
    commitTxAmountTrimmed cp su feerate dustLimit side htlcs amt =
      (amt + amounts (htlcs.filter fun h =>
        htlcIsTrimmed cp su h.owner h.amount feerate dustLimit side), true) := by
  induction htlcs generalizing amt with
  | nil => rfl
  | cons g htlcs ih =>
    have hcons : amounts (g :: htlcs) = g.amount + amounts htlcs := rfl
    rw [commitTxAmountTrimmed, filter_cons]
    split
    · rw [amountAdd_of_lt (by omega)]
      dsimp only
      rw [ih (by omega)]
      simp only [amounts, map_cons, List.sum_cons, add_assoc]
    · exact ih (by omega)

section ownLane

variable {c : Channel} {h : Htlc}

lemma removing_sublist (c : Channel) (h : Htlc) :
    (addPending c h).removing.Sublist (addPending c h).committed := by
  have : ∀ (l : List Htlc) (v : Side),
      (l.filter fun h => isCommitted v h && isPending v h).Sublist (l.filter (isCommitted v)) := by
    intro l v
    rw [filter_congr (q := fun h => isPending v h && isCommitted v h)
      (fun h _ => Bool.and_comm _ _), ← List.filter_filter]
    exact filter_sublist
  exact this _ _

variable (hsum : amounts (addPending c h).committed + amounts (addPending c h).adding < 2 ^ 64)

include hsum

lemma msatInHtlcs_isSome : (msatInHtlcs c h).isSome = true := by
  have hrem := amounts_le_of_sublist (removing_sublist c h)
  have hle := amounts_le_of_sublist ((removing_sublist c h).filter (·.owner = h.owner))
  have hc := amounts_le_of_sublist
    (filter_sublist (p := (·.owner = h.owner)) (l := (addPending c h).committed))
  have ha := amounts_le_of_sublist
    (filter_sublist (p := (·.owner = h.owner)) (l := (addPending c h).adding))
  unfold msatInHtlcs
  dsimp only
  rw [sumOffered_eq (by omega), sumOffered_eq (by omega), sumOffered_eq (by omega)]
  simp only [bind_eq_bind, bind_some]
  rw [amountAdd_of_lt (by omega), bind_some, amountSub_of_le (by omega)]
  rfl

lemma htlcDust_ok (cp : ChainParams) (su : ChannelSetup) (side : Side) (feerate : ℕ) :
    (htlcDust cp su (addPending c h) side feerate).2 = true := by
  have hrem := amounts_le_of_sublist (removing_sublist c h)
  have hle := amounts_le_of_sublist ((removing_sublist c h).filter fun h =>
    htlcIsTrimmed cp su h.owner h.amount feerate (su.config side).dustLimit side)
  have hc := amounts_le_of_sublist (filter_sublist (l := (addPending c h).committed)
    (p := fun h => htlcIsTrimmed cp su h.owner h.amount feerate (su.config side).dustLimit side))
  unfold htlcDust
  dsimp only
  rw [commitTxAmountTrimmed_eq cp su feerate (su.config side).dustLimit side (by omega)]
  simp only [Bool.not_true, Bool.false_eq_true, if_false]
  rw [commitTxAmountTrimmed_eq cp su feerate (su.config side).dustLimit side (by omega)]
  simp only [Bool.not_true, Bool.false_eq_true, if_false]
  rw [commitTxAmountTrimmed_eq cp su feerate (su.config side).dustLimit side (by omega)]
  simp only [Bool.not_true, Bool.false_eq_true, if_false]
  rw [amountSub_of_le (by omega)]

lemma dustExposed_ok (cp : ChainParams) (side : Side) (hfee : (channelFeerate c side).isSome) :
    ∃ b, dustExposed cp c h side = .ok b := by
  obtain ⟨feerate, hf⟩ := isSome_iff_exists.1 hfee
  have hok := htlcDust_ok hsum cp c.setup side (htlcTrimFeerateCeiling feerate)
  unfold dustExposed
  rw [hf]
  dsimp only
  rw [if_pos hok]
  exact ⟨_, rfl⟩

end ownLane

/-- An HTLC that is put back passes where its own checks, the number of HTLCs and the sums of lane 0
do. -/
theorem addHtlc_force {st : HtlcState} {a : AddArgs}
    (hbasic : BasicChecks cp c (newHtlc st a) false)
    (hfee : ∀ side, (channelFeerate c side).isSome)
    (hsum : a.lane = 0 → amounts (addPending c (newHtlc st a)).committed +
      amounts (addPending c (newHtlc st a)).adding < 2 ^ 64) :
    ∃ fi : Bool, addHtlc cp c st a false false =
      .ok ({ c with htlcs := { newHtlc st a with failImmediate := fi } :: c.htlcs },
        { newHtlc st a with failImmediate := fi }) := by
  have hlane : ∃ fi, addLaneChecks cp c (newHtlc st a) false false = .ok fi := by
    unfold addLaneChecks
    split
    · exact ⟨false, rfl⟩
    · next hz =>
      have hsum := hsum (not_not.1 hz)
      obtain ⟨total, htotal⟩ := isSome_iff_exists.1 (msatInHtlcs_isSome hsum)
      obtain ⟨b₁, h₁⟩ := dustExposed_ok hsum cp (newHtlc st a).owner.other (hfee _)
      obtain ⟨b₂, h₂⟩ := dustExposed_ok hsum cp (newHtlc st a).owner (hfee _)
      have hvalue : addValueChecks c (newHtlc st a) false = .ok () := by
        unfold addValueChecks
        rw [htotal]
        exact failIf_ok.2 (by simp)
      have hdust : addDustChecks cp c (newHtlc st a) false = .ok (b₁ || b₂) := by
        unfold addDustChecks
        rw [h₁, h₂]
        simp [failIf]
        rfl
      refine ⟨b₁ || b₂, ?_⟩
      rw [hvalue, hdust]
      rfl
  obtain ⟨fi, hfi⟩ := hlane
  refine ⟨fi, ?_⟩
  unfold addHtlc
  dsimp only
  rw [(addBasicChecks_ok (u := ())).2 hbasic, hfi]
  rfl

/-! ### The loop -/

/-- Each HTLC is handed over while fewer than the recipient accepts are counted of its owner's. -/
def countsFit (su : ChannelSetup) : (before htlcs : List Htlc) → Bool
  | _, [] => true
  | before, e :: es =>
    decide (before.countP (countsForOther e.owner.other) <
      (su.config e.owner.other).maxAcceptedHtlcs) && countsFit su (e :: before) es

/-- The amounts of the HTLCs of lane 0 that a view holds, and will hold besides. -/
def ownLaneMsat (v : Side) (htlcs : List Htlc) : ℕ :=
  amounts (gatherLaneHtlcs htlcs v (some 0)).committed +
    amounts (gatherLaneHtlcs htlcs v (some 0)).pendingAddition

lemma amounts_append (l l' : List Htlc) : amounts (l ++ l') = amounts l + amounts l' := by
  simp [amounts]

lemma amounts_filter_map_existing (p : Htlc → Bool) (hp : ∀ h, p h.existing = p h)
    (l : List Htlc) : amounts ((l.map Htlc.existing).filter p) = amounts (l.filter p) := by
  induction l with
  | nil => rfl
  | cons h l ih =>
    rw [map_cons, filter_cons, filter_cons, hp]
    split
    · exact congrArg (h.amount + ·) ih
    · exact ih

/-- What is handed back of the HTLCs is enough to know the sums. -/
theorem ownLaneMsat_map_existing (v : Side) (l : List Htlc) :
    ownLaneMsat v (l.map Htlc.existing) = ownLaneMsat v l := by
  unfold ownLaneMsat gatherLaneHtlcs gather
  simp only [List.filter_filter]
  rw [amounts_filter_map_existing _ fun _ => rfl, amounts_filter_map_existing _ fun _ => rfl]

lemma ownLaneMsat_le_of_perm {v : Side} {l l' r : List Htlc} (h : (l ++ r).Perm l') :
    ownLaneMsat v l ≤ ownLaneMsat v l' := by
  have key : ∀ p : Htlc → Bool, amounts (l.filter p) ≤ amounts (l'.filter p) := by
    intro p
    have := ((h.filter p).map (·.amount)).sum_eq
    rw [filter_append] at this
    exact le_trans (Nat.le_add_right _ _) (le_of_eq ((amounts_append _ _).symm.trans this))
  unfold ownLaneMsat gatherLaneHtlcs gather
  simp only [List.filter_filter]
  exact add_le_add (key _) (key _)

lemma countsFit_congr {su : ChannelSetup} {before before' es : List Htlc}
    (h : ∀ v, before.countP (countsForOther v) = before'.countP (countsForOther v)) :
    countsFit su before es = countsFit su before' es := by
  induction es generalizing before before' with
  | nil => rfl
  | cons e es ih =>
    have hcons : ∀ v, (e :: before).countP (countsForOther v) =
        (e :: before').countP (countsForOther v) := by
      intro v
      rw [countP_cons, countP_cons, h v]
    rw [countsFit, countsFit, h, ih hcons]

lemma basicChecks_of_static {e : Htlc}
    (hstatic : e.Static cp c.setup)
    (hfresh : ∀ h ∈ c.htlcs, ¬ (h.id = e.id ∧ h.owner = e.owner))
    (hcount : c.htlcs.countP (countsForOther e.owner.other) <
      (c.setup.config e.owner.other).maxAcceptedHtlcs) :
    BasicChecks cp c (newHtlc e.state e.addArgs) false where
  lane_lt := hstatic.lane_lt
  expiry_lt := hstatic.expiry_lt
  fresh := htlcGet_eq_none.2 hfresh
  amount_ne := hstatic.amount_ne
  minimum_le := hstatic.minimum_le
  payment_le := hstatic.payment_le
  count_lt := by
    have hall : c.htlcs.filter (fun h => (none : Option ℕ).all (· == h.lane)) = c.htlcs := by simp
    rw [gatherLaneHtlcs, hall]
    exact hcount
  count_local := by simp

/-- An HTLC that is put back is what was handed over, but for the mark. -/
theorem forceHtlc_ok {e : Htlc} {limit : ℕ}
    (hfee : ∀ side, (channelFeerate c side).isSome) (hstatic : e.Static cp c.setup)
    (hfresh : ∀ h ∈ c.htlcs, ¬ (h.id = e.id ∧ h.owner = e.owner))
    (hcount : c.htlcs.countP (countsForOther e.owner.other) <
      (c.setup.config e.owner.other).maxAcceptedHtlcs)
    (hsum : ∀ v, ownLaneMsat v c.htlcs + limit < 2 ^ 64) (hamt : e.lane = 0 → e.amount ≤ limit) :
    ∃ fi, forceHtlc cp c e = some ({ c with htlcs := { e with failImmediate := fi } :: c.htlcs },
      { e with failImmediate := fi }) := by
  have hlane : e.addArgs.lane = 0 → amounts (addPending c (newHtlc e.state e.addArgs)).committed +
      amounts (addPending c (newHtlc e.state e.addArgs)).adding < 2 ^ 64 := by
    intro hz
    have hz : e.lane = 0 := hz
    have hle := hamt hz
    have hs := hsum e.owner.other
    have hpend : addPending c (newHtlc e.state e.addArgs) =
        ⟨(gatherLaneHtlcs c.htlcs e.owner.other (some 0)).committed,
          (gatherLaneHtlcs c.htlcs e.owner.other (some 0)).pendingAddition ++
            [newHtlc e.state e.addArgs],
          (gatherLaneHtlcs c.htlcs e.owner.other (some 0)).pendingRemoval⟩ := by
      rw [← hz]
      rfl
    have hone : amounts [newHtlc e.state e.addArgs] = e.amount := by
      simp [amounts, newHtlc, Htlc.addArgs]
    rw [hpend]
    dsimp only
    rw [amounts_append, hone]
    unfold ownLaneMsat at hs
    omega
  obtain ⟨fi, hok⟩ := addHtlc_force (basicChecks_of_static hstatic hfresh hcount) hfee hlane
  refine ⟨fi, ?_⟩
  unfold forceHtlc
  rw [hok]
  rfl

/-- The HTLCs go back in, each with its effect on the two views. -/
theorem forceLoop_ok (es : List Htlc) (c : Channel) (owed : Side → Owed) {limit : ℕ}
    (hfee : ∀ side, (channelFeerate c side).isSome) (hstatic : ∀ e ∈ es, e.Static cp c.setup)
    (hmarked : ∀ e ∈ es, e.Marked)
    (hdistinct : es.Pairwise fun g h => ¬ (g.id = h.id ∧ g.owner = h.owner))
    (hfresh : ∀ e ∈ es, ∀ h ∈ c.htlcs, ¬ (h.id = e.id ∧ h.owner = e.owner))
    (hcount : countsFit c.setup c.htlcs es = true)
    (hsum : ∀ v, ownLaneMsat v (es ++ c.htlcs) + limit < 2 ^ 64)
    (hamt : ∀ e ∈ es, e.lane = 0 → e.amount ≤ limit) :
    ∃ htlcs owed', forceLoop cp es c owed = some ({ c with htlcs }, owed') ∧
      (htlcs.map Htlc.existing).Perm ((es ++ c.htlcs).map Htlc.existing) ∧
      ∀ v lane side x, owed v lane side = wrapS64 x →
        owed' v lane side = wrapS64 (x + (es.map (cutMove (viewStage v) · lane side)).sum) := by
  induction es generalizing c owed with
  | nil => exact ⟨c.htlcs, owed, rfl, List.Perm.refl _, fun v lane side x hw => by simpa using hw⟩
  | cons e es ih =>
    rw [countsFit, Bool.and_eq_true, decide_eq_true_eq] at hcount
    obtain ⟨hne, hdistinct⟩ := pairwise_cons.1 hdistinct
    have hrest : ∀ v, ownLaneMsat v c.htlcs + limit < 2 ^ 64 := fun v =>
      lt_of_le_of_lt (Nat.add_le_add_right
        (ownLaneMsat_le_of_perm (r := e :: es) perm_append_comm) _) (hsum v)
    obtain ⟨fi, hforce⟩ := forceHtlc_ok hfee (hstatic e mem_cons_self)
      (hfresh e mem_cons_self) hcount.1 hrest (hamt e mem_cons_self)
    have hm : ({ e with failImmediate := fi } : Htlc).Marked := hmarked e mem_cons_self
    obtain ⟨ours, hours, hoursEq⟩ := adjustBalance_eq hm .LOCAL (owed .LOCAL)
    obtain ⟨theirs, htheirs, htheirsEq⟩ := adjustBalance_eq hm .REMOTE (owed .REMOTE)
    have hperm : ((es ++ { e with failImmediate := fi } :: c.htlcs).map Htlc.existing).Perm
        ((e :: es ++ c.htlcs).map Htlc.existing) := by
      rw [map_append, map_cons, cons_append, map_cons, map_append]
      exact perm_middle
    have hfresh' : ∀ g ∈ es, ∀ h ∈ ({ e with failImmediate := fi } : Htlc) :: c.htlcs,
        ¬ (h.id = g.id ∧ h.owner = g.owner) := by
      intro g hg h hh
      rcases mem_cons.1 hh with rfl | hh
      · exact hne g hg
      · exact hfresh g (mem_cons_of_mem e hg) h hh
    have hcount' : countsFit c.setup ({ e with failImmediate := fi } :: c.htlcs) es = true := by
      rw [← hcount.2]
      exact countsFit_congr fun v => by rw [countP_cons, countP_cons]; rfl
    have hsum' : ∀ v, ownLaneMsat v (es ++ { e with failImmediate := fi } :: c.htlcs) + limit <
        2 ^ 64 := by
      intro v
      have hnil := (append_nil (List.map Htlc.existing
        (es ++ { e with failImmediate := fi } :: c.htlcs))).symm ▸ hperm
      have hle := ownLaneMsat_le_of_perm (v := v) hnil
      rw [ownLaneMsat_map_existing, ownLaneMsat_map_existing] at hle
      exact lt_of_le_of_lt (Nat.add_le_add_right hle _) (hsum v)
    obtain ⟨htlcs, owed', hloop, hmap, howed⟩ := ih
      { c with htlcs := { e with failImmediate := fi } :: c.htlcs }
      (fun | .LOCAL => ours | .REMOTE => theirs) hfee
      (fun g hg => hstatic g (mem_cons_of_mem e hg))
      (fun g hg => hmarked g (mem_cons_of_mem e hg)) hdistinct hfresh' hcount' hsum'
      (fun g hg => hamt g (mem_cons_of_mem e hg))
    refine ⟨htlcs, owed', ?_, hmap.trans hperm, ?_⟩
    · rw [forceLoop, hforce]
      simp only [bind_eq_bind, bind_some, hours, htheirs]
      exact hloop
    · intro v lane side x hw
      rw [map_cons, List.sum_cons, ← add_assoc]
      apply howed
      cases v
      · exact hoursEq lane side x hw
      · exact htheirsEq lane side x hw

/-! ### The running channel -/

variable {l : ℕ}

/-- What is pending addition to a lane of a view fits the lane. -/
theorem pendingAddition_le (hs : Solvent init past c) (v : Side) (hl : l < symNumLanes c.setup) :
    (amounts (gatherLaneHtlcs c.htlcs v (some l)).pendingAddition : ℤ) ≤
      init l .LOCAL + init l .REMOTE := by
  have hpend : ∀ h : Htlc, cutMove (nextCut v) h l .LOCAL + cutMove (nextCut v) h l .REMOTE +
      (if (!isCommitted v h && isPending v h && (l == h.lane)) = true then (h.amount : ℤ) else 0) ≤
        0 := by
    intro h
    have h3 : h.state.removedAt (nextCut v h.owner.other) = true →
        h.state.addedAt (viewStage v h.owner) = true :=
      HtlcState.addedAt_of_removedAt (le_trans (viewStage_le _ _) (by omega))
    have h4 := removedAt_nextCut (s := h.state) (v := v) (o := h.owner.other)
    have hamt : (0 : ℤ) ≤ h.amount := Int.natCast_nonneg _
    rw [cutMove_add _ (nextCut_le v), isCommitted_eq, isPending_eq]
    by_cases hl : h.lane = l
    · cases ha : h.state.addedAt (viewStage v h.owner) <;>
        cases ha' : h.state.addedAt (nextCut v h.owner) <;>
        cases hr : h.state.removedAt (viewStage v h.owner.other) <;>
        cases hr' : h.state.removedAt (nextCut v h.owner.other) <;> simp_all
    · simp [hl, Ne.symm hl]
  have hlive := sum_le_sum (l := c.htlcs) (g := fun _ => (0 : ℤ)) fun h _ => hpend h
  have hpast := sum_le_sum (l := past.htlcs) (g := fun _ => (0 : ℤ))
    (f := fun h => cutMove (nextCut v) h l .LOCAL + cutMove (nextCut v) h l .REMOTE) (by
      intro h _
      have := hpend h
      have hamt : (0 : ℤ) ≤ h.amount := Int.natCast_nonneg _
      split at this <;> linarith)
  have hsum : (amounts (gatherLaneHtlcs c.htlcs v (some l)).pendingAddition : ℤ) =
      (c.htlcs.map fun h => if (!isCommitted v h && isPending v h && (l == h.lane)) = true then
        (h.amount : ℤ) else 0).sum := by
    simp only [amounts, gatherLaneHtlcs, gather, List.filter_filter, Nat.cast_list_sum, List.map_map,
      sum_map_filter, all_some]
    rfl
  have hL := hs.next v l hl .LOCAL
  have hR := hs.next v l hl .REMOTE
  have hsL := swapSafe_le_swapTotal past c l .LOCAL (nextCut v)
  have hsR := swapSafe_le_swapTotal past c l .REMOTE (nextCut v)
  have hswap := swapTotal_sides past c (nextCut v) l
  simp only [map_const', sum_replicate, smul_zero, sum_map_add] at hlive hpast
  simp only [htlcTotal, map_append, List.sum_append] at hL hR
  rw [hsum]
  linarith

/-- Both sides have a feerate. -/
def FeeKnown (c : Channel) : Prop := ∀ side, (channelFeerate c side).isSome = true

/-- The feerates stay known. -/
lemma FeeKnown.step {lk : Locks} {c' : Channel} {op : Op} (hf : FeeKnown c)
    (h : Effect cp lk c op c') : FeeKnown c' := by
  cases h with
  | quiet op feeStates heights req hq fees asked =>
    rcases fees with rfl | ⟨feerate, -, rfl⟩
    · exact hf
    · intro side
      have := hf side
      rw [channelFeerate, getFeerate_eq] at this ⊢
      rw [valueFrom_startFeeUpdate _ _ _ (Nat.one_le_iff_ne_zero.2 (viewStage_ne_zero _ _))
        (viewStage_le _ _)]
      exact this
  | commitStep st c' flags hc =>
    obtain ⟨-, -, hsetup, -, -, -, hfees, -⟩ := changeHtlcs_spec hc
    intro side
    have := hf side
    rw [channelFeerate, getFeerate_eq] at this ⊢
    rw [hfees, hsetup, valueFrom_feeIncstates st _ _ (viewStage_le _ _)]
    exact valueFrom_isSome (st.pre_le _ _) this
  | _ => exact hf

section runs

variable {cp : ChainParams} {lk : Locks} {setup : ChannelSetup} {feeStates heights : StateTable}
  {localMsat : ℕ → ℕ} {c₀ c : Channel}
  (hnew : newFullChannel setup feeStates heights localMsat = some c₀)

include hnew

lemma newFullChannel_lanes : symLanesCheck c₀.setup.symLanes = true ∧
    c₀.setup.fundingSats = setup.fundingSats := by
  unfold newFullChannel at hnew
  split at hnew
  · next hok =>
    rw [← some.inj hnew]
    exact ⟨hok.1, rfl⟩
  · cases hnew

/-- No lane holds more than a signed word. -/
theorem laneFunding_lt (hfund : setup.fundingSats * 1000 < 2 ^ 62) (hl : l < symNumLanes c₀.setup) :
    symLaneFunding c₀.setup l * 1000 < 2 ^ 63 := by
  obtain ⟨hlanes, hown⟩ := newFullChannel_lanes hnew
  rcases l with _ | l
  · have hzero : symLaneFunding c₀.setup 0 = setup.fundingSats := hown
    rw [hzero]
    exact hfund.trans (by norm_num)
  · have hlt : l < c₀.setup.symLanes.length := by
      unfold symNumLanes at hl
      omega
    simp only [symLanesCheck, Bool.and_eq_true, List.all_eq_true, decide_eq_true_eq] at hlanes
    have hmem := (hlanes.2 _ (getElem_mem hlt)).2
    have hget : symLaneFunding c₀.setup (l + 1) = c₀.setup.symLanes[l] := by
      simp [symLaneFunding, List.getD, hlt]
    rw [hget]
    exact lt_of_le_of_lt (Nat.mul_le_mul_right 1000 hmem) (by norm_num)

/-- What a reachable channel holds passes the checks of a restart. -/
theorem Reachable.admitted (hreach : Reachable cp lk ChecksFit c₀ c)
    (hfee : ∀ side, (getFeerate feeStates setup.opener side).isSome = true) :
    Admitted cp c ∧ FeeKnown c := by
  obtain ⟨-, h⟩ : (∃ past, Sound c₀ past c) ∧ Admitted cp c ∧ FeeKnown c := by
    induction hreach with
    | start =>
      obtain ⟨hh, -⟩ := newFullChannel_spec hnew
      have hno : ∀ h ∈ c₀.htlcs, False := by
        rw [hh]
        exact fun h hm => by cases hm
      refine ⟨Reachable.sound hnew (Lib.Reaches.start : Reachable cp lk _ c₀ c₀), ⟨?_, ?_, ?_⟩, ?_⟩
      · exact fun h hm => (hno h hm).elim
      · exact fun h hm => (hno h hm).elim
      · rw [hh]
        exact List.Pairwise.nil
      · unfold newFullChannel at hnew
        split at hnew
        · rw [← some.inj hnew]
          exact hfee
        · cases hnew
    | step _ hfit happ ih =>
      obtain ⟨⟨past, hs⟩, had, hf⟩ := ih
      have heff := apply_effect happ
      refine ⟨⟨_, hs.step hnew hfit heff⟩, ?_, hf.step heff⟩
      apply had.step hs.ledger hs.solvent _ (fun _ hl => hs.start_lt hnew hl) hfit heff
      intro l hl
      rw [hs.setup]
      exact start_sides hnew (hs.setup ▸ hl)
  exact h

end runs

/-- Two channels with the same views, the same HTLCs but for the mark, and the same updates in
flight. -/
structure SameChannel (c c' : Channel) : Prop where
  setup : c'.setup = c.setup
  owed : ∀ v, ∀ l < symNumLanes c.setup, ∀ s, c'.owed v l s = c.owed v l s
  htlcs : (c'.htlcs.map Htlc.existing).Perm (c.htlcs.map Htlc.existing)
  committed : ∀ v lane, ((gatherLaneHtlcs c'.htlcs v (some lane)).committed.map Htlc.existing).Perm
    ((gatherLaneHtlcs c.htlcs v (some lane)).committed.map Htlc.existing)
  feerate : ∀ v, channelFeerate c' v = channelFeerate c v
  fees : c'.feeStates = c.feeStates
  swap : c'.symSwap = c.symSwap
  swapReq : c'.symSwapReq = c.symSwapReq

lemma committed_map_existing (htlcs : List Htlc) (v : Side) (lane : ℕ) :
    (gatherLaneHtlcs htlcs v (some lane)).committed.map Htlc.existing =
      (gatherLaneHtlcs (htlcs.map Htlc.existing) v (some lane)).committed := by
  simp only [gatherLaneHtlcs, gather, List.filter_map]
  rfl

/-- The swap moves the views it has reached. -/
theorem forceSwap_eq (hsort : Sorted past c) {owed : Side → Owed} {v : Side} {lane : ℕ}
    {side : Side} {x : ℤ} (hw : owed v lane side = wrapS64 x) :
    forceSwap c.symSwap owed v lane side =
      wrapS64 (x + (c.symSwap.toList.map (cutSwap (viewStage v) · lane side)).sum) := by
  rcases hs : c.symSwap with _ | s
  · simpa [forceSwap] using hw
  · have hcom := committed_eq_addedAt v (hsort.swap_phase s hs)
    simp only [forceSwap, hcom, toList_some, map_singleton, sum_singleton, cutSwap]
    split
    · exact balanceSwap_eq_wrapS64 hw s
    · rw [add_zero]
      exact hw

lemma channelForceHtlcs_of_loop {htlcs' : List Htlc}
    {owed' : Side → Owed} {owed : Side → ℕ → Side → ℕ} (hfit : ∀ v, BalancesFit c v)
    (hloop : forceLoop cp htlcs c (fun v l s => c.owed v l s) =
      some ({ c with htlcs := htlcs' }, owed'))
    (hbal : ∀ v, ∀ l < symNumLanes c.setup, ∀ s, forceSwap c.symSwap owed' v l s = owed v l s) :
    channelForceHtlcs cp c htlcs = some { c with
      htlcs := htlcs'
      owed := fun v l s => if l < symNumLanes c.setup then owed v l s else c.owed v l s } := by
  have hnonneg : ∀ l < symNumLanes c.setup, ∀ v s : Side, 0 ≤ forceSwap c.symSwap owed' v l s := by
    intro l hl v s
    rw [hbal v l hl s]
    exact Int.natCast_nonneg _
  have howed : (fun v l s => if l < symNumLanes c.setup then
        (forceSwap c.symSwap owed' v l s).toNat else c.owed v l s) =
      fun v l s => if l < symNumLanes c.setup then owed v l s else c.owed v l s := by
    funext v l s
    split
    · next hl => rw [hbal v l hl s, Int.toNat_natCast]
    · rfl
  unfold channelForceHtlcs
  rw [(guard_eq_some (u := ())).2 hfit]
  simp only [bind_eq_bind, bind_some, hloop]
  rw [(guard_eq_some (u := ())).2 hnonneg, bind_some, howed]
  rfl

section restart

variable {setup : ChannelSetup} {feeStates heights : StateTable} {localMsat : ℕ → ℕ}
  {c₀ c : Channel}
  (hnew : newFullChannel setup feeStates heights localMsat = some c₀) {past : Past}
  (hs : Sound c₀ past c) (hd : Settled c₀.start past c) (hidle : ∀ s ∈ c.symSwap, ¬ s.Done)

include hnew hs hd hidle

/-- The settled balances make a channel again. -/
theorem newFullChannel_settled :
    ∃ c₁, newFullChannel c.setup c.feeStates c.blockheightStates
        (fun l => (settledMsat c .LOCAL l .LOCAL).toNat) = some c₁ ∧ c₁.setup = c.setup ∧
      c₁.htlcs = [] ∧ c₁.feeStates = c.feeStates ∧
      ∀ v, ∀ l < symNumLanes c.setup, ∀ p, (c₁.owed v l p : ℤ) = settledMsat c v l p := by
  have hviews : ∀ v, ∀ l < symNumLanes c.setup, ∀ p,
      settledMsat c v l p = settledMsat c .LOCAL l p := by
    intro v l hl p
    rw [settledMsat_eq hnew hs hl, settledMsat_eq hnew hs hl]
  have hnonneg : ∀ l < symNumLanes c.setup, ∀ p, 0 ≤ settledMsat c .LOCAL l p :=
    fun l hl p => settledMsat_nonneg hnew hs hl hd hidle .LOCAL p
  have hsides : ∀ l < symNumLanes c.setup,
      settledMsat c .LOCAL l .LOCAL + settledMsat c .LOCAL l .REMOTE =
        symLaneFunding c.setup l * 1000 :=
    fun l hl => settledMsat_sides hnew hs hl .LOCAL
  have hlanes : symLanesCheck c.setup.symLanes = true := by
    rw [hs.setup]
    exact (newFullChannel_lanes hnew).1
  have hfits : ∀ l < symNumLanes c.setup, (amountSatSubMsat (symLaneFunding c.setup l)
      (settledMsat c .LOCAL l .LOCAL).toNat).isSome = true := by
    intro l hl
    have hlt : symLaneFunding c.setup l * 1000 < 2 ^ 64 := by
      have hl' := hl
      rw [hs.setup] at hl' ⊢
      exact ((newFullChannel_spec hnew).2.2.2.2.2 l hl').1
    have hL := hnonneg l hl .LOCAL
    have hR := hnonneg l hl .REMOTE
    have hsum := hsides l hl
    rw [amountSatSubMsat, if_pos hlt, amountSub_of_le (by omega)]
    rfl
  have hsetup : ({ c.setup with lowestSpliceAmnt := fun _ _ => 0 } : ChannelSetup) = c.setup := by
    have : c.setup.lowestSpliceAmnt = fun _ _ => 0 := by
      rw [hs.setup]
      funext v s
      exact (newFullChannel_spec hnew).2.2.2.1 v s
    rw [← this]
  refine ⟨_, if_pos ⟨hlanes, hfits⟩, hsetup, rfl, rfl, ?_⟩
  intro v l hl p
  rw [hviews v l hl]
  have hL := hnonneg l hl .LOCAL
  have hR := hnonneg l hl .REMOTE
  have hsum := hsides l hl
  cases p
  · exact Int.toNat_of_nonneg hL
  · change ((symLaneFunding c.setup l * 1000 - (settledMsat c .LOCAL l .LOCAL).toNat : ℕ) : ℤ) = _
    omega

end restart

section restart

variable {setup : ChannelSetup} {feeStates heights : StateTable} {localMsat : ℕ → ℕ}
  {c₀ c : Channel}
  (hnew : newFullChannel setup feeStates heights localMsat = some c₀)
  (hfund : setup.fundingSats * 1000 < 2 ^ 62) {past : Past} (hs : Sound c₀ past c)

include hnew hfund hs

/-- Below `2 ^ 62` the sums of lane 0 stay within a word, with one HTLC more. -/
theorem ownLaneMsat_lt (v : Side) :
    ownLaneMsat v c.htlcs + symLaneFunding c.setup 0 * 1000 < 2 ^ 64 := by
  have hl : 0 < symNumLanes c.setup := by
    unfold symNumLanes
    omega
  have hzero : symLaneFunding c.setup 0 = setup.fundingSats := by
    rw [hs.setup]
    exact (newFullChannel_lanes hnew).2
  have hT : c₀.start 0 .LOCAL + c₀.start 0 .REMOTE = setup.fundingSats * 1000 := by
    rw [start_sides hnew (hs.setup ▸ hl), ← hs.setup, hzero]
  have hcom := owed_add_committed_le hs.ledger hs.solvent hl (hs.start_lt hnew hl) v .LOCAL
  have hadd := pendingAddition_le hs.solvent v hl
  have hcm : amounts (gatherLaneHtlcs c.htlcs v (some 0)).committed = committedMsat c v 0 := rfl
  rw [hzero]
  unfold ownLaneMsat
  omega

lemma Sound.owed_lt (v : Side) (hl : l < symNumLanes c.setup) (p : Side) :
    c.owed v l p < 2 ^ 63 := by
  have hle := owed_add_committed_le hs.ledger hs.solvent hl (hs.start_lt hnew hl) v p
  have hl' : l < symNumLanes c₀.setup := hs.setup ▸ hl
  have hT := start_sides hnew hl'
  have hlt := laneFunding_lt hnew hfund hl'
  omega

lemma settledMsat_lt (hd : Settled c₀.start past c) (hidle : ∀ s ∈ c.symSwap, ¬ s.Done) (v : Side)
    (hl : l < symNumLanes c.setup) (p : Side) : settledMsat c v l p < 2 ^ 63 := by
  have hl' : l < symNumLanes c₀.setup := hs.setup ▸ hl
  have hlt := laneFunding_lt hnew hfund hl'
  have hsum := settledMsat_sides hnew hs hl v
  have hL := settledMsat_nonneg hnew hs hl hd hidle v .LOCAL
  have hR := settledMsat_nonneg hnew hs hl hd hidle v .REMOTE
  rw [← hs.setup] at hlt
  cases p <;> omega

end restart

/-- Where no check wrapped around, restarting with the live HTLCs in an order in which each is
handed over while it may still be counted gives the running channel again. -/
theorem restart_eq_running {cp : ChainParams} {lk : Locks} {setup : ChannelSetup}
    {feeStates heights : StateTable} {localMsat : ℕ → ℕ} {c₀ c : Channel}
    (hnew : newFullChannel setup feeStates heights localMsat = some c₀)
    (hfee : ∀ side, (getFeerate feeStates setup.opener side).isSome = true)
    (hfund : setup.fundingSats * 1000 < 2 ^ 62) (hreach : Reachable cp lk ChecksFit c₀ c)
    (hidle : ∀ s ∈ c.symSwap, ¬ s.Done) {htlcs : List Htlc}
    (horder : htlcs.Perm (c.htlcs.map Htlc.existing))
    (hcount : countsFit c.setup [] htlcs = true) :
    ∃ c', restart cp c htlcs = some c' ∧ SameChannel c c' := by
  obtain ⟨past, hs, hd⟩ := hreach.settled hnew
  obtain ⟨had, hknown⟩ := hreach.admitted hnew hfee
  obtain ⟨⟨su, hs₁, owed₁, fees₁, heights₁, swap₁, req₁⟩, hc₁, rfl, rfl, rfl, howed₁⟩ :=
    newFullChannel_settled hnew hs hd hidle
  have hmem : ∀ e ∈ htlcs, ∃ h ∈ c.htlcs, h.existing = e := fun e he =>
    List.mem_map.1 (horder.mem_iff.1 he)
  have hdistinct : htlcs.Pairwise fun g h => ¬ (g.id = h.id ∧ g.owner = h.owner) := by
    refine (horder.pairwise_iff fun hab hba => hab ⟨hba.1.symm, hba.2.symm⟩).2 ?_
    exact pairwise_map.2 had.distinct
  have hsum : ∀ v, ownLaneMsat v (htlcs ++ []) + symLaneFunding c.setup 0 * 1000 < 2 ^ 64 := by
    intro v
    have hle := ownLaneMsat_le_of_perm (v := v) (r := []) ((append_nil htlcs).symm ▸ horder)
    rw [ownLaneMsat_map_existing] at hle
    rw [append_nil]
    exact lt_of_le_of_lt (Nat.add_le_add_right hle _) (ownLaneMsat_lt hnew hfund hs v)
  obtain ⟨htlcs', owed', hloop, hperm, howed⟩ := forceLoop_ok htlcs
    ⟨c.setup, [], owed₁, c.feeStates, heights₁, c.symSwap, c.symSwapReq⟩
    (fun v l s => owed₁ v l s) hknown
    (fun e he => by
      obtain ⟨h, hh, rfl⟩ := hmem e he
      exact (had.static h hh).congr rfl rfl rfl rfl)
    (fun e he => by
      obtain ⟨h, hh, rfl⟩ := hmem e he
      exact had.marked h hh)
    hdistinct (fun e _ h hh => by cases hh) hcount hsum
    (fun e he hz => by
      obtain ⟨h, hh, rfl⟩ := hmem e he
      have hz : h.lane = 0 := hz
      exact hz ▸ (had.static h hh).amount_le)
  -- the balances: what is settled, and what each live HTLC and the swap have done
  have hbalance : ∀ v, ∀ l < symNumLanes c.setup, ∀ p,
      forceSwap c.symSwap owed' v l p = c.owed v l p := by
    intro v l hl p
    have hstart : ((owed₁ v l p : ℕ) : ℤ) = wrapS64 (settledMsat c v l p) := by
      rw [howed₁ v l hl, wrapS64_of_isS64]
      exact ⟨le_trans (by norm_num) (settledMsat_nonneg hnew hs hl hd hidle v p),
        settledMsat_lt hnew hfund hs hd hidle v hl p⟩
    have hmoves : (htlcs.map (cutMove (viewStage v) · l p)).sum =
        (c.htlcs.map (cutMove (viewStage v) · l p)).sum := by
      rw [(horder.map _).sum_eq, List.map_map]
      rfl
    have hlive : settledMsat c v l p + ((c.htlcs.map (cutMove (viewStage v) · l p)).sum +
        (c.symSwap.toList.map (cutSwap (viewStage v) · l p)).sum) = c.owed v l p :=
      sub_add_cancel _ _
    rw [forceSwap_eq hs.ledger.toSorted (howed v l p _ hstart), hmoves, add_assoc, hlive,
      wrapS64_of_isS64]
    exact ⟨le_trans (by norm_num) (Int.natCast_nonneg _),
      by exact_mod_cast hs.owed_lt hnew hfund v hl p⟩
  have hfit : ∀ v, BalancesFit ⟨c.setup, [], owed₁, c.feeStates, heights₁, c.symSwap, c.symSwapReq⟩
      v := by
    intro v l hl p
    have := settledMsat_lt hnew hfund hs hd hidle v hl p
    rw [← howed₁ v l hl p] at this
    exact_mod_cast this
  have hforce := channelForceHtlcs_of_loop hfit hloop hbalance
  have hback : (htlcs'.map Htlc.existing).Perm (c.htlcs.map Htlc.existing) := by
    have h := horder.map Htlc.existing
    rw [List.map_map] at h
    rw [append_nil] at hperm
    exact hperm.trans h
  refine ⟨_, bind_eq_some_iff.2 ⟨_, hc₁, hforce⟩,
    ⟨rfl, ?_, hback, ?_, fun _ => rfl, rfl, rfl, rfl⟩⟩
  · intro v l hl s
    exact if_pos hl
  · intro v lane
    rw [committed_map_existing, committed_map_existing]
    exact (hback.filter _).filter _

/-! ### A restart -/

namespace Example

/-- A channel whose sides accept one HTLC. -/
def narrowSetup : ChannelSetup :=
  { setup 1000000 with config := fun _ => { config with maxAcceptedHtlcs := 1 } }

def narrowChannel : Option Channel :=
  newFullChannel narrowSetup (newFeeStates .LOCAL 1000) (newFeeStates .LOCAL 0)
    fun l => symLaneFunding narrowSetup l * 500

def narrow : Channel := narrowChannel.get (by decide +kernel)

lemma narrowChannel_eq : narrowChannel = some narrow := (some_get _).symm

/-- Our HTLC is failed, and when the peer's removal is through on our side we commit another. -/
def failAndRetry : List Op :=
  [add .LOCAL 0 5000 1, .commitStep .sendingCommit, .commitStep .rcvdRevokeAndAck,
    .commitStep .rcvdCommit, .commitStep .sendingRevokeAndAck,
    .failHtlc .LOCAL 0, .commitStep .rcvdCommit, .commitStep .sendingRevokeAndAck,
    add .LOCAL 1 7000 1, .commitStep .sendingCommit]

/-- Handed over oldest first, the HTLCs go back in. -/
theorem restart_failAndRetry : ∃ c c' : Channel,
    narrow.runWhile params locks ChecksFit failAndRetry = some c ∧
      restart params c (c.htlcs.map Htlc.existing).reverse = some c' ∧ SameChannel c c' := by
  have hrun : ((narrow.runWhile params locks ChecksFit failAndRetry).any fun c =>
      c.symSwap.isNone && countsFit c.setup [] (c.htlcs.map Htlc.existing).reverse) = true := by
    decide +kernel
  obtain ⟨c, hc, hend⟩ := (Option.any_eq_true _ _).1 hrun
  rw [Bool.and_eq_true, isNone_iff_eq_none] at hend
  have hfee : ∀ side, (getFeerate (newFeeStates .LOCAL 1000) narrowSetup.opener side).isSome = true := by
    decide
  have hidle : ∀ s ∈ c.symSwap, ¬ s.Done := by
    rw [hend.1]
    exact fun s hs => by cases hs
  obtain ⟨c', hrestart, hsame⟩ := restart_eq_running narrowChannel_eq hfee (by decide)
    (Lib.Reaches.start.runWhile hc) hidle (reverse_perm _) hend.2
  exact ⟨c, c', hc, hrestart, hsame⟩

/-- Newest first, they do not: the failed HTLC is no longer counted, but is one more than is
accepted. -/
theorem restart_fails_of_order : ∃ c : Channel,
    narrowChannel = some narrow ∧ Reachable params locks ChecksFit narrow c ∧ c.symSwap = none ∧
      c.htlcs.length = 2 ∧ restart params c (c.htlcs.map Htlc.existing) = none := by
  have hrun : ((narrow.runWhile params locks ChecksFit failAndRetry).any fun c =>
      c.symSwap.isNone && c.htlcs.length == 2 &&
        (restart params c (c.htlcs.map Htlc.existing)).isNone) = true := by
    decide +kernel
  obtain ⟨c, hc, hend⟩ := (Option.any_eq_true _ _).1 hrun
  simp only [Bool.and_eq_true, beq_iff_eq, isNone_iff_eq_none] at hend
  exact ⟨c, narrowChannel_eq, Lib.Reaches.start.runWhile hc, hend.1.1, hend.1.2, hend.2⟩

end Example

end SeqLN.Channeld
