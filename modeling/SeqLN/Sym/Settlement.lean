import SeqLN.Lib.ByteOrder
import SeqLN.Sym.Scripts

/-!
# Building a settlement

`common/sym_scripts.c`, `sym_settlement` and `common/sym_lanes.c`, `sym_lanes_settlement`: from the
balances and HTLCs of a state, one side's list of outputs. `symSettlement_of_fits` gives the closed
form: what a side keeps (`kept`) and the atoms of the untrimmed HTLCs (`htlcAtoms`) are sums over the
HTLCs, in any order. `SpkBuilder` stands for the code that builds the scriptPubKeys from keys.
-/

namespace SeqLN.Sym

open List Option Function

/-- A public key, compressed. -/
abbrev Pubkey := ByteString 33

/-- The scriptPubKeys a settlement pays to. -/
structure SpkBuilder where
  /-- An HTLC's output, from the offerer's and the receiver's key, the payment hash and the expiry.
  Source: `sym_htlc_tree`, `tap_tree2_scriptpubkey` -/
  htlc : Pubkey → Pubkey → ByteString 20 → ℕ → Bytes
  /-- A balance's output. Source: `scriptpubkey_p2wpkh` -/
  p2wpkh : Pubkey → Bytes

/-- An HTLC a settlement carries; its amount is a 64-bit word of millisatoshi.
Source: `common/sym_scripts.h`, `struct sym_htlc` -/
@[ext]
structure SymHtlc where
  owner : Side
  amount : ℕ
  paymentRipemd : ByteString 20
  cltvExpiry : ℕ
  amount_lt : amount < 2 ^ 64

instance : DecidableEq SymHtlc := fun _ _ => decidable_of_iff _ SymHtlc.ext_iff.symm

/-- The arguments of `sym_settlement`; the amounts are 64-bit words. -/
structure SettlementInput where
  fundingSats : ℕ
  opener : Side
  paymentBasepoint : Side → Pubkey
  htlcBasepoint : Side → Pubkey
  balance : Side → ℕ
  htlcs : List SymHtlc
  dustLimit : ℕ
  fundingSats_lt : fundingSats < 2 ^ 64
  balance_lt : ∀ s, balance s < 2 ^ 64

/-! ### The order of the outputs -/

/-- Settlement outputs, sorted as BIP69 with expiry last.
Source: `common/sym_scripts.c`, `cmp_output` -/
def cmpOutput (a b : SymOutput) : Ordering :=
  (compare a.amount b.amount).then <| (memcmp a.spk b.spk).then <|
    (compare a.spk.length b.spk.length).then (compare a.cltvExpiry b.cltvExpiry)

/-- Two outputs that may stand in this order. -/
def NotAfter (a b : SymOutput) : Prop := cmpOutput a b ≠ .gt

instance : DecidableRel NotAfter := fun a b => inferInstanceAs (Decidable (cmpOutput a b ≠ .gt))

/-- The outputs sorted by `cmpOutput`. Source: `asort` -/
def asort (outs : List SymOutput) : List SymOutput := outs.insertionSort NotAfter

/-! ### The loop over the HTLCs -/

/-- What the loop over the HTLCs carries. -/
structure SettleLoop where
  bal : Side → ℕ
  total : ℕ
  outs : List SymOutput

/-- A satoshi amount in millisatoshi. Source: `amount_sat_to_msat` -/
def amountSatToMsat (sat : ℕ) : Option ℕ := if sat * 1000 < 2 ^ 64 then some (sat * 1000) else none

section build

variable (S : SpkBuilder)

/-- The output of an HTLC. -/
def htlcOutput (htlcBasepoint : Side → Pubkey) (h : SymHtlc) : SymOutput where
  kind := .htlc
  side := h.owner
  amount := satRoundDown h.amount
  spk := S.htlc (htlcBasepoint h.owner) (htlcBasepoint h.owner.other) h.paymentRipemd h.cltvExpiry
  asset := none
  cltvExpiry := h.cltvExpiry

/-- The body of the loop over the HTLCs; `none` is the jump to `overflow`. -/
def settleHtlc (htlcBasepoint : Side → Pubkey) (dustLimit : ℕ) (st : SettleLoop) (h : SymHtlc) :
    Option SettleLoop :=
  if satRoundDown h.amount < dustLimit then do
    -- trimmed: its value stays with whoever offered it
    let bal ← amountAdd (st.bal h.owner) h.amount
    some { st with bal := update st.bal h.owner bal }
  else do
    -- what the output's whole atoms leave stays with the offerer
    let msat ← amountSatToMsat (satRoundDown h.amount)
    let rem ← amountSub h.amount msat
    let bal ← amountAdd (st.bal h.owner) rem
    let total ← amountAdd st.total (satRoundDown h.amount)
    some { bal := update st.bal h.owner bal
           total := total
           outs := st.outs ++ [htlcOutput S htlcBasepoint h] }

/-! ### The balances -/

/-- One turn of the loop that folds a balance below the dust limit into the other side's. -/
def foldDust (dustLimit : ℕ) (s : Side) (node : Side → ℕ) : Option (Side → ℕ) :=
  if node s ≠ 0 ∧ node s < dustLimit ∧ node s.other ≥ node s then do
    let sum ← amountAdd (node s.other) (node s)
    some (update (update node s.other sum) s 0)
  else some node

/-- The output of a side's balance, where there is one. -/
def balanceOutput (paymentBasepoint : Side → Pubkey) (node : Side → ℕ) (s : Side) :
    List SymOutput :=
  if node s = 0 then []
  else
    [{ kind := .balance
       side := s
       amount := node s
       spk := S.p2wpkh (paymentBasepoint s)
       asset := none
       cltvExpiry := 0 }]

/-- The text of a failure past the range of amounts. -/
def overflowError : String := "overflow building the settlement"

/-- A failed step of the computation reported as an overflow. -/
def orOverflow {α : Type} : Option α → Except String α
  | some a => .ok a
  | none => .error overflowError

/-- What each side is paid, from what the loop over the HTLCs leaves. -/
def settleNodes (x : SettlementInput) (loop : SettleLoop) : Except String (Side → ℕ) := do
  let node : Side → ℕ := fun s => satRoundDown (loop.bal s)
  let total ← orOverflow (amountAdd loop.total (node .LOCAL))
  let total ← orOverflow (amountAdd total (node .REMOTE))
  match amountSub x.fundingSats total with
  | none => .error "state pays more than the funding"
  | some left =>
    -- msat rounding leaves a few atoms: the opener's
    let share ← orOverflow (amountAdd (node x.opener) left)
    -- a balance below the dust limit is no output: the other side's
    let node ← orOverflow (foldDust x.dustLimit .LOCAL (update node x.opener share))
    orOverflow (foldDust x.dustLimit .REMOTE node)

/-- The settlement of a state.
Source: `common/sym_scripts.c`, `sym_settlement` -/
def symSettlement (x : SettlementInput) : Except String (List SymOutput) := do
  let loop ← orOverflow <|
    x.htlcs.foldlM (settleHtlc S x.htlcBasepoint x.dustLimit) ⟨x.balance, 0, []⟩
  let node ← settleNodes x loop
  let outs := loop.outs ++ (balanceOutput S x.paymentBasepoint node .LOCAL ++
    balanceOutput S x.paymentBasepoint node .REMOTE)
  if outs = [] then .error "state pays nothing" else .ok (asort outs)

/-! ### The lanes -/

/-- What a settlement reads of a lane: its funding, what each view owes each side in it, and the
asset its outputs name (none for lane 0).
Source: `sym_lane_funding`, `sym_lane_owed`, `sym_lane_asset` -/
structure SettleLane where
  fundingSats : ℕ
  owed : Side → Side → ℕ
  asset : Option (ByteString 32)
  fundingSats_lt : fundingSats < 2 ^ 64
  owed_lt : ∀ view s, owed view s < 2 ^ 64

/-- What a settlement reads of a channel. -/
structure SettleChannel where
  opener : Side
  payment : Side → Pubkey
  htlc : Side → Pubkey
  dustLimit : Side → ℕ
  lanes : List SettleLane

/-- The larger of the two sides' dust limits. Source: `common/sym_channel.c`, `sym_dust_limit` -/
def symDustLimit (c : SettleChannel) : ℕ :=
  if c.dustLimit .LOCAL > c.dustLimit .REMOTE then c.dustLimit .LOCAL else c.dustLimit .REMOTE

/-- The arguments of the settlement of lane `l`: its own HTLCs, in the order given. -/
def laneInput (c : SettleChannel) (view : Side) (htlcs : List (SymHtlc × ℕ)) (l : ℕ)
    (lane : SettleLane) : SettlementInput where
  fundingSats := lane.fundingSats
  opener := c.opener
  paymentBasepoint := c.payment
  htlcBasepoint := c.htlc
  balance := lane.owed view
  htlcs := (htlcs.filter fun h => h.2 = l).map Prod.fst
  dustLimit := symDustLimit c
  fundingSats_lt := lane.fundingSats_lt
  balance_lt := lane.owed_lt view

/-- The settlements of the lanes from index `l` on, each output in its lane's asset. -/
def laneSettlements (c : SettleChannel) (view : Side) (htlcs : List (SymHtlc × ℕ)) :
    ℕ → List SettleLane → Except String (List (List SymOutput))
  | _, [] => .ok []
  | l, lane :: lanes =>
    match symSettlement S (laneInput c view htlcs l lane) with
    | .error err => .error ("lane " ++ toString l ++ ": " ++ err)
    | .ok lo => do
        let rest ← laneSettlements c view htlcs (l + 1) lanes
        .ok (lo.map (fun o => { o with asset := lane.asset }) :: rest)

/-- The settlement of a view: each lane's in lane order.
Source: `common/sym_lanes.c`, `sym_lanes_settlement` -/
def symLanesSettlement (c : SettleChannel) (view : Side) (htlcs : List (SymHtlc × ℕ)) :
    Except String (List SymOutput) :=
  (laneSettlements S c view htlcs 0 c.lanes).map List.flatten

end build

/-! ### The sums behind a settlement -/

/-- An HTLC whose whole atoms are below the dust limit: it has no output. -/
def Trimmed (dustLimit : ℕ) (h : SymHtlc) : Prop := satRoundDown h.amount < dustLimit

instance (dustLimit : ℕ) (h : SymHtlc) : Decidable (Trimmed dustLimit h) :=
  inferInstanceAs (Decidable (_ < _))

/-- What stays with the offerer of an HTLC. -/
def keptOf (dustLimit : ℕ) (h : SymHtlc) : ℕ :=
  if Trimmed dustLimit h then h.amount else h.amount % 1000

/-- The atoms of an HTLC's output. -/
def atomsOf (dustLimit : ℕ) (h : SymHtlc) : ℕ :=
  if Trimmed dustLimit h then 0 else satRoundDown h.amount

/-- A side's balance with what stays with it of the HTLCs it offered. -/
def kept (dustLimit : ℕ) (bal : Side → ℕ) (htlcs : List SymHtlc) (s : Side) : ℕ :=
  bal s + ((htlcs.filter fun h => h.owner = s).map (keptOf dustLimit)).sum

/-- The atoms of all HTLC outputs. -/
def htlcAtoms (dustLimit : ℕ) (htlcs : List SymHtlc) : ℕ := (htlcs.map (atomsOf dustLimit)).sum

/-- The HTLC outputs. -/
def htlcOutputs (S : SpkBuilder) (htlcBasepoint : Side → Pubkey) (dustLimit : ℕ)
    (htlcs : List SymHtlc) : List SymOutput :=
  (htlcs.filter fun h => ¬ Trimmed dustLimit h).map (htlcOutput S htlcBasepoint)

section sums

variable {S : SpkBuilder} {htlcBasepoint : Side → Pubkey} {dustLimit : ℕ}

/-- One turn of the loop: it adds what the offerer keeps and the output's atoms, where both sums
fit. -/
theorem settleHtlc_eq (st : SettleLoop) (h : SymHtlc) (htot : st.total < 2 ^ 64) :
    settleHtlc S htlcBasepoint dustLimit st h =
      if st.bal h.owner + keptOf dustLimit h < 2 ^ 64 ∧ st.total + atomsOf dustLimit h < 2 ^ 64 then
        some ⟨update st.bal h.owner (st.bal h.owner + keptOf dustLimit h),
          st.total + atomsOf dustLimit h,
          st.outs ++ htlcOutputs S htlcBasepoint dustLimit [h]⟩
      else none := by
  have hamt := h.amount_lt
  by_cases htrim : satRoundDown h.amount < dustLimit
  · have ht : Trimmed dustLimit h := htrim
    simp only [settleHtlc, htrim, if_true, amountAdd, keptOf, atomsOf, ht, htlcOutputs,
      filter_cons, not_true_eq_false, decide_false, Bool.false_eq_true, if_false,
      filter_nil, map_nil, append_nil, Nat.add_zero, htot, and_true]
    split <;> rfl
  · have ht : ¬ Trimmed dustLimit h := htrim
    have hmsat : satRoundDown h.amount * 1000 < 2 ^ 64 := by
      unfold satRoundDown
      omega
    have hsub : satRoundDown h.amount * 1000 ≤ h.amount := Nat.div_mul_le_self _ _
    have hrem : h.amount - satRoundDown h.amount * 1000 = h.amount % 1000 := by
      unfold satRoundDown
      omega
    simp only [settleHtlc, htrim, if_false, amountSatToMsat, hmsat, if_true, amountSub, hsub, hrem,
      amountAdd, keptOf, atomsOf, ht, htlcOutputs, filter_cons, not_false_eq_true,
      decide_true, filter_nil, map_cons, map_nil, bind_eq_bind,
      bind_some]
    by_cases h1 : st.bal h.owner + h.amount % 1000 < 2 ^ 64 <;>
      by_cases h2 : st.total + satRoundDown h.amount < 2 ^ 64 <;> simp only [h1, h2, if_true,
        if_false, and_true, and_false, bind_some, bind_none]

lemma kept_cons (bal : Side → ℕ) (h : SymHtlc) (hs : List SymHtlc) :
    kept dustLimit bal (h :: hs) =
      kept dustLimit (update bal h.owner (bal h.owner + keptOf dustLimit h)) hs := by
  funext s
  by_cases hs' : h.owner = s
  · subst hs'
    simp [kept, Nat.add_assoc]
  · simp [kept, hs', update_of_ne (Ne.symm hs')]

lemma le_kept (bal : Side → ℕ) (hs : List SymHtlc) (s : Side) : bal s ≤ kept dustLimit bal hs s :=
  Nat.le_add_right _ _

lemma htlcOutputs_cons (h : SymHtlc) (hs : List SymHtlc) :
    htlcOutputs S htlcBasepoint dustLimit (h :: hs) =
      htlcOutputs S htlcBasepoint dustLimit [h] ++ htlcOutputs S htlcBasepoint dustLimit hs := by
  simp only [htlcOutputs, ← map_append, ← filter_append, singleton_append]

/-- The whole loop: it ends where all sums fit, with the sums. An overflow of a sum is an overflow
at some turn, since the amounts only add up. -/
theorem foldlM_settleHtlc (hs : List SymHtlc) (st : SettleLoop) (hbal : ∀ s, st.bal s < 2 ^ 64)
    (htot : st.total < 2 ^ 64) :
    hs.foldlM (settleHtlc S htlcBasepoint dustLimit) st =
      if (∀ s, kept dustLimit st.bal hs s < 2 ^ 64) ∧ st.total + htlcAtoms dustLimit hs < 2 ^ 64 then
        some ⟨kept dustLimit st.bal hs, st.total + htlcAtoms dustLimit hs,
          st.outs ++ htlcOutputs S htlcBasepoint dustLimit hs⟩
      else none := by
  induction hs generalizing st with
  | nil =>
    have hkept : kept dustLimit st.bal [] = st.bal := by funext s; simp [kept]
    have hatoms : st.total + htlcAtoms dustLimit [] = st.total := by simp [htlcAtoms]
    rw [hkept, hatoms, if_pos ⟨hbal, htot⟩]
    simp [htlcOutputs]
  | cons h hs ih =>
    have hatoms : htlcAtoms dustLimit (h :: hs) = atomsOf dustLimit h + htlcAtoms dustLimit hs := by
      simp [htlcAtoms]
    rw [foldlM_cons, settleHtlc_eq st h htot]
    by_cases hfit : st.bal h.owner + keptOf dustLimit h < 2 ^ 64 ∧
        st.total + atomsOf dustLimit h < 2 ^ 64
    · have hbal' : ∀ s, update st.bal h.owner (st.bal h.owner + keptOf dustLimit h) s <
          2 ^ 64 := by
        intro s
        by_cases hs' : s = h.owner
        · subst hs'
          simpa using hfit.1
        · rw [update_of_ne hs']
          exact hbal s
      rw [if_pos hfit, bind_eq_bind, bind_some, ih _ hbal' hfit.2, kept_cons,
        hatoms, htlcOutputs_cons h hs]
      simp only [Nat.add_assoc, append_assoc]
    · -- this turn overflows, and the whole sums are no smaller
      rw [if_neg hfit, if_neg]
      · rfl
      · rintro ⟨hk, ht⟩
        refine hfit ⟨?_, by omega⟩
        have hlt := hk h.owner
        have hle : _ ≤ kept dustLimit (update st.bal h.owner
          (st.bal h.owner + keptOf dustLimit h)) hs h.owner := le_kept _ hs h.owner
        rw [update_self] at hle
        rw [kept_cons] at hlt
        omega

end sums

/-! ### The closed form -/

variable {x : SettlementInput}

namespace SettlementInput

variable (x : SettlementInput)

/-- What a side keeps, in millisatoshi. -/
def kept (s : Side) : ℕ := Sym.kept x.dustLimit x.balance x.htlcs s

/-- The whole atoms of what a side keeps. -/
def whole (s : Side) : ℕ := satRoundDown (x.kept s)

/-- All atoms the state pays: the HTLC outputs' and the two sides'. -/
def paid : ℕ := htlcAtoms x.dustLimit x.htlcs + x.whole .LOCAL + x.whole .REMOTE

/-- The state can be paid: no sum is out of range, and the funding covers it. -/
def Fits : Prop := (∀ s, x.kept s < 2 ^ 64) ∧ x.paid ≤ x.fundingSats

instance : Decidable x.Fits := inferInstanceAs (Decidable (_ ∧ _))

/-- A side's balance in atoms; what rounding leaves of the funding is the opener's. -/
def share (s : Side) : ℕ := x.whole s + if s = x.opener then x.fundingSats - x.paid else 0

lemma share_add_share (h : x.Fits) :
    htlcAtoms x.dustLimit x.htlcs + x.share .LOCAL + x.share .REMOTE = x.fundingSats := by
  have hpaid : htlcAtoms x.dustLimit x.htlcs + x.whole .LOCAL + x.whole .REMOTE ≤ x.fundingSats :=
    h.2
  unfold share paid
  cases x.opener <;> simp only [reduceCtorEq, if_true, if_false] <;> omega

end SettlementInput

/-- The two balances after folding: a balance below the dust limit and not above the other one
joins it, LOCAL's first. -/
def foldShares (dustLimit : ℕ) (node : Side → ℕ) : Side → ℕ :=
  if node .LOCAL ≠ 0 ∧ node .LOCAL < dustLimit ∧ node .LOCAL ≤ node .REMOTE then
    fun | .LOCAL => 0 | .REMOTE => node .REMOTE + node .LOCAL
  else if node .REMOTE ≠ 0 ∧ node .REMOTE < dustLimit ∧ node .REMOTE ≤ node .LOCAL then
    fun | .LOCAL => node .LOCAL + node .REMOTE | .REMOTE => 0
  else node

lemma foldDust_of_pos {dustLimit : ℕ} {s : Side} {node : Side → ℕ}
    (h : node s ≠ 0 ∧ node s < dustLimit ∧ node s ≤ node s.other)
    (hsum : node s.other + node s < 2 ^ 64) :
    foldDust dustLimit s node =
      some (update (update node s.other (node s.other + node s)) s 0) := by
  rw [foldDust, if_pos h, amountAdd_of_lt hsum]
  rfl

lemma foldDust_of_neg {dustLimit : ℕ} {s : Side} {node : Side → ℕ}
    (h : ¬ (node s ≠ 0 ∧ node s < dustLimit ∧ node s ≤ node s.other)) :
    foldDust dustLimit s node = some node := if_neg h

/-- The two turns of the folding loop. After LOCAL's share has joined REMOTE's, nothing is left on
LOCAL's side for REMOTE's to join. -/
theorem foldDust_foldDust (dustLimit : ℕ) (node : Side → ℕ)
    (h : node .LOCAL + node .REMOTE < 2 ^ 64) :
    (foldDust dustLimit .LOCAL node).bind (foldDust dustLimit .REMOTE) =
      some (foldShares dustLimit node) := by
  by_cases hL : node .LOCAL ≠ 0 ∧ node .LOCAL < dustLimit ∧ node .LOCAL ≤ node .REMOTE
  · have hnode : update (update node .REMOTE (node .REMOTE + node .LOCAL)) .LOCAL 0
        = foldShares dustLimit node := by
      funext s
      cases s <;> simp [foldShares, hL]
    have hnext : ¬ (foldShares dustLimit node .REMOTE ≠ 0 ∧
        foldShares dustLimit node .REMOTE < dustLimit ∧
        foldShares dustLimit node .REMOTE ≤ foldShares dustLimit node .LOCAL) := by
      rw [← hnode]
      simp only [update_self, ne_eq, reduceCtorEq, not_false_eq_true,
        update_of_ne]
      omega
    rw [foldDust_of_pos hL (by simpa [Nat.add_comm] using h), Side.other_LOCAL, hnode,
      bind_some, foldDust_of_neg hnext]
  · rw [foldDust_of_neg hL, bind_some, foldShares, if_neg hL]
    by_cases hR : node .REMOTE ≠ 0 ∧ node .REMOTE < dustLimit ∧ node .REMOTE ≤ node .LOCAL
    · rw [if_pos hR, foldDust_of_pos hR h]
      refine congrArg some (funext fun s => ?_)
      cases s <;> simp
    · rw [if_neg hR, foldDust_of_neg hR]

/-- All outputs of a settlement, before they are sorted. -/
def settlementOutputs (S : SpkBuilder) (x : SettlementInput) : List SymOutput :=
  htlcOutputs S x.htlcBasepoint x.dustLimit x.htlcs ++
    (balanceOutput S x.paymentBasepoint (foldShares x.dustLimit x.share) .LOCAL ++
      balanceOutput S x.paymentBasepoint (foldShares x.dustLimit x.share) .REMOTE)

/-- The loop over the HTLCs of a state. -/
theorem foldlM_htlcs (S : SpkBuilder) (x : SettlementInput) :
    x.htlcs.foldlM (settleHtlc S x.htlcBasepoint x.dustLimit) ⟨x.balance, 0, []⟩ =
      if (∀ s, x.kept s < 2 ^ 64) ∧ htlcAtoms x.dustLimit x.htlcs < 2 ^ 64 then
        some ⟨x.kept, htlcAtoms x.dustLimit x.htlcs,
          htlcOutputs S x.htlcBasepoint x.dustLimit x.htlcs⟩
      else none := by
  rw [foldlM_settleHtlc x.htlcs ⟨x.balance, 0, []⟩ x.balance_lt (by simp)]
  simp only [Nat.zero_add, nil_append]
  rfl

/-- What the sides are paid in a state that can be paid. -/
theorem settleNodes_of_fits (h : x.Fits) (outs : List SymOutput) :
    settleNodes x ⟨x.kept, htlcAtoms x.dustLimit x.htlcs, outs⟩ =
      .ok (foldShares x.dustLimit x.share) := by
  have hfund := x.fundingSats_lt
  have hpaid : htlcAtoms x.dustLimit x.htlcs + x.whole .LOCAL + x.whole .REMOTE ≤ x.fundingSats :=
    h.2
  have hshares := x.share_add_share h
  have hopener : x.whole x.opener + (x.fundingSats - x.paid) < 2 ^ 64 := by
    have hle : x.whole x.opener ≤ x.paid := by
      unfold SettlementInput.paid
      cases x.opener <;> omega
    have := h.2
    omega
  have hnode : update x.whole x.opener (x.whole x.opener + (x.fundingSats - x.paid)) =
      x.share := by
    funext s
    unfold SettlementInput.share
    by_cases hs : s = x.opener
    · subst hs
      simp
    · simp [hs]
  obtain ⟨node, hfirst, hsecond⟩ := bind_eq_some_iff.mp
    (foldDust_foldDust x.dustLimit x.share (by omega))
  have h1 := amountAdd_of_lt (a := htlcAtoms x.dustLimit x.htlcs) (b := x.whole .LOCAL) (by omega)
  have h2 := amountAdd_of_lt (a := htlcAtoms x.dustLimit x.htlcs + x.whole .LOCAL)
    (b := x.whole .REMOTE) (by omega)
  have h3 : amountSub x.fundingSats
      (htlcAtoms x.dustLimit x.htlcs + x.whole .LOCAL + x.whole .REMOTE) =
        some (x.fundingSats - x.paid) := amountSub_of_le hpaid
  have h4 := amountAdd_of_lt hopener
  show (do
    let total ← orOverflow (amountAdd (htlcAtoms x.dustLimit x.htlcs) (x.whole .LOCAL))
    let total ← orOverflow (amountAdd total (x.whole .REMOTE))
    match amountSub x.fundingSats total with
    | none => .error "state pays more than the funding"
    | some left =>
      let share ← orOverflow (amountAdd (x.whole x.opener) left)
      let node ← orOverflow
        (foldDust x.dustLimit .LOCAL (update x.whole x.opener share))
      orOverflow (foldDust x.dustLimit .REMOTE node)) = _
  simp only [h1, h2, h3, h4, hnode, hfirst, hsecond, orOverflow, bind, Except.bind]

/-- Where the sides' atoms are out of range or more than the funding, there is no settlement. -/
theorem settleNodes_of_lt (h : x.fundingSats < x.paid) (outs : List SymOutput) :
    ∃ err, settleNodes x ⟨x.kept, htlcAtoms x.dustLimit x.htlcs, outs⟩ = .error err := by
  have hpaid : x.paid = htlcAtoms x.dustLimit x.htlcs + x.whole .LOCAL + x.whole .REMOTE := rfl
  unfold settleNodes
  by_cases h1 : htlcAtoms x.dustLimit x.htlcs + x.whole .LOCAL < 2 ^ 64
  · by_cases h2 : htlcAtoms x.dustLimit x.htlcs + x.whole .LOCAL + x.whole .REMOTE < 2 ^ 64
    · have h3 : ¬ htlcAtoms x.dustLimit x.htlcs + x.whole .LOCAL + x.whole .REMOTE ≤
          x.fundingSats := by omega
      refine ⟨"state pays more than the funding", ?_⟩
      have e1 := amountAdd_of_lt h1
      have e2 := amountAdd_of_lt h2
      have e3 := amountSub_of_not_le h3
      simp only [SettlementInput.whole] at e1 e2 e3
      simp only [e1, e2, e3, orOverflow, bind, Except.bind]
    · refine ⟨overflowError, ?_⟩
      have e1 := amountAdd_of_lt h1
      have e2 := amountAdd_of_not_lt h2
      simp only [SettlementInput.whole] at e1 e2
      simp only [e1, e2, orOverflow, bind, Except.bind]
  · refine ⟨overflowError, ?_⟩
    have e1 := amountAdd_of_not_lt h1
    simp only [SettlementInput.whole] at e1
    simp only [e1, orOverflow, bind, Except.bind]

/-- The settlement of a state that can be paid. -/
theorem symSettlement_of_fits (S : SpkBuilder) (h : x.Fits) :
    symSettlement S x = if settlementOutputs S x = [] then .error "state pays nothing"
      else .ok (asort (settlementOutputs S x)) := by
  have hfund := x.fundingSats_lt
  have hpaid : htlcAtoms x.dustLimit x.htlcs + x.whole .LOCAL + x.whole .REMOTE ≤ x.fundingSats :=
    h.2
  have hloop := foldlM_htlcs S x
  rw [if_pos ⟨h.1, by omega⟩] at hloop
  simp only [symSettlement, hloop, settleNodes_of_fits h, orOverflow, bind, Except.bind]
  rfl

/-- A state that cannot be paid has no settlement. -/
theorem symSettlement_of_not_fits (S : SpkBuilder) (h : ¬ x.Fits) :
    ∃ err, symSettlement S x = .error err := by
  have hloop := foldlM_htlcs S x
  by_cases hfit : (∀ s, x.kept s < 2 ^ 64) ∧ htlcAtoms x.dustLimit x.htlcs < 2 ^ 64
  · rw [if_pos hfit] at hloop
    have hlt : x.fundingSats < x.paid := by
      by_contra hle
      exact h ⟨hfit.1, not_lt.mp hle⟩
    obtain ⟨err, herr⟩ := settleNodes_of_lt hlt
      (htlcOutputs S x.htlcBasepoint x.dustLimit x.htlcs)
    exact ⟨err, by simp only [symSettlement, hloop, herr, orOverflow, bind, Except.bind]⟩
  · rw [if_neg hfit] at hloop
    exact ⟨overflowError, by simp only [symSettlement, hloop, orOverflow, bind, Except.bind]⟩

/-- A settlement is the sorted list of its outputs. -/
theorem symSettlement_ok {S : SpkBuilder} {outs : List SymOutput}
    (h : symSettlement S x = .ok outs) : outs = asort (settlementOutputs S x) := by
  by_cases hfits : x.Fits
  · rw [symSettlement_of_fits S hfits] at h
    split at h
    · cases h
    · exact (Except.ok.inj h).symm
  · obtain ⟨err, herr⟩ := symSettlement_of_not_fits S hfits
    rw [herr] at h
    cases h

/-- The settlements of the lanes, each the sorted list of its outputs in the lane's asset. -/
theorem laneSettlements_ok {S : SpkBuilder} {c : SettleChannel} {view : Side}
    {htlcs : List (SymHtlc × ℕ)} {l : ℕ} {lanes : List SettleLane} {louts : List (List SymOutput)}
    (h : laneSettlements S c view htlcs l lanes = .ok louts) :
    louts = (lanes.zipIdx l).map fun p =>
      (asort (settlementOutputs S (laneInput c view htlcs p.2 p.1))).map
        fun o => { o with asset := p.1.asset } := by
  induction lanes generalizing l louts with
  | nil =>
    cases h
    rfl
  | cons lane lanes ih =>
    rw [laneSettlements] at h
    cases hlane : symSettlement S (laneInput c view htlcs l lane) with
    | error err =>
      rw [hlane] at h
      cases h
    | ok lo =>
      rw [hlane] at h
      cases hrest : laneSettlements S c view htlcs (l + 1) lanes with
      | error err =>
        rw [hrest] at h
        cases h
      | ok rest =>
        rw [hrest] at h
        cases h
        rw [zipIdx_cons, map_cons, ← ih hrest, ← symSettlement_ok hlane]

end SeqLN.Sym
