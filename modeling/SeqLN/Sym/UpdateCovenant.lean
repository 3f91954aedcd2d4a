import SeqLN.Lib.SpendScript
import SeqLN.Sym.Scripts

/-!
# What the update leaf enforces

A spend of a state output by `symLeafUpd sc k` carries a number `n`, a string `R` and two signatures;
the leaf hashes them with the program `P` it reads at the input's own index. The signed string is
`tag || n || P || R`, and no opcode fixes where `P` ends and `R` begins. So the covenant holds of a
spend exactly when the witness cuts the signed bytes where the signers did
(`update_pays_signed_state_iff`).
-/

namespace SeqLN.Sym

open Tapscript List Option

variable {E : Env} {sc : SymChannel} {k : ℤ}

/-! ### The parts of the leaf -/

variable {os : List Op} {r s : List Bytes}

lemma run_clockFloor (h : run E (clockFloor sc ++ os) s = some r) : run E os s = some r := by
  unfold clockFloor at h
  split at h
  · rw [cons_append, run_pushNum (by decide), cons_append] at h
    simpa using (of_run_checkLockTimeVerify (by decide) h).2
  · simpa using h

lemma run_newerThan (hk : IsS64 k) (h : run E (newerThan k ++ os) s = some r) :
    ∃ R n s', s = R :: n :: s' ∧ n.length = 8 ∧ k < readS64 n ∧ run E os s = some r := by
  match s, h with
  | [], h => cases h
  | [_], h => cases h
  | R :: n :: s', h =>
    have hpush : (le8s k).length ≤ maxElement := by simp [maxElement]
    simp only [newerThan, cons_append, nil_append, run_over, run_push hpush] at h
    obtain ⟨-, hn, hlt, h⟩ := of_run_greaterThan64 h
    rw [readS64_le8s hk] at hlt
    exact ⟨R, n, s', rfl, hn, hlt, h⟩

lemma scriptNum_eq_one {v : ℕ} (h : scriptNum v = [1]) : v = 1 := by
  have := leNat_scriptNum v
  rw [h] at this
  exact this.symm

/-- Introspection pushes the version number 1 only for a v1 witness program. -/
theorem witnessProgram_of_spkFields {H : Hashing} {spk P : Bytes}
    (h : spkFields H spk = (P, [1])) : witnessProgram spk = some (1, P) := by
  unfold spkFields at h
  split at h
  · next v p hw =>
    obtain ⟨rfl, hv⟩ : p = P ∧ scriptNum v = [1] := by simpa using h
    rw [hw, scriptNum_eq_one hv]
  · simp at h

lemma run_ownProgram (h : run E (ownProgram ++ os) s = some r) :
    ∃ o P, outputAt E E.idx = some o ∧ witnessProgram o.spk = some (1, P) ∧
      run E os (P :: s) = some r := by
  simp only [ownProgram, cons_append, nil_append, run_pushCurrentInputIndex,
    run_inspectOutput, bind_eq_some_iff] at h
  obtain ⟨o, ho, h⟩ := h
  rw [run_push (by decide), pushFields] at h
  obtain ⟨hv, h⟩ := of_run_equalVerify h
  exact ⟨o, _, ho, witnessProgram_of_spkFields (H := E.hash) (Prod.ext rfl hv), h⟩

lemma run_updateHash {P R n : Bytes}
    (h : run E (updateHash sc ++ os) (P :: R :: n :: s) = some r) :
    run E os (E.hash.sha256 (updPreimage sc n P R) :: s) = some r := by
  simp only [updateHash, cons_append, nil_append, run_rot, run_swap] at h
  have h := of_run_cat h
  rw [run_swap] at h
  have h := of_run_cat h
  rw [run_push (by simp [maxElement]), run_swap] at h
  have h := of_run_cat h
  simpa [updPreimage] using h

/-- Both update keys have signed. -/
lemma run_bothSigned {m : Bytes} (h : run E (bothSigned sc ++ os) (m :: s) = some r) :
    ∃ sigOpener sigAccepter s', s = sigOpener :: sigAccepter :: s' ∧
      E.verifies (sc.updKey .opener).bytes m sigOpener = true ∧
      E.verifies (sc.updKey .accepter).bytes m sigAccepter = true ∧ run E os s' = some r := by
  have hpush : ∀ side, (sc.updKey side).bytes.length ≤ maxElement := by simp [maxElement]
  match s, h with
  | [], h => cases h
  | [sigO], h =>
    simp only [bothSigned, cons_append, nil_append, run_tuck, run_push (hpush _),
      run_checkSigFromStackVerify] at h
    split_ifs at h
    cases h
  | sigO :: sigA :: s', h =>
    simp only [bothSigned, cons_append, nil_append, run_tuck, run_push (hpush _),
      run_checkSigFromStackVerify] at h
    split_ifs at h with hO hA
    exact ⟨sigO, sigA, s', rfl, hO, hA, h⟩

/-! ### A valid spend -/

/-- What a stack `[R, n, sig_opener, sig_accepter]` and a transaction that satisfy the update leaf
consist of: `P` is the program at the input's own index. -/
structure UpdateSpend (E : Env) (sc : SymChannel) (k : ℤ) (R n P sigOpener sigAccepter : Bytes)
    (out spent : TxOut) : Prop where
  n_length : n.length = 8
  newer : k < readS64 n
  output : E.tx.outputs[E.idx]? = some out
  input : ∃ t, E.tx.inputs[E.idx]? = some t ∧ t.spent = spent
  program : witnessProgram out.spk = some (1, P)
  opener_signed : E.verifies (sc.updKey .opener).bytes
    (E.hash.sha256 (updPreimage sc n P R)) sigOpener = true
  accepter_signed : E.verifies (sc.updKey .accepter).bytes
    (E.hash.sha256 (updPreimage sc n P R)) sigAccepter = true
  value_kept : out.value = spent.value
  asset_kept : out.asset = spent.asset

/-- The tail of the leaf: the output keeps the value and the asset, and nothing is left over. -/
theorem run_keepValueAsset {x : Bytes}
    (h : run E (pairFields .value ++ .equalVerify :: (pairFields .asset ++ [.equal])) s = some [x])
    (hx : castToBool x = true) :
    s = [] ∧ ∃ o t, outputAt E E.idx = some o ∧ spentAt E E.idx = some t ∧
      o.value = t.value ∧ o.asset = t.asset := by
  obtain ⟨o, t, ho, ht, hv, h⟩ := of_run_keepField h
  obtain ⟨hs, o', t', ho', ht', ha⟩ := of_run_keepField_last h hx
  cases ho.symm.trans ho'
  cases ht.symm.trans ht'
  exact ⟨hs, o, t, ho, ht, Value.fields_inj hv, Asset.fields_inj ha⟩

/-- Everything a valid spend of the update leaf consists of. -/
theorem satisfies_symLeafUpd (hk : IsS64 k) {stack : List Bytes}
    (h : satisfies E (symLeafUpd sc k) stack = true) :
    ∃ R n P sigOpener sigAccepter out spent, stack = [R, n, sigOpener, sigAccepter] ∧
      UpdateSpend E sc k R n P sigOpener sigAccepter out spent := by
  obtain ⟨-, x, hrun, hx⟩ := satisfies_iff.mp h
  have hrun := run_clockFloor hrun
  obtain ⟨R, n, s, rfl, hn, hlt, hrun⟩ := run_newerThan hk hrun
  obtain ⟨out, P, hout, hP, hrun⟩ := run_ownProgram hrun
  have hrun := run_updateHash hrun
  obtain ⟨sigO, sigA, s', rfl, hO, hA, hrun⟩ := run_bothSigned hrun
  obtain ⟨rfl, o, spent, ho, hspent, hv, ha⟩ := run_keepValueAsset hrun hx
  obtain rfl : out = o := by rw [hout] at ho; exact some.inj ho
  exact ⟨R, n, P, sigO, sigA, out, spent, rfl, hn, hlt, getElem?_of_outputAt hout,
    getElem?_of_spentAt hspent, hP, hO, hA, hv, ha⟩

/-! ### The covenant -/

/-- The output at the input's own index pays the program of a state both sides signed, newer than
`k`, and keeps the asset and the value of the output spent. -/
def PaysSignedState (E : Env) (k : ℤ) (signed : SymSide → List SymState) : Prop :=
  ∃ st out t, st ∈ signed .opener ∧ st ∈ signed .accepter ∧ k < st.n ∧
    E.tx.outputs[E.idx]? = some out ∧ E.tx.inputs[E.idx]? = some t ∧
    out.spk = witnessSpk 1 st.program.bytes ∧
    out.asset = t.spent.asset ∧ out.value = t.spent.value

/-- The program of the output at the input's own index, as introspection pushes it. -/
def ownOutputProgram (E : Env) : Bytes :=
  (((E.tx.outputs[E.idx]?).bind fun o => witnessProgram o.spk).map Prod.snd).getD []

/-- The string the leaf hashes on a stack: the items the witness calls `n` and `R`, around the
program of the own output. -/
def updateHashed (E : Env) (sc : SymChannel) (stack : List Bytes) : Bytes :=
  updPreimage sc (stack.getD 1 []) (ownOutputProgram E) (stack.getD 0 [])

/-- The item of the witness that stands for the hash of the rest of the tree. -/
def witnessRest (stack : List Bytes) : Bytes := stack.getD 0 []

/-- The bytes a state's signatures are over. -/
def SymState.preimage (sc : SymChannel) (st : SymState) : Bytes :=
  updPreimage sc (le8s st.n) st.program.bytes st.rest.bytes

lemma SymState.isS64 (st : SymState) : IsS64 st.n :=
  ⟨by have := st.n_nonneg; omega, st.n_lt⟩

/-- The string `tag || n || P || R` with eight bytes of `n` gives `n`, and `P || R` uncut. -/
theorem updPreimage_inj {n n' P P' R R' : Bytes} (hn : n.length = 8) (hn' : n'.length = 8)
    (h : updPreimage sc n P R = updPreimage sc n' P' R') : n = n' ∧ P ++ R = P' ++ R' := by
  simp only [updPreimage, append_assoc, append_cancel_left_eq] at h
  exact append_inj h (hn.trans hn'.symm)

/-- The bytes of a state determine it. -/
theorem SymState.preimage_inj {a b : SymState} (h : a.preimage sc = b.preimage sc) : a = b := by
  obtain ⟨hn, hPR⟩ := updPreimage_inj (length_le8s _) (length_le8s _) h
  obtain ⟨hP, hR⟩ := append_inj hPR (by simp)
  obtain ⟨n, P, R, h0, h1⟩ := a
  obtain ⟨n', P', R', h0', h1'⟩ := b
  obtain rfl : n = n' :=
    le8s_inj (SymState.isS64 ⟨n, P, R, h0, h1⟩) (SymState.isS64 ⟨n', P', R', h0', h1'⟩) hn
  obtain rfl := ByteString.ext hP
  obtain rfl := ByteString.ext hR
  rfl

/-- A signature check passes only for a message its key signed: each side's key signs the messages
of its states. -/
def SignsOnly (E : Env) (sc : SymChannel) (signed : SymSide → List SymState) : Prop :=
  ∀ side msg sig, E.verifies (sc.updKey side).bytes msg sig = true →
    ∃ st ∈ signed side, msg = symUpdMsg E.hash sc st

/-- What the leaf hashes does not collide with the bytes of a signed state. -/
def NoUpdateCollision (E : Env) (sc : SymChannel) (signed : SymSide → List SymState)
    (stack : List Bytes) : Prop :=
  ∀ side, ∀ st ∈ signed side, E.hash.NoCollision (updateHashed E sc stack) (st.preimage sc)

section covenant

variable {signed : SymSide → List SymState}

/-- Behind a valid spend there is one state that both sides signed, whose bytes are the ones the
leaf hashed. -/
theorem UpdateSpend.exists_signed {R n P sigO sigA : Bytes} {out spent : TxOut}
    (h : UpdateSpend E sc k R n P sigO sigA out spent) (hsig : SignsOnly E sc signed)
    (hcol : NoUpdateCollision E sc signed [R, n, sigO, sigA]) :
    ∃ st ∈ signed .opener, st ∈ signed .accepter ∧ updPreimage sc n P R = st.preimage sc := by
  have hown : updateHashed E sc [R, n, sigO, sigA] = updPreimage sc n P R := by
    simp [updateHashed, ownOutputProgram, h.output, h.program]
  obtain ⟨st, hst, hm⟩ := hsig _ _ _ h.opener_signed
  obtain ⟨st', hst', hm'⟩ := hsig _ _ _ h.accepter_signed
  have hpre : updPreimage sc n P R = st.preimage sc := hown ▸ hcol _ st hst (hown ▸ hm)
  have hpre' : updPreimage sc n P R = st'.preimage sc := hown ▸ hcol _ st' hst' (hown ▸ hm')
  obtain rfl := SymState.preimage_inj (hpre.symm.trans hpre')
  exact ⟨st, hst, hst', hpre⟩

/-- **A spend of the update leaf pays a signed state exactly when the rest item of its witness has
32 bytes.** A witness with the item at that length cuts the signed bytes as the signers did, and
then the number, the program, the value and the asset are the state's; at any other length the
output's program is another string.
Source: `common/sym_scripts.c`, `sym_leaf_upd` -/
theorem update_pays_signed_state_iff {stack : List Bytes} (hk : IsS64 k)
    (hsig : SignsOnly E sc signed) (hcol : NoUpdateCollision E sc signed stack)
    (hsat : satisfies E (symLeafUpd sc k) stack = true) :
    PaysSignedState E k signed ↔ (witnessRest stack).length = 32 := by
  obtain ⟨R, n, P, sigO, sigA, out, spent, rfl, h⟩ := satisfies_symLeafUpd hk hsat
  obtain ⟨st, hO, hA, hpre⟩ := h.exists_signed hsig hcol
  obtain ⟨hn, hPR⟩ := updPreimage_inj h.n_length (length_le8s _) hpre
  have hspk := eq_witnessSpk_of_witnessProgram h.program
  show _ ↔ R.length = 32
  constructor
  · -- the output's program has 32 bytes, so the rest item has what is left of the 64
    rintro ⟨st', out', -, -, -, -, hout', -, hspk', -, -⟩
    obtain rfl : out = out' := by rw [h.output] at hout'; exact some.inj hout'
    have hP : P.length = 32 := by
      have := congrArg List.length (hspk.1.symm.trans hspk')
      simpa [witnessSpk] using this
    have hlen := congrArg List.length hPR
    simp only [length_append, ByteString.length_bytes] at hlen
    omega
  · intro hR
    obtain ⟨hP, -⟩ := append_inj' hPR (by simpa using hR)
    obtain ⟨t, ht, rfl⟩ := h.input
    refine ⟨st, out, t, hO, hA, ?_, h.output, ht, hP ▸ hspk.1, h.asset_kept, h.value_kept⟩
    simpa [hn, readS64_le8s st.isS64] using h.newer

end covenant

/-! ### A channel, one signed state, and two spends -/

namespace UpdateExample

/-- A channel without a clock. -/
def channel : SymChannel where
  tag := .replicate 32 0x07
  updKey
    | .opener => .replicate 32 0x01
    | .accepter => .replicate 32 0x02
  asset := .replicate 32 0x03
  delay := 144
  hasClock := false

/-- The one state both sides signed. -/
def state : SymState where
  n := 1
  program := .replicate 32 0xaa
  rest := .replicate 32 0xbb
  n_nonneg := by decide
  n_lt := by decide

/-- The opener's signature. -/
def sigOpener : Bytes := List.replicate 64 0x11

/-- The accepter's signature. -/
def sigAccepter : Bytes := List.replicate 64 0x22

/-- A spend of a state output of a million atoms that pays them to the script `spk`. Each key's
check passes for its own signature of the one state. -/
def env (spk : Bytes) : Env where
  hash := .standard
  hash160 _ := .replicate 20 0
  signed _ _ := false
  isMul _ _ _ := false
  verifies key msg sig :=
    (key = (channel.updKey .opener).bytes && sig = sigOpener ||
      key = (channel.updKey .accepter).bytes && sig = sigAccepter) &&
      msg = symUpdMsg .standard channel state
  tx :=
    { version := 2
      lockTime := 0
      inputs :=
        [{ sequence := 0xfffffffd
           spent := ⟨.explicit channel.asset, .explicit 1000000, witnessSpk 1 (List.replicate 32 5)⟩ }]
      outputs := [⟨.explicit channel.asset, .explicit 1000000, spk⟩] }
  idx := 0

lemma signsOnly (spk : Bytes) : SignsOnly (env spk) channel fun _ => [state] := by
  intro side msg sig h
  refine ⟨state, mem_singleton_self _, ?_⟩
  simp only [env, Bool.and_eq_true, decide_eq_true_eq] at h
  exact h.2

/-- The witness the channel's own code builds. -/
def honestStack : List Bytes := symUpdateWitness sigOpener sigAccepter state

/-- The signed bytes cut after two bytes of the program: the rest item takes the other 62. -/
def recutStack : List Bytes :=
  [List.replicate 30 0xaa ++ state.rest.bytes, le8s state.n, sigOpener, sigAccepter]

/-- The output of the recut spend: a v1 program of two bytes, which anyone can spend. -/
def recutSpk : Bytes := witnessSpk 1 [0xaa, 0xaa]

/-- The spend the channel's own code builds from the kickoff meets the hypotheses. -/
theorem update_pays_signed_state_honest :
    satisfies (env (witnessSpk 1 state.program.bytes)) (symLeafUpd channel (-1)) honestStack = true ∧
      (PaysSignedState (env (witnessSpk 1 state.program.bytes)) (-1) (fun _ => [state]) ↔
        (witnessRest honestStack).length = 32) := by
  have hsat : satisfies (env (witnessSpk 1 state.program.bytes)) (symLeafUpd channel (-1))
      honestStack = true := by decide +kernel
  refine ⟨hsat, update_pays_signed_state_iff (by decide) (signsOnly _) ?_ hsat⟩
  intro side st hst
  obtain rfl := mem_singleton.mp hst
  exact fun _ => by decide +kernel

/-- The signatures of the one signed state carry an output with another program: a valid spend of
`symLeafUpd channel 0` pays the two-byte v1 program `aaaa`. -/
theorem update_recut :
    satisfies (env recutSpk) (symLeafUpd channel 0) recutStack = true ∧
      SignsOnly (env recutSpk) channel (fun _ => [state]) ∧
      NoUpdateCollision (env recutSpk) channel (fun _ => [state]) recutStack ∧
      ¬ PaysSignedState (env recutSpk) 0 (fun _ => [state]) := by
  refine ⟨by decide +kernel, signsOnly _, ?_, ?_⟩
  · intro side st hst
    obtain rfl := mem_singleton.mp hst
    exact fun _ => by decide +kernel
  · rintro ⟨st, out, t, hst, -, -, hout, -, hspk, -, -⟩
    obtain rfl := mem_singleton.mp hst
    obtain rfl : _ = out := some.inj hout
    exact absurd hspk (by decide)

end UpdateExample

end SeqLN.Sym
