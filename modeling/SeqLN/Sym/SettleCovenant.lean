import SeqLN.Lib.SpendScript
import SeqLN.Sym.Scripts

/-!
# What the settlement leaf enforces

`symLeafSettle` and `symLeafSplit` hash the outputs of the spending transaction field by field
(`hashOutputs`) and compare with a digest computed from a list of outputs. The digest fixes the number
of outputs and, of each, the asset, the explicit value and the string `program || version`
(`hashed_outputs_eq`), but not the scriptPubKey: the version is a script number of no or one byte, so a
v0 program that ends in a byte from 1 to 16 hashes as a shorter program of that version.
`UnambiguousProgram` lists the programs that have no second reading, and `settle_exact_iff` says that
the leaf enforces a settlement exactly when each of its outputs is one of them.
-/

namespace SeqLN.Sym

open Tapscript List Option

/-! ### The outputs a digest is made of -/

/-- An output as a leaf's digest lists it. -/
structure Listed where
  asset : ByteString 32
  amount : ℕ
  spk : Bytes

namespace Listed

/-- A listed output a transaction can have: the amount fits its field, and the scriptPubKey is a
witness program. -/
def Ok (o : Listed) : Prop := o.amount < 2 ^ 64 ∧ (witnessProgram o.spk).isSome = true

/-- The string `program || version` of the listed scriptPubKey. -/
def preimage (o : Listed) : Bytes :=
  (segwitProgram o.spk).2 ++ versionBytes (segwitProgram o.spk).1

/-- What the output adds to the digest. -/
def fields (H : Hashing) (o : Listed) : Bytes :=
  outputFields H o.asset o.amount (segwitProgram o.spk).2 (versionBytes (segwitProgram o.spk).1)

/-- The output of a transaction that is meant, with explicit asset and value. -/
def txOut (o : Listed) : TxOut :=
  ⟨.explicit o.asset, .explicit (UInt64.ofNat o.amount), o.spk⟩

end Listed

/-- The program and version of a scriptPubKey as the leaf concatenates them. -/
def spkPreimage (H : Hashing) (spk : Bytes) : Bytes := (spkFields H spk).1 ++ (spkFields H spk).2

/-- What an output of the transaction adds to the string the leaf hashes. -/
def txFields (H : Hashing) (o : TxOut) : Bytes :=
  o.asset.fields.1 ++ o.asset.fields.2 ++ (o.value.fields.1 ++ o.value.fields.2) ++
    H.sha256 (spkPreimage H o.spk)

/-! ### Running the hash -/

variable {v : ℕ} {l : List TxOut}

variable {E : Env}

lemma length_assetFields (a : Asset) : a.fields.1.length = 32 ∧ a.fields.2.length = 1 := by
  cases a <;> simp [Asset.fields]

lemma length_valueFields (v : Value) :
    (v.fields.1.length = 8 ∨ v.fields.1.length = 32) ∧ v.fields.2.length = 1 := by
  cases v <;> simp [Value.fields]

lemma versionBytes_eq (h : v ≤ 16) : versionBytes v = scriptNum v := by
  interval_cases v <;> decide

lemma length_scriptNum_version (h : v ≤ 16) : (scriptNum v).length ≤ 1 := by
  interval_cases v <;> decide

lemma length_spkPreimage_le (H : Hashing) (spk : Bytes) : (spkPreimage H spk).length ≤ 41 := by
  unfold spkPreimage spkFields
  split
  · next v p h =>
    obtain ⟨-, hv, -, hp⟩ := eq_witnessSpk_of_witnessProgram h
    have := length_scriptNum_version hv
    simp only [length_append]
    omega
  · simp [H.sha256_length]

/-- The two elements of a field of an output, joined. -/
def joined (H : Hashing) (o : TxOut) (f : Field) : Bytes := (o.fields H f).1 ++ (o.fields H f).2

lemma length_joined_le (H : Hashing) (o : TxOut) (f : Field) :
    (joined H o f).length ≤ maxElement := by
  cases f with
  | asset =>
    have := length_assetFields o.asset
    simp only [joined, TxOut.fields, length_append, maxElement]
    omega
  | value =>
    have := length_valueFields o.value
    simp only [joined, TxOut.fields, length_append, maxElement]
    omega
  | scriptPubKey =>
    have := length_spkPreimage_le H o.spk
    simp only [spkPreimage, length_append] at this
    simp only [joined, TxOut.fields, length_append, maxElement]
    omega

/-- One field of output `i`, read and joined. An index too large to be pushed is also too large to
be read. -/
theorem run_inspect_cat (f : Field) (i : ℕ) (os : List Op) (s : List Bytes) :
    run E (pushNum i :: .inspectOutput f :: .cat :: os) s =
      (outputAt E i).bind fun o => run E os (joined E.hash o f :: s) := by
  by_cases hlen : (scriptNum i).length ≤ maxElement
  · rw [pushNum, run_push hlen, run_inspectOutput]
    refine congrArg _ (funext fun o => ?_)
    rw [pushFields, run_cat]
    exact if_pos (length_joined_le E.hash o f)
  · have hnone : outputAt E i = none := by
      have h4 : ¬ (scriptNum i).length ≤ 4 := fun h => hlen (h.trans (by decide))
      simp [outputAt, readIndex, readScriptNum_scriptNum, h4]
    rw [hnone, pushNum, run_push_of_long hlen]
    rfl

/-- The context a leaf hashes an output into: none yet for the first one. -/
def running (E : Env) (first : Bool) (m : Bytes) (s : List Bytes) : List Bytes :=
  if first then s else E.hash.context m :: s

/-- What the leaf leaves of the hash after an output: the digest after the last one. -/
def hashed (E : Env) (last : Bool) (m : Bytes) : Bytes :=
  if last then E.hash.sha256 m else E.hash.context m

lemma run_hashOutput (first last : Bool) (i : ℕ) (os : List Op) (m : Bytes) (s : List Bytes)
    (hm : first = true → m = []) :
    run E (hashOutput first last i ++ os) (running E first m s) =
      (outputAt E i).bind fun o => run E os (hashed E last (m ++ txFields E.hash o) :: s) := by
  have hopen : ∀ x os', run E ((if first then .sha256Initialize else .sha256Update) :: os')
      (x :: running E first m s) = run E os' (E.hash.context (m ++ x) :: s) := by
    intro x os'
    cases first with
    | true => simp [running, hm rfl]
    | false => simp [running]
  have hclose : ∀ x m' os', run E ((if last then .sha256Finalize else .sha256Update) :: os')
      (x :: E.hash.context m' :: s) = run E os' (hashed E last (m' ++ x) :: s) := by
    intro x m' os'
    cases last <;> simp [hashed]
  simp only [hashOutput, cons_append, nil_append, run_inspect_cat, hopen,
    run_sha256Update, run_sha256, hclose]
  cases outputAt E i with
  | none => rfl
  | some o => simp [joined, TxOut.fields, txFields, spkPreimage]

/-- The outputs at `m` consecutive indices. -/
def outputsFrom (E : Env) : ℕ → ℕ → Option (List TxOut)
  | _, 0 => some []
  | i, m + 1 => (outputAt E i).bind fun o => (outputsFrom E (i + 1) m).map (o :: ·)

/-- The hash of `n + 1` outputs is the hash of their fields in order. -/
theorem run_hashOutputs (first : Bool) (i n : ℕ) (os : List Op) (m : Bytes) (s : List Bytes)
    (hm : first = true → m = []) :
    run E (hashOutputs first i (n + 1) ++ os) (running E first m s) =
      (outputsFrom E i (n + 1)).bind fun l =>
        run E os (E.hash.sha256 (m ++ l.flatMap (txFields E.hash)) :: s) := by
  -- each output extends the bytes hashed so far, so the induction carries them as `m`
  induction n generalizing first i m with
  | zero =>
    rw [hashOutputs, hashOutputs, append_nil, run_hashOutput _ _ _ _ _ _ hm]
    cases h : outputAt E i <;> simp [outputsFrom, h, hashed]
  | succ n ih =>
    rw [hashOutputs, append_assoc, run_hashOutput _ _ _ _ _ _ hm, outputsFrom]
    cases h : outputAt E i with
    | none => rfl
    | some o =>
      have := ih false (i + 1) (m ++ txFields E.hash o) (by simp)
      simp only [running, Bool.false_eq_true, if_false] at this
      simp only [bind_some, hashed, Nat.succ_ne_zero, decide_false, Bool.false_eq_true,
        if_false, this]
      cases outputsFrom E (i + 1) (n + 1) <;> simp

/-- The outputs read are those of the transaction from the index on. -/
theorem outputsFrom_eq_some {i n : ℕ} (h : outputsFrom E i n = some l) :
    l.length = n ∧ (E.tx.outputs.drop i).take n = l := by
  induction n generalizing i l with
  | zero => simp_all [outputsFrom]
  | succ n ih =>
    obtain ⟨o, ho, h⟩ := bind_eq_some_iff.mp h
    obtain ⟨l', hl', rfl⟩ := map_eq_some_iff.mp h
    obtain ⟨hlen, htake⟩ := ih hl'
    obtain ⟨hi, hget⟩ := List.getElem?_eq_some_iff.mp (getElem?_of_outputAt ho)
    refine ⟨by simp [hlen], ?_⟩
    rw [drop_eq_getElem_cons hi, take_succ_cons, hget, htake]

lemma outputsFrom_eq {i : ℕ} {tail : List TxOut} (h : E.tx.outputs.drop i = l ++ tail)
    (hi : i + l.length ≤ 2 ^ 31) : outputsFrom E i l.length = some l := by
  induction l generalizing i with
  | nil => rfl
  | cons o l ih =>
    have hget : E.tx.outputs[i]? = some o := by
      rw [← List.head?_drop, h]
      rfl
    have hdrop : E.tx.outputs.drop (i + 1) = l ++ tail := by
      rw [← drop_drop, h]
      rfl
    have hlen : (o :: l).length = l.length + 1 := rfl
    rw [hlen, outputsFrom, outputAt_eq (by omega), hget, bind_some,
      ih hdrop (by omega)]
    rfl

/-! ### What the digest fixes -/

variable {o : Listed} {ls : List Listed}

variable {H : Hashing}

lemma segwitProgram_of_witnessProgram {spk p : Bytes} (h : witnessProgram spk = some (v, p)) :
    segwitProgram spk = (v, p) := by
  obtain ⟨rfl, hv, -, -⟩ := eq_witnessSpk_of_witnessProgram h
  by_cases h0 : v = 0
  · simp [segwitProgram, witnessSpk, h0]
  · have hop : (UInt8.ofNat (0x50 + v)).toNat = 0x50 + v :=
      UInt8.toNat_ofNat_of_lt' (by simp [UInt8.size]; omega)
    have hne : UInt8.ofNat (0x50 + v) ≠ 0 := by
      intro hz
      have h00 : (0 : UInt8).toNat = 0 := rfl
      rw [hz] at hop
      omega
    simp only [segwitProgram, witnessSpk, if_neg h0, getD_cons_zero, if_neg hne, hop]
    simp

lemma spkPreimage_of_witnessProgram {spk p : Bytes} (h : witnessProgram spk = some (v, p)) :
    spkPreimage H spk = p ++ versionBytes v := by
  obtain ⟨-, hv, -, -⟩ := eq_witnessSpk_of_witnessProgram h
  simp [spkPreimage, spkFields, h, versionBytes_eq hv]

/-- Of a listed output, the machine reads the string the digest was made of. -/
theorem Listed.Ok.spkPreimage (h : o.Ok) : spkPreimage H o.spk = o.preimage := by
  obtain ⟨⟨v, p⟩, hw⟩ := isSome_iff_exists.mp h.2
  rw [spkPreimage_of_witnessProgram hw, Listed.preimage, segwitProgram_of_witnessProgram hw]

lemma length_listedFields (o : Listed) : (o.fields H).length = 74 := by
  simp [Listed.fields, outputFields, H.sha256_length]

lemma le_length_txFields (o : TxOut) : 74 ≤ (txFields H o).length := by
  have ha := length_assetFields o.asset
  have hv := length_valueFields o.value
  simp only [txFields, length_append, H.sha256_length]
  omega

/-- The transaction's output that is meant adds to the hash what the digest lists. -/
theorem txFields_txOut (h : o.Ok) : txFields H o.txOut = o.fields H := by
  have hamt : (UInt64.ofNat o.amount).toNat = o.amount := UInt64.toNat_ofNat_of_lt' h.1
  simp [txFields, Listed.txOut, Asset.fields, Value.fields, hamt, h.spkPreimage, Listed.fields,
    outputFields, Listed.preimage]

/-- An output that adds what a listed one does has its asset and its explicit value, and a
scriptPubKey with the same hash of program and version. -/
theorem eq_of_txFields_eq {o : TxOut} {p : Listed} (hp : p.amount < 2 ^ 64)
    (h : txFields H o = p.fields H) :
    o.asset = .explicit p.asset ∧ o.value = .explicit (UInt64.ofNat p.amount) ∧
      H.sha256 (spkPreimage H o.spk) = H.sha256 p.preimage := by
  have ha := length_assetFields o.asset
  have hv := length_valueFields o.value
  have hamt : (UInt64.ofNat p.amount).toNat = p.amount := UInt64.toNat_ofNat_of_lt' hp
  have hfields : p.fields H =
      p.asset.bytes ++ [1] ++ (leBytes 8 p.amount ++ [1]) ++ H.sha256 p.preimage := by
    simp [Listed.fields, outputFields, Listed.preimage]
  rw [hfields, txFields] at h
  obtain ⟨h, hspk⟩ := append_inj' h (by simp [H.sha256_length])
  obtain ⟨hasset, hvalue⟩ := append_inj h (by simp [ha])
  obtain ⟨ha1, ha2⟩ := append_inj hasset (by simp [ha])
  obtain ⟨hv1, hv2⟩ := append_inj' hvalue (by simp [hv])
  refine ⟨Asset.fields_inj (Prod.ext ha1 ha2), Value.fields_inj (Prod.ext ?_ hv2), hspk⟩
  rw [hv1]
  simp [Value.fields, hamt]

/-- **What the digest fixes.** As many outputs as listed, hashing to the same string, agree with the
listed ones on asset and value, and on the hash of program and version. -/
theorem hashed_outputs_eq (hok : ∀ p ∈ ls, p.Ok) (hlen : l.length = ls.length)
    (h : l.flatMap (txFields H) = ls.flatMap (Listed.fields H)) :
    List.Forall₂ (fun o p => o.asset = .explicit p.asset ∧
      o.value = .explicit (UInt64.ofNat p.amount) ∧
      H.sha256 (spkPreimage H o.spk) = H.sha256 p.preimage) l ls := by
  have hparts := forall₂_of_flatMap_eq hlen (fun o _ => le_length_txFields o)
    (fun p _ => length_listedFields p) h
  exact ((forall₂_and_left ls l).mpr ⟨hok, hparts.flip⟩).flip.imp fun o p hop =>
    eq_of_txFields_eq hop.1.1 hop.2

/-! ### Programs with one reading -/

/-- The programs no other scriptPubKey hashes like. A v0 program does not end in a byte that is the
version of the program before it, and is not the hash of a non-witness script followed by the
`0x81` that introspection pushes over it; a program of another version is so long that with its
version it is no v0 program. -/
def UnambiguousProgram (H : Hashing) (v : ℕ) (p : Bytes) : Prop :=
  if v = 0 then
    (p.length = 2 ∨ ∀ q b, p = q ++ [b] → ¬ (1 ≤ b.toNat ∧ b.toNat ≤ 16)) ∧
      ∀ spk, witnessProgram spk = none → H.sha256 spk ++ [0x81] ≠ p
  else p.length = 40

lemma versionBytes_of_pos (h : v ≠ 0) : versionBytes v = [UInt8.ofNat v] := if_neg h

lemma toNat_version (h : v ≤ 16) : (UInt8.ofNat v).toNat = v :=
  UInt8.toNat_ofNat_of_lt' (by simp [UInt8.size]; omega)

/-- Two witness scriptPubKeys with different versions are different. -/
theorem witnessSpk_ne {v' : ℕ} {p p' : Bytes} (hv : v ≤ 16) (hv' : v' ≤ 16) (hp : 2 ≤ p.length)
    (hp40 : p.length ≤ 40) (hp' : 2 ≤ p'.length) (hp40' : p'.length ≤ 40) (h : v ≠ v') :
    witnessSpk v p ≠ witnessSpk v' p' := by
  intro he
  have := witnessProgram_witnessSpk hv hp hp40
  rw [he, witnessProgram_witnessSpk hv' hp' hp40'] at this
  exact h (Prod.mk.inj (some.inj this)).1.symm

/-- A program has one reading exactly when it is unambiguous. -/
theorem forall_spkPreimage_iff {p : Bytes} (hv : v ≤ 16) (h2 : 2 ≤ p.length) (h40 : p.length ≤ 40) :
    (∀ spk, spkPreimage H spk = p ++ versionBytes v → spk = witnessSpk v p) ↔
      UnambiguousProgram H v p := by
  unfold UnambiguousProgram
  constructor
  · intro h
    split
    · next h0 =>
      subst h0
      refine ⟨or_iff_not_imp_left.mpr fun hne q b hqb hb => ?_, fun spk hspk hsha => ?_⟩
      · -- the last byte read as the version of the bytes before it
        have hq : p.length = q.length + 1 := by simp [hqb]
        have hw := witnessProgram_witnessSpk hb.2 (p := q) (by omega) (by omega)
        have hpre : spkPreimage H (witnessSpk b.toNat q) = p ++ versionBytes 0 := by
          rw [spkPreimage_of_witnessProgram hw, versionBytes_of_pos (by omega),
            UInt8.ofNat_toNat, hqb]
          simp [versionBytes]
        exact witnessSpk_ne hb.2 hv (by omega) (by omega) h2 h40 (by omega) (h _ hpre)
      · have hpre : spkPreimage H spk = p ++ versionBytes 0 := by
          simp [spkPreimage, spkFields, hspk, hsha, versionBytes]
        rw [h _ hpre, witnessProgram_witnessSpk hv h2 h40] at hspk
        cases hspk
    · next h0 =>
      -- the version read as the last byte of a v0 program
      by_contra hne
      have hlen : (p ++ versionBytes v).length = p.length + 1 := by
        simp [versionBytes_of_pos h0]
      have hw := witnessProgram_witnessSpk (v := 0) (p := p ++ versionBytes v) (by omega)
        (by omega) (by omega)
      have hpre : spkPreimage H (witnessSpk 0 (p ++ versionBytes v)) = p ++ versionBytes v := by
        rw [spkPreimage_of_witnessProgram hw]
        simp [versionBytes]
      exact witnessSpk_ne (by omega) hv (by omega) (by omega) h2 h40 (Ne.symm h0) (h _ hpre)
  · intro h spk hspk
    cases hw : witnessProgram spk with
    | none =>
      have hspk : H.sha256 spk ++ [0x81] = p ++ versionBytes v := by
        rw [← hspk]
        simp [spkPreimage, spkFields, hw]
      split at h
      · next h0 => exact absurd (by simpa [versionBytes, h0] using hspk) (h.2 spk hw)
      · next h0 =>
        -- no version is the byte pushed for a non-witness script
        rw [versionBytes_of_pos h0] at hspk
        have hb := congrArg UInt8.toNat (List.cons.inj (append_inj' hspk rfl).2).1
        rw [toNat_version hv] at hb
        have h81 : (0x81 : UInt8).toNat = 129 := rfl
        omega
    | some vp =>
      obtain ⟨v', p'⟩ := vp
      obtain ⟨rfl, hv', h2', h40'⟩ := eq_witnessSpk_of_witnessProgram hw
      rw [spkPreimage_of_witnessProgram hw] at hspk
      by_cases h0 : v = 0 <;> by_cases h0' : v' = 0
      · subst h0 h0'
        rw [append_cancel_right hspk]
      · rw [if_pos h0] at h
        subst h0
        rw [versionBytes_of_pos h0', versionBytes, if_pos rfl, append_nil] at hspk
        have hlen := congrArg List.length hspk
        rcases h.1 with hp | hp
        · simp at hlen
          omega
        · exact absurd ⟨by rw [toNat_version hv']; omega, by rw [toNat_version hv']; omega⟩
            (hp _ _ hspk.symm)
      · rw [if_neg h0] at h
        subst h0'
        have hlen := congrArg List.length hspk
        simp [versionBytes, h0] at hlen
        omega
      · rw [versionBytes_of_pos h0, versionBytes_of_pos h0'] at hspk
        obtain ⟨rfl, hvv⟩ := append_inj' hspk rfl
        have hb := congrArg UInt8.toNat (List.cons.inj hvv).1
        rw [toNat_version hv, toNat_version hv'] at hb
        rw [hb]

/-- The scriptPubKey of a listed output has one reading. -/
def Listed.Unambiguous (H : Hashing) (o : Listed) : Prop :=
  UnambiguousProgram H (segwitProgram o.spk).1 (segwitProgram o.spk).2

lemma Listed.Ok.unambiguous_iff (h : o.Ok) :
    o.Unambiguous H ↔ ∀ spk, SeqLN.Sym.spkPreimage H spk = o.preimage → spk = o.spk := by
  obtain ⟨⟨v, p⟩, hw⟩ := isSome_iff_exists.mp h.2
  obtain ⟨hspk, hv, h2, h40⟩ := eq_witnessSpk_of_witnessProgram hw
  rw [Listed.Unambiguous, Listed.preimage, segwitProgram_of_witnessProgram hw, hspk]
  exact (forall_spkPreimage_iff hv h2 h40).symm

/-! ### Leaves that enforce a list of outputs -/

variable {first : ℕ}

/-- The outputs of the transaction from index `first` on are the listed ones, in order. -/
def OutputsExactly (E : Env) (first : ℕ) (ls : List Listed) : Prop :=
  (E.tx.outputs.drop first).take ls.length = ls.map Listed.txOut

/-- SHA256 does not collide on what the leaf and the digest hash: on the two whole strings, and on
the programs of the outputs that stand in the same place. -/
def NoOutputCollision (E : Env) (first : ℕ) (ls : List Listed) : Prop :=
  E.hash.NoCollision (((E.tx.outputs.drop first).take ls.length).flatMap (txFields E.hash))
      (ls.flatMap (Listed.fields E.hash)) ∧
    ∀ q ∈ ((E.tx.outputs.drop first).take ls.length).zip ls,
      E.hash.NoCollision (spkPreimage E.hash q.1.spk) q.2.preimage

/-- A script lets its output be spent only by transactions with the listed outputs. -/
def Enforces (H : Hashing) (script : List Op) (first : ℕ) (ls : List Listed) : Prop :=
  ∀ E stack, E.hash = H → NoOutputCollision E first ls → satisfies E script stack = true →
    OutputsExactly E first ls

/-- The part of a leaf that both kinds share: the outputs hashed and compared with the digest. -/
def hashLeaf (H : Hashing) (first : ℕ) (ls : List Listed) : List Op :=
  hashOutputs true first ls.length ++ [.push (H.sha256 (ls.flatMap (Listed.fields H))), .equal]

/-- The leaf compares the hash of the outputs with that of the list. -/
lemma run_hashLeaf (hne : ls ≠ []) (s : List Bytes) :
    run E (hashLeaf E.hash first ls) s =
      (outputsFrom E first ls.length).map fun l =>
        ofBool (E.hash.sha256 (l.flatMap (txFields E.hash)) =
          E.hash.sha256 (ls.flatMap (Listed.fields E.hash))) :: s := by
  obtain ⟨n, hn⟩ := Nat.exists_eq_succ_of_ne_zero (mt length_eq_zero_iff.mp hne)
  have hrun := run_hashOutputs (E := E) true first n
    [.push (E.hash.sha256 (ls.flatMap (Listed.fields E.hash))), .equal] [] s (fun _ => rfl)
  have hlen : (E.hash.sha256 (ls.flatMap (Listed.fields E.hash))).length ≤ maxElement := by
    rw [E.hash.sha256_length]
    decide
  simp only [running, if_true, run_push hlen, run_equal, run_nil, nil_append] at hrun
  rw [hashLeaf, hn, hrun]
  cases outputsFrom E first (n + 1) <;> rfl

/-- Outputs that hash to the digest are the listed ones, where those have one reading. -/
theorem outputsExactly_of_run (hok : ∀ p ∈ ls, p.Ok) (hne : ls ≠ [])
    (hun : ∀ p ∈ ls, p.Unambiguous E.hash) (hcol : NoOutputCollision E first ls) {s : List Bytes}
    {x : Bytes} (hrun : run E (hashLeaf E.hash first ls) s = some [x]) (hx : castToBool x = true) :
    OutputsExactly E first ls := by
  rw [run_hashLeaf hne] at hrun
  obtain ⟨l, hl, hx'⟩ := map_eq_some_iff.mp hrun
  obtain ⟨rfl, rfl⟩ : ofBool _ = x ∧ s = [] := by simpa using hx'
  rw [castToBool_ofBool, decide_eq_true_eq] at hx
  obtain ⟨hlen, htake⟩ := outputsFrom_eq_some hl
  rw [NoOutputCollision, htake] at hcol
  rw [OutputsExactly, htake]
  obtain ⟨-, hparts⟩ := forall₂_iff_zip.mp (hashed_outputs_eq hok hlen (hcol.1 hx))
  rw [← forall₂_eq_eq_eq, forall₂_map_right_iff, forall₂_iff_zip]
  -- place by place: no collision gives the string, and one reading gives the scriptPubKey
  refine ⟨hlen, fun {o p} hop => ?_⟩
  have hp : p ∈ ls := (of_mem_zip hop).2
  obtain ⟨hasset, hvalue, hspk⟩ := hparts hop
  have hspk := ((hok p hp).unambiguous_iff.mp (hun p hp)) _ (hcol.2 (o, p) hop hspk)
  obtain ⟨a, v, k⟩ := o
  simp only at hasset hvalue hspk
  rw [hasset, hvalue, hspk, Listed.txOut]

/-- Where a listed output has a second reading, other outputs hash to the digest: to the very same
strings. -/
theorem exists_second_outputs (hok : ∀ p ∈ ls, p.Ok) (hamb : ¬ ∀ p ∈ ls, p.Unambiguous H) :
    ∃ l : List TxOut, l ≠ ls.map Listed.txOut ∧
      List.Forall₂ (fun o p => txFields H o = p.fields H ∧ spkPreimage H o.spk = p.preimage) l ls := by
  induction ls with
  | nil => simp at hamb
  | cons p ls ih =>
    have hp : p.Ok := hok p mem_cons_self
    have hls : ∀ q ∈ ls, q.Ok := fun q hq => hok q (mem_cons_of_mem _ hq)
    by_cases hun : p.Unambiguous H
    · obtain ⟨l, hl, hparts⟩ := ih hls fun h => hamb (forall_mem_cons.mpr ⟨hun, h⟩)
      exact ⟨p.txOut :: l, by simpa using hl, .cons ⟨txFields_txOut hp, hp.spkPreimage⟩ hparts⟩
    · rw [hp.unambiguous_iff] at hun
      obtain ⟨spk, hpre, hne⟩ : ∃ spk, spkPreimage H spk = p.preimage ∧ spk ≠ p.spk := by
        simpa using hun
      refine ⟨{ p.txOut with spk := spk } :: ls.map Listed.txOut, ?_, .cons ⟨?_, hpre⟩ ?_⟩
      · intro h
        exact hne (congrArg TxOut.spk (List.cons.inj h).1)
      · rw [← txFields_txOut hp, txFields, txFields, hpre]
        show _ = _ ++ H.sha256 (spkPreimage H p.spk)
        rw [hp.spkPreimage]
      · rw [forall₂_map_left_iff]
        exact forall₂_same.mpr fun q hq => ⟨txFields_txOut (hls q hq), (hls q hq).spkPreimage⟩

/-- **A leaf that hashes its outputs enforces them exactly when each has one reading.** The leaf may
start with opcodes `guard` that only let some transactions pass: none of them makes a second reading
fail. -/
theorem enforces_iff {guard : List Op} (hok : ∀ p ∈ ls, p.Ok)
    (hne : ls ≠ []) (hbound : first + ls.length ≤ 2 ^ 31)
    (hguard : ∀ (E : Env) os s r, run E (guard ++ os) s = some r → run E os s = some r)
    (hpass : ∀ l : List TxOut, ∃ E : Env, E.hash = H ∧ E.tx.outputs.drop first = l ∧
      ∀ os s, run E (guard ++ os) s = run E os s) :
    Enforces H (guard ++ hashLeaf H first ls) first ls ↔ ∀ p ∈ ls, p.Unambiguous H := by
  constructor
  · intro h
    by_contra hamb
    obtain ⟨l, hl, hparts⟩ := exists_second_outputs hok hamb
    obtain ⟨E, rfl, houts, hrun⟩ := hpass l
    have hlen : l.length = ls.length := hparts.length_eq
    have hstream : l.flatMap (txFields E.hash) = ls.flatMap (Listed.fields E.hash) := by
      clear hl houts hlen h hok hne hbound hamb
      induction hparts with
      | nil => rfl
      | cons hop _ ih => rw [flatMap_cons, flatMap_cons, hop.1, ih]
    have htake : (E.tx.outputs.drop first).take ls.length = l := by
      rw [houts, ← hlen, take_length]
    refine hl (htake.symm.trans (h E [] rfl ⟨?_, ?_⟩ ?_))
    · rw [htake, hstream]
      exact .refl _ _
    · rw [htake]
      intro q hq _
      exact ((forall₂_iff_zip.mp hparts).2 hq).2
    · have hread : outputsFrom E first ls.length = some l := by
        rw [← hlen]
        exact outputsFrom_eq (houts.trans (append_nil l).symm) (by omega)
      refine satisfies_iff.mpr ⟨by simp, ofBool true, ?_, rfl⟩
      rw [hrun, run_hashLeaf hne, hread]
      simp [hstream]
  · rintro hun E stack rfl hcol hsat
    obtain ⟨-, x, hx, htrue⟩ := satisfies_iff.mp hsat
    exact outputsExactly_of_run hok hne hun hcol (hguard _ _ _ _ hx) htrue

/-! ### The settlement leaf and the split leaf -/

/-- A settlement output as its digest lists it. -/
def SymOutput.listed (sc : SymChannel) (o : SymOutput) : Listed :=
  ⟨o.asset.getD sc.asset, o.amount, o.spk⟩

/-- A factory's slot as its digest lists it. -/
def SymFactorySlot.listed (asset : ByteString 32) (s : SymFactorySlot) : Listed :=
  ⟨asset, s.amount, witnessSpk 1 s.program.bytes⟩

lemma symLeafSettle_eq (sc : SymChannel) (outs : List SymOutput) :
    symLeafSettle H sc outs =
      settleGuard sc ++ hashLeaf H (settleFirst sc) (outs.map (SymOutput.listed sc)) := by
  simp only [symLeafSettle, hashLeaf, symSettleDigest, length_map, flatMap_map]
  rfl

lemma segwitProgram_slot (s : SymFactorySlot) :
    segwitProgram (witnessSpk 1 s.program.bytes) = (1, s.program.bytes) :=
  segwitProgram_of_witnessProgram
    (witnessProgram_witnessSpk (by omega) (by simp) (by simp))

lemma symLeafSplit_eq (asset : ByteString 32) (slots : List SymFactorySlot) :
    symLeafSplit H asset slots = [] ++ hashLeaf H 0 (slots.map (SymFactorySlot.listed asset)) := by
  simp only [symLeafSplit, hashLeaf, symSplitDigest, length_map, flatMap_map,
    nil_append, Listed.fields, SymFactorySlot.listed, segwitProgram_slot]
  rfl

lemma SymFactorySlot.listed_ok {asset : ByteString 32} {s : SymFactorySlot}
    (h : s.amount < 2 ^ 64) : (s.listed asset).Ok :=
  ⟨h, by simp [SymFactorySlot.listed, witnessProgram_witnessSpk]⟩

/-- The head of the settlement leaf lets the rest run on the stack it found. -/
theorem run_of_run_settleGuard {sc : SymChannel} {os : List Op} {s r : List Bytes}
    (h : run E (settleGuard sc ++ os) s = some r) : run E os s = some r := by
  unfold settleGuard at h
  split at h
  · simp only [append_assoc, cons_append] at h
    obtain ⟨-, -, -, -, -, h⟩ := of_run_keepField h
    obtain ⟨-, -, -, -, -, h⟩ := of_run_keepField h
    obtain ⟨-, -, -, -, -, h⟩ := of_run_keepField h
    exact h
  · have hd : sc.delay.toNat < 2 ^ 32 := sc.delay.toNat_lt.trans (by decide)
    rw [cons_append, run_pushNum hd, cons_append, run_checkSequenceVerify (readScriptNum_lock hd)] at h
    split at h
    · simpa using h
    · simp at h

/-- A spend that passes the head of the settlement leaf, whatever the settlement outputs: the
marker, where there is one, is kept at the first index, and the sequence is the delay. -/
def settleSpend (H : Hashing) (sc : SymChannel) (marker : TxOut) (l : List TxOut) : Env where
  hash := H
  hash160 _ := .replicate 20 0
  verifies _ _ _ := false
  signed _ _ := false
  isMul _ _ _ := false
  tx :=
    { version := 2
      lockTime := 0
      inputs := [⟨UInt32.ofNat sc.delay.toNat, marker⟩]
      outputs := if sc.hasClock then marker :: l else l }
  idx := 0

lemma run_settleSpend (sc : SymChannel) (marker : TxOut) (l : List TxOut) (os : List Op)
    (s : List Bytes) :
    run (settleSpend H sc marker l) (settleGuard sc ++ os) s =
      run (settleSpend H sc marker l) os s := by
  have hspent : spentAt (settleSpend H sc marker l) 0 = some marker := spentAt_eq (by decide)
  unfold settleGuard
  split
  · next hc =>
    have hout : outputAt (settleSpend H sc marker l) 0 = some marker := by
      rw [outputAt_eq (by decide)]
      simp [settleSpend, hc]
    have hidx : (settleSpend H sc marker l).idx = 0 := rfl
    simp only [append_assoc, cons_append, nil_append, run_keepField, hidx, hout,
      hspent, bind_some, if_true]
  · have hd : sc.delay.toNat < 2 ^ 16 := sc.delay.toNat_lt
    have hok : sequenceOk (settleSpend H sc marker l) sc.delay.toNat = true := by
      have h31 : sc.delay.toNat.testBit 31 = false := Nat.testBit_lt_two_pow (by omega)
      simp [sequenceOk, settleSpend, h31]
    have hd : sc.delay.toNat < 2 ^ 32 := by omega
    rw [cons_append, run_pushNum hd, cons_append, run_checkSequenceVerify (readScriptNum_lock hd),
      if_pos hok]
    rfl

/-- **The settlement leaf enforces a settlement exactly when each output's program has one reading,
and the split leaf never enforces a factory's outputs.**
Source: `common/sym_scripts.c`, `sym_leaf_settle`; `common/sym_factory.c`, `sym_leaf_split` -/
theorem settle_exact_iff (H : Hashing) (sc : SymChannel) (outs : List SymOutput)
    (hne : outs ≠ []) (hok : ∀ o ∈ outs, (o.listed sc).Ok)
    (hbound : settleFirst sc + outs.length ≤ 2 ^ 31) :
    (Enforces H (symLeafSettle H sc outs) (settleFirst sc) (outs.map (SymOutput.listed sc)) ↔
        ∀ o ∈ outs, UnambiguousProgram H (segwitProgram o.spk).1 (segwitProgram o.spk).2) ∧
      ∀ (asset : ByteString 32) (slots : List SymFactorySlot), slots ≠ [] →
        (∀ s ∈ slots, s.amount < 2 ^ 64) → slots.length ≤ 2 ^ 31 →
        ¬ Enforces H (symLeafSplit H asset slots) 0 (slots.map (SymFactorySlot.listed asset)) := by
  constructor
  · have hiff : Enforces H (settleGuard sc ++ hashLeaf H (settleFirst sc)
        (outs.map (SymOutput.listed sc))) (settleFirst sc) (outs.map (SymOutput.listed sc)) ↔
          ∀ p ∈ outs.map (SymOutput.listed sc), p.Unambiguous H := by
      refine enforces_iff (by simpa using hok) (by simpa using hne) (by simpa using hbound)
        (fun _ _ _ _ => run_of_run_settleGuard) fun l =>
          ⟨settleSpend H sc ⟨.explicit sc.asset, .explicit 0, []⟩ l, rfl, ?_, run_settleSpend sc _ l⟩
      by_cases hc : sc.hasClock <;> simp [settleSpend, settleFirst, hc]
    rw [symLeafSettle_eq, hiff, List.forall_mem_map]
    rfl
  · intro asset slots hslots hamt hlen henf
    have hslotOk : ∀ p ∈ slots.map (SymFactorySlot.listed asset), p.Ok := by
      rw [List.forall_mem_map]
      exact fun s hs => SymFactorySlot.listed_ok (hamt s hs)
    have hiff : Enforces H ([] ++ hashLeaf H 0 (slots.map (SymFactorySlot.listed asset))) 0
        (slots.map (SymFactorySlot.listed asset)) ↔
          ∀ p ∈ slots.map (SymFactorySlot.listed asset), p.Unambiguous H :=
      enforces_iff hslotOk (by simpa using hslots) (by simpa using hlen) (fun _ _ _ _ h => h)
        fun l => ⟨{ hash := H
                    hash160 := fun _ => .replicate 20 0
                    verifies := fun _ _ _ => false
                    signed := fun _ _ => false
                    isMul := fun _ _ _ => false
                    tx := ⟨2, 0, [], l⟩
                    idx := 0 }, rfl, rfl, fun _ _ => rfl⟩
    rw [symLeafSplit_eq, hiff] at henf
    obtain ⟨s, hs⟩ := exists_mem_of_ne_nil slots hslots
    have hun := henf _ (List.mem_map_of_mem hs)
    simp [Listed.Unambiguous, SymFactorySlot.listed, segwitProgram_slot, UnambiguousProgram] at hun

/-! ### A settlement and two spends -/

namespace SettleExample

/-- A channel without a clock. -/
def channel : SymChannel where
  tag := .replicate 32 0x07
  updKey
    | .opener => .replicate 32 0x01
    | .accepter => .replicate 32 0x02
  asset := .replicate 32 0x03
  delay := 144
  hasClock := false

/-- A balance paid to a v0 program of 20 bytes whose last byte is `last`. -/
def balance (last : UInt8) : SymOutput where
  kind := .balance
  side := .LOCAL
  amount := 1000000
  spk := witnessSpk 0 (List.replicate 19 0xcc ++ [last])
  asset := none
  cltvExpiry := 0

/-- A settlement that pays all to a program ending in `0xcc` is enforced only if that program has
one reading. -/
theorem settle_exact_balance :
    (Enforces .standard (symLeafSettle .standard channel [balance 0xcc]) 0
        [(balance 0xcc).listed channel] ↔
      ∀ o ∈ [balance 0xcc],
        UnambiguousProgram .standard (segwitProgram o.spk).1 (segwitProgram o.spk).2) ∧
      ∀ (asset : ByteString 32) (slots : List SymFactorySlot), slots ≠ [] →
        (∀ s ∈ slots, s.amount < 2 ^ 64) → slots.length ≤ 2 ^ 31 →
        ¬ Enforces .standard (symLeafSplit .standard asset slots) 0
          (slots.map (SymFactorySlot.listed asset)) := by
  refine settle_exact_iff .standard channel [balance 0xcc] (by simp) ?_ (by decide)
  rw [forall_mem_singleton]
  exact ⟨by decide, by decide⟩

/-- The spend of a settlement to a program ending in `0x05` that pays the v5 program of the 19 bytes
before it, which anyone can spend. -/
def stolen : Env :=
  settleSpend .standard channel ⟨.explicit channel.asset, .explicit 1000000, []⟩
    [⟨.explicit channel.asset, .explicit 1000000, witnessSpk 5 (List.replicate 19 0xcc)⟩]

/-- A transaction that satisfies the settlement leaf without the listed output. -/
theorem settle_second_reading :
    satisfies stolen (symLeafSettle .standard channel [balance 5]) [] = true ∧
      NoOutputCollision stolen 0 [(balance 5).listed channel] ∧
      ¬ OutputsExactly stolen 0 [(balance 5).listed channel] := by
  refine ⟨by decide +kernel, ⟨fun _ => by decide +kernel, ?_⟩, ?_⟩
  · intro q hq _
    obtain rfl := mem_singleton.mp hq
    decide +kernel
  · intro h
    have := congrArg (List.map TxOut.spk) h
    revert this
    decide

end SettleExample

end SeqLN.Sym
