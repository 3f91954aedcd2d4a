import SeqLN.Lib.Tapscript

/-!
# Scripts that go on

Over the machine of `Tapscript`: a `run_` lemma says that a script goes on, an `of_run_` lemma what one
that went on had on its stack.
-/

namespace SeqLN.Tapscript

open Option

/-! ### Going back

What an opcode that went on had on its stack. -/

variable {key : ByteString 32} {n : ℕ}

section opcodes

variable {E : Env} {os : List Op} {x y z : Bytes} {s r : List Bytes}

/-- An opcode that goes on under a condition goes on where it holds. -/
theorem bind_ite_pos {c : Prop} [Decidable c] {t : List Bytes} (h : c) :
    (if c then some t else none).bind (run E os) = run E os t := by
  rw [if_pos h, bind_some]

/-- An opcode that goes on under a condition went on only if it holds. -/
theorem of_bind_ite {c : Prop} [Decidable c] {t : List Bytes}
    (h : (if c then some t else none).bind (run E os) = some r) : c ∧ run E os t = some r := by
  split at h
  · next hc => exact ⟨hc, h⟩
  · cases h

/-- `OP_VERIFY` went on. -/
theorem of_run_verify (h : run E (.verify :: os) (x :: s) = some r) :
    castToBool x = true ∧ run E os s = some r := of_bind_ite h

/-- `OP_EQUALVERIFY` went on. -/
theorem of_run_equalVerify (h : run E (.equalVerify :: os) (x :: y :: s) = some r) :
    y = x ∧ run E os s = some r := of_bind_ite h

/-- `OP_CAT` went on. -/
theorem of_run_cat (h : run E (.cat :: os) (x :: y :: s) = some r) :
    run E os ((y ++ x) :: s) = some r := (of_bind_ite h).2

/-- `OP_CHECKSIGFROMSTACKVERIFY` went on. -/
theorem of_run_checkSigFromStackVerify
    (h : run E (.checkSigFromStackVerify :: os) (x :: y :: z :: s) = some r) :
    E.verifies x y z = true ∧ run E os s = some r := of_bind_ite h

/-- `OP_ECMULSCALARVERIFY` went on. -/
theorem of_run_ecMulScalarVerify
    (h : run E (.ecMulScalarVerify :: os) (x :: y :: z :: s) = some r) :
    (x.length = 32 ∧ E.isMul z y x = true) ∧ run E os s = some r := of_bind_ite h

/-- A verified `OP_GREATERTHAN64` went on. -/
theorem of_run_greaterThan64
    (h : run E (.greaterThan64 :: .verify :: os) (x :: y :: s) = some r) :
    x.length = 8 ∧ y.length = 8 ∧ readS64 x < readS64 y ∧ run E os s = some r := by
  obtain ⟨hlen, h⟩ := of_bind_ite h
  obtain ⟨hlt, h⟩ := of_run_verify h
  rw [castToBool_ofBool, decide_eq_true_eq] at hlt
  exact ⟨hlen.1, hlen.2, hlt, h⟩

/-- A verified `OP_GREATERTHANOREQUAL64` went on. -/
theorem of_run_greaterThanOrEqual64
    (h : run E (.greaterThanOrEqual64 :: .verify :: os) (x :: y :: s) = some r) :
    x.length = 8 ∧ y.length = 8 ∧ readS64 x ≤ readS64 y ∧ run E os s = some r := by
  obtain ⟨hlen, h⟩ := of_bind_ite h
  obtain ⟨hle, h⟩ := of_run_verify h
  rw [castToBool_ofBool, decide_eq_true_eq] at hle
  exact ⟨hlen.1, hlen.2, hle, h⟩

/-- A difference that is verified did not overflow. -/
theorem of_run_sub64
    (h : run E (.sub64 :: .verify :: os) (x :: y :: s) = some r) :
    x.length = 8 ∧ y.length = 8 ∧ IsS64 (readS64 y - readS64 x) ∧
      run E os (le8s (readS64 y - readS64 x) :: s) = some r := by
  obtain ⟨t, ht, h⟩ := bind_eq_some_iff.1 h
  dsimp only [step] at ht
  split_ifs at ht with hlen hrange
  · cases ht
    exact ⟨hlen.1, hlen.2, hrange, (of_run_verify h).2⟩
  · cases ht
    exact absurd (of_run_verify h).1 Bool.false_ne_true

/-- `OP_CHECKSIGVERIFY` went on. -/
theorem of_run_checkSigVerify
    (h : run E (.checkSigVerify :: os) (key.bytes :: s) = some r) :
    ∃ sig s', s = sig :: s' ∧ E.signed key.bytes sig = true ∧ run E os s' = some r := by
  match s, h with
  | [], h => cases h
  | sig :: s', h =>
    obtain ⟨hsig, h⟩ := of_bind_ite h
    refine ⟨sig, s', rfl, ?_, h⟩
    unfold checkSigResult at hsig
    rw [if_pos key.length_bytes] at hsig
    split_ifs at hsig with _ _ hsigned
    · cases hsig
    · exact hsigned

/-- A lock time is read from five bytes. -/
theorem readScriptNum_lock (hn : n < 2 ^ 32) : readScriptNum 5 (scriptNum n) = some (n : ℤ) := by
  rw [readScriptNum_scriptNum, if_pos (length_scriptNum_le (w := 4) (by omega))]

/-- `OP_CHECKLOCKTIMEVERIFY` went on. -/
theorem of_run_checkLockTimeVerify (hn : n < 2 ^ 32)
    (h : run E (.checkLockTimeVerify :: os) (scriptNum n :: s) = some r) :
    lockTimeOk E n = true ∧ run E os (scriptNum n :: s) = some r := by
  rw [run_cons, step_checkLockTimeVerify E s (readScriptNum_lock hn)] at h
  obtain ⟨hok, h⟩ := of_bind_ite h
  exact ⟨hok.2, h⟩

/-- A field was kept. -/
theorem of_run_keepField {f : Field} (h : run E (pairFields f ++ .equalVerify :: os) s = some r) :
    ∃ o t, outputAt E E.idx = some o ∧ spentAt E E.idx = some t ∧
      o.fields E.hash f = t.fields E.hash f ∧ run E os s = some r := by
  rw [run_keepField] at h
  obtain ⟨o, ho, h⟩ := bind_eq_some_iff.1 h
  obtain ⟨t, ht, h⟩ := bind_eq_some_iff.1 h
  split_ifs at h with hf
  exact ⟨o, t, ho, ht, hf, h⟩

/-- A field was kept, and nothing is left over. -/
theorem of_run_keepField_last {f : Field} (h : run E (pairFields f ++ [.equal]) s = some [x])
    (hx : castToBool x = true) :
    s = [] ∧ ∃ o t, outputAt E E.idx = some o ∧ spentAt E E.idx = some t ∧
      o.fields E.hash f = t.fields E.hash f := by
  rw [run_pairFields] at h
  obtain ⟨o, ho, h⟩ := bind_eq_some_iff.1 h
  obtain ⟨t, ht, h⟩ := bind_eq_some_iff.1 h
  split_ifs at h with hf
  rw [run_equal, run_nil, some.injEq, List.cons.injEq] at h
  rw [← h.1, castToBool_ofBool, decide_eq_true_eq] at hx
  exact ⟨h.2, o, t, ho, ht, Prod.ext hx hf.symm⟩

end opcodes

/-! ### Going forward

What an opcode does on elements that pass it, for showing that a script has a witness. -/

section forward

variable {E : Env} {os : List Op} {x y : Bytes} {s : List Bytes}

/-- `OP_VERIFY` on a true element. -/
theorem run_verify_of_true (h : castToBool x = true) :
    run E (.verify :: os) (x :: s) = run E os s := bind_ite_pos h

/-- `OP_EQUALVERIFY` on equal elements. -/
theorem run_equalVerify_self :
    run E (.equalVerify :: os) (x :: x :: s) = run E os s := bind_ite_pos rfl

/-- `OP_CAT` within the limit. -/
theorem run_cat_of_le (h : (y ++ x).length ≤ maxElement) :
    run E (.cat :: os) (x :: y :: s) = run E os ((y ++ x) :: s) := bind_ite_pos h

/-- `OP_1ADD` on an index. -/
theorem run_oneAdd {i : ℕ} (h : i < 2 ^ 31) :
    run E (.oneAdd :: os) (scriptNum i :: s) = run E os (scriptNum (i + 1) :: s) := by
  have hlen : (scriptNum i).length ≤ 4 := length_scriptNum_le (w := 3) (by omega)
  show ((readScriptNum 4 (scriptNum i)).map fun n => scriptNumInt (n + 1) :: s).bind
    (run E os) = _
  rw [readScriptNum_scriptNum, if_pos hlen, map_some, bind_some]
  rfl

variable {sig : Bytes}

/-- `OP_CHECKSIGFROMSTACKVERIFY` on a valid signature. -/
theorem run_checkSigFromStackVerify_of_verifies {key msg : Bytes} (h : E.verifies key msg sig = true) :
    run E (.checkSigFromStackVerify :: os) (key :: msg :: sig :: s) = run E os s :=
  bind_ite_pos h

/-- `OP_ECMULSCALARVERIFY` on a discrete logarithm. -/
theorem run_ecMulScalarVerify {k p q : Bytes} (hk : k.length = 32) (h : E.isMul q p k = true) :
    run E (.ecMulScalarVerify :: os) (k :: p :: q :: s) = run E os s :=
  bind_ite_pos ⟨hk, h⟩

/-- A valid signature is a true one. -/
theorem checkSigResult_of_signed (hsig : sig ≠ []) (h : E.signed key.bytes sig = true) :
    checkSigResult E key.bytes sig = some true := by
  have hkey : key.bytes ≠ [] := by
    intro h0
    have := key.length_bytes
    rw [h0] at this
    cases this
  unfold checkSigResult
  rw [if_neg hkey, if_neg hsig, if_pos key.length_bytes, if_pos h]

/-- `OP_CHECKSIGVERIFY` on a valid signature. -/
theorem run_checkSigVerify (hsig : sig ≠ []) (h : E.signed key.bytes sig = true) :
    run E (.checkSigVerify :: os) (key.bytes :: sig :: s) = run E os s :=
  bind_ite_pos (checkSigResult_of_signed hsig h)

/-- `OP_CHECKSIG` on a valid signature. -/
theorem run_checkSig (hsig : sig ≠ []) (h : E.signed key.bytes sig = true) :
    run E (.checkSig :: os) (key.bytes :: sig :: s) = run E os ([1] :: s) := by
  show ((checkSigResult E key.bytes sig).map fun ok => ofBool ok :: s).bind (run E os) = _
  rw [checkSigResult_of_signed hsig h, map_some, bind_some]
  rfl

/-- `OP_CHECKLOCKTIMEVERIFY` where the lock is open. -/
theorem run_checkLockTimeVerify_of_open (hn : n < 2 ^ 32) (h : lockTimeOk E n = true) :
    run E (.checkLockTimeVerify :: os) (scriptNum n :: s) =
      run E os (scriptNum n :: s) := by
  rw [run_cons, step_checkLockTimeVerify E s (readScriptNum_lock hn)]
  exact bind_ite_pos ⟨Int.natCast_nonneg n, h⟩

/-- A verified `OP_GREATERTHAN64` on words in that order. -/
theorem run_greaterThan64_verify (hx : x.length = 8) (hy : y.length = 8) (h : readS64 x < readS64 y) :
    run E (.greaterThan64 :: .verify :: os) (x :: y :: s) = run E os s := by
  refine (bind_ite_pos ⟨hx, hy⟩).trans (run_verify_of_true ?_)
  rw [castToBool_ofBool, decide_eq_true_eq]
  exact h

/-- A verified `OP_GREATERTHANOREQUAL64` on words in that order. -/
theorem run_greaterThanOrEqual64_verify (hx : x.length = 8) (hy : y.length = 8)
    (h : readS64 x ≤ readS64 y) :
    run E (.greaterThanOrEqual64 :: .verify :: os) (x :: y :: s) = run E os s := by
  refine (bind_ite_pos ⟨hx, hy⟩).trans (run_verify_of_true ?_)
  rw [castToBool_ofBool, decide_eq_true_eq]
  exact h

/-- A verified `OP_SUB64` on words whose difference fits. -/
theorem run_sub64 (hx : x.length = 8) (hy : y.length = 8) (h : IsS64 (readS64 y - readS64 x)) :
    run E (.sub64 :: .verify :: os) (x :: y :: s) =
      run E os (le8s (readS64 y - readS64 x) :: s) := by
  show (if x.length = 8 ∧ y.length = 8 then
    if IsS64 (readS64 y - readS64 x) then some ([1] :: le8s (readS64 y - readS64 x) :: s)
    else some ([] :: x :: y :: s) else none).bind (run E (.verify :: os)) = _
  rw [if_pos ⟨hx, hy⟩, if_pos h, bind_some, run_verify_of_true (by decide)]

end forward

/-! ### The last element -/

/-- A false element is a zero, or a negative one. -/
theorem leNat_of_castToBool_eq_false {b : Bytes} (h : castToBool b = false) (hs : signBit b = false) :
    leNat b = 0 := by
  induction b using castToBool.induct with
  | case1 => rfl
  | case2 b =>
    simp only [castToBool, Bool.and_eq_false_iff, decide_eq_false_iff_not, not_not] at h
    rcases h with rfl | rfl
    · rfl
    · exact absurd hs (by decide)
  | case3 b bs hne ih =>
    match bs, hne with
    | [], hne => exact absurd rfl hne
    | c :: bs, _ =>
      simp only [castToBool, Bool.or_eq_false_iff, decide_eq_false_iff_not, not_not] at h
      have hs' : signBit (c :: bs) = false := by
        simpa [signBit] using hs
      rw [leNat, h.1, ih h.2 hs']
      rfl

/-- A number left as the last element is true unless it is zero. -/
theorem castToBool_scriptNum : castToBool (scriptNum n) = true ↔ n ≠ 0 := by
  constructor
  · rintro h rfl
    exact absurd h (by decide)
  · intro hn
    by_contra h
    have := leNat_of_castToBool_eq_false (eq_false_of_ne_true h) (signBit_scriptNum n)
    rw [leNat_scriptNum] at this
    exact hn this

end SeqLN.Tapscript
