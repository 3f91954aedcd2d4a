import SeqLN.Tcov.CreditClaim

/-!
# Claims on a provider's output

A claim leaves the rest of the provider's output under the same script, so that a later note can be
claimed from it (`ClaimChain`). Each claim pays the difference between its note and what the claims
before it paid: the invariant `Holds` of the output that is left. `credit_chain_exact`: after any chain
the holder has received exactly the largest credit that was claimed.
-/

namespace SeqLN.Tcov

open Tapscript SeqLN.Sym

/-! ### Chains -/

/-- A credit note: the credit so far, and the hash of the payment it was issued for. -/
structure CreditNote where
  c : UInt64
  paymentHash : ByteString 32

/-- The credit key has signed only these notes. -/
def NotesOnly (E : Env) (dtag : ByteString 32) (creditKey : ByteString 33)
    (notes : List CreditNote) : Prop :=
  ∀ msg sig, E.verifies (xonly creditKey).bytes msg sig = true →
    ∃ note ∈ notes, msg = creditNoteMsg dtag (leBytes 8 note.c.toNat) note.paymentHash.bytes

/-- A transaction of the chain, with the witness of its claim. -/
abbrev Claim := Env × List Bytes

/-- Claims by a leaf from one output on, each spending what the one before it left. -/
inductive ClaimChain (leaf : List Op) : TxOut → List Claim → TxOut → Prop where
  | nil (out : TxOut) : ClaimChain leaf out [] out
  | cons {E : Env} {stack : List Bytes} {i : TxIn} {next last : TxOut} {claims : List Claim} :
      E.tx.inputs[E.idx]? = some i → TxInRange E.tx → satisfies E leaf stack = true →
      E.tx.outputs[E.idx]? = some next → ClaimChain leaf next claims last →
      ClaimChain leaf i.spent ((E, stack) :: claims) last

/-- What a claim's transaction pays the holder, in the output after the claim's own. -/
def payout (holderSpk : Bytes) (claim : Claim) : ℕ :=
  match claim.1.tx.outputs[claim.1.idx + 1]? with
  | some ⟨_, .explicit v, spk⟩ => if spk = holderSpk then v.toNat else 0
  | _ => 0

/-- What the holder has received by a chain of claims. -/
def received (holderSpk : Bytes) (claims : List Claim) : ℕ := (claims.map (payout holderSpk)).sum

/-- The credit that a claim's witness names. -/
def claimedCredit (claim : Claim) : ℕ := leNat (claim.2.getD 1 [])

/-- The largest credit of a chain. -/
def largestCredit (claims : List Claim) : ℕ := (claims.map claimedCredit).foldr max 0

/-- The claim is by a signed note and its preimage, of a credit above `paid` and not above `b`; it pays
the holder what is above `paid`, and leaves `b` less the credit under the same script. -/
def PaysNote (notes : List CreditNote) (holderSpk spk : Bytes) (asset : Asset) (b paid : ℕ)
    (claim : Claim) : Prop :=
  ∃ note ∈ notes, ∃ x sig, ∃ v u : UInt64,
    claim.2 = [x, leBytes 8 note.c.toNat, sig] ∧ x.length = 32 ∧
    claim.1.hash.sha256 x = note.paymentHash.bytes ∧ paid < note.c.toNat ∧ note.c.toNat ≤ b ∧
    claim.1.tx.outputs[claim.1.idx + 1]? = some ⟨asset, .explicit v, holderSpk⟩ ∧
    v.toNat = note.c.toNat - paid ∧
    claim.1.tx.outputs[claim.1.idx]? = some ⟨asset, .explicit u, spk⟩ ∧ u.toNat = b - note.c.toNat

/-- A provider's output from which `paid` has been claimed. -/
structure Holds (b paid : ℕ) (asset : Asset) (spk : Bytes) (out : TxOut) : Prop where
  paid_le : paid ≤ b
  asset_eq : out.asset = asset
  spk_eq : out.spk = spk
  value_eq : ∃ w : UInt64, out.value = .explicit w ∧ w.toNat = b - paid

/-! ### One claim -/

variable {program : ByteString 32}

/-- A number that is read as positive is read as it is. -/
theorem readS64_leBytes_of_pos {n : ℕ} (hn : n < 2 ^ 64) (h : 0 < readS64 (leBytes 8 n)) :
    readS64 (leBytes 8 n) = n := by
  have hread : readS64 (leBytes 8 n) = wrapS64 n := by
    unfold readS64
    rw [leNat_leBytes_of_lt (by omega)]
  rw [hread] at h ⊢
  unfold wrapS64 at h ⊢
  omega

/-- A note's message gives its credit and its hash. -/
theorem creditNoteMsg_inj {dtag : ByteString 32} {c c' h h' : Bytes} (hc : c.length = 8)
    (hc' : c'.length = 8) (heq : creditNoteMsg dtag c h = creditNoteMsg dtag c' h') :
    c = c' ∧ h = h' := by
  unfold creditNoteMsg at heq
  rw [List.append_assoc, List.append_assoc] at heq
  exact List.append_inj (List.append_cancel_left heq) (hc.trans hc'.symm)

/-- A v1 script is known by what introspection pushes for it. -/
theorem eq_p2tr_of_spkFields {H : Hashing} {spk : Bytes}
    (h : spkFields H spk = spkFields H (p2tr program)) : spk = p2tr program := by
  have hp2tr : p2tr program = witnessSpk 1 program.bytes := by simp [witnessSpk, p2tr]
  have hown : spkFields H (p2tr program) = (program.bytes, versionBytes 1) := by
    unfold spkFields
    rw [hp2tr, witnessProgram_witnessSpk (by decide) (by simp) (by simp)]
    exact congrArg (Prod.mk program.bytes) (by decide)
  rw [(eq_witnessSpk_of_witnessProgram (witnessProgram_of_version (by decide) (h.trans hown))).1,
    hp2tr]

section claims

variable {K : Crypto} {key creditKey : ByteString 33} {dtag : ByteString 32} {b : UInt64}
variable {notes : List CreditNote} {E : Env} {stack : List Bytes} {program : ByteString 32}
variable {asset : Asset} {paid : ℕ} {i : TxIn} {next : TxOut}

/-- One claim pays its note, and the output it leaves holds the rest. -/
theorem pays_of_claim (hb : b.toNat < 2 ^ 63) (hrange : TxInRange E.tx)
    (hnotes : NotesOnly E dtag creditKey notes) (hi : E.tx.inputs[E.idx]? = some i)
    (hheld : Holds b.toNat paid asset (p2tr program) i.spent)
    (h : satisfies E (creditLeafClaim dtag creditKey b (scriptpubkeyP2wpkh K key)) stack = true)
    (hnext : E.tx.outputs[E.idx]? = some next) :
    PaysNote notes (scriptpubkeyP2wpkh K key) (p2tr program) asset b.toNat paid (E, stack) ∧
      Holds b.toNat (claimedCredit (E, stack)) asset (p2tr program) next ∧
      payout (scriptpubkeyP2wpkh K key) (E, stack) = claimedCredit (E, stack) - paid := by
  obtain ⟨x, c, sig, t, out, rest, rfl, hclaim⟩ := claim_of_spends hb hrange h
  obtain ⟨j, hj, rfl⟩ := hclaim.input
  obtain rfl : i = j := Option.some.inj (hi.symm.trans hj)
  obtain rfl : next = rest := Option.some.inj (hnext.symm.trans hclaim.rest_output)
  obtain ⟨note, hnote, hmsg⟩ := hnotes _ _ hclaim.note
  obtain ⟨rfl, hhash⟩ := creditNoteMsg_inj hclaim.c_length (length_leBytes _ _) hmsg
  obtain ⟨w, v, u, hw, hv, hu, hlt, hvz, huz⟩ := hclaim.values
  obtain ⟨w', hw', hpaid⟩ := hheld.value_eq
  obtain rfl : w = w' := Value.explicit.inj (hw.symm.trans hw')
  have hle := hheld.paid_le
  -- what was paid is not negative, so the note's credit is read as it is
  have hcredit := readS64_leBytes_of_pos note.c.toNat_lt (by omega)
  rw [hcredit] at hlt hvz huz
  have hclaimed : claimedCredit (E, [x, leBytes 8 note.c.toNat, sig]) = note.c.toNat :=
    leNat_leBytes_of_lt note.c.toNat_lt
  have hout : out = ⟨asset, .explicit v, scriptpubkeyP2wpkh K key⟩ := by
    rw [← hv, ← hclaim.paid_spk, ← hheld.asset_eq, ← hclaim.paid_asset]
  have hspk : next.spk = p2tr program :=
    eq_p2tr_of_spkFields (hheld.spk_eq ▸ hclaim.rest_spk)
  have hrest : next = ⟨asset, .explicit u, p2tr program⟩ := by
    rw [← hu, ← hspk, ← hheld.asset_eq, ← hclaim.rest_asset]
  refine ⟨⟨note, hnote, x, sig, v, u, rfl, hclaim.preimage, hhash, by omega, by omega,
    hout ▸ hclaim.paid_output, by omega, hrest ▸ hclaim.rest_output, by omega⟩, ?_, ?_⟩
  · rw [hclaimed]
    exact ⟨by omega, by rw [hrest], hspk, u, hu, by omega⟩
  · unfold payout
    rw [hclaim.paid_output, hout, hclaimed]
    dsimp only
    rw [if_pos rfl]
    omega

/-! ### A chain of claims -/

/-- A claim is of more than was paid before it. -/
theorem PaysNote.lt {holderSpk spk : Bytes} {b paid : ℕ} {claim : Claim}
    (h : PaysNote notes holderSpk spk asset b paid claim) : paid < claimedCredit claim := by
  obtain ⟨note, _, x, sig, _, _, hstack, _, _, hlt, _⟩ := h
  have hcredit : claimedCredit claim = note.c.toNat := by
    unfold claimedCredit
    rw [hstack]
    exact leNat_leBytes_of_lt note.c.toNat_lt
  rwa [hcredit]

lemma received_cons (holderSpk : Bytes) (claim : Claim) (claims : List Claim) :
    received holderSpk (claim :: claims) = payout holderSpk claim + received holderSpk claims := by
  unfold received
  rw [List.map_cons, List.sum_cons]

/-- Each claim of a chain pays its note, and the output keeps the rest. -/
theorem chain_pays {out last : TxOut} {claims : List Claim} (hb : b.toNat < 2 ^ 63)
    (hchain : ClaimChain (creditLeafClaim dtag creditKey b (scriptpubkeyP2wpkh K key)) out claims last)
    (hnotes : ∀ claim ∈ claims, NotesOnly claim.1 dtag creditKey notes)
    (hheld : Holds b.toNat paid asset (p2tr program) out) :
    (∀ before claim after, claims = before ++ claim :: after →
      PaysNote notes (scriptpubkeyP2wpkh K key) (p2tr program) asset b.toNat
        (paid + received (scriptpubkeyP2wpkh K key) before) claim) ∧
    Holds b.toNat (paid + received (scriptpubkeyP2wpkh K key) claims) asset (p2tr program) last ∧
    max paid (largestCredit claims) = paid + received (scriptpubkeyP2wpkh K key) claims := by
  -- the invariant of the output goes along the chain, with what was paid so far
  induction hchain generalizing paid with
  | nil out =>
    refine ⟨?_, hheld, Nat.max_eq_left (Nat.zero_le paid)⟩
    intro before claim after h
    exact absurd h.symm (by simp)
  | @cons E stack i next last claims hi hrange hspend hnext _ ih =>
    obtain ⟨hpays, hleft, hpayout⟩ := pays_of_claim hb hrange
      (hnotes _ List.mem_cons_self) hi hheld hspend hnext
    obtain ⟨hlater, hlast, hmax⟩ := ih (fun claim h => hnotes claim (List.mem_cons_of_mem _ h)) hleft
    have hlt := hpays.lt
    have hsum (rest : List Claim) : paid + received (scriptpubkeyP2wpkh K key) ((E, stack) :: rest) =
        claimedCredit (E, stack) + received (scriptpubkeyP2wpkh K key) rest := by
      rw [received_cons, hpayout]
      omega
    refine ⟨?_, ?_, ?_⟩
    · intro before claim after h
      cases before with
      | nil =>
        obtain ⟨rfl, rfl⟩ := List.cons.inj h
        exact hpays
      | cons first before =>
        obtain ⟨rfl, rfl⟩ := List.cons.inj h
        rw [hsum]
        exact hlater before claim after rfl
    · rw [hsum]
      exact hlast
    · rw [hsum, ← hmax]
      show max paid (max (claimedCredit (E, stack)) (largestCredit claims)) = _
      omega

end claims

/-! ### The provider's output -/

/-- A provider's balance output, on its own commitment or on the holder's: the program, and the bytes of
the CLAIM leaf. -/
inductive ProviderOutput (K : Crypto) (params : CreditParams) (value : UInt64) :
    ByteString 32 → Bytes → Prop where
  | toLocal {keyset : Keyset} {perCommitmentPoint : ByteString 33} {toSelfDelay : UInt16}
      {t : TapTree3} :
      creditToLocalTree K keyset perCommitmentPoint toSelfDelay params value = some t →
      ProviderOutput K params value t.program t.leaf.2.2
  | toRemote {providerPaymentKey : ByteString 33} {delay : UInt16} {t : TapTree2} :
      creditToRemoteTree K providerPaymentKey delay params value = some t →
      ProviderOutput K params value t.program t.leaf.1

/-- While no credit is folded, `b` is the value. -/
theorem creditB_eq_some {params : CreditParams} {value b : UInt64} (hfolded : params.folded = 0)
    (h : creditB params value = some b) : b = value := by
  unfold creditB at h
  split at h
  · rw [hfolded, Option.some.injEq] at h
    rw [← h, UInt64.add_zero]
  · cases h

lemma claimLeaf_of_providerOutput {K : Crypto} {params : CreditParams} {value : UInt64}
    {claimLeaf : Bytes} (hfolded : params.folded = 0)
    (h : ProviderOutput K params value program claimLeaf) :
    claimLeaf = scriptBytes (creditLeafClaim params.dtag params.creditKey value params.holderSpk) := by
  cases h with
  | toLocal ht =>
    obtain ⟨b, hb, ht⟩ := Option.bind_eq_some_iff.1 ht
    obtain ⟨_, _, ht⟩ := Option.bind_eq_some_iff.1 ht
    cases ht
    rw [creditB_eq_some hfolded hb]
  | toRemote ht =>
    obtain ⟨b, hb, ht⟩ := Option.bind_eq_some_iff.1 ht
    rw [leaf_of_tapTree2Finish ht, creditB_eq_some hfolded hb]

/-- Every claim of a chain on a provider's output pays the holder its note less what the claims before
it paid, by a note above that and not above the value. After the chain the holder has received the
largest credit claimed, and the output holds the rest, of the same asset under the same script. -/
theorem credit_chain_exact (K : Crypto)
    (tweakAdd : ByteString 33 → ByteString 32 → Option (ByteString 33)) (cid : ByteString 32)
    (providerFundingKey holderPaymentBasepoint : ByteString 33) (params : CreditParams)
    (hparams : creditParamsInit K tweakAdd cid providerFundingKey holderPaymentBasepoint = some params)
    (value : UInt64) (hvalue : value.toNat < 2 ^ 63) (program : ByteString 32)
    (claimLeaf : Bytes) (hprovider : ProviderOutput K params value program claimLeaf)
    (notes : List CreditNote) (out last : TxOut)
    (hout : out.value = .explicit value ∧ out.spk = p2tr program) (claims : List Claim)
    (hchain : ClaimChain
      (creditLeafClaim params.dtag params.creditKey value params.holderSpk) out claims last)
    (hnotes : ∀ claim ∈ claims, NotesOnly claim.1 params.dtag params.creditKey notes) :
    claimLeaf =
      scriptBytes (creditLeafClaim params.dtag params.creditKey value params.holderSpk) ∧
    (∀ before claim after, claims = before ++ claim :: after →
      PaysNote notes params.holderSpk out.spk out.asset value.toNat
        (received params.holderSpk before) claim) ∧
    received params.holderSpk claims = largestCredit claims ∧
    largestCredit claims ≤ value.toNat ∧ last.asset = out.asset ∧ last.spk = out.spk ∧
    ∃ w : UInt64, last.value = .explicit w ∧ w.toNat = value.toNat - largestCredit claims := by
  obtain ⟨creditKey, _, rfl⟩ := Option.map_eq_some_iff.1 hparams
  have hheld : Holds value.toNat 0 out.asset (p2tr program) out :=
    ⟨Nat.zero_le _, rfl, hout.2, value, hout.1, rfl⟩
  obtain ⟨hpays, hlast, hmax⟩ := chain_pays hvalue hchain hnotes hheld
  simp only [Nat.zero_add, Nat.zero_max] at hpays hlast hmax
  rw [hout.2]
  refine ⟨claimLeaf_of_providerOutput rfl hprovider, hpays, hmax.symm, hmax ▸ hlast.paid_le,
    hlast.asset_eq, hlast.spk_eq, ?_⟩
  rw [hmax]
  exact hlast.value_eq

/-! ### Two claims -/

namespace ChainExample

/-- Standard SHA256, with one output key for all outputs. -/
def crypto : Crypto :=
  { OutputsExample.crypto with curve := ⟨fun _ _ => some (false, .replicate 32 0x26)⟩ }

def tweakAdd (key : ByteString 33) (_ : ByteString 32) : Option (ByteString 33) := some key

/-- A channel's parameters. -/
def params : CreditParams :=
  (creditParamsInit crypto tweakAdd (.replicate 32 0x20) (.replicate 33 0x21)
    (.replicate 33 0x22)).get rfl

/-- The provider's output of a thousand atoms on the holder's commitment. -/
def tree : TapTree2 :=
  (creditToRemoteTree crypto (.replicate 33 0x23) 144 params 1000).get rfl

/-- The preimage of every payment. -/
def preimage : Bytes := List.replicate 32 0x24

/-- A note of 300 atoms and one of 500. -/
def notes : List CreditNote :=
  [⟨300, hash32 .standard preimage⟩, ⟨500, hash32 .standard preimage⟩]

def asset : Asset := .explicit (.replicate 32 0x25)

/-- The provider's output with an amount left in it. -/
def output (amount : UInt64) : TxOut := ⟨asset, .explicit amount, p2tr tree.program⟩

/-- A claim that spends one amount, leaves another and pays the holder a third. -/
def env (spent left paid : UInt64) : Env where
  hash := .standard
  verifies _ msg _ := notes.any fun note =>
    msg = creditNoteMsg params.dtag (leBytes 8 note.c.toNat) note.paymentHash.bytes
  tx :=
    { version := 2
      lockTime := 0
      inputs := [⟨0xfffffffd, output spent⟩]
      outputs := [output left, ⟨asset, .explicit paid, params.holderSpk⟩] }
  idx := 0
  hash160 := crypto.hash160
  signed _ _ := false
  isMul _ _ _ := false

lemma env_inRange {spent left paid : UInt64} (hspent : spent.toNat < 2 ^ 63)
    (hleft : left.toNat < 2 ^ 63) (hpaid : paid.toNat < 2 ^ 63) :
    TxInRange (env spent left paid).tx where
  outputs o ho a ha := by
    obtain rfl | rfl : o = _ ∨ o = _ := by simpa [env] using ho
    · exact Value.explicit.inj ha ▸ hleft
    · exact Value.explicit.inj ha ▸ hpaid
  inputs i hi a ha := by
    obtain rfl := List.mem_singleton.1 hi
    exact Value.explicit.inj ha ▸ hspent

lemma env_notesOnly (spent left paid : UInt64) :
    NotesOnly (env spent left paid) params.dtag params.creditKey notes := by
  intro msg sig h
  obtain ⟨note, hnote, hmsg⟩ := List.any_eq_true.1 h
  exact ⟨note, hnote, of_decide_eq_true hmsg⟩

/-- The first note, and then the second from what it left. -/
def claims : List Claim :=
  [(env 1000 700 300, [preimage, leBytes 8 300, []]),
    (env 700 500 200, [preimage, leBytes 8 500, []])]

/-- The leaf of the output. -/
def leaf : List Op :=
  creditLeafClaim params.dtag params.creditKey 1000 params.holderSpk

lemma claims_chain : ClaimChain leaf (output 1000) claims (output 500) :=
  .cons rfl (env_inRange (by decide) (by decide) (by decide)) (by decide +kernel) rfl <|
    .cons rfl (env_inRange (by decide) (by decide) (by decide)) (by decide +kernel) rfl (.nil _)

/-- The holder has received 500 atoms by the two claims. -/
theorem credit_chain_exact_two :
    received params.holderSpk claims = largestCredit claims ∧ largestCredit claims = 500 := by
  have hall : ∀ claim ∈ claims, NotesOnly claim.1 params.dtag params.creditKey notes := by
    intro claim h
    obtain rfl | rfl : claim = _ ∨ claim = _ := by simpa [claims] using h
    · exact env_notesOnly _ _ _
    · exact env_notesOnly _ _ _
  have htree := ProviderOutput.toRemote (K := crypto) (t := tree)
    (Option.some_get _).symm
  exact ⟨(credit_chain_exact crypto tweakAdd (.replicate 32 0x20)
    (.replicate 33 0x21) (.replicate 33 0x22) params (Option.some_get _).symm 1000 (by decide)
    tree.program tree.leaf.1 htree notes (output 1000) (output 500) ⟨rfl, rfl⟩ claims claims_chain
    hall).2.2.1, by decide +kernel⟩

end ChainExample

end SeqLN.Tcov
