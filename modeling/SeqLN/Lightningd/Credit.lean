import SeqLN.Lib.Bytes

/-!
# Credit notes and what was collected for them

The provider of a credit channel issues a note for each payment it forwards to a holder that is away
(`lightningd/credit.c`): the total that the holder is owed with it, which the preimage of the payment
claims on chain. The total counts the payments before it, collected or not. `credit_collected_iff`: the
preimages that are out give no note for more than their payments came to exactly when those of all
payments credited before are out too.
-/

namespace SeqLN.Credit

open List

abbrev PaymentHash := ByteString 32

abbrev Preimage := ByteString 32

/-- Source: `struct credit_note` -/
structure CreditNote where
  credit : ℕ
  paymentHash : PaymentHash
  sig : ByteString 64
  preimage : Option Preimage
  deriving DecidableEq

/-! ### The wallet's notes -/

/-- The notes with one more, in the order of their credit; of a credit already there, only the
preimage is kept. Source: `wallet_credit_note_save`, `wallet_credit_notes` -/
def save (notes : List CreditNote) (n : CreditNote) : List CreditNote :=
  if notes.any (·.credit = n.credit) then
    match n.preimage with
    | none => notes
    | some p => notes.map fun m => if m.credit = n.credit then { m with preimage := some p } else m
  else notes.orderedInsert (·.credit ≤ ·.credit) n

/-- Source: `wallet_credit_note_latest` -/
def latest (needPreimage : Bool) (notes : List CreditNote) : Option CreditNote :=
  (notes.filter fun n => needPreimage = false ∨ n.preimage.isSome).getLast?

/-- Source: `wallet_credit_note_by_hash` -/
def byHash (notes : List CreditNote) (h : PaymentHash) : Option CreditNote :=
  notes.find? (·.paymentHash = h)

/-! ### Issuing -/

/-- What issuing depends on: the signer, the check of its signatures, and the hash. -/
structure Provider where
  sign : ℕ → PaymentHash → ByteString 64
  check : ℕ → PaymentHash → ByteString 64 → Bool
  sha256 : Preimage → PaymentHash

/-- A call of `issuecredit`, with what the channel can spend at that moment. -/
structure Call where
  amountMsat : ℕ
  paymentHash : PaymentHash
  preimage : Option Preimage
  /-- Source: `channel_state_can_add_htlc` -/
  canAddHtlc : Bool
  /-- Source: `channel_amount_spendable` -/
  spendableMsat : ℕ
  ourDustLimit : ℕ
  theirDustLimit : ℕ

/-- What the provider can still owe on top of `issued`. Source: `credit_room` -/
def creditRoom (c : Call) (issued : ℕ) : Option ℕ :=
  let atoms := c.spendableMsat / 1000
  let dust := max c.theirDustLimit c.ourDustLimit
  if atoms ≤ issued + dust then none else some (atoms - issued - dust)

/-- Source: `credit_note_valid` -/
def creditNoteValid (P : Provider) (n : CreditNote) : Bool :=
  P.check n.credit n.paymentHash n.sig && n.preimage.all fun p => P.sha256 p = n.paymentHash

/-- The notes of a channel, and the whole atoms credited for each payment, the oldest first. -/
structure Ledger where
  notes : List CreditNote
  credited : List (PaymentHash × ℕ)

/-- A new note for a payment; `none` is a failed call. Source: `json_issuecredit`, after the lookup -/
def issueNew (P : Provider) (l : Ledger) (c : Call) : Option Ledger :=
  let issued := ((latest false l.notes).map (·.credit)).getD 0
  let add := c.amountMsat / 1000
  if c.canAddHtlc = false ∨ add = 0 then none
  else
    match creditRoom c issued with
    | none => none
    | some room =>
      let credit := issued + add
      let n : CreditNote := ⟨credit, c.paymentHash, P.sign credit c.paymentHash, c.preimage⟩
      if room < add ∨ creditNoteValid P n = false then none
      else some ⟨save l.notes n, l.credited ++ [(c.paymentHash, add)]⟩

/-- Source: `json_issuecredit` -/
def issue (P : Provider) (l : Ledger) (c : Call) : Option Ledger :=
  if c.preimage.any fun p => P.sha256 p ≠ c.paymentHash then none
  else
    match byHash l.notes c.paymentHash with
    | some n =>
      if c.preimage.isSome ∧ n.preimage = none then
        some { l with notes := save l.notes { n with preimage := c.preimage } }
      else some l
    | none => issueNew P l c

/-- The ledger after calls that all succeed. -/
def issueAll (P : Provider) : Ledger → List Call → Option Ledger
  | l, [] => some l
  | l, c :: cs => (issue P l c).bind fun l' => issueAll P l' cs

/-! ### Running totals -/

section totals

variable {ι : Type}

/-- The items with the total up to them. -/
def runningTotals : ℕ → List (ι × ℕ) → List (ι × ℕ)
  | _, [] => []
  | acc, p :: l => (p.1, acc + p.2) :: runningTotals (acc + p.2) l

def total (l : List (ι × ℕ)) : ℕ := (l.map Prod.snd).sum

/-- The total of the items of a set. -/
def totalOf (K : ι → Prop) [DecidablePred K] (l : List (ι × ℕ)) : ℕ := total (l.filter fun p => K p.1)

lemma runningTotals_append (acc : ℕ) (l : List (ι × ℕ)) (p : ι × ℕ) :
    runningTotals acc (l ++ [p]) = runningTotals acc l ++ [(p.1, acc + total l + p.2)] := by
  induction l generalizing acc with
  | nil => simp [runningTotals, total]
  | cons q l ih =>
    rw [cons_append, runningTotals, ih, runningTotals, cons_append]
    simp [total, add_assoc]

variable {l : List (ι × ℕ)}

lemma le_total_of_mem_runningTotals {acc : ℕ} {r : ι × ℕ} (h : r ∈ runningTotals acc l) :
    r.2 ≤ acc + total l := by
  induction l generalizing acc with
  | nil => cases h
  | cons q l ih =>
    have hcons : total (q :: l) = q.2 + total l := by simp [total]
    rcases mem_cons.1 h with rfl | h
    · dsimp only
      omega
    · have := ih h
      omega

/-- The last running total is the total. -/
theorem getLast?_runningTotals (l : List (ι × ℕ)) :
    ((runningTotals 0 l).getLast?.map Prod.snd).getD 0 = total l := by
  induction l using List.reverseRecOn with
  | nil => rfl
  | append_singleton l p _ =>
    rw [runningTotals_append, List.getLast?_concat, Option.map_some, Option.getD_some]
    simp [total]

variable (K : ι → Prop) [DecidablePred K]

lemma totalOf_append (l : List (ι × ℕ)) (p : ι × ℕ) :
    totalOf K (l ++ [p]) = totalOf K l + if K p.1 then p.2 else 0 := by
  by_cases hp : K p.1 <;> simp [totalOf, total, hp]

lemma totalOf_le_total (l : List (ι × ℕ)) : totalOf K l ≤ total l :=
  (List.Sublist.map Prod.snd filter_sublist).sum_le_sum fun _ _ => Nat.zero_le _

lemma totalOf_eq_total (h : ∀ p ∈ l, K p.1) : totalOf K l = total l := by
  rw [totalOf, filter_eq_self.2 fun p hp => decide_eq_true (h p hp)]

/-- With positive amounts, a set that has the whole total has every item. -/
theorem mem_of_total_le (hpos : ∀ p ∈ l, 0 < p.2) (h : total l ≤ totalOf K l) : ∀ p ∈ l, K p.1 := by
  induction l with
  | nil => exact nofun
  | cons q l ih =>
    have hle := totalOf_le_total K l
    have hq : 0 < q.2 := hpos q mem_cons_self
    have hcons : total (q :: l) = q.2 + total l := by simp [total]
    have hof : totalOf K (q :: l) = (if K q.1 then q.2 else 0) + totalOf K l := by
      by_cases hK : K q.1 <;> simp [totalOf, total, hK]
    rw [hcons, hof] at h
    have hK : K q.1 := by
      by_contra hK
      rw [if_neg hK] at h
      omega
    rw [if_pos hK] at h
    intro p hp
    rcases mem_cons.1 hp with rfl | hp
    · exact hK
    · exact ih (fun p hp => hpos p (mem_cons_of_mem q hp)) (by omega) p hp

/-- The running totals of a set's items stay within the set's total exactly when the set has, with
an item, all those before it. -/
theorem runningTotals_le_totalOf_iff (hpos : ∀ p ∈ l, 0 < p.2) :
    (∀ r ∈ runningTotals 0 l, K r.1 → r.2 ≤ totalOf K l) ↔ l.Pairwise fun p q => K q.1 → K p.1 := by
  induction l using List.reverseRecOn with
  | nil => simp [runningTotals]
  | append_singleton l p ih =>
    have hpos' : ∀ q ∈ l, 0 < q.2 := fun q hq => hpos q (mem_append_left _ hq)
    rw [runningTotals_append, totalOf_append, pairwise_append]
    by_cases hp : K p.1
    · rw [if_pos hp]
      constructor
      · intro h
        have hlast := h _ (mem_append_right _ mem_cons_self) hp
        dsimp only at hlast
        have hall := mem_of_total_le K hpos' (by omega)
        refine ⟨pairwise_of_forall_mem_list fun a ha _ _ _ => hall a ha,
          pairwise_singleton _ _, fun a ha _ _ _ => hall a ha⟩
      · rintro ⟨_, _, hlast⟩ r hr _
        have hall : ∀ q ∈ l, K q.1 := fun q hq => hlast q hq p mem_cons_self hp
        rw [totalOf_eq_total K hall]
        rcases mem_append.1 hr with hr | hr
        · have := le_total_of_mem_runningTotals hr
          omega
        · rw [mem_singleton.1 hr]
          dsimp only
          omega
    · rw [if_neg hp, add_zero]
      constructor
      · intro h
        refine ⟨(ih hpos').1 fun r hr => h r (mem_append_left _ hr), pairwise_singleton _ _,
          fun a _ b hb hKb => ?_⟩
        rw [mem_singleton.1 hb] at hKb
        exact absurd hKb hp
      · rintro ⟨hpair, _, _⟩ r hr hKr
        rcases mem_append.1 hr with hr | hr
        · exact (ih hpos').2 hpair r hr hKr
        · rw [mem_singleton.1 hr] at hKr
          exact absurd hKr hp

end totals

/-! ### Notes are running totals -/

/-- What a note says, apart from its signature and preimage. -/
def CreditNote.key (n : CreditNote) : PaymentHash × ℕ := (n.paymentHash, n.credit)

/-- Each note has the total of the payments credited up to it. -/
structure Cumulative (l : Ledger) : Prop where
  notes : l.notes.map CreditNote.key = runningTotals 0 l.credited
  pos : ∀ p ∈ l.credited, 0 < p.2

section save

variable {notes : List CreditNote} {n : CreditNote}

lemma map_key_save_of_mem (h : n.credit ∈ notes.map (·.credit)) :
    (save notes n).map CreditNote.key = notes.map CreditNote.key := by
  have hany : notes.any (·.credit = n.credit) = true := by
    obtain ⟨m, hm, heq⟩ := List.mem_map.1 h
    exact List.any_eq_true.2 ⟨m, hm, decide_eq_true heq⟩
  unfold save
  rw [if_pos hany]
  split
  · rfl
  · rw [List.map_map]
    refine map_congr_left fun m _ => ?_
    rw [Function.comp_apply]
    split <;> rfl

lemma save_of_lt (h : ∀ m ∈ notes, m.credit < n.credit) : save notes n = notes ++ [n] := by
  have hany : ¬ notes.any (·.credit = n.credit) = true := by
    rw [List.any_eq_true]
    rintro ⟨m, hm, heq⟩
    exact (h m hm).ne (of_decide_eq_true heq)
  have hnot : ∀ m ∈ notes, decide (¬ n.credit ≤ m.credit) = true :=
    fun m hm => decide_eq_true (not_le.2 (h m hm))
  unfold save
  rw [if_neg hany, orderedInsert_eq_take_drop, takeWhile_eq_self_iff.2 hnot,
    dropWhile_eq_nil_iff.2 hnot]

end save

namespace Cumulative

variable {P : Provider} {l l' : Ledger} {c : Call}

lemma latest_eq (h : Cumulative l) :
    ((latest false l.notes).map (·.credit)).getD 0 = total l.credited := by
  have hall : latest false l.notes = l.notes.getLast? := by simp [latest]
  rw [hall, ← getLast?_runningTotals, ← h.notes, List.getLast?_map, Option.map_map]
  rfl

/-- A new note keeps the notes cumulative. -/
lemma issueNew (h : Cumulative l) (hs : issueNew P l c = some l') : Cumulative l' := by
  unfold Credit.issueNew at hs
  dsimp only at hs
  rw [h.latest_eq] at hs
  split at hs
  · cases hs
  next hadd =>
  split at hs
  · cases hs
  split at hs
  · cases hs
  cases hs
  have hpos : 0 < c.amountMsat / 1000 := Nat.pos_of_ne_zero fun h0 => hadd (.inr h0)
  have hlt : ∀ m ∈ l.notes, m.credit < total l.credited + c.amountMsat / 1000 := by
    intro m hm
    have hmem : m.key ∈ runningTotals 0 l.credited := h.notes ▸ List.mem_map_of_mem hm
    have hle := le_total_of_mem_runningTotals hmem
    rw [zero_add] at hle
    exact Nat.lt_of_le_of_lt hle (Nat.lt_add_of_pos_right hpos)
  constructor
  · rw [save_of_lt hlt, map_append, h.notes, runningTotals_append, zero_add]
    rfl
  · intro p hp
    rcases mem_append.1 hp with hp | hp
    · exact h.pos p hp
    · rw [mem_singleton.1 hp]
      exact hpos

lemma issue (h : Cumulative l) (hs : issue P l c = some l') : Cumulative l' := by
  unfold Credit.issue at hs
  split at hs
  · cases hs
  split at hs
  · next n hn =>
    split at hs
    · cases hs
      have hmem : n ∈ l.notes := List.mem_of_find?_eq_some hn
      have hkeys : (save l.notes { n with preimage := c.preimage }).map CreditNote.key =
          l.notes.map CreditNote.key := map_key_save_of_mem (List.mem_map.2 ⟨n, hmem, rfl⟩)
      exact ⟨hkeys.trans h.notes, h.pos⟩
    · cases hs
      exact h
  · exact h.issueNew hs

lemma issueAll {cs : List Call} (h : Cumulative l) (hs : issueAll P l cs = some l') :
    Cumulative l' := by
  induction cs generalizing l with
  | nil =>
    cases hs
    exact h
  | cons c cs ih =>
    obtain ⟨t, ht, hs⟩ := Option.bind_eq_some_iff.1 hs
    exact ih (h.issue ht) hs

end Cumulative

/-- For every sequence of successful calls and every set of payment hashes: each note of the set is
for at most the whole atoms credited for its payments exactly when the set has, with a payment, all
those credited before it. -/
theorem credit_collected_iff (P : Provider) (cs : List Call) (l : Ledger)
    (hl : issueAll P ⟨[], []⟩ cs = some l) (K : Finset PaymentHash) :
    (∀ n ∈ l.notes, n.paymentHash ∈ K → n.credit ≤ totalOf (· ∈ K) l.credited) ↔
      l.credited.Pairwise fun p q => q.1 ∈ K → p.1 ∈ K := by
  have hempty : Cumulative ⟨[], []⟩ := ⟨rfl, fun _ hp => by cases hp⟩
  have hcum := hempty.issueAll hl
  rw [← runningTotals_le_totalOf_iff (· ∈ K) hcum.pos, ← hcum.notes]
  simp [CreditNote.key]

namespace CreditExample

def hash (b : UInt8) : PaymentHash := ByteString.replicate 32 b

/-- A provider whose signatures all check. -/
def provider : Provider where
  sign _ _ := ByteString.replicate 64 0
  check _ _ _ := true
  sha256 _ := hash 0

/-- A payment is credited, without its preimage. -/
def credits (b : UInt8) (amountMsat : ℕ) : Call :=
  ⟨amountMsat, hash b, none, true, 1000000000, 330, 546⟩

/-- Two payments, of 1000 and of 500 atoms. -/
def calls : List Call := [credits 1 1000000, credits 2 500000]

def ledger : Ledger where
  notes := [⟨1000, hash 1, ByteString.replicate 64 0, none⟩,
    ⟨1500, hash 2, ByteString.replicate 64 0, none⟩]
  credited := [(hash 1, 1000), (hash 2, 500)]

lemma issueAll_calls : issueAll provider ⟨[], []⟩ calls = some ledger := by
  rfl

/-- With both preimages out, each note is for no more than what was collected. -/
theorem credit_collected_iff_both :
    issueAll provider ⟨[], []⟩ calls = some ledger ∧
      ∀ n ∈ ledger.notes, n.paymentHash ∈ ({hash 1, hash 2} : Finset PaymentHash) →
        n.credit ≤ totalOf (· ∈ ({hash 1, hash 2} : Finset PaymentHash)) ledger.credited :=
  ⟨issueAll_calls,
    (credit_collected_iff provider calls ledger issueAll_calls _).2 (by decide +kernel)⟩

/-- Only the second payment is collected, for 500 atoms, and its note is for 1500. -/
theorem credit_exceeds_collected :
    issueAll provider ⟨[], []⟩ calls = some ledger ∧
      ∃ n ∈ ledger.notes, n.paymentHash ∈ ({hash 2} : Finset PaymentHash) ∧
        totalOf (· ∈ ({hash 2} : Finset PaymentHash)) ledger.credited = 500 ∧ n.credit = 1500 :=
  ⟨issueAll_calls, by decide +kernel⟩

end CreditExample

end SeqLN.Credit
