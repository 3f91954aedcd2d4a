import SeqLN.Lib.DecimalContext
import SeqLN.Plugins.CrossassetForwards

/-!
# The rate of a pair, as it is given, published and signed

`contrib/crossasset-seq/crossasset.py`: `crossassetsetrate` takes the rate of a pair as text and keeps
it as text, from which a quote is computed, and computed again by the payer (`check_quote`). On its way
the text becomes a decimal, which `normalize` rounds to 28 digits. `quotesExact_iff`: what is published
is the rate that was given exactly where that has no more.
-/

namespace SeqLN.Crossasset

open Option

/-- The context that Python's threads start with. Source: `decimal.DefaultContext` -/
def defaultContext : DecimalContext := ⟨28, -999999, 999999, by decide⟩

/-- What `_rate` raises. -/
inductive RateError where
  /-- "rate … is not a decimal number" -/
  | notDecimal
  /-- "rate must be a positive decimal number" -/
  | notPositive
  /-- `decimal.Overflow` -/
  | overflow
  deriving DecidableEq

/-- Source: `_rate` -/
def rate (py : DecimalReader) (v : Bytes) : Except RateError Bytes :=
  match py.read v with
  | none => .error .notDecimal
  | some .special => .error .notPositive
  | some (.finite d) =>
    if d.value < 0 then .error .notPositive
    else
      match defaultContext.normalize d with
      | none => .error .overflow
      | some n => .ok (formatFixed n)

/-- Source: `RATES` -/
structure RateEntry where
  rate : Bytes
  feeBaseMsat : ℤ
  feePpm : ℤ
  maxOutMsat : ℤ
  deriving DecidableEq

abbrev Rates := AssetId → AssetId → Option RateEntry

/-- The published pairs with one changed. -/
def Rates.set (rates : Rates) (assetIn assetOut : AssetId) (entry : Option RateEntry) : Rates :=
  fun a b => if a = assetIn ∧ b = assetOut then entry else rates a b

/-- What `crossassetsetrate` raises. -/
inductive SetRateError where
  /-- "asset_in and asset_out are the same asset" -/
  | sameAsset
  | rate (e : RateError)
  /-- "fee_base_msat, fee_ppm and max_out_msat cannot be negative" -/
  | negative
  deriving DecidableEq

/-- Source: `crossassetsetrate` -/
def crossassetsetrate (py : DecimalReader) (rates : Rates) (assetIn assetOut : AssetId) (v : Bytes)
    (feeBaseMsat feePpm maxOutMsat : ℤ) : Except SetRateError Rates :=
  if assetIn = assetOut then .error .sameAsset
  else
    match rate py v with
    | .error e => .error (.rate e)
    | .ok r =>
      if feeBaseMsat < 0 ∨ feePpm < 0 ∨ maxOutMsat < 0 then .error .negative
      -- a rate of 0 withdraws the pair
      else if py.valueOf r = some 0 then .ok (rates.set assetIn assetOut none)
      else .ok (rates.set assetIn assetOut (some ⟨r, feeBaseMsat, feePpm, maxOutMsat⟩))

/-! ### Quotes with their terms -/

/-- `amount_in_for` of a rate as text. `none` is an error. -/
def amountInForText (py : DecimalReader) (amountOutMsat : ℤ) (rate : Bytes) (feeBaseMsat feePpm : ℤ) :
    Option ℤ :=
  (py.valueOf rate).bind fun r => amountInFor amountOutMsat r feeBaseMsat feePpm

/-- A pair as `Crossasset.Pair` has it, with the number of its rate. -/
def RateEntry.pair (py : DecimalReader) (entry : RateEntry) : Option Pair :=
  (py.valueOf entry.rate).map fun r => ⟨r, entry.feeBaseMsat, entry.feePpm, entry.maxOutMsat⟩

/-- Who quotes. Source: `STATE` -/
structure Quoter where
  network : Bytes
  nodeId : ByteString 33
  deriving DecidableEq

/-- What a quote's signature covers. Source: `quote_message` -/
structure QuoteMessage where
  quoter : Quoter
  terms : Quote
  rate : Bytes
  feeBaseMsat : ℤ
  feePpm : ℤ
  deriving DecidableEq

structure SignedQuote where
  message : QuoteMessage
  signature : Bytes
  deriving DecidableEq

/-- Signatures by the node. Source: the calls `signmessage`, `checkmessage` -/
structure MessageSigner where
  signmessage : QuoteMessage → Bytes
  verified : QuoteMessage → Bytes → ByteString 33 → Bool

/-- What `make_quote` finds: what it keeps, the answer of `_channels`, the number it draws and the
times at which it signs and stores. -/
structure QuoteContext where
  node : Quoter
  cfg : Config
  forwards : Forwards
  quotes : Quotes
  channels : Channels
  quoteId : ℕ
  signed : ℚ
  stored : ℚ

/-- The quote that a request gets. Source: `make_quote` -/
def makeQuote (py : DecimalReader) (signer : MessageSigner) (rates : Rates) (c : QuoteContext)
    (a : QuoteArgs) : Option SignedQuote :=
  match rates a.assetIn a.assetOut with
  | none => none
  | some entry => do
    let pair ← quoteAllowed c.cfg c.forwards (entry.pair py) a
    let terms ← quoteTerms c.cfg pair a c.channels c.quoteId c.signed
    let message : QuoteMessage := ⟨c.node, terms, entry.rate, entry.feeBaseMsat, entry.feePpm⟩
    -- too many outstanding: the quote is not given out
    if (storeQuote c.cfg c.stored c.quotes terms).2 then some ⟨message, signer.signmessage message⟩
    else none

/-- What a payer asked for. Source: `want` in `check_quote` -/
structure Wanted where
  nodeId : ByteString 33
  paymentHash : PaymentHash
  assetIn : AssetId
  assetOut : AssetId
  amountOutMsat : ℤ
  network : Bytes

/-- What `check_quote` raises. -/
inductive CheckError where
  /-- "the quote's … is …, asked for …" -/
  | notAsked
  /-- "the quote's signature is not the quoting node's" -/
  | signature
  /-- From `amount_in_for`. -/
  | rate
  /-- "the quote asks …msat, its own rate and fees give …msat" -/
  | amount (expect : ℤ)
  /-- "the quote expired at …" -/
  | expired
  deriving DecidableEq

/-- The quote is for what was asked. Source: `check_quote`, the loop over `want` -/
def Wanted.matches (want : Wanted) (m : QuoteMessage) : Bool :=
  m.quoter.nodeId = want.nodeId ∧ m.terms.paymentHash = want.paymentHash ∧
    m.terms.assetIn = want.assetIn ∧ m.terms.assetOut = want.assetOut ∧
    m.terms.amountOutMsat = want.amountOutMsat ∧ m.quoter.network = want.network

/-- The payer's own computation gave something else, or an error. -/
def CheckError.recomputation : CheckError → Bool
  | .rate | .amount _ => true
  | .notAsked | .signature | .expired => false

/-- Source: `check_quote` -/
def checkQuote (py : DecimalReader) (signer : MessageSigner) (q : SignedQuote) (want : Wanted) (now : ℚ) :
    Except CheckError SignedQuote :=
  if !want.matches q.message then .error .notAsked
  else if !signer.verified q.message q.signature want.nodeId then .error .signature
  else
    match amountInForText py q.message.terms.amountOutMsat q.message.rate q.message.feeBaseMsat
      q.message.feePpm with
    | none => .error .rate
    | some expect =>
      if q.message.terms.amountInMsat ≠ expect then .error (.amount expect)
      else if (q.message.terms.expiry : ℚ) ≤ now then .error .expired
      else .ok q

/-! ### What a quote asks -/

/-- The converted amount is the least that is worth the outgoing one. -/
theorem isLeast_ceil_div {r : ℚ} (hr : 0 < r) (out : ℤ) :
    IsLeast {c : ℤ | (out : ℚ) ≤ c * r} ⌈(out : ℚ) / r⌉ := by
  have hiff : ∀ c : ℤ, (out : ℚ) ≤ c * r ↔ ⌈(out : ℚ) / r⌉ ≤ c := by
    intro c
    rw [Int.ceil_le, div_le_iff₀ hr]
  exact ⟨(hiff _).2 le_rfl, fun c hc => (hiff c).1 hc⟩

lemma amountInFor_of_pos {r : ℚ} (hr : 0 < r) (out base ppm : ℤ) :
    amountInFor out r base ppm =
      some (⌈(out : ℚ) / r⌉ + ⌈((⌈(out : ℚ) / r⌉ : ℤ) * ppm : ℚ) / 1000000⌉ + base) := by
  unfold amountInFor
  rw [if_neg (not_le.2 hr)]
  simp only [add_assoc]

/-- A larger amount out never asks for less in. -/
lemma amountInFor_mono {r : ℚ} {out out' base ppm x x' : ℤ} (hppm : 0 ≤ ppm) (hout : out ≤ out')
    (hx : amountInFor out r base ppm = some x) (hx' : amountInFor out' r base ppm = some x') :
    x ≤ x' := by
  have hr : 0 < r := by
    by_contra hle
    rw [amountInFor, if_pos (not_lt.1 hle)] at hx
    cases hx
  rw [amountInFor_of_pos hr] at hx hx'
  obtain rfl := some.inj hx
  obtain rfl := some.inj hx'
  have hconv : ⌈(out : ℚ) / r⌉ ≤ ⌈(out' : ℚ) / r⌉ :=
    Int.ceil_le_ceil (div_le_div_of_nonneg_right (Int.cast_le.2 hout) hr.le)
  have hfee : ⌈((⌈(out : ℚ) / r⌉ : ℤ) * ppm : ℚ) / 1000000⌉ ≤
      ⌈((⌈(out' : ℚ) / r⌉ : ℤ) * ppm : ℚ) / 1000000⌉ := by
    apply Int.ceil_le_ceil
    apply div_le_div_of_nonneg_right _ (by norm_num)
    exact mul_le_mul_of_nonneg_right (Int.cast_le.2 hconv) (Int.cast_nonneg hppm)
  omega

section quoted

variable {py : DecimalReader} {signer : MessageSigner} {rates : Rates} {c : QuoteContext} {a : QuoteArgs}
  {q : SignedQuote}

lemma quoteAllowed_eq_some {cfg : Config} {forwards : Forwards} {pair : Option Pair} {p : Pair}
    (h : quoteAllowed cfg forwards pair a = some p) : pair = some p := by
  unfold quoteAllowed at h
  split at h
  · cases h
  · split at h
    · cases h
    · split_ifs at h
      exact h

lemma quoteTerms_eq_some {cfg : Config} {p : Pair} {channels : Channels} {quoteId : ℕ} {now : ℚ}
    {terms : Quote} (h : quoteTerms cfg p a channels quoteId now = some terms) :
    amountInFor terms.amountOutMsat p.rate p.feeBaseMsat p.feePpm = some terms.amountInMsat := by
  unfold quoteTerms at h
  simp only at h
  split_ifs at h
  obtain ⟨amountIn, hamount, rfl⟩ := map_eq_some_iff.1 h
  exact hamount

/-- A quote carries the published rate and fees, and asks what they give. -/
theorem makeQuote_recomputed (h : makeQuote py signer rates c a = some q) :
    ∃ entry, rates a.assetIn a.assetOut = some entry ∧ q.message.rate = entry.rate ∧
      amountInForText py q.message.terms.amountOutMsat q.message.rate q.message.feeBaseMsat
        q.message.feePpm = some q.message.terms.amountInMsat := by
  unfold makeQuote at h
  split at h
  · cases h
  · next entry hentry =>
    obtain ⟨p, hallowed, h⟩ := bind_eq_some_iff.1 h
    obtain ⟨terms, hterms, h⟩ := bind_eq_some_iff.1 h
    simp only at h
    split at h
    · obtain rfl := some.inj h
      obtain ⟨r, hr, rfl⟩ := map_eq_some_iff.1 (quoteAllowed_eq_some hallowed)
      refine ⟨entry, hentry, rfl, ?_⟩
      unfold amountInForText
      rw [hr]
      exact quoteTerms_eq_some hterms
    · cases h

/-- So the payer's recomputation never fails. -/
theorem checkQuote_recomputation {want : Wanted} {now : ℚ} {e : CheckError}
    (hq : makeQuote py signer rates c a = some q) (h : checkQuote py signer q want now = .error e) :
    e.recomputation = false := by
  obtain ⟨entry, -, -, hamount⟩ := makeQuote_recomputed hq
  unfold checkQuote at h
  rw [hamount] at h
  simp only [ne_eq, not_true_eq_false, if_false] at h
  split_ifs at h with hasked hsigned hexpired
  · obtain rfl := Except.error.inj h
    rfl
  · obtain rfl := Except.error.inj h
    rfl
  · obtain rfl := Except.error.inj h
    rfl

end quoted

/-! ### What is published -/

section published

variable {py : DecimalReader} {rates rates' : Rates} {assetIn assetOut : AssetId} {v : Bytes}
  {base ppm cap : ℤ} {d : Dec}

lemma rate_eq_ok {r : Bytes} (h : rate py v = .ok r) (hv : py.read v = some (.finite d)) :
    ∃ n, defaultContext.normalize d = some n ∧ r = formatFixed n := by
  unfold rate at h
  rw [hv] at h
  simp only at h
  split at h
  · cases h
  · split at h
    · cases h
    · next n hn => exact ⟨n, hn, (Except.ok.inj h).symm⟩

/-- An accepted rate is normalized, and published as text unless that is zero. -/
theorem crossassetsetrate_eq_ok
    (h : crossassetsetrate py rates assetIn assetOut v base ppm cap = .ok rates')
    (hv : py.read v = some (.finite d)) :
    ∃ n, defaultContext.normalize d = some n ∧ 0 ≤ ppm ∧
      rates' assetIn assetOut = if n.value = 0 then none else some ⟨formatFixed n, base, ppm, cap⟩ := by
  unfold crossassetsetrate at h
  split at h
  · cases h
  · split at h
    · cases h
    · next r hr =>
      obtain ⟨n, hn, rfl⟩ := rate_eq_ok hr hv
      simp only [py.valueOf_formatFixed n, Option.some.injEq] at h
      split_ifs at h with hfees hzero
      · obtain rfl := Except.ok.inj h
        refine ⟨n, hn, by omega, ?_⟩
        rw [if_pos hzero, Rates.set, if_pos ⟨rfl, rfl⟩]
      · obtain rfl := Except.ok.inj h
        refine ⟨n, hn, by omega, ?_⟩
        rw [if_neg hzero, Rates.set, if_pos ⟨rfl, rfl⟩]

/-- Normalizing a rate keeps it exactly where the context has it. -/
theorem normalize_value_iff {n : Dec} (h : defaultContext.normalize d = some n) :
    n.value = d.value ↔ defaultContext.Keeps d := by
  obtain ⟨hneg, hmag⟩ := DecimalContext.normalize_exact_iff h
  rw [Dec.value_eq_iff hneg, hmag]

end published

/-- The rate given is the one published; quotes ask for its exact conversion, more for more, carry
it and pass the payer's recomputation. -/
structure QuotesExact (py : DecimalReader) (rates : Rates) (assetIn assetOut : AssetId) (given : ℚ)
    (base ppm : ℤ) : Prop where
  published : ∃ entry, rates assetIn assetOut = some entry ∧ py.valueOf entry.rate = some given
  amount : ∀ entry, rates assetIn assetOut = some entry → ∀ out : ℤ, ∃ c : ℤ,
    IsLeast {c : ℤ | (out : ℚ) ≤ c * given} c ∧
      amountInForText py out entry.rate entry.feeBaseMsat entry.feePpm =
        some (c + ⌈(c * ppm : ℚ) / 1000000⌉ + base)
  mono : ∀ entry, rates assetIn assetOut = some entry → ∀ out out' x x' : ℤ, out ≤ out' →
    amountInForText py out entry.rate entry.feeBaseMsat entry.feePpm = some x →
    amountInForText py out' entry.rate entry.feeBaseMsat entry.feePpm = some x' → x ≤ x'
  quoted : ∀ (signer : MessageSigner) (c : QuoteContext) (a : QuoteArgs) (q : SignedQuote),
    a.assetIn = assetIn → a.assetOut = assetOut → makeQuote py signer rates c a = some q →
      py.valueOf q.message.rate = some given ∧
        ∀ want now e, checkQuote py signer q want now = .error e → e.recomputation = false

/-- An accepted rate above zero is published, converted and signed as given exactly where it is a
coefficient of at most 28 digits times a power of ten not below `10 ^ -1000026`. -/
theorem quotesExact_iff (py : DecimalReader) (rates rates' : Rates) (assetIn assetOut : AssetId) (v : Bytes)
    (base ppm cap : ℤ) (d : Dec)
    (h : crossassetsetrate py rates assetIn assetOut v base ppm cap = .ok rates')
    (hv : py.read v = some (.finite d)) (hpos : 0 < d.value) :
    QuotesExact py rates' assetIn assetOut d.value base ppm ↔ defaultContext.Keeps d := by
  obtain ⟨n, hn, hppm, hentry⟩ := crossassetsetrate_eq_ok h hv
  rw [← normalize_value_iff hn]
  constructor
  · intro hexact
    obtain ⟨entry, hstored, hvalue⟩ := hexact.published
    rw [hentry] at hstored
    split at hstored
    · cases hstored
    · obtain rfl := some.inj hstored
      rw [py.valueOf_formatFixed n] at hvalue
      exact some.inj hvalue
  · intro hvalue
    rw [if_neg (by rw [hvalue]; exact hpos.ne')] at hentry
    have hread : py.valueOf (formatFixed n) = some d.value := by
      rw [py.valueOf_formatFixed n, hvalue]
    have hamount : ∀ out base' ppm' : ℤ,
        amountInForText py out (formatFixed n) base' ppm' = amountInFor out d.value base' ppm' := by
      intro out base' ppm'
      rw [amountInForText, hread, bind_some]
    have hof : ∀ entry, rates' assetIn assetOut = some entry → entry = ⟨formatFixed n, base, ppm, cap⟩ :=
      fun entry hsome => some.inj (hsome.symm.trans hentry)
    refine ⟨⟨_, hentry, hread⟩, ?_, ?_, ?_⟩
    · intro entry hsome out
      obtain rfl := hof entry hsome
      refine ⟨_, isLeast_ceil_div hpos out, ?_⟩
      rw [hamount, amountInFor_of_pos hpos]
    · intro entry hsome out out' x x' hle hx hx'
      obtain rfl := hof entry hsome
      rw [hamount] at hx hx'
      exact amountInFor_mono hppm hle hx hx'
    · intro signer c a q hin hout hq
      obtain ⟨entry, hsome, hrate, -⟩ := makeQuote_recomputed hq
      rw [hin, hout] at hsome
      obtain rfl := hof entry hsome
      refine ⟨by rw [hrate]; exact hread, fun want now e he => checkQuote_recomputation hq he⟩

namespace RateExample

/-- The digits before and after the point, of a numeral without its sign. -/
def readDigits (negative : Bool) (body : Bytes) : Option PyDecimal :=
  let intpart := body.takeWhile isAsciiDigit
  match body.dropWhile isAsciiDigit with
  | [] => if intpart = [] then none else some (.finite ⟨negative, decimalVal intpart, 0⟩)
  | b :: frac =>
    if b = 46 ∧ frac.all isAsciiDigit ∧ intpart ++ frac ≠ [] then
      some (.finite ⟨negative, decimalVal (intpart ++ frac), -(frac.length : ℤ)⟩)
    else none

/-- A reader of plain numerals only. -/
def plainRead (text : Bytes) : Option PyDecimal :=
  if text.head? = some 45 then readDigits true text.tail else readDigits false text

/-- A plain numeral is read as its digits say. -/
lemma readDigits_plain (negative : Bool) {intpart fracpart : Bytes} (hne : intpart ≠ [])
    (hdigits : ∀ b ∈ intpart ++ fracpart, isAsciiDigit b = true) :
    readDigits negative (intpart ++ if fracpart = [] then [] else 46 :: fracpart) =
      some (.finite ⟨negative, decimalVal (intpart ++ fracpart), -(fracpart.length : ℤ)⟩) := by
  have hint : ∀ b ∈ intpart, isAsciiDigit b = true := fun b hb => hdigits b (List.mem_append_left _ hb)
  have hfrac : fracpart.all isAsciiDigit = true :=
    List.all_eq_true.2 fun b hb => hdigits b (List.mem_append_right _ hb)
  unfold readDigits
  simp only [List.takeWhile_append_of_pos hint, List.dropWhile_append_of_pos hint]
  by_cases hnil : fracpart = []
  · subst hnil
    simp [hne]
  · have hpoint : isAsciiDigit 46 = false := rfl
    simp [hnil, hne, hpoint, hfrac]

lemma plainRead_plainNumeral (negative : Bool) (intpart fracpart : Bytes) (hne : intpart ≠ [])
    (hdigits : ∀ b ∈ intpart ++ fracpart, isAsciiDigit b = true) :
    plainRead (plainNumeral negative intpart fracpart) =
      some (.finite ⟨negative, decimalVal (intpart ++ fracpart), -(fracpart.length : ℤ)⟩) := by
  rw [← readDigits_plain negative hne hdigits]
  cases negative with
  | true => exact if_pos rfl
  | false =>
    obtain ⟨b, rest, rfl⟩ := List.exists_cons_of_ne_nil hne
    have hb : b ≠ 45 := by
      rintro rfl
      exact absurd (hdigits 45 (by simp)) (by decide)
    exact if_neg fun h => hb (some.inj h)

def reader : DecimalReader := ⟨plainRead, plainRead_plainNumeral⟩

def assetIn : AssetId := ByteString.replicate 32 1

def assetOut : AssetId := ByteString.replicate 32 2

/-- `2.50` -/
def twoAndAHalf : Bytes := [50, 46, 53, 48]

/-- `1.00000000000000000000000000001`, of 30 digits. -/
def thirtyDigits : Bytes := [49, 46] ++ List.replicate 28 48 ++ [49]

/-- The published pairs after a first rate. -/
def publish (v : Bytes) (base ppm : ℤ) : Except SetRateError Rates :=
  crossassetsetrate reader (fun _ _ => none) assetIn assetOut v base ppm 0

/-- The text that is then published. -/
def published (v : Bytes) (base ppm : ℤ) : Option Bytes :=
  (publish v base ppm).toOption.bind fun rates => (rates assetIn assetOut).map (·.rate)

lemma exists_of_published {v : Bytes} {base ppm : ℤ} {text : Bytes} (h : published v base ppm = some text) :
    ∃ rates', publish v base ppm = .ok rates' ∧ ∃ entry, rates' assetIn assetOut = some entry ∧
      entry.rate = text := by
  obtain ⟨rates', hrates, h⟩ := bind_eq_some_iff.1 h
  obtain ⟨entry, hentry, rfl⟩ := map_eq_some_iff.1 h
  cases hpub : publish v base ppm with
  | error e =>
    rw [hpub] at hrates
    cases hrates
  | ok rates'' =>
    rw [hpub] at hrates
    obtain rfl := some.inj hrates
    exact ⟨_, rfl, entry, hentry, rfl⟩

/-- A rate of two and a half is published and signed as such. -/
theorem quotesExact_twoAndAHalf :
    ∃ rates', publish twoAndAHalf 1 100 = .ok rates' ∧
      QuotesExact reader rates' assetIn assetOut (Dec.value ⟨false, 250, -2⟩) 1 100 := by
  have hpub : published twoAndAHalf 1 100 = some [50, 46, 53] := by decide +kernel
  obtain ⟨rates', hset, -⟩ := exists_of_published hpub
  refine ⟨rates', hset, (quotesExact_iff reader _ rates' assetIn assetOut twoAndAHalf 1 100 0
    ⟨false, 250, -2⟩ hset rfl ?_).2 ?_⟩
  · norm_num [Dec.value, Dec.magnitude]
  · exact ⟨250, -2, rfl, by decide, by decide⟩

/-- A rate of 30 digits is accepted, and published as 1. -/
theorem thirtyDigits_published_as_one :
    reader.valueOf thirtyDigits = some (1 + 1 / 10 ^ 29) ∧
      ∃ rates', publish thirtyDigits 0 0 = .ok rates' ∧
        (∃ entry, rates' assetIn assetOut = some entry ∧ entry.rate = [49]) ∧
        ¬ QuotesExact reader rates' assetIn assetOut (1 + 1 / 10 ^ 29) 0 0 := by
  have hpub : published thirtyDigits 0 0 = some [49] := by decide +kernel
  have hone : reader.valueOf [49] = some 1 := by decide +kernel
  obtain ⟨rates', hset, entry, hentry, hrate⟩ := exists_of_published hpub
  refine ⟨by decide +kernel, rates', hset, ⟨entry, hentry, hrate⟩, fun h => ?_⟩
  obtain ⟨entry', hentry', hvalue⟩ := h.published
  obtain rfl := some.inj (hentry.symm.trans hentry')
  rw [hrate, hone] at hvalue
  norm_num at hvalue

end RateExample

end SeqLN.Crossasset
