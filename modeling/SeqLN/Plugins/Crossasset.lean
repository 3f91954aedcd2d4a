import SeqLN.Lib.Bytes

/-!
# Quotes for cross-asset forwards

`contrib/crossasset-seq/crossasset.py` signs a quote for a payment hash, and an incoming HTLC that
matches it is paid out in another asset. Here are the plugin's data and its pure parts: the price of a
quote (`amountInFor`) and the comparison of an HTLC with it (`check`). Python integers are integers and
Python times are rationals.
-/

namespace SeqLN.Crossasset

abbrev PaymentHash := ByteString 32

abbrev AssetId := ByteString 32

abbrev Preimage := ByteString 32

/-- A short channel id, as a number. -/
abbrev Scid := ℕ

/-! ### Quotes -/

/-- What `crossassetsetrate` publishes for a pair of assets. -/
structure Pair where
  rate : ℚ
  feeBaseMsat : ℤ
  feePpm : ℤ
  maxOutMsat : ℤ

/-- The options of the plugin. Source: `STATE` -/
structure Config where
  seconds : ℤ := 30
  maxOpen : ℕ := 4
  maxOutCltv : ℤ := 432
  maxQuotes : ℕ := 1000
  cltvDelta : ℤ

/-- A quote, without the rate and the fees it was computed from, which nothing reads again. -/
structure Quote where
  quoteId : ℕ
  paymentHash : PaymentHash
  assetIn : AssetId
  amountInMsat : ℤ
  assetOut : AssetId
  amountOutMsat : ℤ
  expiry : ℤ
  cltvDelta : ℤ
  maxOutCltv : ℤ
  deriving DecidableEq

/-- What is asked in the incoming asset: the converted amount and the fee on it, each rounded up.
`none` is a rate that is not above zero. Source: `amount_in_for` -/
def amountInFor (amountOutMsat : ℤ) (rate : ℚ) (feeBaseMsat feePpm : ℤ) : Option ℤ :=
  if rate ≤ 0 then none
  else
    let converted := ⌈(amountOutMsat : ℚ) / rate⌉
    some (converted + (⌈(converted * feePpm : ℚ) / 1000000⌉ + feeBaseMsat))

/-! ### Channels and HTLCs -/

/-- A channel in `_channels`; the state is whether it is `CHANNELD_NORMAL`. -/
structure ChannelInfo where
  asset : Option AssetId
  peerId : ByteString 33
  normal : Bool
  spendableMsat : ℤ
  scid : Option Scid
  deriving DecidableEq

/-- The channels by the names that an onion may use. Source: the result of `_channels` -/
abbrev Channels := List (Scid × ChannelInfo)

/-- What the hook says of an onion. -/
structure Onion where
  shortChannelId : Option Scid
  forwardMsat : ℤ
  outgoingCltvValue : ℤ
  deriving DecidableEq

/-- The pair by which the plugin knows an incoming HTLC. The short channel id is the present one, or
an alias while there is none. Source: `key` in `on_htlc_accepted` -/
structure HtlcKey where
  shortChannelId : Scid
  id : ℕ
  deriving DecidableEq

/-- An incoming HTLC of `lightningd`: its channel's number in the database and its own. Source: the
key of `htlc_in` -/
structure HtlcIn where
  channel : ℕ
  id : ℕ
  deriving DecidableEq

/-- An incoming HTLC with its onion. What depends on the moment of the hook call,
`cltv_expiry_relative`, is apart. -/
structure Htlc where
  paymentHash : PaymentHash
  asset : Option AssetId
  amountMsat : ℤ
  cltvExpiry : ℤ
  onion : Onion
  deriving DecidableEq

/-- Why an HTLC does not match a quote. -/
inductive Mismatch where
  | expired
  | assetIn
  | amountIn
  | assetOut
  | amountOut
  | notAboveTip
  | tooFarOut
  | cltvDelta
  deriving DecidableEq

/-- Why an HTLC that would cross assets does not match the quote, if it does not.
Source: `_check` -/
def check (now : ℚ) (q : Quote) (htlc : Htlc) (cltvExpiryRelative : ℤ) (out : ChannelInfo) :
    Option Mismatch :=
  let height := htlc.cltvExpiry - cltvExpiryRelative
  let outCltv := htlc.onion.outgoingCltvValue
  if (q.expiry : ℚ) < now then some .expired
  else if htlc.asset ≠ some q.assetIn then some .assetIn
  else if htlc.amountMsat ≠ q.amountInMsat then some .amountIn
  else if out.asset ≠ some q.assetOut then some .assetOut
  else if htlc.onion.forwardMsat ≠ q.amountOutMsat then some .amountOut
  else if outCltv ≤ height then some .notAboveTip
  else if q.maxOutCltv < outCltv - height then some .tooFarOut
  else if htlc.cltvExpiry - outCltv < q.cltvDelta then some .cltvDelta
  else none

/-- What an accepted HTLC and its quote have in common. -/
structure Matches (q : Quote) (htlc : Htlc) (cltvExpiryRelative : ℤ) (out : ChannelInfo) : Prop where
  assetIn : htlc.asset = some q.assetIn
  amountIn : htlc.amountMsat = q.amountInMsat
  assetOut : out.asset = some q.assetOut
  amountOut : htlc.onion.forwardMsat = q.amountOutMsat
  aboveTip : htlc.cltvExpiry - cltvExpiryRelative < htlc.onion.outgoingCltvValue
  maxOut : htlc.onion.outgoingCltvValue - (htlc.cltvExpiry - cltvExpiryRelative) ≤ q.maxOutCltv
  delta : q.cltvDelta ≤ htlc.cltvExpiry - htlc.onion.outgoingCltvValue

/-- An HTLC that `_check` has nothing against matches the quote. -/
theorem matches_of_check {now : ℚ} {q : Quote} {htlc : Htlc} {rel : ℤ} {out : ChannelInfo}
    (h : check now q htlc rel out = none) : Matches q htlc rel out := by
  unfold check at h
  dsimp only at h
  split_ifs at h with _ hassetIn hamountIn hassetOut hamountOut htip hmax hdelta
  exact ⟨not_not.1 hassetIn, not_not.1 hamountIn, not_not.1 hassetOut, not_not.1 hamountOut,
    not_le.1 htip, not_lt.1 hmax, not_lt.1 hdelta⟩

end SeqLN.Crossasset
