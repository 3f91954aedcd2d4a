import SeqLN.Plugins.Crossasset

/-!
# The time margin of a cross-asset forward

The plugin turns the expiry that an onion asks for into a delay above the height that `getinfo`
reports, and `lightningd` turns the delay back into an expiry above its own base, one above the
network's height (`outgoingExpiry_eq`). `margin_kept_iff`: the quote's margins hold exactly where the
onion leaves room for that block and for the difference between the two heights.
-/

namespace SeqLN.Crossasset

/-! ### The heights of a node -/

/-- What `lightningd` knows of the chain's height: its tip, `bitcoind`'s headers, and what `gossipd`
has acknowledged, which follows the tip. -/
structure Heights where
  tip : ℕ
  headercount : ℕ
  gossipBlockheight : ℕ
  /-- Whether `topology_synced`. -/
  synced : Bool
  gossip_le : gossipBlockheight ≤ tip

namespace Heights

/-- Source: `get_network_blockheight` -/
def network (t : Heights) : ℕ := if t.tip > t.headercount then t.tip else t.headercount

/-- The `blockheight` in the answer to `getinfo`. Source: `json_getinfo` -/
def getinfo (t : Heights) : ℕ := if t.synced then t.gossipBlockheight else t.tip

lemma getinfo_le_tip (t : Heights) : t.getinfo ≤ t.tip := by
  unfold getinfo
  split
  · exact t.gossip_le
  · exact le_rfl

/-- At most `n` blocks arrive between two moments, and no height falls. -/
structure Rises (n : ℕ) (t t' : Heights) : Prop where
  getinfo_le : t.getinfo ≤ t'.getinfo
  getinfo_rise : t'.getinfo ≤ t.getinfo + n
  network_le : t.network ≤ t'.network
  network_rise : t'.network ≤ t.network + n

lemma Rises.refl (t : Heights) : Rises 0 t t := ⟨le_rfl, le_rfl, le_rfl, le_rfl⟩

end Heights

/-! ### The expiry that is offered -/

/-- The expiry of the HTLC that `sendonion` offers for a first hop's delay, in 32-bit words; only a
positive delay is taken. Source: `param_route_hop`, `send_onion` -/
def sendOnionExpiry (t : Heights) (delay : ℤ) : Option ℕ :=
  if 1 ≤ delay ∧ delay < 2 ^ 32 then some ((t.network + 1 + delay.toNat) % 2 ^ 32) else none

/-- The expiry of the outgoing HTLC: the plugin reads the height at one moment and `lightningd`
sends later. Source: the end of `on_htlc_accepted` -/
def outgoingExpiry (onion : Onion) (atGetinfo atSend : Heights) : Option ℕ :=
  sendOnionExpiry atSend (onion.outgoingCltvValue - atGetinfo.getinfo)

/-- Heights and expiries are below the numbers that count seconds. -/
def locktimeThreshold : ℕ := 500000000

section expiry

variable {onion : Onion} {t₀ t₁ t₂ : Heights} {e : ℕ}

lemma outgoingExpiry_eq (hcltv : onion.outgoingCltvValue < locktimeThreshold)
    (hnet : t₂.network < locktimeThreshold) (h : outgoingExpiry onion t₁ t₂ = some e) :
    (e : ℤ) = onion.outgoingCltvValue + 1 + (t₂.network - t₁.getinfo) := by
  unfold outgoingExpiry sendOnionExpiry at h
  split at h
  · next hdelay =>
    have hsum : t₂.network + 1 + (onion.outgoingCltvValue - t₁.getinfo).toNat < 2 ^ 32 := by
      unfold locktimeThreshold at hcltv hnet
      omega
    rw [Nat.mod_eq_of_lt hsum, Option.some.injEq] at h
    omega
  · cases h

lemma outgoingExpiry_isSome (habove : (t₁.getinfo : ℤ) < onion.outgoingCltvValue)
    (hcltv : onion.outgoingCltvValue < locktimeThreshold) :
    ∃ e, outgoingExpiry onion t₁ t₂ = some e := by
  have hdelay : 1 ≤ onion.outgoingCltvValue - t₁.getinfo ∧
      onion.outgoingCltvValue - t₁.getinfo < 2 ^ 32 := by
    unfold locktimeThreshold at hcltv
    omega
  exact ⟨_, if_pos hdelay⟩

/-- Each block moves the outgoing expiry by at most one: one found before the sending makes it
later, and one that the plugin already sees makes up for that. -/
theorem outgoingExpiry_moves {n : ℕ} {e₀ : ℕ} (hcltv : onion.outgoingCltvValue < locktimeThreshold)
    (hnet₀ : t₀.network < locktimeThreshold) (hnet : t₂.network < locktimeThreshold)
    (hrise₁ : t₀.Rises n t₁) (hrise₂ : t₀.Rises n t₂)
    (h : outgoingExpiry onion t₁ t₂ = some e) (h₀ : outgoingExpiry onion t₀ t₀ = some e₀) :
    |(e : ℤ) - e₀| ≤ n := by
  rw [outgoingExpiry_eq hcltv hnet h, outgoingExpiry_eq hcltv hnet₀ h₀, abs_le]
  have hget := hrise₁.getinfo_le
  have hget' := hrise₁.getinfo_rise
  have hup := hrise₂.network_le
  have hup' := hrise₂.network_rise
  omega

end expiry

/-! ### The margin -/

/-- The margin that a quote asks for, from the hook call at `t₀` on: with no block in between the
outgoing HTLC expires `cltv_delta` before the incoming one and at most `max_out_cltv` above the tip,
and every block until `lightningd` sends moves its expiry by at most one. -/
def KeepsMargin (q : Quote) (htlc : Htlc) (t₀ : Heights) : Prop :=
  ∀ n t₁ t₂ e, t₀.Rises n t₁ → t₁.Rises n t₂ → t₀.Rises n t₂ → t₂.network < locktimeThreshold →
    outgoingExpiry htlc.onion t₁ t₂ = some e →
    (n = 0 → (e : ℤ) ≤ htlc.cltvExpiry - q.cltvDelta ∧ (e : ℤ) ≤ t₀.tip + q.maxOutCltv) ∧
    ∀ e₀, outgoingExpiry htlc.onion t₀ t₀ = some e₀ → |(e : ℤ) - e₀| ≤ n

/-- The room that the onion leaves for `lightningd`'s own base: one block, and what the network's
height is ahead of `getinfo`'s. -/
def LeavesRoom (q : Quote) (htlc : Htlc) (t₀ : Heights) : Prop :=
  let outCltv := htlc.onion.outgoingCltvValue + 1 + (t₀.network - t₀.getinfo)
  outCltv ≤ htlc.cltvExpiry - q.cltvDelta ∧ outCltv ≤ t₀.tip + q.maxOutCltv

instance (q : Quote) (htlc : Htlc) (t₀ : Heights) : Decidable (LeavesRoom q htlc t₀) :=
  inferInstanceAs (Decidable (_ ∧ _))

/-- An accepted HTLC keeps its margin exactly where its onion leaves room for `lightningd`'s base.
-/
theorem margin_kept_iff (now : ℚ) (q : Quote) (htlc : Htlc) (out : ChannelInfo) (t₀ : Heights)
    (hnet : t₀.network < locktimeThreshold) (hexpiry : htlc.cltvExpiry < locktimeThreshold)
    (hdelta : 0 ≤ q.cltvDelta)
    (hcheck : check now q htlc (htlc.cltvExpiry - t₀.tip) out = none) :
    KeepsMargin q htlc t₀ ↔ LeavesRoom q htlc t₀ := by
  have hmatch := matches_of_check hcheck
  have hcltv : htlc.onion.outgoingCltvValue < locktimeThreshold := by
    have hd := hmatch.delta
    omega
  constructor
  · intro hkeeps
    have habove : (t₀.getinfo : ℤ) < htlc.onion.outgoingCltvValue := by
      have htip := hmatch.aboveTip
      have hle := t₀.getinfo_le_tip
      omega
    obtain ⟨e, he⟩ : ∃ e, outgoingExpiry htlc.onion t₀ t₀ = some e :=
      outgoingExpiry_isSome habove hcltv
    have hstill := Heights.Rises.refl t₀
    have hmargin := (hkeeps 0 t₀ t₀ e hstill hstill hstill hnet he).1 rfl
    rw [outgoingExpiry_eq hcltv hnet he] at hmargin
    exact hmargin
  · rintro ⟨hin, hout⟩ n t₁ t₂ e hrise₁ - hrise₂ hnet₂ he
    refine ⟨?_, fun e₀ he₀ => outgoingExpiry_moves hcltv hnet hnet₂ hrise₁ hrise₂ he he₀⟩
    rintro rfl
    have hget := hrise₁.getinfo_le
    have hup := hrise₂.network_rise
    rw [outgoingExpiry_eq hcltv hnet₂ he]
    omega

namespace MarginExample

/-- A node in step with its chain, at height 1000. -/
def synced : Heights := ⟨1000, 1000, 1000, true, le_rfl⟩

def asset (b : UInt8) : AssetId := ByteString.replicate 32 b

def quote : Quote where
  quoteId := 7
  paymentHash := ByteString.replicate 32 9
  assetIn := asset 1
  amountInMsat := 101000
  assetOut := asset 2
  amountOutMsat := 50000
  expiry := 60
  cltvDelta := 34
  maxOutCltv := 432

/-- An incoming HTLC that expires at 1200, with an onion that asks for the given expiry. -/
def htlc (outgoingCltvValue : ℤ) : Htlc :=
  ⟨ByteString.replicate 32 9, some (asset 1), 101000, 1200, ⟨some 5, 50000, outgoingCltvValue⟩⟩

def out : ChannelInfo := ⟨some (asset 2), ByteString.replicate 33 2, true, 1000000, some 5⟩

/-- With a block to spare the margin holds. -/
theorem margin_kept_iff_spare : KeepsMargin quote (htlc 1165) synced :=
  (margin_kept_iff 30 quote (htlc 1165) out synced (by decide) (by decide) (by decide)
    (by decide +kernel)).2 (by decide +kernel)

/-- An onion asks for the last expiry the plugin accepts, with no block in between: the HTLC expires
33 blocks before the incoming one, where the quote needs 34. -/
theorem margin_short_by_one :
    check 30 quote (htlc 1166) 200 out = none ∧
      outgoingExpiry (htlc 1166).onion synced synced = some 1167 ∧
      ¬ (1167 : ℤ) ≤ (htlc 1166).cltvExpiry - quote.cltvDelta ∧
      ¬ KeepsMargin quote (htlc 1166) synced := by
  have hsent : outgoingExpiry (htlc 1166).onion synced synced = some 1167 := by decide +kernel
  refine ⟨by decide +kernel, hsent, by decide, fun hkeeps => ?_⟩
  have hstill := Heights.Rises.refl synced
  have hmargin := (hkeeps 0 synced synced 1167 hstill hstill hstill (by decide) hsent).1 rfl
  exact absurd hmargin.1 (by decide)

end MarginExample

end SeqLN.Crossasset
