import SeqLN.Sym.Trees

/-!
# The constants of a settle clock

A settle-clock channel has beside its scripts' constants the id of its marker asset, the program of
its funding output and its capacity. Two places make them from the same four things: the node from
its channel, the watchtower from the record the node stored.
-/

namespace SeqLN.Sym

open Tapscript

/-- An output of a transaction.
Source: `bitcoin/tx.h`, `struct bitcoin_outpoint` -/
structure Outpoint where
  txid : ByteString 32
  n : UInt32
  deriving DecidableEq

/-- Source: `common/sym_scripts.h`, `struct sym_channel`, its `clock` -/
structure SymClock where
  marker : ByteString 32
  fundingProg : ByteString 32
  capacity : UInt64
  deriving DecidableEq

/-- The 2-of-2 script of two keys, in the order of their encodings.
Source: `bitcoin/script.c`, `bitcoin_redeem_2of2` -/
def bitcoinRedeem2of2 (key1 key2 : ByteString 33) : Bytes :=
  let keys := if key1.bytes < key2.bytes then (key1, key2) else (key2, key1)
  [0x52, 0x21] ++ keys.1.bytes ++ [0x21] ++ keys.2.bytes ++ [0x52, 0xae]

/-- Source: `sym_channel_set_clock`, the clock's constants -/
def symClockConstants (H : Hashing) (marker : ByteString 32) (fundingWscript : Bytes)
    (capacity : UInt64) : SymClock where
  marker
  fundingProg := hash32 H fundingWscript
  capacity

/-- The marker's asset tag. Source: `sym_clock_marker_asset` -/
def symClockMarkerAsset (clock : SymClock) : ByteString 33 :=
  ⟨1 :: clock.marker.bytes, by simp⟩

end SeqLN.Sym
