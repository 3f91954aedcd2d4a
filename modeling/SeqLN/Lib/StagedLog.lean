import Mathlib

/-!
# Logs whose entries pass through stages

Entries are appended to a log and pass through stages `0, 1, 2, …` in the order in which they were
appended. So the entries that have reached stage `k` are the first ones of the log (`upTo k`), and a log
with its stages is a list with a non-increasing sequence of cut points.
-/

namespace SeqLN.Lib

/-- A log with, for each stage, how many of its entries have reached it. -/
structure StagedLog (E : Type*) where
  entries : List E
  cut : ℕ → ℕ
  cut_zero : cut 0 = entries.length
  cut_anti : Antitone cut

namespace StagedLog

variable {E : Type*}

/-- The log with no entry. -/
def empty : StagedLog E where
  entries := []
  cut _ := 0
  cut_zero := rfl
  cut_anti := antitone_const

/-- The entries that have reached stage `k`. -/
def upTo (l : StagedLog E) (k : ℕ) : List E := l.entries.take (l.cut k)

/-- No more entries have reached a stage than there are. -/
theorem cut_le_length (l : StagedLog E) (k : ℕ) : l.cut k ≤ l.entries.length :=
  l.cut_zero ▸ l.cut_anti (Nat.zero_le k)

/-- New entries, at stage `0`. -/
def append (l : StagedLog E) (es : List E) : StagedLog E where
  entries := l.entries ++ es
  cut k := if k = 0 then l.entries.length + es.length else l.cut k
  cut_zero := by simp
  cut_anti := by
    intro j k hjk
    have hj := l.cut_le_length j
    have hk := l.cut_le_length k
    dsimp only
    split_ifs with h1 h2
    · exact le_rfl
    · omega
    · omega
    · exact l.cut_anti hjk

/-- Every entry at stage `k` moves to stage `k + 1`. -/
def advance (l : StagedLog E) (k : ℕ) : StagedLog E where
  entries := l.entries
  cut j := if j = k + 1 then l.cut k else l.cut j
  cut_zero := by simp [l.cut_zero]
  cut_anti := by
    intro i j hij
    dsimp only
    split_ifs with h1 h2
    · exact le_rfl
    · exact l.cut_anti (by omega)
    · exact l.cut_anti (by omega)
    · exact l.cut_anti hij

/-- The empty log has no entries. -/
@[simp] theorem entries_empty : (empty : StagedLog E).entries = [] := rfl

/-- Nothing of the empty log has reached a stage. -/
@[simp] theorem upTo_empty (k : ℕ) : (empty : StagedLog E).upTo k = [] := rfl

/-- The entries of a longer log. -/
@[simp] theorem entries_append (l : StagedLog E) (es : List E) :
    (l.append es).entries = l.entries ++ es := rfl

/-- Advancing leaves the entries. -/
@[simp] theorem entries_advance (l : StagedLog E) (k : ℕ) : (l.advance k).entries = l.entries := rfl

/-- Every entry has reached stage `0`. -/
@[simp] theorem upTo_zero (l : StagedLog E) : l.upTo 0 = l.entries := by
  rw [upTo, l.cut_zero, List.take_length]

/-- New entries have reached stage `0` only. -/
theorem upTo_append (l : StagedLog E) (es : List E) (k : ℕ) :
    (l.append es).upTo k = l.upTo k ++ if k = 0 then es else [] := by
  by_cases hk : k = 0
  · subst hk
    rw [upTo_zero, upTo_zero, entries_append, if_pos rfl]
  · have hc : (l.append es).cut k = l.cut k := if_neg hk
    rw [if_neg hk, List.append_nil, upTo, hc, entries_append,
      List.take_append_of_le_length (l.cut_le_length k), upTo]

/-- What has reached a stage once the entries at stage `k` moved on. -/
theorem upTo_advance (l : StagedLog E) (k j : ℕ) :
    (l.advance k).upTo j = l.upTo (if j = k + 1 then k else j) := by
  simp only [upTo, advance]
  split_ifs <;> rfl

end StagedLog

end SeqLN.Lib
