import TcpClient.Compat
import TcpClient.Lib.CString
import Mathlib.Data.List.Induction
import Mathlib.Algebra.Ring.Int.Defs
import Mathlib.Algebra.Ring.Nat

/-!
# The history of the line editor

`history`, `history_len` and `history_max_len` of `linenoise.c`, with
`linenoiseHistoryAdd`, `linenoiseHistorySave` and `linenoiseHistoryFree`. The array is a list of slots; an
access outside it, or to a slot without a string, gives `none`.

`History.Holds` says which entries the array holds. `linenoiseHistoryAdd_holds` is that
adding a line is `remember`: it is appended unless it is empty or repeats the last
entry, and the oldest entry goes when there are too many.

## Honest scope

Allocations succeed.
-/

namespace TcpClient

open CString

/-- The static variables of the history. -/
structure History where
  /-- The array `history`, which is `NULL` as long as there is none; a slot without a string is
  `none`. -/
  slots : List (Option CStr) := []
  /-- `history_len`. -/
  len : ℕ := 0
  /-- `history_max_len`, at first `LINENOISE_DEFAULT_HISTORY_MAX_LEN`. -/
  maxLen : ℕ := 500
  deriving DecidableEq

/-- `history[i]`. -/
def History.get (h : History) (i : ℕ) : Option CStr := h.slots[i]?.join

/-- `history = realloc(history, sizeof(char *) * n)`. -/
def History.realloc (h : History) (n : ℕ) : History :=
  { h with slots := h.slots.take n ++ List.replicate (n - h.slots.length) none }

/-- `strcmp(history[history_len - 1], line) == 0`, when there is an entry. -/
def History.repeats (h : History) (line : CStr) : Option Bool :=
  if h.slots ≠ [] ∧ 0 < h.len then (h.get (h.len - 1)).map (decide <| · = line) else some false

/-- The oldest entry is freed, the others move down, and the line takes the last slot. -/
def History.shift (h : History) (line : CStr) : Option History := do
  let _ ← h.get 0
  let slots ← memmove h.slots 0 1 (h.maxLen - 1)
  let slots ← store slots (h.maxLen - 1) (some line)
  return { h with slots := slots }

/-- The array grows by a slot, and the line takes it. -/
def History.append (h : History) (line : CStr) : Option History := do
  let slots ← store (h.realloc (h.len + 1)).slots h.len (some line)
  return { h with slots := slots, len := h.len + 1 }

/-- `linenoiseHistoryAdd(line)`. -/
def linenoiseHistoryAdd (line : CStr) (h : History) : Option (ℤ × History) :=
  if line = CStr.empty ∨ h.maxLen = 0 then some (0, h)
  else do
    if ← h.repeats line then return (0, h)
    else if h.maxLen ≤ h.len then return (1, ← h.shift line)
    else return (1, ← h.append line)

/-- What `linenoiseHistorySave` writes: every entry and a line end. -/
def linenoiseHistorySave (h : History) : Option (List Byte) := do
  let lines ← (List.range h.len).mapM h.get
  return lines.flatMap fun line => line.chars ++ [10]

/-- `linenoiseHistoryFree()`, but for `saved_line`. -/
def linenoiseHistoryFree (h : History) : Option History := do
  let _ ← (List.range h.len).mapM h.get
  return { h with slots := [], len := 0 }

/-! ### What the array holds -/

/-- The array holds the entries, and anything after them; there are no more than may be. -/
structure History.Holds (h : History) (entries : List CStr) : Prop where
  slots : ∃ junk, h.slots = entries.map some ++ junk
  len : h.len = entries.length
  room : h.len ≤ h.maxLen
  pos : 0 < h.maxLen

/-- The entries after a line was added to at most `max`. -/
def remember (max : ℕ) (entries : List CStr) (line : CStr) : List CStr :=
  if line = CStr.empty ∨ entries.getLast? = some line then entries
  else (entries ++ [line]).drop (entries.length + 1 - max)

section Holds

variable {h : History} {entries : List CStr}

/-- A loop that reads what is there. -/
theorem mapM_range_eq {α : Type} {f : ℕ → Option α} {xs : List α} (hf : ∀ i (hi : i < xs.length), f i = some xs[i]) :
    (List.range xs.length).mapM f = some xs := by
  induction xs using List.reverseRecOn with
  | nil => rfl
  | append_singleton xs x ih =>
    have hxs : (List.range xs.length).mapM f = some xs := by
      refine ih fun i hi => ?_
      rw [hf i (by simp; omega), List.getElem_append_left hi]
    have hx : f xs.length = some x := by
      rw [hf xs.length (by simp)]
      simp
    rw [List.length_append, List.length_singleton, List.range_succ, List.mapM_append, hxs]
    simp [hx]

/-- The history before the first line. -/
theorem holds_init : ({} : History).Holds [] := ⟨⟨[], rfl⟩, rfl, by decide, by decide⟩

theorem History.Holds.get_lt (hh : h.Holds entries) {i : ℕ} (hi : i < entries.length) :
    h.get i = some entries[i] := by
  obtain ⟨junk, hslots⟩ := hh.slots
  rw [History.get, hslots, List.getElem?_append_left (by simpa using hi)]
  simp [hi]

theorem History.Holds.repeats (hh : h.Holds entries) (line : CStr) :
    h.repeats line = some (decide (entries.getLast? = some line)) := by
  rw [History.repeats]
  cases entries using List.reverseRecOn with
  | nil => simp [hh.len]
  | append_singleton entries last =>
    have hne : h.slots ≠ [] := by
      obtain ⟨junk, hslots⟩ := hh.slots
      simp [hslots]
    have hlen : h.len = entries.length + 1 := by simpa using hh.len
    have hget : h.get (h.len - 1) = some last := by
      rw [hlen, Nat.add_sub_cancel, hh.get_lt (by simp)]
      simp
    rw [if_pos ⟨hne, by omega⟩, hget]
    simp

/-- When the history is full. -/
theorem History.Holds.shift {first : CStr} (hh : h.Holds (first :: entries)) (hfull : h.maxLen ≤ h.len) (line : CStr) :
    ∃ h', h.shift line = some h' ∧ h'.maxLen = h.maxLen ∧ h'.Holds (entries ++ [line]) := by
  obtain ⟨junk, hslots⟩ := hh.slots
  have hlen : h.len = entries.length + 1 := by simpa using hh.len
  have hmax : h.maxLen = entries.length + 1 := by
    have hroom := hh.room
    omega
  have hget : h.get 0 = some first := hh.get_lt (by simp)
  have hdrop : (h.slots.drop 1).take entries.length = entries.map some := by
    rw [hslots, List.map_cons, List.cons_append, List.drop_one, List.tail_cons]
    exact List.take_left' (by simp)
  obtain ⟨x, hrest⟩ : ∃ x, h.slots.drop entries.length = x :: junk := by
    obtain ⟨most, last, hsplit⟩ := (List.eq_nil_or_concat' (first :: entries)).resolve_left (by simp)
    have hcount : entries.length = (most.map some).length := by
      have := congrArg List.length hsplit
      simpa using this
    refine ⟨some last, ?_⟩
    rw [hslots, hsplit, List.map_append, List.append_assoc, hcount, List.drop_left]
    rfl
  have hmove : memmove h.slots 0 1 (h.maxLen - 1) = some (entries.map some ++ x :: junk) := by
    rw [memmove, if_pos (by simp only [hslots, hmax, List.length_append, List.length_map, List.length_cons]; omega),
      hmax, Nat.add_sub_cancel, hdrop, Nat.zero_add, hrest]
    rfl
  have hstore : store (entries.map some ++ x :: junk) (h.maxLen - 1) (some line) =
      some ((entries ++ [line]).map some ++ junk) := by
    rw [hmax, Nat.add_sub_cancel, store, if_pos (by simp), List.set_append_right _ _ (by simp)]
    simp
  refine ⟨{ h with slots := (entries ++ [line]).map some ++ junk }, ?_, rfl, ⟨junk, rfl⟩, ?_, hh.room, hh.pos⟩
  · simp [History.shift, hget, hmove, hstore]
  · simpa using hlen

/-- When there is room for one more. -/
theorem History.Holds.append (hh : h.Holds entries) (hroom : h.len < h.maxLen) (line : CStr) :
    ∃ h', h.append line = some h' ∧ h'.maxLen = h.maxLen ∧ h'.Holds (entries ++ [line]) := by
  obtain ⟨junk, hslots⟩ := hh.slots
  have hlen := hh.len
  have hgrown : ∃ x junk', (h.realloc (h.len + 1)).slots = entries.map some ++ x :: junk' := by
    unfold History.realloc
    have htake : (entries.map some).take (entries.length + 1) = entries.map some := List.take_of_length_le (by simp)
    cases junk with
    | nil => exact ⟨none, [], by simp [hslots, hlen, htake]⟩
    | cons x junk => exact ⟨x, [], by simp [hslots, hlen, List.take_append, htake]⟩
  obtain ⟨x, junk', hgrown⟩ := hgrown
  have hstore : store (h.realloc (h.len + 1)).slots h.len (some line) =
      some ((entries ++ [line]).map some ++ junk') := by
    rw [hgrown, hlen, store, if_pos (by simp), List.set_append_right _ _ (by simp)]
    simp
  refine ⟨{ h with slots := _, len := h.len + 1 }, ?_, rfl, ⟨junk', rfl⟩, by simp [hlen], hroom, hh.pos⟩
  simp [History.append, hstore]

/-- **Adding a line** is `remember`, and touches no slot outside the array. -/
theorem linenoiseHistoryAdd_holds (hh : h.Holds entries) (line : CStr) :
    ∃ rc h', linenoiseHistoryAdd line h = some (rc, h') ∧ h'.maxLen = h.maxLen ∧
      h'.Holds (remember h.maxLen entries line) := by
  have hlen := hh.len
  have hroom := hh.room
  have hpos := hh.pos
  by_cases hempty : line = CStr.empty
  · rw [linenoiseHistoryAdd, if_pos (.inl hempty), remember, if_pos (.inl hempty)]
    exact ⟨0, h, rfl, rfl, hh⟩
  have hgoes : ¬ (line = CStr.empty ∨ h.maxLen = 0) := by
    rintro (h' | h')
    · exact hempty h'
    · omega
  rw [linenoiseHistoryAdd, if_neg hgoes, hh.repeats line]
  by_cases hlast : entries.getLast? = some line
  · rw [remember, if_pos (Or.inr hlast)]
    exact ⟨0, h, by simp [hlast], rfl, hh⟩
  have hnew : ¬ (line = CStr.empty ∨ entries.getLast? = some line) := by
    rintro (h' | h')
    · exact hempty h'
    · exact hlast h'
  rw [remember, if_neg hnew]
  by_cases hfull : h.maxLen ≤ h.len
  · cases entries with
    | nil =>
      rw [List.length_nil] at hlen
      omega
    | cons first entries =>
      obtain ⟨h', hshift, hmax, hh'⟩ := hh.shift hfull line
      have hone : (first :: entries).length + 1 - h.maxLen = 1 := by
        rw [List.length_cons] at hlen ⊢
        omega
      refine ⟨1, h', ?_, hmax, ?_⟩
      · rw [decide_eq_false hlast]
        simp [hfull, hshift]
      · rw [hone]
        exact hh'
  · obtain ⟨h', happend, hmax, hh'⟩ := hh.append (not_le.mp hfull) line
    have hzero : entries.length + 1 - h.maxLen = 0 := by omega
    refine ⟨1, h', ?_, hmax, ?_⟩
    · rw [decide_eq_false hlast]
      simp [hfull, happend]
    · rw [hzero]
      exact hh'

theorem History.Holds.read_all (hh : h.Holds entries) : (List.range h.len).mapM h.get = some entries := by
  rw [hh.len]
  exact mapM_range_eq fun i hi => hh.get_lt hi

/-- **The saved text**: the entries, each with a line end. -/
theorem linenoiseHistorySave_holds (hh : h.Holds entries) :
    linenoiseHistorySave h = some (entries.flatMap fun line => line.chars ++ [10]) := by
  rw [linenoiseHistorySave, hh.read_all]
  rfl

/-- **Freeing** leaves an empty history with the same limit. -/
theorem linenoiseHistoryFree_holds (hh : h.Holds entries) :
    ∃ h', linenoiseHistoryFree h = some h' ∧ h'.maxLen = h.maxLen ∧ h'.Holds [] := by
  refine ⟨{ h with slots := [], len := 0 }, ?_, rfl, ⟨[], rfl⟩, rfl, Nat.zero_le _, hh.pos⟩
  rw [linenoiseHistoryFree, hh.read_all]
  rfl

end Holds

end TcpClient
