import TcpClient.Linenoise.Editor

/-!
# What the keys do to the line

The line of the editor is a text with a cursor in it: `Editor.Shows before after` says
that the array holds `before ++ after` with its terminator, and that the cursor is
between the two. For each label of the source one lemma says what it makes of the two
parts, that it stays inside the array, and (`Editor.Frame`) that it leaves everything
else alone.
-/

namespace TcpClient

open CString

/-- The line is `before ++ after`, with the cursor between the two. -/
structure Editor.Shows (l : Editor) (before after : List Byte) : Prop where
  holds : Holds l.buf (before ++ after)
  pos : l.pos = before.length
  len : l.len = before.length + after.length

/-- From `l` to `l'` only the line and the cursor have changed. -/
structure Editor.Frame (l l' : Editor) : Prop where
  buflen : l'.buf.length = l.buf.length
  rest : l' = { l with buf := l'.buf, pos := l'.pos, len := l'.len }

/-- The result is an editor that shows `before` and `after`, and is otherwise like `l`. -/
def Edits (l : Editor) (r : Option Fed) (rc : ℤ) (before after : List Byte) : Prop :=
  ∃ l' out, r = some ⟨rc, l', out⟩ ∧ l'.Shows before after ∧ l.Frame l'

section Keys

variable {l l' : Editor} {before after : List Byte} {c : Byte}

theorem Editor.Frame.refl (l : Editor) : l.Frame l := ⟨rfl, rfl⟩

theorem Editor.Frame.escState (h : l.Frame l') : l'.escState = l.escState := by rw [h.rest]

theorem Editor.Frame.historyIndex (h : l.Frame l') : l'.historyIndex = l.historyIndex := by rw [h.rest]

theorem Editor.Frame.savedLine (h : l.Frame l') : l'.savedLine = l.savedLine := by rw [h.rest]

theorem Editor.Frame.inCompletion (h : l.Frame l') : l'.inCompletion = l.inCompletion := by rw [h.rest]

theorem Editor.Frame.completionIdx (h : l.Frame l') : l'.completionIdx = l.completionIdx := by rw [h.rest]

theorem Editor.Frame.cachedCompletions (h : l.Frame l') : l'.cachedCompletions = l.cachedCompletions := by rw [h.rest]

theorem Editor.Shows.len_lt (h : l.Shows before after) : l.len < l.buf.length := by
  have hlt := h.holds.length_lt
  rw [List.length_append, ← h.len] at hlt
  exact hlt

theorem Editor.Shows.pos_le (h : l.Shows before after) : l.pos ≤ l.len := by
  rw [h.pos, h.len]
  exact Nat.le_add_right _ _

/-- The text, as it stands in the array. -/
theorem Editor.Shows.text_eq (h : l.Shows before after) : l.buf.take l.len = before ++ after := by
  obtain ⟨⟨junk, hlayout⟩, -⟩ := h.holds
  rw [hlayout, h.len, ← List.length_append, List.take_left]

/-- A character at the cursor. -/
theorem Editor.Shows.pos_lt (h : l.Shows before after) : l.pos < l.len ↔ after ≠ [] := by
  rw [h.pos, h.len, ← List.length_pos_iff]
  omega

/-- The line can be shown on the screen. -/
theorem Editor.Shows.redraw (h : l.Shows before after) : ∃ out, linenoiseEditRedraw l = some out :=
  ⟨_, if_pos h.len_lt.le⟩

theorem Editor.Shows.redrawn (h : l'.Shows before after) (hf : l.Frame l') : Edits l (redrawn l') 0 before after := by
  obtain ⟨out, hout⟩ := h.redraw
  exact ⟨l', out, by simp [TcpClient.redrawn, hout], h, hf⟩

theorem Editor.Shows.ignored (h : l.Shows before after) : Edits l (ignored l) 0 before after :=
  ⟨l, [], rfl, h, .refl l⟩

/-! ### The cursor -/

theorem Editor.Shows.handleLeft_nil (h : l.Shows [] after) : Edits l (handleLeft l) 0 [] after := by
  rw [handleLeft, if_neg (by simp [h.pos])]
  exact h.ignored

theorem Editor.Shows.handleLeft (h : l.Shows (before ++ [c]) after) : Edits l (handleLeft l) 0 before (c :: after) := by
  have hpos := h.pos
  have hlen := h.len
  have hholds := h.holds
  simp only [List.length_append, List.length_singleton, List.append_assoc, List.singleton_append] at hpos hlen hholds
  rw [TcpClient.handleLeft, if_pos (by omega)]
  refine Shows.redrawn ⟨hholds, ?_, ?_⟩ ⟨rfl, rfl⟩
  · simp only [hpos, Nat.add_sub_cancel]
  · simp only [hlen, List.length_cons]
    omega

theorem Editor.Shows.handleRight_nil (h : l.Shows before []) : Edits l (handleRight l) 0 before [] := by
  rw [handleRight, if_neg (by simp [h.pos_lt])]
  exact h.ignored

theorem Editor.Shows.handleRight (h : l.Shows before (c :: after)) :
    Edits l (handleRight l) 0 (before ++ [c]) after := by
  have hlen := h.len
  have hholds := h.holds
  rw [TcpClient.handleRight, if_pos (by simp [h.pos_lt])]
  refine Shows.redrawn ⟨?_, ?_, ?_⟩ ⟨rfl, rfl⟩
  · simpa using hholds
  · simp only [h.pos, List.length_append, List.length_singleton]
  · simp only [hlen, List.length_append, List.length_cons, List.length_nil]
    omega

theorem Editor.Shows.handleHome (h : l.Shows before after) : Edits l (handleHome l) 0 [] (before ++ after) := by
  refine Shows.redrawn ⟨h.holds, rfl, ?_⟩ ⟨rfl, rfl⟩
  simp only [h.len, List.length_nil, List.length_append, Nat.zero_add]

theorem Editor.Shows.handleEnd (h : l.Shows before after) : Edits l (handleEnd l) 0 (before ++ after) [] := by
  refine Shows.redrawn ⟨?_, ?_, ?_⟩ ⟨rfl, rfl⟩
  · rw [List.append_nil]
    exact h.holds
  · simp only [h.len, List.length_append]
  · simp only [h.len, List.length_append, List.length_nil, Nat.add_zero]

/-! ### The text -/

theorem Editor.Shows.handleDelete (h : l.Shows before after) : Edits l (handleDelete l) 0 before after.tail := by
  cases after with
  | nil =>
    rw [TcpClient.handleDelete, if_neg (by simp [h.pos_lt])]
    exact h.ignored
  | cons c after =>
    obtain ⟨buf, hmove, hholds, hbuf⟩ := h.holds.remove
    have hgap : l.len - l.pos = after.length + 1 := by
      rw [h.len, h.pos, List.length_cons]
      omega
    rw [TcpClient.handleDelete, if_pos (by simp [h.pos_lt]), hgap, h.pos, hmove, Option.bind_eq_bind, Option.bind_some]
    refine Shows.redrawn ⟨hholds, rfl, ?_⟩ ⟨hbuf, by rw [← h.pos]⟩
    simp only [h.len, List.length_cons, List.tail_cons]
    omega

theorem Editor.Shows.feedBackspace_nil (h : l.Shows [] after) : Edits l (feedBackspace l) 0 [] after := by
  rw [feedBackspace, if_neg (by simp [h.pos])]
  exact h.ignored

theorem Editor.Shows.feedBackspace (h : l.Shows (before ++ [c]) after) : Edits l (feedBackspace l) 0 before after := by
  have hpos := h.pos
  have hlen := h.len
  have hholds := h.holds
  simp only [List.length_append, List.length_singleton, List.append_assoc, List.singleton_append] at hpos hlen hholds
  obtain ⟨buf, hmove, hholds', hbuf⟩ := hholds.remove
  have hgap : l.len - l.pos + 1 = after.length + 1 := by omega
  rw [TcpClient.feedBackspace, if_pos (by omega), hgap, hpos, Nat.add_sub_cancel, hmove, Option.bind_eq_bind,
    Option.bind_some]
  refine Shows.redrawn ⟨hholds', rfl, ?_⟩ ⟨hbuf, rfl⟩
  simp only [hlen]
  omega

/-- The line is emptied. -/
theorem Editor.Shows.clear (h : l.Shows before after) :
    ∃ buf, store l.buf 0 0 = some buf ∧ ({ l with buf := buf, len := 0, pos := 0 } : Editor).Shows [] [] ∧
      l.Frame { l with buf := buf, len := 0, pos := 0 } := by
  have hholds : Holds l.buf ([] ++ (before ++ after)) := h.holds
  obtain ⟨buf, hstore, hempty, hbuf⟩ := hholds.truncate
  exact ⟨buf, hstore, ⟨hempty, rfl, rfl⟩, ⟨hbuf, rfl⟩⟩

theorem Editor.Shows.feedCtrlC (h : l.Shows before after) : Edits l (feedCtrlC l) (-1) [] [] := by
  obtain ⟨buf, hstore, hshows, hframe⟩ := h.clear
  exact ⟨_, _, by simp only [TcpClient.feedCtrlC, hstore]; rfl, hshows, hframe⟩

theorem Editor.Shows.feedCtrlU (h : l.Shows before after) : Edits l (feedCtrlU l) 0 [] [] := by
  obtain ⟨buf, hstore, hshows, hframe⟩ := h.clear
  rw [TcpClient.feedCtrlU, hstore]
  exact hshows.redrawn hframe

theorem Editor.Shows.feedCtrlK (h : l.Shows before after) : Edits l (feedCtrlK l) 0 before [] := by
  obtain ⟨buf, hstore, hholds, hbuf⟩ := h.holds.truncate
  rw [TcpClient.feedCtrlK, h.pos, hstore]
  refine Shows.redrawn ⟨?_, rfl, rfl⟩ ⟨hbuf, by rw [← h.pos]⟩
  rw [List.append_nil]
  exact hholds

theorem Editor.Shows.feedCtrlL (h : l.Shows before after) : Edits l (feedCtrlL l) 0 before after := by
  obtain ⟨out, hout⟩ := h.redraw
  exact ⟨l, _, by simp only [TcpClient.feedCtrlL, hout]; rfl, h, .refl l⟩

theorem Editor.Shows.feedEnter (h : l.Shows before after) : Edits l (feedEnter l) 1 before after := by
  have hstore : store l.buf l.len 0 = some l.buf := by
    rw [h.len, ← List.length_append]
    exact h.holds.terminate
  exact ⟨l, _, by simp only [TcpClient.feedEnter, hstore]; rfl, h, .refl l⟩

/-- A character goes in before the cursor, when there is room. -/
theorem Editor.Shows.insertChar (h : l.Shows before after) (hc : c ≠ 0) (hroom : l.len + 1 < l.buf.length) :
    Edits l (insertChar c l) 0 (before ++ [c]) after := by
  have hroom' : before.length + after.length + 1 < l.buf.length := h.len ▸ hroom
  obtain ⟨buf₁, buf₂, buf₃, h₁, h₂, h₃, hholds, hbuf⟩ := h.holds.insert hc hroom'
  have hgap : openGap l = some buf₁ := by
    rw [openGap, h.len, h.pos, Nat.add_sub_cancel_left]
    exact h₁
  rw [TcpClient.insertChar, if_pos (by omega), hgap]
  simp only [h.pos, h.len, h₂, h₃, Option.bind_eq_bind, Option.bind_some]
  refine Shows.redrawn ⟨?_, ?_, ?_⟩ ⟨hbuf, rfl⟩
  · simpa using hholds
  · simp
  · simp only [List.length_append, List.length_singleton]
    omega

/-- When there is no room, nothing happens. -/
theorem Editor.Shows.insertChar_full (h : l.Shows before after) (hfull : l.buf.length ≤ l.len + 1) :
    Edits l (TcpClient.insertChar c l) 0 before after := by
  rw [TcpClient.insertChar, if_neg (by omega)]
  exact h.ignored

/-- The line becomes as much of `s` as there is room for. -/
theorem Editor.Shows.showText (h : l.Shows before after) (s : CStr) :
    Edits l (showText s l) 0 (s.chars.take (l.buf.length - 1)) [] := by
  have hbuf := h.len_lt
  have hlen : (if l.buf.length ≤ s.chars.length then l.buf.length - 1 else s.chars.length) =
      (s.chars.take (l.buf.length - 1)).length := by
    rw [List.length_take]
    split_ifs <;> omega
  have htake : s.chars.take (s.chars.take (l.buf.length - 1)).length = s.chars.take (l.buf.length - 1) := by
    rw [List.length_take]
    cases le_total (l.buf.length - 1) s.chars.length with
    | inl hle => rw [min_eq_left hle]
    | inr hle => rw [min_eq_right hle, List.take_length, List.take_of_length_le hle]
  obtain ⟨buf₁, buf₂, hcopy, hstore, hholds, hbuf'⟩ :=
    CString.Holds.copy s (n := (s.chars.take (l.buf.length - 1)).length)
      (by rw [List.length_take]; exact min_le_right _ _)
      (by rw [List.length_take]; omega : (s.chars.take (l.buf.length - 1)).length < l.buf.length)
  rw [htake] at hholds
  rw [TcpClient.showText]
  simp only [hlen, hcopy, hstore, Option.bind_eq_bind, Option.bind_some]
  refine Shows.redrawn ⟨?_, rfl, rfl⟩ ⟨hbuf', rfl⟩
  rw [List.append_nil]
  exact hholds

/-! ### The history -/

/-- The line, as a string of its own. -/
def Editor.Shows.line (h : l.Shows before after) : CStr := ⟨before ++ after, h.holds.nul_free⟩

theorem Editor.Shows.strdup (h : l.Shows before after) : linenoiseStrdup l.buf = some h.line := by
  rw [linenoiseStrdup, h.holds.strlen_eq, Option.map_some]
  exact congrArg some (CStr.ext h.holds.cstr_eq)

variable {hist : History} {entries : List CStr}

/-- **Up**: the entry before, if there is one; the line is saved first if it is not an entry. -/
theorem Editor.Shows.handleUp (h : l.Shows before after) (hh : hist.Holds entries) (hidx : l.historyIndex ≤ hist.len) :
    (l.historyIndex = 0 ∧ Edits l (handleUp hist l) 0 before after) ∨
      ∃ entry, 0 < l.historyIndex ∧ entries[l.historyIndex - 1]? = some entry ∧
        Edits { l with
            savedLine := if l.historyIndex = hist.len then some h.line else l.savedLine
            historyIndex := l.historyIndex - 1 }
          (handleUp hist l) 0 (entry.chars.take (l.buf.length - 1)) [] := by
  by_cases hzero : l.historyIndex = 0
  · refine .inl ⟨hzero, ?_⟩
    rw [TcpClient.handleUp, if_neg (by omega)]
    exact h.ignored
  · have hlt : l.historyIndex - 1 < entries.length := by
      have hlen := hh.len
      omega
    have hsaved : saveLine hist l = some (if l.historyIndex = hist.len then some h.line else l.savedLine) := by
      rw [saveLine, h.strdup]
      split_ifs <;> rfl
    refine .inr ⟨entries[l.historyIndex - 1], by omega, List.getElem?_eq_getElem hlt, ?_⟩
    have hback : 0 < hist.len ∧ 0 < l.historyIndex := ⟨by omega, by omega⟩
    rw [TcpClient.handleUp, if_pos hback, hsaved, hh.get_lt hlt]
    simp only [Option.bind_eq_bind, Option.bind_some]
    apply Shows.showText
    exact ⟨h.holds, h.pos, h.len⟩

/-- **Down**: the entry after, and in the end the saved line. -/
theorem Editor.Shows.handleDown (h : l.Shows before after) (hh : hist.Holds entries) :
    (hist.len ≤ l.historyIndex ∧ Edits l (handleDown hist l) 0 before after) ∨
      ∃ line, l.historyIndex < hist.len ∧ nextLine hist l = some line ∧
        Edits { l with historyIndex := l.historyIndex + 1 } (handleDown hist l) 0 (line.chars.take (l.buf.length - 1)) [] := by
  by_cases hlt : l.historyIndex < hist.len
  · obtain ⟨line, hline⟩ : ∃ line, nextLine hist l = some line := by
      unfold nextLine
      split_ifs with hlast
      · exact ⟨_, rfl⟩
      · have hnext : l.historyIndex + 1 < entries.length := by
          have hlen := hh.len
          omega
        exact ⟨_, hh.get_lt hnext⟩
    refine .inr ⟨line, hlt, hline, ?_⟩
    rw [TcpClient.handleDown, if_pos ⟨by omega, hlt⟩, hline]
    simp only [Option.bind_eq_bind, Option.bind_some]
    apply Shows.showText
    exact ⟨h.holds, h.pos, h.len⟩
  · refine .inl ⟨not_lt.mp hlt, ?_⟩
    rw [TcpClient.handleDown, if_neg fun hboth => hlt hboth.2]
    exact h.ignored

/-! ### Completions -/

/-- **Tab** in a completion: the next one, and after the last the first. -/
theorem Editor.Shows.feedTab_next (h : l.Shows before after) (callback : CompletionCallback)
    (hactive : l.inCompletion = true) (hsome : l.cachedCompletions ≠ []) :
    ∃ comp, l.cachedCompletions[(l.completionIdx + 1) % l.cachedCompletions.length]? = some comp ∧
      Edits { l with completionIdx := (l.completionIdx + 1) % l.cachedCompletions.length }
        (feedTab (some callback) l) 0 (comp.chars.take (l.buf.length - 1)) [] := by
  have hpos : 0 < l.cachedCompletions.length := List.length_pos_iff.mpr hsome
  have hlt := Nat.mod_lt (l.completionIdx + 1) hpos
  have hcomp := List.getElem?_eq_getElem hlt
  refine ⟨_, hcomp, ?_⟩
  rw [feedTab, if_pos hactive, if_neg (by omega)]
  simp only [hcomp, Option.bind_eq_bind, Option.bind_some]
  apply Shows.showText
  exact ⟨h.holds, h.pos, h.len⟩

/-- **Tab** outside a completion: the first of those for the line, if there are any. -/
theorem Editor.Shows.feedTab_first (h : l.Shows before after) (callback : CompletionCallback)
    (hidle : l.inCompletion = false) :
    (callback h.line = [] ∧ Edits { l with cachedCompletions := [] } (feedTab (some callback) l) 0 before after) ∨
      ∃ comp, (callback h.line)[0]? = some comp ∧
        Edits { l with cachedCompletions := callback h.line, inCompletion := true, completionIdx := 0 }
          (feedTab (some callback) l) 0 (comp.chars.take (l.buf.length - 1)) [] := by
  rw [feedTab, if_neg (by simp [hidle]), h.strdup]
  simp only [Option.bind_eq_bind, Option.bind_some]
  cases hcomps : callback h.line with
  | nil =>
    refine .inl ⟨rfl, ?_⟩
    apply Shows.ignored
    exact ⟨h.holds, h.pos, h.len⟩
  | cons comp comps =>
    refine .inr ⟨comp, rfl, ?_⟩
    apply Shows.showText
    exact ⟨h.holds, h.pos, h.len⟩

/-- A completion that is given up leaves the line alone. -/
theorem Editor.Shows.endCompletion (h : l.Shows before after) : (endCompletion l).Shows before after := by
  unfold TcpClient.endCompletion
  split_ifs
  · exact ⟨h.holds, h.pos, h.len⟩
  · exact h

end Keys

end TcpClient
