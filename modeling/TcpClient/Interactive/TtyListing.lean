import TcpClient.Interactive.TtyHistory
import TcpClient.Linenoise.Drawing
import TcpClient.Lib.Lines

/-!
# What a terminal session lists

The command `history` writes the history to the file and lists what is read back from it, a number in front of each
line. Both that and the next session read the file through a buffer of 4096 bytes, so that a longer line
comes back in pieces; nothing else is lost, since no line end can get into a line.

## What is proved

* `pieces_fileText` — what is read back of lines without line ends.
* `Unbroken.step` — no key, no completion and no entry brings a line end into the line.
* `history_listed` — what `history` prints, and what the next session starts with.
-/

namespace TcpClient.Tty

open Machine CString

/-! ### Reading back -/

section Pieces

variable {e rest text : List Byte} {entries : List CStr}

/-- No line end. -/
def Inline (c : Byte) : Prop := c ≠ 13 ∧ c ≠ 10

instance : DecidablePred Inline := fun c => inferInstanceAs (Decidable (c ≠ 13 ∧ c ≠ 10))

/-- What is read of the file, piece by piece, without the line ends and the empty lines. -/
def pieces (text : List Byte) : List (List Byte) :=
  ((fgetsAll historyBufSize [] text).map fun piece => stripLineEnd (cstr piece)).filter (· ≠ [])

/-- What the lines are read back as. -/
def wrapped (entries : List CStr) : List (List Byte) := entries.flatMap fun line => line.chars.toChunks 4095

/-- A list of lines as `print_interactive_history` prints it. -/
def listing (lines : List (List Byte)) : List Byte := (lines.zipIdx 1).flatMap fun p => historyLine p.2 p.1

theorem stripLineEnd_eq (he : ∀ c ∈ e, Inline c) : stripLineEnd e = e := by
  rw [stripLineEnd, List.rdropWhile_eq_self_iff]
  intro hne
  have hlast := he _ (List.getLast_mem hne)
  simp [hlast.1, hlast.2]

/-- One call of `fgets`. -/
theorem pieces_read {piece : List Byte}
    (h : fgetsAll historyBufSize [] text = piece :: fgetsAll historyBufSize [] rest) :
    pieces text = [stripLineEnd (cstr piece)].filter (· ≠ []) ++ pieces rest := by
  rw [pieces, h, List.map_cons, ← List.singleton_append, List.filter_append]
  rfl

/-- **A line** is read back in pieces, all of which but the last are full. -/
theorem pieces_line (he : ∀ c ∈ e, Inline c) (hnul : 0 ∉ e) :
    pieces (e ++ 10 :: rest) = e.toChunks 4095 ++ pieces rest := by
  induction hlen : e.length using Nat.strong_induction_on generalizing e with
  | _ n ih =>
    have h10 : 10 ∉ e := fun h => (he 10 h).2 rfl
    by_cases hfits : e.length + 2 ≤ historyBufSize
    · -- the line and its end are read at once
      have hread : fgetsAll historyBufSize [] (e ++ 10 :: rest) = ([] ++ e ++ [10]) :: fgetsAll historyBufSize [] rest :=
        fgetsAll_line h10 (by simpa using hfits)
      have hnul' : 0 ∉ e ++ [10] := by simp [hnul]
      have hstrip : stripLineEnd (e ++ [10]) = e := by
        rw [stripLineEnd, List.rdropWhile_concat_pos _ _ _ (by decide)]
        exact stripLineEnd_eq he
      rw [pieces_read hread, List.nil_append, cstr_eq_self hnul', hstrip]
      cases e with
      | nil => rfl
      | cons c e =>
        have hshort : (c :: e).length ≤ 4095 := by
          have : historyBufSize = 4096 := rfl
          omega
        rw [Lines.toChunks_of_length_le (by simp) hshort]
        rfl
    · -- the buffer is full before the end of the line
      have hsize : historyBufSize = 4096 := rfl
      have htake : (e.take 4095).length = 4095 := by rw [List.length_take]; omega
      have hne : e.take 4095 ≠ [] := List.ne_nil_of_length_eq_add_one htake
      have hfull : ([] : List Byte).length + (e.take 4095).length + 1 = historyBufSize := by
        rw [htake]
        rfl
      have hread : fgetsAll historyBufSize [] (e.take 4095 ++ (e.drop 4095 ++ 10 :: rest)) =
          ([] ++ e.take 4095) :: fgetsAll historyBufSize [] (e.drop 4095 ++ 10 :: rest) :=
        fgetsAll_full (fun h => h10 (List.mem_of_mem_take h)) hne hfull
      rw [← List.append_assoc, List.take_append_drop] at hread
      have hstrip : stripLineEnd (e.take 4095) = e.take 4095 :=
        stripLineEnd_eq fun c hc => he c (List.mem_of_mem_take hc)
      rw [pieces_read hread, List.nil_append, cstr_eq_self fun h => hnul (List.mem_of_mem_take h), hstrip,
        ih (e.drop 4095).length (by rw [List.length_drop]; omega) (fun c hc => he c (List.mem_of_mem_drop hc))
          (fun h => hnul (List.mem_of_mem_drop h)) rfl,
        Lines.toChunks_eq (by decide) (List.ne_nil_of_length_pos (by omega : 0 < e.length))]
      simp [hne]

/-- **What is read back of lines without line ends.** -/
theorem pieces_fileText (h : ∀ line ∈ entries, ∀ c ∈ line.chars, Inline c) :
    pieces (fileText entries) = wrapped entries := by
  induction entries with
  | nil => rfl
  | cons line entries ih =>
    have hline : fileText (line :: entries) = line.chars ++ 10 :: fileText entries := by simp [fileText]
    rw [hline, pieces_line (h line List.mem_cons_self) line.nul_free,
      ih fun l hl => h l (List.mem_cons_of_mem _ hl)]
    rfl

/-- `print_interactive_history`. -/
theorem printInteractiveHistory_some (text : List Byte) : printInteractiveHistory (some text) = listing (pieces text) :=
  rfl

/-- Empty lines are not remembered. -/
theorem recalled_filter (entries : List CStr) (lines : List (List Byte)) :
    recalled entries (lines.filter (· ≠ [])) = recalled entries lines := by
  induction lines generalizing entries with
  | nil => rfl
  | cons line lines ih =>
    by_cases hline : line = []
    · subst hline
      exact ih entries
    · rw [List.filter_cons_of_pos (by simpa using hline)]
      exact ih (remember 500 entries (CStr.ofMem line))

/-- What is loaded is what was read back. -/
theorem loaded_some (text : List Byte) : loaded (some text) = recalled [] (pieces text) := by
  rw [pieces, recalled_filter, loaded, recalled, List.foldl_map, List.foldl_map]
  rfl

end Pieces

/-! ### No line end gets into a line -/

/-- No line holds a line end, neither one that was submitted nor the one that is edited. -/
structure Unbroken (s : St) : Prop where
  submitted : ∀ line ∈ s.submitted, ∀ c ∈ line, Inline c
  editor : (∀ rc, s.pc ≠ .done rc) → s.editor.Within Inline

section Blocks

variable {sockfd : ℤ} {config : Connection} {a : Answer} {s t u : St} {c : Byte} {n : ℕ} {entries₀ : List CStr}
  {text : Option (List Byte)}

/-- What was loaded and what was submitted hold none. -/
theorem inline_recalled {lines : List (List Byte)} (hentries : ∀ line ∈ entries₀, ∀ c ∈ line.chars, Inline c)
    (hlines : ∀ line ∈ lines, ∀ c ∈ line, Inline c) : ∀ line ∈ recalled entries₀ lines, ∀ c ∈ line.chars, Inline c := by
  intro line hline
  have hfold : line ∈ (lines.map CStr.ofMem).foldl (remember 500) entries₀ := by
    rw [List.foldl_map]
    exact hline
  cases mem_foldl_remember hfold with
  | inl hold => exact hentries line hold
  | inr hnew =>
    obtain ⟨l, hl, rfl⟩ := List.mem_map.mp hnew
    exact fun c hc => hlines l hl c ((List.takeWhile_prefix _).subset hc)

theorem completions_inline : ∀ callback, some interactiveCompletionCallback = some callback →
    ∀ line, ∀ s ∈ callback line, ∀ c ∈ s.chars, Inline c := by
  rintro callback hcallback line s hs c hc
  cases hcallback
  have hplain : ∀ s ∈ interactiveCompletions, ∀ c ∈ s.chars, c ≠ 13 ∧ c ≠ 10 := by decide +kernel
  exact hplain s (List.mem_of_mem_filter hs) c hc

/-- What `history` prints: the list, where the file can be written and read. -/
def shown (entries : List CStr) (file : Option (List Byte)) (a : Answer) : List Byte :=
  if a.canOpen then if a.canSave then listing (wrapped entries) else printInteractiveHistory file
  else str "No history recorded.\n"

/-- The prompt on an empty row. -/
def drawnPrompt : List Byte := [13, 27] ++ str "[2K" ++ prompt

/-- Where the line submitted between `s` and `t` is `history`, the list is printed, and the prompt again. -/
def Lists (entries₀ : List CStr) (a : Answer) (s t : St) : Prop :=
  ∀ line, t.submitted = s.submitted ++ [line] → command line = str "history" →
    printed t.log = printed s.log ++ [13, 10] ++ shown (recalled entries₀ t.submitted) s.histFile a ++ drawnPrompt

/-- A block from `s` on brings no line end into a line, and lists the history if it is asked to. -/
def KeepsUnbroken (entries₀ : List CStr) (a : Answer) (s : St) (r : Option St) : Prop :=
  ∃ t, r = some t ∧ Unbroken t ∧ Lists entries₀ a s t

/-- A block in which no line is submitted. -/
theorem lists_of_same (hsubmitted : t.submitted = s.submitted) : Lists entries₀ a s t := by
  intro line hline
  rw [hsubmitted] at hline
  exact absurd hline (by simp)

theorem lists_of_other {line : List Byte} (hsubmitted : t.submitted = s.submitted ++ [line])
    (hother : command line ≠ str "history") : Lists entries₀ a s t := by
  intro line' hline hcmd
  rw [hsubmitted] at hline
  obtain rfl : line = line' := by simpa using hline
  exact absurd hcmd hother

theorem Unbroken.same (hs : Unbroken s) (hrun : ∀ rc, s.pc ≠ .done rc) (hsubmitted : t.submitted = s.submitted)
    (heditor : t.editor = s.editor) : KeepsUnbroken entries₀ a s (some t) :=
  ⟨t, rfl, ⟨hsubmitted ▸ hs.submitted, fun _ => heditor ▸ hs.editor hrun⟩, lists_of_same hsubmitted⟩

/-- **The session ends.** -/
theorem unbroken_leave {entries : List CStr} (a : Answer) (rc : ℤ) (hh : s.history.Holds entries)
    (hlines : ∀ line ∈ s.submitted, ∀ c ∈ line, Inline c) :
    ∃ t, leave a rc s = some t ∧ Unbroken t ∧ t.submitted = s.submitted := by
  obtain ⟨t, ht, hpc, haside⟩ := leave_spec a rc hh
  exact ⟨t, ht, ⟨haside.submitted ▸ hlines, fun hrun => absurd hpc (hrun rc)⟩, haside.submitted⟩

/-- The editor starts on an empty line, at the prompt. -/
theorem linenoiseEditStart_empty {h : History} {buf : List Byte} {l : Editor} {out : List Byte}
    (hstart : linenoiseEditStart h buf prompt = some (l, out)) : l.Within Inline ∧ out = drawnPrompt := by
  obtain ⟨buf', -, hstart⟩ := Option.bind_eq_some_iff.mp hstart
  obtain ⟨out', hout, hstart⟩ := Option.bind_eq_some_iff.mp hstart
  cases hstart
  refine ⟨⟨by simp [Editor.text], by simp, by simp⟩, ?_⟩
  rw [linenoiseEditRedraw, if_pos (Nat.zero_le _)] at hout
  rw [← Option.some.inj hout]
  simp [drawnPrompt]

section Line

variable {before after : List Byte}

/-- **The command `history`** lists what is recalled, the command itself included. -/
theorem lineBlock_lists (h : Remembers n entries₀ text s) (hrun : ∀ rc, s.pc ≠ .done rc)
    (hhistory : u.history = s.history) (hsubmitted : u.submitted = s.submitted ++ [before ++ after])
    (hfile : u.histFile = s.histFile) (hl : u.editor.Shows before after)
    (hentries : ∀ line ∈ recalled entries₀ u.submitted, ∀ c ∈ line.chars, Inline c)
    (hcmd : command (before ++ after) = str "history") (sockfd : ℤ) (config : Connection) (a : Answer) :
    ∃ t, lineBlock .posix sockfd config a u = some t ∧ t.submitted = u.submitted ∧ t.editor.Within Inline ∧
      printed t.log = printed u.log ++ shown (recalled entries₀ u.submitted) s.histFile a ++ drawnPrompt := by
  obtain ⟨-, hmax, hh⟩ := h.running hrun
  have hh' : u.history.Holds (recalled entries₀ s.submitted) := hhistory ▸ hh
  obtain ⟨rc, h', hadd, -, hholds⟩ := linenoiseHistoryAdd_holds hh' hl.line
  have hrecall : remember u.history.maxLen (recalled entries₀ s.submitted) hl.line = recalled entries₀ u.submitted := by
    rw [hhistory, hmax, hsubmitted]
    exact (recalled_concat entries₀ s.submitted hl).symm
  rw [hrecall] at hholds
  -- the line is remembered, and the file written
  have hsave : addAndSave a u = some { u with
      history := h'
      histFile := if a.canSave then some (fileText (recalled entries₀ u.submitted)) else u.histFile } := by
    rw [addAndSave, hl.strdup]
    simp only [hadd, Option.bind_eq_bind, Option.bind_some]
    exact save_eq (s := { u with history := h' }) a hholds
  have hgoes : exits (before ++ after) = false := by
    rw [exits, hcmd]
    decide
  have hshown : printInteractiveHistory (if a.canOpen then
      (if a.canSave then some (fileText (recalled entries₀ u.submitted)) else u.histFile) else none) =
      shown (recalled entries₀ u.submitted) s.histFile a := by
    rw [shown]
    split_ifs
    · rw [printInteractiveHistory_some, pieces_fileText hentries]
    · rw [hfile]
    · rfl
  obtain ⟨l', out, hstart, -, -⟩ := linenoiseEditStart_sound h' (Nat.one_le_of_lt hl.len_lt) prompt
  have hstart' : linenoiseEditStart h' u.editor.buf prompt = some (l', out) := hstart
  obtain ⟨hw, hout⟩ := linenoiseEditStart_empty hstart'
  rw [lineBlock, handleInteractiveCommand_eq sockfd config a hl, if_neg (by simp [hgoes]), hcmd, if_neg (by decide),
    if_neg (by decide), if_neg (by decide), if_pos rfl, hsave]
  simp only [Option.map_some, Option.bind_eq_bind, Option.bind_some, hshown]
  rw [if_neg (by decide), if_neg (by decide)]
  simp only [St.print, hstart', Option.bind_some]
  exact ⟨_, rfl, rfl, hw, by simp [hout]⟩

/-- **A submitted line**: `u` is `s` after the key that submits it. -/
theorem Unbroken.lineBlock (h : Remembers n entries₀ text s) (hrun : ∀ rc, s.pc ≠ .done rc) (hn : n ≤ bufSize)
    (hentries : ∀ line ∈ entries₀, ∀ c ∈ line.chars, Inline c) (hu : u.session.Sound n)
    (hhistory : u.history = s.history) (hsubmitted : u.submitted = s.submitted ++ [before ++ after])
    (hfile : u.histFile = s.histFile) (hl : u.editor.Shows before after)
    (hlines : ∀ line ∈ u.submitted, ∀ c ∈ line, Inline c) (hprinted : printed u.log = printed s.log ++ [13, 10])
    (sockfd : ℤ) (config : Connection) (a : Answer) :
    KeepsUnbroken entries₀ a s (lineBlock .posix sockfd config a u) := by
  obtain ⟨-, -, hh⟩ := h.running hrun
  have hh' : u.history.Holds (recalled entries₀ s.submitted) := hhistory ▸ hh
  by_cases hcmd : command (before ++ after) = str "history"
  · obtain ⟨t, ht, hlines', hw, hout⟩ := lineBlock_lists h hrun hhistory hsubmitted hfile hl
      (inline_recalled hentries hlines) hcmd sockfd config a
    refine ⟨t, ht, ⟨hlines' ▸ hlines, fun _ => hw⟩, fun _ _ _ => ?_⟩
    rw [hout, hprinted, hlines']
  have hother : ∀ {t : St}, t.submitted = u.submitted → Lists entries₀ a s t :=
    fun ht => lists_of_other (ht.trans hsubmitted) hcmd
  obtain ⟨rc, t, hcommand, ⟨hrc, hsession, hsame, -⟩ | ⟨rfl, hkept⟩⟩ :=
    handleInteractiveCommand_kept sockfd config a hu hn hh' hl
  · -- the line ends the session
    have hholds : t.history.Holds (recalled entries₀ s.submitted) := by
      rw [show t.history = u.history from congrArg Session.history hsession]
      exact hh'
    have hleave : ∀ rc, KeepsUnbroken entries₀ a s (leave a rc t) := by
      intro rc
      obtain ⟨v, hv, hunbroken, hvlines⟩ := unbroken_leave a rc hholds (hsame ▸ hlines)
      exact ⟨v, hv, hunbroken, hother (hvlines.trans hsame)⟩
    simp only [List.mem_cons, List.not_mem_nil, or_false] at hrc
    rw [Tty.lineBlock, hcommand]
    rcases hrc with rfl | rfl
    · exact hleave 0
    · exact hleave 5
  · obtain ⟨l', out, hstart, -, -⟩ := linenoiseEditStart_sound t.history (Nat.one_le_of_lt hl.len_lt) prompt
    have hstart' : linenoiseEditStart t.history u.editor.buf prompt = some (l', out) := hstart
    obtain ⟨hw, -⟩ := linenoiseEditStart_empty hstart'
    rw [Tty.lineBlock, hcommand]
    dsimp only [Option.bind_eq_bind, Option.bind_some]
    rw [if_neg (by decide), if_neg (by decide), hkept.editor, hstart']
    exact ⟨_, rfl, ⟨hkept.submitted ▸ hlines, fun _ => hw⟩, hother hkept.submitted⟩

end Line

/-- **A key** brings no line end into the line. -/
theorem Unbroken.keyBlock (hs : Unbroken s) (h : Remembers n entries₀ text s) (hrun : ∀ rc, s.pc ≠ .done rc)
    (hn : n ≤ bufSize) (hentries : ∀ line ∈ entries₀, ∀ c ∈ line.chars, Inline c) (sockfd : ℤ) (config : Connection)
    (a : Answer) (c : Byte) {log : List Event} (hlog : printed log = printed s.log) :
    KeepsUnbroken entries₀ a s (keyBlock .posix sockfd config a c { s with log := log }) := by
  obtain ⟨hsound, -, hh⟩ := h.running hrun
  obtain ⟨fed, hfed, hl⟩ := hsound.editor.feed (some interactiveCompletionCallback) hh (some c)
  have hfed' : linenoiseEditFeed (some interactiveCompletionCallback) s.history s.editor (some c) = some fed := hfed
  -- what is typed into the line is no control character
  have htyped : 32 ≤ c → c ≠ 127 → Inline c := by
    rintro hlow -
    refine ⟨?_, ?_⟩ <;>
      · rintro rfl
        exact absurd hlow (by decide)
  obtain ⟨hkeeps, hdraws⟩ := (hs.editor hrun).feed hsound.editor hh (inline_recalled hentries hs.submitted)
    completions_inline htyped
  obtain ⟨-, hw⟩ := hkeeps fed hfed
  rw [Tty.keyBlock]
  dsimp only
  rw [hfed']
  dsimp only [Option.bind_eq_bind, Option.bind_some]
  split_ifs with hctrlC henter
  · obtain ⟨t, ht, hunbroken, hlines⟩ := unbroken_leave (s := { s with
      log := log ++ [.stdout fed.out], editor := fed.editor }) a 0 hh hs.submitted
    exact ⟨t, ht, hunbroken, lists_of_same hlines⟩
  · obtain ⟨before, after, hshows⟩ := hl.text
    have htext : fed.editor.buf.take fed.editor.len = before ++ after := hshows.text_eq
    have hout : fed.out = [13, 10] := by
      rcases hdraws fed hfed with ⟨hrc, -⟩ | ⟨hrc, -⟩ | hend
      · exact absurd henter hrc
      · exact absurd henter hrc
      · rw [henter] at hend
        simpa using hend
    have hfedsound : Session.Sound n ⟨s.history, fed.editor⟩ := ⟨hsound.history, hl⟩
    refine Unbroken.lineBlock (u := { s with
      log := log ++ [.stdout fed.out]
      editor := fed.editor
      submitted := s.submitted ++ [fed.editor.buf.take fed.editor.len] }) h hrun hn hentries hfedsound rfl (by rw [htext])
      rfl hshows ?_ (by simp [hlog, hout]) sockfd config a
    intro line hline
    cases List.mem_append.mp hline with
    | inl hold => exact hs.submitted line hold
    | inr hnew =>
      rw [List.mem_singleton.mp hnew]
      exact hw.line
  · exact ⟨_, rfl, ⟨hs.submitted, fun _ => hw⟩, lists_of_same rfl⟩

theorem Unbroken.stdinBlock (hs : Unbroken s) (h : Remembers n entries₀ text s) (hpc : s.pc = .stdin)
    (hn : n ≤ bufSize) (hentries : ∀ line ∈ entries₀, ∀ c ∈ line.chars, Inline c) (sockfd : ℤ) (config : Connection)
    (a : Answer) : KeepsUnbroken entries₀ a s (stdinBlock sockfd config a s) := by
  have hrun : ∀ rc, s.pc ≠ .done rc := by simp [hpc]
  obtain ⟨-, -, hh⟩ := h.running hrun
  have hleave : ∀ log, KeepsUnbroken entries₀ a s (leave a 0 { s with log := log }) := by
    intro log
    obtain ⟨t, ht, hunbroken, hlines⟩ := unbroken_leave (s := { s with log := log }) a 0 hh hs.submitted
    exact ⟨t, ht, hunbroken, lists_of_same hlines⟩
  unfold Tty.stdinBlock
  split
  · cases a.stdin.clip 1 with
    | data bytes =>
      cases bytes with
      | nil => exact hleave _
      | cons c rest => exact hs.keyBlock h hrun hn hentries sockfd config a c (by simp)
    | fail err => exact hleave s.log
  · exact hs.same hrun rfl rfl

theorem Unbroken.typeaheadBlock (hs : Unbroken s) (h : Remembers n entries₀ text s) (hpc : s.pc = .typeahead)
    (hn : n ≤ bufSize) (hentries : ∀ line ∈ entries₀, ∀ c ∈ line.chars, Inline c) (sockfd : ℤ) (config : Connection)
    (a : Answer) : KeepsUnbroken entries₀ a s (typeaheadBlock sockfd config a s) := by
  have hrun : ∀ rc, s.pc ≠ .done rc := by simp [hpc]
  unfold Tty.typeaheadBlock
  split
  · cases a.stdin.clip 1 with
    | data bytes =>
      cases bytes with
      | nil => exact hs.same hrun rfl rfl
      | cons c rest => exact hs.keyBlock h hrun hn hentries sockfd config a c (by simp)
    | fail err => exact hs.same hrun rfl rfl
  · exact hs.same hrun rfl rfl

/-- **A step** of a session that has not ended. -/
theorem Unbroken.step (hs : Unbroken s) (h : Remembers n entries₀ text s) (hrun : ∀ rc, s.pc ≠ .done rc)
    (hn : n ≤ bufSize) (hentries : ∀ line ∈ entries₀, ∀ c ∈ line.chars, Inline c) (sockfd : ℤ) (config : Connection)
    (a : Answer) : Unbroken (step sockfd config s a) ∧ Lists entries₀ a s (step sockfd config s a) := by
  have hblock : ∀ {r}, KeepsUnbroken entries₀ a s r → Unbroken (orFault s r) ∧ Lists entries₀ a s (orFault s r) := by
    rintro r ⟨t, rfl, ht⟩
    exact ht
  obtain ⟨hsound, -, -⟩ := h.running hrun
  -- the blocks beside the keyboard submit nothing, and leave the editor alone while the session lasts
  have haside : ∀ {r : Option St} {t : St}, r = some t → Aside s t → (t.session = s.session ∨ ∃ rc, t.pc = .done rc) →
      KeepsUnbroken entries₀ a s r := by
    rintro r t rfl ht hsession
    refine ⟨t, rfl, ⟨ht.submitted ▸ hs.submitted, fun hruns => ?_⟩, lists_of_same ht.submitted⟩
    rcases hsession with hsession | ⟨rc, hdone⟩
    · rw [show t.editor = s.editor from congrArg Session.editor hsession]
      exact hs.editor hrun
    · exact absurd hdone (hruns rc)
  cases hpc : s.pc with
  | poll =>
    obtain ⟨t, ht, hbeside, hsession⟩ := pollBlock_spec a hsound
    simpa only [Tty.step, hpc] using hblock (haside ht hbeside (hsession.imp And.left And.left))
  | socket =>
    obtain ⟨t, ht, hbeside, hsession⟩ := socketBlock_spec sockfd a hsound
    simpa only [Tty.step, hpc] using hblock (haside ht hbeside (hsession.imp And.left And.left))
  | stdin => simpa only [Tty.step, hpc] using hblock (hs.stdinBlock h hpc hn hentries sockfd config a)
  | typeahead => simpa only [Tty.step, hpc] using hblock (hs.typeaheadBlock h hpc hn hentries sockfd config a)
  | done rc => exact absurd hpc (hrun rc)
  | fault => exact absurd hpc h.no_fault

end Blocks

/-! ### The law -/

/-- **What a session lists**, when no line that was loaded holds a line end: no line that is submitted holds one;
the command `history`, if the file can be written and read, prints the lines that are recalled, itself included, in
order and numbered from 1, a line of more than 4095 bytes in pieces; and however the session ends, the next one
starts with those pieces, if the file can be written. -/
theorem history_listed (sockfd : ℤ) (config : Connection) (text : Option (List Byte)) (buf : List Byte)
    (hbuf : 1 ≤ buf.length) (hsize : buf.length ≤ bufSize)
    (hloaded : ∀ line ∈ loaded text, ∀ c ∈ line.chars, Inline c) :
    ∃ h s₀, loadHistory text = some h ∧ start h text buf = some s₀ ∧
      ∀ s, Reach (step sockfd config) Free s₀ s →
        (∀ line ∈ s.submitted, ∀ c ∈ line, Inline c) ∧
        ∀ a, (∀ line, (step sockfd config s a).submitted = s.submitted ++ [line] → command line = str "history" →
            printed (step sockfd config s a).log = printed s.log ++ [13, 10] ++
              shown (recalled (loaded text) (step sockfd config s a).submitted) s.histFile a ++ drawnPrompt) ∧
          ∀ rc, (∀ rc, s.pc ≠ .done rc) → (step sockfd config s a).pc = .done rc → a.canSave = true →
            ∃ h', loadHistory (step sockfd config s a).histFile = some h' ∧
              h'.entries = some (recalled [] (wrapped (recalled (loaded text) s.submitted))) := by
  obtain ⟨h, hload, hmax, hh⟩ := loadHistory_holds text
  obtain ⟨s₀, hstart, hpc₀, hs₀⟩ := remembers_start hmax hh hbuf text
  refine ⟨h, s₀, hload, hstart, fun s hreach => ?_⟩
  have hfresh : Unbroken s₀ := by
    obtain ⟨r, hline, hs₀'⟩ := Option.bind_eq_some_iff.mp hstart
    cases hs₀'
    exact ⟨by simp, fun _ => (linenoiseEditStart_empty hline).1⟩
  have hinv : Remembers buf.length (loaded text) text s ∧ Unbroken s := by
    refine hreach.invariant (I := fun s => Remembers buf.length (loaded text) text s ∧ Unbroken s) ⟨hs₀, hfresh⟩
      fun s a hs _ => ⟨hs.1.next hsize sockfd config a, ?_⟩
    by_cases hrun : ∀ rc, s.pc ≠ .done rc
    · exact (hs.2.step hs.1 hrun hsize hloaded sockfd config a).1
    · obtain ⟨rc, hrc⟩ := not_forall_not.mp hrun
      rw [show step sockfd config s a = s by rw [step, hrc]]
      exact hs.2
  obtain ⟨hremembers, hunbroken⟩ := hinv
  refine ⟨hunbroken.submitted, fun a => ⟨fun line hline hcmd => ?_, fun rc hrun hdone hsave => ?_⟩⟩
  · by_cases hrun : ∀ rc, s.pc ≠ .done rc
    · exact (hunbroken.step hremembers hrun hsize hloaded sockfd config a).2 line hline hcmd
    · obtain ⟨rc, hrc⟩ := not_forall_not.mp hrun
      rw [show step sockfd config s a = s by rw [step, hrc]] at hline
      exact absurd hline (by simp)
  · have hfile := (hremembers.step hrun hsize sockfd config a).2 ⟨rc, hdone⟩ hsave
    obtain ⟨h', hload', -, hh'⟩ := loadHistory_holds (step sockfd config s a).histFile
    refine ⟨h', hload', ?_⟩
    rw [hfile, loaded_some, pieces_fileText (inline_recalled hloaded hunbroken.submitted)] at hh'
    exact hh'.entries_eq

/-- The line `history` was loaded; Up and Enter list it. -/
theorem history_listed_up :
    let keys : List Answer := [{ stdinRev := { pollin := true } }, {}, { stdin := .data [27] },
      { stdinRev := { pollin := true }, stdin := .data [91] }, { stdinRev := { pollin := true }, stdin := .data [65] }]
    let enter : Answer := { stdinRev := { pollin := true }, stdin := .data [13] }
    ∃ h s₀, loadHistory (some (str "history\n")) = some h ∧
      start h (some (str "history\n")) (List.replicate 10 0) = some s₀ ∧
      printed (step 3 ⟨[], 1, 1⟩ (run (step 3 ⟨[], 1, 1⟩) s₀ keys) enter).log =
        printed (run (step 3 ⟨[], 1, 1⟩) s₀ keys).log ++ [13, 10] ++ str "   1  history\n" ++ drawnPrompt := by
  intro keys enter
  have hinline : ((loaded (some (str "history\n"))).all fun line => line.chars.all fun c => decide (Inline c)) = true := by
    decide
  obtain ⟨h, s₀, hload, hstart, hlaw⟩ := history_listed 3 ⟨[], 1, 1⟩ (some (str "history\n")) (List.replicate 10 0)
    (by decide) (by decide) fun line hline c hc =>
      of_decide_eq_true (List.all_eq_true.mp (List.all_eq_true.mp hinline line hline) c hc)
  refine ⟨h, s₀, hload, hstart, ?_⟩
  obtain rfl : (loadHistory (some (str "history\n"))).get (by decide) = h := Option.get_of_eq_some _ hload
  obtain rfl : (start ((loadHistory (some (str "history\n"))).get (by decide)) (some (str "history\n"))
    (List.replicate 10 0)).get (by decide) = s₀ := Option.get_of_eq_some _ hstart
  obtain ⟨-, hstep⟩ := hlaw _ (reach_free_run _ keys)
  rw [(hstep enter).1 (str "history") (by decide) (by decide)]
  congr 2

end TcpClient.Tty
