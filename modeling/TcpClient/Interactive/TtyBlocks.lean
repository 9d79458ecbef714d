import TcpClient.Interactive.Tty

/-!
# What the blocks of the terminal loop do

For each block of `run_interactive_tty_mode` one lemma that says what it can do, under the
invariant of the editor (`Session.Sound`), from which the results on its runs are proved
without opening the block again:

* `leave_spec` — the session ends;
* `pollBlock_spec`, `socketBlock_spec` — these leave the editor, the history, standard
  input and what is sent alone;
* `handleInteractiveCommand_spec` — a submitted line is a command, or it is sent.
-/

namespace TcpClient.Tty

open CString

/-! ### What a line is -/

/-- The command a line may be. -/
def command (line : List Byte) : List Byte := (strip line).map tolower

/-- The line ends the session. -/
def exits (line : List Byte) : Bool := command line ∈ [str "exit", str "quit"]

/-- The line goes to the server. -/
def transmits (line : List Byte) : Bool :=
  line ≠ [] ∧ command line ∉ [str "help", str "clear", str "status", str "history", str "exit", str "quit"]

theorem isExitCommand_eq (line : List Byte) : isExitCommand line = exits line := by
  rw [Bool.eq_iff_iff, isExitCommand_iff]
  simp [exits, command]

/-- The line is the command `cmd`. -/
theorem isBuiltinCommand_eq {cmd : List Byte} (hcmd : IsWord cmd) (line : List Byte) :
    isBuiltinCommand line cmd = decide (command line = cmd) := by
  rw [Bool.eq_iff_iff, isBuiltinCommand_iff hcmd, decide_eq_true_eq]
  rfl

/-! ### States of the session -/

/-- The history and the editor. -/
def St.session (s : St) : Session := ⟨s.history, s.editor⟩

/-- From `s` to `t` no line was submitted, no key read and nothing sent. -/
structure Aside (s t : St) : Prop where
  submitted : t.submitted = s.submitted
  log : Beside s.log t.log

/-- The log is as it was. -/
theorem aside_of_eq {s t : St} (hsubmitted : t.submitted = s.submitted) (hlog : t.log = s.log) : Aside s t :=
  ⟨hsubmitted, hlog ▸ .refl s.log⟩

section Blocks

variable {sockfd : ℤ} {config : Connection} {a : Answer} {s : St} {entries : List CStr} {n : ℕ}
  {before after : List Byte}

/-! ### The history file, and the end -/

theorem save_spec (a : Answer) (hh : s.history.Holds entries) :
    ∃ file, save a s = some { s with histFile := file } := by
  refine ⟨if a.canSave then some (entries.flatMap fun line => line.chars ++ [10]) else s.histFile, ?_⟩
  rw [save, linenoiseHistorySave_holds hh]
  rfl

theorem addAndSave_spec (a : Answer) (hh : s.history.Holds entries) (hl : s.editor.Shows before after) :
    ∃ rc h' file, linenoiseHistoryAdd hl.line s.history = some (rc, h') ∧
      addAndSave a s = some { s with history := h', histFile := file } := by
  obtain ⟨rc, h', hadd, -, hh'⟩ := linenoiseHistoryAdd_holds hh hl.line
  obtain ⟨file, hsave⟩ := save_spec (s := { s with history := h' }) a hh'
  refine ⟨rc, h', file, hadd, ?_⟩
  rw [addAndSave, hl.strdup]
  simp only [hadd, Option.bind_eq_bind, Option.bind_some]
  exact hsave

/-- **The end of the session.** -/
theorem leave_spec (a : Answer) (rc : ℤ) (hh : s.history.Holds entries) :
    ∃ t, leave a rc s = some t ∧ t.pc = .done rc ∧ Aside s t := by
  obtain ⟨file, hsave⟩ := save_spec (s := { s with editor := linenoiseEditStop s.editor }) a hh
  obtain ⟨h', hfree, -, -⟩ := linenoiseHistoryFree_holds hh
  refine ⟨{ s with editor := linenoiseEditStop s.editor, histFile := file, history := h', pc := .done rc }, ?_, rfl,
    aside_of_eq rfl rfl⟩
  rw [leave, hsave, Option.bind_eq_bind, Option.bind_some, hfree]
  rfl

/-! ### The blocks beside the keyboard -/

theorem pollBlock_spec (a : Answer) (hs : s.session.Sound n) :
    ∃ t, pollBlock a s = some t ∧ Aside s t ∧
      ((t.session = s.session ∧ t.pc ∈ [s.pc, .socket]) ∨
        ((∃ rc, t.pc = .done rc) ∧
          (a.interrupted = true ∨ a.interruptedAgain = true ∨ ∃ err, a.poll = .fail err ∧ err ≠ .eintr))) := by
  obtain ⟨entries, hh⟩ := hs.history
  have hleave : ∀ rc, ∃ t, leave a rc s = some t ∧ t.pc = .done rc ∧ Aside s t := fun rc => leave_spec a rc hh
  unfold pollBlock
  split
  · next hint =>
    obtain ⟨t, ht, hpc, haside⟩ := hleave 0
    exact ⟨t, ht, haside, .inr ⟨⟨0, hpc⟩, .inl hint⟩⟩
  · cases hpoll : a.poll with
    | fail err =>
      dsimp only
      split_ifs with heintr hagain
      · obtain ⟨t, ht, hpc, haside⟩ := hleave 0
        exact ⟨t, ht, haside, .inr ⟨⟨0, hpc⟩, .inr (.inl hagain)⟩⟩
      · exact ⟨s, rfl, aside_of_eq rfl rfl, .inl ⟨rfl, by simp⟩⟩
      · obtain ⟨t, ht, hpc, haside⟩ := hleave 5
        exact ⟨t, ht, haside, .inr ⟨⟨5, hpc⟩, .inr (.inr ⟨err, rfl, heintr⟩)⟩⟩
    | timeout => exact ⟨_, rfl, aside_of_eq rfl rfl, .inl ⟨rfl, by simp⟩⟩
    | ready => exact ⟨_, rfl, aside_of_eq rfl rfl, .inl ⟨rfl, by simp⟩⟩

/-- A packet is shown above the line; the end of the stream and an error leave all as it was. -/
theorem handleSocketData_spec (sockfd : ℤ) (a : Answer) (hs : s.session.Sound n) :
    ∃ rc t, handleSocketData .posix sockfd a s = some (rc, t) ∧ Aside s t ∧ t.session = s.session ∧
      (rc = 0 ∨ rc ∈ [1, -1] ∧ t = s ∧
        ¬ (0 < (readSocket .posix sockfd a).rc ∨ (readSocket .posix sockfd a).rc = socketErrTimeout)) := by
  obtain ⟨before, after, hshows⟩ := hs.editor.text
  unfold handleSocketData
  dsimp only
  by_cases hpos : 0 < (readSocket .posix sockfd a).rc
  · obtain ⟨out, hout⟩ := hshows.redraw
    have hredraw : linenoiseEditRedraw s.editor = some out := hout
    rw [if_pos hpos, hredraw]
    exact ⟨0, _, rfl, ⟨rfl, _, rfl, rfl, rfl, rfl⟩, rfl, .inl rfl⟩
  rw [if_neg hpos]
  by_cases hzero : (readSocket .posix sockfd a).rc = 0
  · have hgone : (readSocket .posix sockfd a).rc ≠ socketErrTimeout :=
      fun h => socketErrTimeout_neg.ne' (hzero.symm.trans h)
    rw [if_pos hzero]
    exact ⟨1, s, rfl, aside_of_eq rfl rfl, rfl, .inr ⟨by simp, rfl, not_or.mpr ⟨hpos, hgone⟩⟩⟩
  rw [if_neg hzero]
  by_cases htime : (readSocket .posix sockfd a).rc = socketErrTimeout
  · rw [if_neg (not_not.mpr htime)]
    exact ⟨0, s, rfl, aside_of_eq rfl rfl, rfl, .inl rfl⟩
  · rw [if_pos htime]
    exact ⟨-1, s, rfl, aside_of_eq rfl rfl, rfl, .inr ⟨by simp, rfl, not_or.mpr ⟨hpos, htime⟩⟩⟩

theorem socketBlock_spec (sockfd : ℤ) (a : Answer) (hs : s.session.Sound n) :
    ∃ t, socketBlock .posix sockfd a s = some t ∧ Aside s t ∧
      ((t.session = s.session ∧ t.pc = .stdin) ∨ ((∃ rc, t.pc = .done rc) ∧
        ((s.sockRev.pollin = false ∧ (s.sockRev.pollhup || s.sockRev.pollerr) = true) ∨
          (s.sockRev.pollin = true ∧
            ¬ (0 < (readSocket .posix sockfd a).rc ∨ (readSocket .posix sockfd a).rc = socketErrTimeout))))) := by
  obtain ⟨entries, hh⟩ := hs.history
  have hleave : ∀ rc, ∃ t, leave a rc s = some t ∧ t.pc = .done rc ∧ Aside s t := fun rc => leave_spec a rc hh
  unfold socketBlock
  cases hin : s.sockRev.pollin with
  | false =>
    cases hhup : s.sockRev.pollhup || s.sockRev.pollerr with
    | true =>
      obtain ⟨t, ht, hpc, haside⟩ := hleave 0
      exact ⟨t, by simpa using ht, haside, .inr ⟨⟨0, hpc⟩, .inl ⟨rfl, rfl⟩⟩⟩
    | false => exact ⟨{ s with pc := .stdin }, by simp, aside_of_eq rfl rfl, .inl ⟨rfl, rfl⟩⟩
  | true =>
    simp only [Bool.not_true, Bool.and_false, Bool.false_eq_true, if_false, if_true]
    obtain ⟨rc, t, hdata, haside, hsession, rfl | ⟨hrc, rfl, hgone⟩⟩ := handleSocketData_spec sockfd a hs
    · rw [hdata]
      exact ⟨{ t with pc := .stdin }, rfl, ⟨haside.submitted, haside.log⟩, .inl ⟨hsession, rfl⟩⟩
    · rw [hdata]
      simp only [List.mem_cons, List.not_mem_nil, or_false] at hrc
      rcases hrc with rfl | rfl
      · obtain ⟨u, hu, hpc, haside⟩ := hleave 0
        exact ⟨u, hu, haside, .inr ⟨⟨0, hpc⟩, .inr ⟨trivial, hgone⟩⟩⟩
      · obtain ⟨u, hu, hpc, haside⟩ := hleave 5
        exact ⟨u, hu, haside, .inr ⟨⟨5, hpc⟩, .inr ⟨trivial, hgone⟩⟩⟩

/-! ### A submitted line -/

/-- After the line: it went out as `bytes`, and into the history. -/
structure Handled (line : CStr) (bytes : List Byte) (s t : St) : Prop where
  submitted : t.submitted = s.submitted
  editor : t.editor = s.editor
  stdin : stdinBytes t.log = stdinBytes s.log
  sent : sent t.log = sent s.log ++ bytes
  adds : ∃ rc, linenoiseHistoryAdd line s.history = some (rc, t.history)

/-- The line goes out with a line end, if the write succeeds. -/
theorem transmit_spec (sockfd : ℤ) (a : Answer) (hs : s.session.Sound n) (hn : n ≤ bufSize)
    (hl : s.editor.Shows before after) :
    ∃ rc t, transmit .posix sockfd a s = some (rc, t) ∧
      ((rc = -1 ∧ t.session = s.session ∧ ∃ w ∈ writes t.log, w.2 < 0) ∨
        (rc = 0 ∧ Handled hl.line (before ++ after ++ [10]) s t)) := by
  obtain ⟨entries, hh⟩ := hs.history
  have hlen := hl.len_lt
  have hbuflen : s.editor.buf.length = n := hs.editor.buflen
  have hbuf : transmitBuf s.editor.buf (if bufSize < s.editor.len then bufSize else s.editor.len) =
      some (before ++ after ++ [10]) := by
    rw [if_neg (by omega), transmitBuf, if_pos ⟨hlen.le, by omega⟩, hl.text_eq]
  rw [transmit, hbuf, Option.bind_eq_bind, Option.bind_some]
  generalize hr : socketWriteAll .posix sockfd a.write (before ++ after ++ [10]) = r
  dsimp only
  split
  · next hneg => exact ⟨-1, _, rfl, .inl ⟨rfl, rfl, (before ++ after ++ [10], r.rc), by simp [St.wrote], hneg⟩⟩
  · next hnn =>
    have hsent : r.bytes = before ++ after ++ [10] := by
      rw [← hr] at hnn ⊢
      exact socketWriteAll_ok (not_lt.mp hnn)
    obtain ⟨add, h', file, hadd, hsave⟩ := addAndSave_spec (s := s.wrote (before ++ after ++ [10]) r) a hh hl
    refine ⟨0, { s.wrote (before ++ after ++ [10]) r with history := h', histFile := file }, ?_, .inr ⟨rfl, ?_⟩⟩
    · rw [hsave]
      rfl
    · exact ⟨rfl, rfl, by simp [St.wrote], by simp [St.wrote, hsent], add, hadd⟩

/-- What is printed later changes nothing. -/
theorem Handled.print {line : CStr} {bytes : List Byte} {t : St} (h : Handled line bytes s t) (out : List Byte) :
    Handled line bytes s (t.print out) :=
  ⟨h.submitted, h.editor, by simp [St.print, h.stdin], by simp [St.print, h.sent], h.adds⟩

/-- A built-in command prints, and goes into the history. -/
theorem addAndSave_handled (a : Answer) (hh : s.history.Holds entries) (hl : s.editor.Shows before after)
    (out : List Byte) : ∃ t, addAndSave a (s.print out) = some t ∧ Handled hl.line [] s t := by
  obtain ⟨add, h', file, hadd, hsave⟩ := addAndSave_spec (s := s.print out) a hh hl
  exact ⟨_, hsave, rfl, rfl, by simp [St.print], by simp [St.print], add, hadd⟩

/-- An empty line is not a command, and goes nowhere. -/
theorem handled_empty (hl : s.editor.Shows [] []) : Handled hl.line [] s s :=
  ⟨rfl, rfl, rfl, by simp, 0, if_pos (.inl rfl)⟩

/-- What is asked about the line, one command after another. -/
theorem handleInteractiveCommand_eq (sockfd : ℤ) (config : Connection) (a : Answer) (hl : s.editor.Shows before after) :
    handleInteractiveCommand .posix sockfd config a s =
      if exits (before ++ after) then some (1, s)
      else if command (before ++ after) = str "help" then
        (addAndSave a (s.print printInteractiveHelp)).map fun t => (0, t)
      else if command (before ++ after) = str "clear" then
        (addAndSave a (s.print linenoiseClearScreen)).map fun t => (0, t)
      else if command (before ++ after) = str "status" then
        (addAndSave a (s.print (printInteractiveStatus sockfd config))).map fun t => (0, t)
      else if command (before ++ after) = str "history" then
        (addAndSave a s).map fun t =>
          (0, t.print (printInteractiveHistory (if a.canOpen then t.histFile else none)))
      else if 0 < s.editor.len then transmit .posix sockfd a s
      else some (0, s) := by
  have hword : IsWord (str "help") ∧ IsWord (str "clear") ∧ IsWord (str "status") ∧ IsWord (str "history") := by decide
  unfold handleInteractiveCommand
  rw [hl.holds.cstr_eq]
  dsimp only
  rw [isExitCommand_eq, isBuiltinCommand_eq hword.1, isBuiltinCommand_eq hword.2.1, isBuiltinCommand_eq hword.2.2.1,
    isBuiltinCommand_eq hword.2.2.2]
  simp only [decide_eq_true_eq, Option.map_eq_bind]
  rfl

/-- **A built-in command** prints, and goes into the history. -/
theorem builtin_spec (sockfd : ℤ) (config : Connection) (a : Answer) (hh : s.history.Holds entries)
    (hl : s.editor.Shows before after) (hgoes : exits (before ++ after) = false)
    (hcmd : command (before ++ after) ∈ [str "help", str "clear", str "status", str "history"]) :
    ∃ t, handleInteractiveCommand .posix sockfd config a s = some (0, t) ∧ Handled hl.line [] s t := by
  have hprints := addAndSave_handled a hh hl
  rw [handleInteractiveCommand_eq sockfd config a hl, if_neg (by simp [hgoes])]
  simp only [List.mem_cons, List.not_mem_nil, or_false] at hcmd
  rcases hcmd with hcmd | hcmd | hcmd | hcmd
  · obtain ⟨t, ht, hhandled⟩ := hprints printInteractiveHelp
    exact ⟨t, by rw [hcmd, if_pos rfl, ht]; rfl, hhandled⟩
  · obtain ⟨t, ht, hhandled⟩ := hprints linenoiseClearScreen
    exact ⟨t, by rw [hcmd, if_neg (by decide), if_pos rfl, ht]; rfl, hhandled⟩
  · obtain ⟨t, ht, hhandled⟩ := hprints (printInteractiveStatus sockfd config)
    exact ⟨t, by rw [hcmd, if_neg (by decide), if_neg (by decide), if_pos rfl, ht]; rfl, hhandled⟩
  · obtain ⟨add, h', file, hadd, hsave⟩ := addAndSave_spec a hh hl
    have hhandled : Handled hl.line [] s { s with history := h', histFile := file } :=
      ⟨rfl, rfl, rfl, by simp, add, hadd⟩
    refine ⟨_, ?_, hhandled.print (printInteractiveHistory (if a.canOpen then file else none))⟩
    rw [hcmd, if_neg (by decide), if_neg (by decide), if_neg (by decide), if_pos rfl, hsave]
    rfl

/-- **A line that is no command** goes to the server, unless it is empty. -/
theorem line_spec (sockfd : ℤ) (config : Connection) (a : Answer) (hs : s.session.Sound n) (hn : n ≤ bufSize)
    (hl : s.editor.Shows before after) (hgoes : exits (before ++ after) = false)
    (hcmd : command (before ++ after) ∉ [str "help", str "clear", str "status", str "history"]) :
    ∃ rc t, handleInteractiveCommand .posix sockfd config a s = some (rc, t) ∧
      ((rc = -1 ∧ t.session = s.session ∧ ∃ w ∈ writes t.log, w.2 < 0) ∨
        (rc = 0 ∧ Handled hl.line (if before ++ after = [] then [] else before ++ after ++ [10]) s t)) := by
  simp only [List.mem_cons, List.not_mem_nil, or_false, not_or] at hcmd
  obtain ⟨hhelp, hclear, hstatus, hhistory⟩ := hcmd
  rw [handleInteractiveCommand_eq sockfd config a hl, if_neg (by simp [hgoes]), if_neg hhelp, if_neg hclear,
    if_neg hstatus, if_neg hhistory]
  by_cases hlen : 0 < s.editor.len
  · have hne : before ++ after ≠ [] := by
      rw [← List.length_pos_iff, List.length_append, ← hl.len]
      exact hlen
    rw [if_pos hlen, if_neg hne]
    exact transmit_spec sockfd a hs hn hl
  · have hlen' := hl.len
    obtain rfl : before = [] := List.eq_nil_of_length_eq_zero (by omega)
    obtain rfl : after = [] := List.eq_nil_of_length_eq_zero (by omega)
    rw [if_neg hlen]
    exact ⟨0, s, rfl, .inr ⟨rfl, handled_empty hl⟩⟩

/-- What is transmitted, for a line that is no exit line. -/
theorem transmits_eq {line : List Byte} (hgoes : exits line = false) :
    transmits line = true ↔ line ≠ [] ∧ command line ∉ [str "help", str "clear", str "status", str "history"] := by
  have hnot : command line ≠ str "exit" ∧ command line ≠ str "quit" := by simpa [exits] using hgoes
  simp [transmits, hnot.1, hnot.2]

/-- **A submitted line**: an exit line ends the session; any other that is not empty goes into
the history, and to the server unless it is a command. -/
theorem handleInteractiveCommand_spec (sockfd : ℤ) (config : Connection) (a : Answer) (hs : s.session.Sound n)
    (hn : n ≤ bufSize) (hl : s.editor.Shows before after) :
    ∃ rc t, handleInteractiveCommand .posix sockfd config a s = some (rc, t) ∧
      ((rc = 1 ∧ exits (before ++ after) = true ∧ t = s) ∨
        (exits (before ++ after) = false ∧
          ((rc = -1 ∧ t.session = s.session ∧ ∃ w ∈ writes t.log, w.2 < 0) ∨
            (rc = 0 ∧ Handled hl.line (if transmits (before ++ after) then before ++ after ++ [10] else []) s t)))) := by
  obtain ⟨entries, hh⟩ := hs.history
  by_cases hexit : exits (before ++ after) = true
  · refine ⟨1, s, ?_, .inl ⟨rfl, hexit, rfl⟩⟩
    rw [handleInteractiveCommand_eq sockfd config a hl, if_pos hexit]
  have hgoes := Bool.eq_false_iff.mpr hexit
  by_cases hcmd : command (before ++ after) ∈ [str "help", str "clear", str "status", str "history"]
  · obtain ⟨t, ht, hhandled⟩ := builtin_spec sockfd config a hh hl hgoes hcmd
    refine ⟨0, t, ht, .inr ⟨hgoes, .inr ⟨rfl, ?_⟩⟩⟩
    rw [if_neg fun htransmits => ((transmits_eq hgoes).mp htransmits).2 hcmd]
    exact hhandled
  · obtain ⟨rc, t, ht, hfailed | ⟨hzero, hhandled⟩⟩ := line_spec sockfd config a hs hn hl hgoes hcmd
    · exact ⟨rc, t, ht, .inr ⟨hgoes, .inl hfailed⟩⟩
    · refine ⟨rc, t, ht, .inr ⟨hgoes, .inr ⟨hzero, ?_⟩⟩⟩
      by_cases hempty : before ++ after = []
      · rw [if_pos hempty] at hhandled
        rw [if_neg fun htransmits => ((transmits_eq hgoes).mp htransmits).1 hempty]
        exact hhandled
      · rw [if_neg hempty] at hhandled
        rw [if_pos ((transmits_eq hgoes).mpr ⟨hempty, hcmd⟩)]
        exact hhandled

/-! ### Where a block leads -/

theorem leave_pc {a : Answer} {rc : ℤ} {t : St} (h : leave a rc s = some t) : t.pc = .done rc := by
  rw [leave] at h
  obtain ⟨u, -, h⟩ := Option.bind_eq_some_iff.mp h
  obtain ⟨history, -, h⟩ := Option.bind_eq_some_iff.mp h
  cases h
  rfl

/-- A key leads to the poll block, to the next key or to the end. -/
theorem keyBlock_pc {pf : Platform} {sockfd : ℤ} {config : Connection} {a : Answer} {c : Byte} {t : St}
    (h : keyBlock pf sockfd config a c s = some t) : t.pc ∈ [.poll, .typeahead, .done 0, .done 5] := by
  have hdone : ∀ {rc u}, leave a rc u = some t → rc ∈ [0, 5] → t.pc ∈ [.poll, .typeahead, .done 0, .done 5] := by
    intro rc u hu hrc
    rw [leave_pc hu]
    simpa using hrc
  rw [keyBlock] at h
  obtain ⟨fed, -, h⟩ := Option.bind_eq_some_iff.mp h
  dsimp only at h
  split_ifs at h
  · exact hdone h (by simp)
  · rw [lineBlock] at h
    obtain ⟨⟨rc, u⟩, -, h⟩ := Option.bind_eq_some_iff.mp h
    dsimp only at h
    split_ifs at h
    · exact hdone h (by simp)
    · exact hdone h (by simp)
    · obtain ⟨⟨l, out⟩, -, h⟩ := Option.bind_eq_some_iff.mp h
      cases h
      simp
  · cases h
    simp

end Blocks

end TcpClient.Tty
