import TcpClient.Interactive.TtyBlocks
import TcpClient.Linenoise.HistoryFile
import TcpClient.Linenoise.HistoryLog

/-!
# What a terminal session remembers

The history of a session on the terminal, from the file it is loaded from to the file it is saved to.
A line that was submitted and handled is remembered, and the file written anew; a line that ends the
session is not.

## What is proved

* `getInteractiveHistoryPath_spec` — where the file is.
* `session_history` — in every state of every run the history holds what was loaded and the lines
  submitted since, as far as there is room for them, and the file holds what it held, or what the
  history held at some time since. However the session ends, the file is left with what the
  history holds then, if it can be written.
-/

namespace TcpClient.Tty

open Machine CString

/-- What is written to the history file: the entries, each with a line end. -/
def fileText (entries : List CStr) : List Byte := entries.flatMap fun line => line.chars ++ [10]

/-- `linenoiseHistorySetMaxLen(500)` and `linenoiseHistoryLoad(hist_path)`, where the file holds `text`, if it
can be opened. -/
def loadHistory (text : Option (List Byte)) : Option History := do
  let (_, h) ← linenoiseHistorySetMaxLen 500 {}
  match text with
  | none => return h
  | some text => linenoiseHistoryLoad text h

/-- The entries of a history file. -/
def loaded : Option (List Byte) → List CStr
  | none => []
  | some text => ((fgetsAll historyBufSize [] text).map historyPiece).foldl (remember 500) []

/-- The entries after lines were submitted. -/
def recalled (entries : List CStr) (lines : List (List Byte)) : List CStr :=
  lines.foldl (fun entries line => remember 500 entries (CStr.ofMem line)) entries

/-! ### Where the file is -/

/-- What `getenv` answers about the home directory. -/
structure HomeEnv where
  home : Option CStr := none
  userprofile : Option CStr := none
  homedrive : Option CStr := none
  homepath : Option CStr := none

/-- The value of a variable that is set and not empty. -/
def nonemptyVar (value : Option CStr) : Option (List Byte) := (value.map CStr.chars).filter (· ≠ [])

/-- The history file in the home directory, if there is one. -/
def homeHistoryPath (pf : Platform) (env : HomeEnv) : Option (List Byte) :=
  match pf with
  | .posix => (nonemptyVar env.home).map (· ++ str "/.tcp_client_history")
  | .windows =>
    match nonemptyVar env.userprofile with
    | some userprofile => some (userprofile ++ str "\\.tcp_client_history")
    | none => do
      let homedrive ← nonemptyVar env.homedrive
      let homepath ← nonemptyVar env.homepath
      return homedrive ++ homepath ++ str "\\.tcp_client_history"

/-- `get_interactive_history_path(out_path, max_len)`: the characters put in `out_path`, `none` when it returns `NULL`. -/
def getInteractiveHistoryPath (pf : Platform) (env : HomeEnv) (maxLen : ℕ) : Option (List Byte) :=
  let here := (str "./.tcp_client_history").take (maxLen - 1)
  if maxLen = 0 then none
  else
    match homeHistoryPath pf env with
    | some path => if maxLen ≤ path.length then some here else some path
    | none => some here

/-- **The path is never that of the home directory cut short**: it fits, and is that path or the one in the current
directory. -/
theorem getInteractiveHistoryPath_spec (pf : Platform) (env : HomeEnv) {maxLen : ℕ} (hmax : 0 < maxLen) :
    ∃ path, getInteractiveHistoryPath pf env maxLen = some path ∧ path.length < maxLen ∧
      (homeHistoryPath pf env = some path ∨
        (∀ home, homeHistoryPath pf env = some home → maxLen ≤ home.length) ∧
          path = (str "./.tcp_client_history").take (maxLen - 1)) := by
  have hhere : ((str "./.tcp_client_history").take (maxLen - 1)).length < maxLen :=
    (List.length_take_le _ _).trans_lt (Nat.sub_lt hmax Nat.one_pos)
  unfold getInteractiveHistoryPath
  dsimp only
  rw [if_neg (Nat.ne_of_gt hmax)]
  cases hhome : homeHistoryPath pf env with
  | none =>
    refine ⟨_, rfl, hhere, .inr ⟨fun home heq => ?_, rfl⟩⟩
    cases heq
  | some path =>
    dsimp only
    split_ifs with hlong
    · refine ⟨_, rfl, hhere, .inr ⟨fun home heq => ?_, rfl⟩⟩
      cases heq
      exact hlong
    · exact ⟨path, rfl, not_le.mp hlong, .inl rfl⟩

section Blocks

variable {sockfd : ℤ} {config : Connection} {a : Answer} {s t : St} {entries : List CStr} {n : ℕ} {rc : ℤ}
  {before after : List Byte} {c : Byte}

/-! ### The history file -/

theorem loadHistory_holds (text : Option (List Byte)) :
    ∃ h, loadHistory text = some h ∧ h.maxLen = 500 ∧ h.Holds (loaded text) := by
  cases text with
  | none => exact ⟨{}, rfl, rfl, holds_init⟩
  | some text =>
    obtain ⟨h, entries, hload, hmax, hh, -, -, rfl⟩ := linenoiseHistoryLoad_holds text
    exact ⟨h, hload, hmax, hh⟩

/-- What was loaded, and lines that a file can hold, are loaded again as they are. -/
theorem loaded_fileText {lines : List (List Byte)} (text : Option (List Byte))
    (hlines : ∀ line ∈ lines, OneLine (CStr.ofMem line) ∧ line.length < historyBufSize) :
    loaded (some (fileText (recalled (loaded text) lines))) = recalled (loaded text) lines := by
  have hloaded : Storable 500 (loaded text) ∧ ∀ line ∈ loaded text, line.chars.length < historyBufSize := by
    cases text with
    | none => exact ⟨storable_nil 500, by simp [loaded]⟩
    | some text =>
      obtain ⟨-, entries, -, -, -, hs, hshort, rfl⟩ := linenoiseHistoryLoad_holds text
      exact ⟨hs, hshort⟩
  have hrecall : recalled (loaded text) lines = (lines.map CStr.ofMem).foldl (remember 500) (loaded text) :=
    List.foldl_map.symm
  have hstorable : Storable 500 ([] ++ recalled (loaded text) lines) := by
    rw [List.nil_append, hrecall]
    refine hloaded.1.foldl fun line hline => ?_
    obtain ⟨l, hl, rfl⟩ := List.mem_map.mp hline
    exact (hlines l hl).1
  refine load_saved hstorable fun line hline => ?_
  rw [hrecall] at hline
  cases mem_foldl_remember hline with
  | inl hold => exact hloaded.2 line hold
  | inr hnew =>
    obtain ⟨l, hl, rfl⟩ := List.mem_map.mp hnew
    exact Nat.lt_of_le_of_lt (List.takeWhile_prefix _).length_le (hlines l hl).2

theorem save_eq (a : Answer) (hh : s.history.Holds entries) :
    save a s = some { s with histFile := if a.canSave then some (fileText entries) else s.histFile } := by
  rw [save, linenoiseHistorySave_holds hh]
  rfl

/-- **The end of the session** writes the file. -/
theorem leave_eq (a : Answer) (rc : ℤ) (hh : s.history.Holds entries) :
    leave a rc s = some { s with
      editor := linenoiseEditStop s.editor
      histFile := if a.canSave then some (fileText entries) else s.histFile
      history := { s.history with slots := [], len := 0 }
      pc := .done rc } := by
  have hfree : linenoiseHistoryFree s.history = some { s.history with slots := [], len := 0 } := by
    rw [linenoiseHistoryFree, hh.read_all]
    rfl
  rw [leave, save_eq (s := { s with editor := linenoiseEditStop s.editor }) a hh, Option.bind_eq_bind, Option.bind_some,
    hfree]
  rfl

/-! ### A submitted line -/

/-- One more line is recalled. -/
theorem recalled_concat (entries : List CStr) (lines : List (List Byte)) {l : Editor} (hl : l.Shows before after) :
    recalled entries (lines ++ [before ++ after]) = remember 500 (recalled entries lines) hl.line := by
  have hline : CStr.ofMem (before ++ after) = hl.line := CStr.ext (cstr_eq_self hl.holds.nul_free)
  rw [recalled, List.foldl_append, ← hline]
  rfl

/-- After a line that was handled: it is remembered, the file is as it was or holds the entries, and
something was printed. -/
structure Kept (sockfd : ℤ) (config : Connection) (entries : List CStr) (s t : St) : Prop where
  submitted : t.submitted = s.submitted
  editor : t.editor = s.editor
  limit : t.history.maxLen = s.history.maxLen
  holds : t.history.Holds entries
  file : t.histFile = s.histFile ∨ t.histFile = some (fileText entries)
  printed : ∃ out, printed t.log = printed s.log ++ out ∧
    out ∈ [[], printInteractiveHelp, linenoiseClearScreen, printInteractiveStatus sockfd config,
      printInteractiveHistory none, printInteractiveHistory t.histFile]

/-- `linenoiseHistoryAdd(l->buf); linenoiseHistorySave(hist_path)`. -/
theorem addAndSave_kept (sockfd : ℤ) (config : Connection) (a : Answer) (hh : s.history.Holds entries)
    (hl : s.editor.Shows before after) {u : St} (hu : addAndSave a s = some u) (out : List Byte)
    (hout : out ∈ [[], printInteractiveHelp, linenoiseClearScreen, printInteractiveStatus sockfd config])
    {s₀ : St} (hsubmitted : s.submitted = s₀.submitted) (heditor : s.editor = s₀.editor)
    (hhistory : s.history = s₀.history) (hfile : s.histFile = s₀.histFile)
    (hprinted : printed s.log = printed s₀.log ++ out) :
    Kept sockfd config (remember s₀.history.maxLen entries hl.line) s₀ u := by
  obtain ⟨rc, h', hadd, hmax, hh'⟩ := linenoiseHistoryAdd_holds hh hl.line
  have hsave := save_eq (s := { s with history := h' }) a hh'
  rw [addAndSave, hl.strdup] at hu
  simp only [hadd, Option.bind_eq_bind, Option.bind_some, hsave] at hu
  cases hu
  refine ⟨hsubmitted, heditor, hmax.trans (congrArg History.maxLen hhistory), hhistory ▸ hh', ?_, out, hprinted, ?_⟩
  · dsimp only
    split_ifs
    · exact .inr (by rw [hhistory])
    · exact .inl hfile
  · simp only [List.mem_cons, List.not_mem_nil, or_false] at hout ⊢
    rcases hout with h | h | h | h <;> simp [h]

/-- A command prints, and is remembered. -/
theorem printed_kept (sockfd : ℤ) (config : Connection) (a : Answer) (hh : s.history.Holds entries)
    (hl : s.editor.Shows before after) (out : List Byte)
    (hout : out ∈ [printInteractiveHelp, linenoiseClearScreen, printInteractiveStatus sockfd config]) :
    ∃ t, addAndSave a (s.print out) = some t ∧ Kept sockfd config (remember s.history.maxLen entries hl.line) s t := by
  obtain ⟨rc, h', file, -, hsave⟩ := addAndSave_spec (s := s.print out) a hh hl
  have hlisted := List.mem_cons_of_mem [] hout
  exact ⟨_, hsave, addAndSave_kept (s := s.print out) sockfd config a hh hl hsave out hlisted rfl rfl rfl rfl
    (by simp [St.print])⟩

/-- **A submitted line is remembered**, unless it ends the session. -/
theorem handleInteractiveCommand_kept (sockfd : ℤ) (config : Connection) (a : Answer) (hs : s.session.Sound n)
    (hn : n ≤ bufSize) (hh : s.history.Holds entries) (hl : s.editor.Shows before after) :
    ∃ rc t, handleInteractiveCommand .posix sockfd config a s = some (rc, t) ∧
      ((rc ∈ [1, -1] ∧ t.session = s.session ∧ t.submitted = s.submitted ∧ t.histFile = s.histFile) ∨
        (rc = 0 ∧ Kept sockfd config (remember s.history.maxLen entries hl.line) s t)) := by
  rw [handleInteractiveCommand_eq sockfd config a hl]
  by_cases hexit : exits (before ++ after) = true
  · rw [if_pos hexit]
    exact ⟨1, s, rfl, .inl ⟨by simp, rfl, rfl, rfl⟩⟩
  rw [if_neg hexit]
  by_cases hhelp : command (before ++ after) = str "help"
  · obtain ⟨t, ht, hkept⟩ := printed_kept sockfd config a hh hl printInteractiveHelp (by simp)
    rw [if_pos hhelp, ht]
    exact ⟨0, t, rfl, .inr ⟨rfl, hkept⟩⟩
  rw [if_neg hhelp]
  by_cases hclear : command (before ++ after) = str "clear"
  · obtain ⟨t, ht, hkept⟩ := printed_kept sockfd config a hh hl linenoiseClearScreen (by simp)
    rw [if_pos hclear, ht]
    exact ⟨0, t, rfl, .inr ⟨rfl, hkept⟩⟩
  rw [if_neg hclear]
  by_cases hstatus : command (before ++ after) = str "status"
  · obtain ⟨t, ht, hkept⟩ := printed_kept sockfd config a hh hl (printInteractiveStatus sockfd config) (by simp)
    rw [if_pos hstatus, ht]
    exact ⟨0, t, rfl, .inr ⟨rfl, hkept⟩⟩
  rw [if_neg hstatus]
  by_cases hhistory : command (before ++ after) = str "history"
  · -- the list is printed when the file has been written
    obtain ⟨rc, h', file, -, hsave⟩ := addAndSave_spec a hh hl
    have hkept := addAndSave_kept sockfd config a hh hl hsave [] (by simp) rfl rfl rfl rfl (by simp)
    rw [if_pos hhistory, hsave]
    refine ⟨0, _, rfl, .inr ⟨rfl, hkept.submitted, hkept.editor, hkept.limit, hkept.holds, hkept.file,
      printInteractiveHistory (if a.canOpen then file else none), by simp [St.print], ?_⟩⟩
    cases a.canOpen <;> simp [St.print]
  rw [if_neg hhistory]
  by_cases hlen : 0 < s.editor.len
  · rw [if_pos hlen]
    obtain ⟨rc, t, ht, ⟨hrc, hsession, -⟩ | ⟨hrc, hhandled⟩⟩ := transmit_spec sockfd a hs hn hl
    · refine ⟨rc, t, ht, .inl ⟨by simp [hrc], hsession, ?_⟩⟩
      rw [transmit] at ht
      obtain ⟨buf, -, ht⟩ := Option.bind_eq_some_iff.mp ht
      dsimp only at ht
      split_ifs at ht
      · cases ht
        exact ⟨rfl, rfl⟩
      · obtain ⟨u, -, ht⟩ := Option.bind_eq_some_iff.mp ht
        cases ht
        exact absurd hrc (by decide)
    · rw [transmit] at ht
      obtain ⟨buf, -, ht'⟩ := Option.bind_eq_some_iff.mp ht
      dsimp only at ht'
      split_ifs at ht'
      · cases ht'
        exact absurd hrc (by decide)
      · obtain ⟨u, hu, ht'⟩ := Option.bind_eq_some_iff.mp ht'
        cases ht'
        refine ⟨0, t, ht, .inr ⟨rfl, ?_⟩⟩
        exact addAndSave_kept (s := s.wrote buf _) sockfd config a hh hl hu [] (by simp) rfl rfl rfl rfl
          (by simp [St.wrote])
  · have hlen' := hl.len
    obtain rfl : before = [] := List.eq_nil_of_length_eq_zero (by omega)
    obtain rfl : after = [] := List.eq_nil_of_length_eq_zero (by omega)
    have hsame : remember s.history.maxLen entries hl.line = entries := if_pos (.inl rfl)
    rw [if_neg hlen]
    exact ⟨0, s, rfl, .inr ⟨rfl, rfl, rfl, rfl, hsame.symm ▸ hh, .inl rfl, [], (List.append_nil _).symm, by simp⟩⟩

/-! ### The invariant -/

/-- The history holds what was loaded and the lines submitted, as far as there is room; the file holds
what it held, or what the history held at some time since. -/
structure Remembers (n : ℕ) (entries₀ : List CStr) (text : Option (List Byte)) (s : St) : Prop where
  running : (∀ rc, s.pc ≠ .done rc) →
    s.session.Sound n ∧ s.history.maxLen = 500 ∧ s.history.Holds (recalled entries₀ s.submitted)
  file : s.histFile = text ∨ ∃ lines, lines <+: s.submitted ∧ s.histFile = some (fileText (recalled entries₀ lines))
  no_fault : s.pc ≠ .fault

/-- A block from `s` on keeps the invariant, and a session that ends with it leaves the file with what the
history held in `s`. -/
def KeepsHistory (n : ℕ) (entries₀ : List CStr) (text : Option (List Byte)) (s : St) (a : Answer) (r : Option St) :
    Prop :=
  ∃ t, r = some t ∧ Remembers n entries₀ text t ∧
    ((∃ rc, t.pc = .done rc) → a.canSave = true → t.histFile = some (fileText (recalled entries₀ s.submitted)))

variable {entries₀ : List CStr} {text : Option (List Byte)} {u : St}

/-- A block that changes neither the history nor the file. -/
theorem Remembers.same (h : Remembers n entries₀ text s) (hrun : ∀ rc, s.pc ≠ .done rc)
    (hsession : t.session = s.session) (hsubmitted : t.submitted = s.submitted) (hfile : t.histFile = s.histFile)
    (hpc : t.pc ≠ .fault ∧ ∀ rc, t.pc ≠ .done rc) : KeepsHistory n entries₀ text s a (some t) := by
  obtain ⟨hsound, hmax, hh⟩ := h.running hrun
  have hhistory : t.history = s.history := congrArg Session.history hsession
  refine ⟨t, rfl, ⟨fun _ => ⟨hsession ▸ hsound, hhistory ▸ hmax, ?_⟩, ?_, hpc.1⟩, fun ⟨rc, hdone⟩ => ?_⟩
  · rw [hhistory, hsubmitted]
    exact hh
  · rw [hfile, hsubmitted]
    exact h.file
  · exact absurd hdone (hpc.2 rc)

/-- **The session ends** in `u`, with the history that `s` had. -/
theorem Remembers.leave (h : Remembers n entries₀ text s) (hrun : ∀ rc, s.pc ≠ .done rc) (a : Answer) (rc : ℤ)
    (hhistory : u.history = s.history) (hsubmitted : s.submitted <+: u.submitted) (hfile : u.histFile = s.histFile) :
    KeepsHistory n entries₀ text s a (leave a rc u) := by
  obtain ⟨-, -, hh⟩ := h.running hrun
  rw [leave_eq a rc (hhistory ▸ hh : u.history.Holds _)]
  refine ⟨_, rfl, ⟨fun hno => absurd rfl (hno rc), ?_, Pc.noConfusion⟩, fun _ hsave => if_pos hsave⟩
  dsimp only
  split_ifs
  · exact .inr ⟨s.submitted, hsubmitted, rfl⟩
  · rw [hfile]
    refine h.file.imp_right ?_
    rintro ⟨lines, hlines, htext⟩
    exact ⟨lines, hlines.trans hsubmitted, htext⟩

/-! ### The blocks -/

theorem Remembers.pollBlock (h : Remembers n entries₀ text s) (hpc : s.pc = .poll) (a : Answer) :
    KeepsHistory n entries₀ text s a (pollBlock a s) := by
  have hrun : ∀ rc, s.pc ≠ .done rc := by simp [hpc]
  have hleave : ∀ rc, KeepsHistory n entries₀ text s a (Tty.leave a rc s) := fun rc =>
    h.leave hrun a rc rfl (List.prefix_refl _) rfl
  unfold Tty.pollBlock
  split
  · exact hleave 0
  · cases a.poll with
    | fail err =>
      dsimp only
      split_ifs
      · exact hleave 0
      · exact h.same hrun rfl rfl rfl (by simp [hpc])
      · exact hleave 5
    | timeout => exact h.same hrun rfl rfl rfl (by simp)
    | ready => exact h.same hrun rfl rfl rfl (by simp)

/-- A packet leaves the history and the file alone. -/
theorem handleSocketData_file (sockfd : ℤ) (a : Answer) (h : handleSocketData .posix sockfd a s = some (rc, t)) :
    t.session = s.session ∧ t.submitted = s.submitted ∧ t.histFile = s.histFile := by
  unfold handleSocketData at h
  dsimp only at h
  by_cases hpos : 0 < (readSocket .posix sockfd a).rc
  · rw [if_pos hpos] at h
    obtain ⟨line, -, h⟩ := Option.bind_eq_some_iff.mp h
    cases h
    exact ⟨rfl, rfl, rfl⟩
  · rw [if_neg hpos] at h
    split_ifs at h <;>
      · cases h
        exact ⟨rfl, rfl, rfl⟩

theorem Remembers.socketBlock (h : Remembers n entries₀ text s) (hpc : s.pc = .socket) (sockfd : ℤ) (a : Answer) :
    KeepsHistory n entries₀ text s a (socketBlock .posix sockfd a s) := by
  have hrun : ∀ rc, s.pc ≠ .done rc := by simp [hpc]
  unfold Tty.socketBlock
  split_ifs
  · exact h.leave hrun a 0 rfl (List.prefix_refl _) rfl
  · obtain ⟨rc, t, hdata, -⟩ := handleSocketData_spec sockfd a (h.running hrun).1
    obtain ⟨hsession, hsubmitted, hfile⟩ := handleSocketData_file sockfd a hdata
    have hleave : ∀ rc, KeepsHistory n entries₀ text s a (Tty.leave a rc t) := fun rc =>
      h.leave hrun a rc (congrArg Session.history hsession) (hsubmitted ▸ List.prefix_refl _) hfile
    rw [hdata, Option.bind_eq_bind, Option.bind_some]
    dsimp only
    split_ifs
    · exact hleave 0
    · exact hleave 5
    · exact h.same hrun hsession hsubmitted hfile (by simp)
  · exact h.same hrun rfl rfl rfl (by simp)

/-- **A submitted line** goes into the history, and into the file if that can be written. -/
theorem Remembers.lineBlock (h : Remembers n entries₀ text s) (hrun : ∀ rc, s.pc ≠ .done rc) (hn : n ≤ bufSize)
    (sockfd : ℤ) (config : Connection) (a : Answer) (hu : u.session.Sound n) (hhistory : u.history = s.history)
    (hsubmitted : u.submitted = s.submitted ++ [u.editor.buf.take u.editor.len]) (hfile : u.histFile = s.histFile) :
    KeepsHistory n entries₀ text s a (lineBlock .posix sockfd config a u) := by
  obtain ⟨-, hmax, hh⟩ := h.running hrun
  obtain ⟨before, after, hl⟩ := hu.editor.text
  have hh' : u.history.Holds (recalled entries₀ s.submitted) := hhistory ▸ hh
  have hpre : s.submitted <+: u.submitted := hsubmitted ▸ List.prefix_append _ _
  obtain ⟨rc, t, hcommand, ⟨hrc, hsession, hlines, hsame⟩ | ⟨rfl, hkept⟩⟩ :=
    handleInteractiveCommand_kept sockfd config a hu hn hh' hl
  · -- the line ends the session
    have hleave : ∀ rc, KeepsHistory n entries₀ text s a (Tty.leave a rc t) := fun rc =>
      h.leave hrun a rc ((congrArg Session.history hsession).trans hhistory) (hlines ▸ hpre) (hsame.trans hfile)
    simp only [List.mem_cons, List.not_mem_nil, or_false] at hrc
    rw [Tty.lineBlock, hcommand]
    rcases hrc with rfl | rfl
    · exact hleave 0
    · exact hleave 5
  · have htext : u.editor.buf.take u.editor.len = before ++ after := hl.text_eq
    have hrecall :
        remember u.history.maxLen (recalled entries₀ s.submitted) hl.line = recalled entries₀ u.submitted := by
      rw [hhistory, hmax, hsubmitted, htext]
      exact (recalled_concat entries₀ s.submitted hl).symm
    have hholds : t.history.Holds (recalled entries₀ t.submitted) := by
      rw [hkept.submitted, ← hrecall]
      exact hkept.holds
    have hbuflen : u.editor.buf.length = n := hu.editor.buflen
    obtain ⟨l', out, hstart, hsound, -⟩ := linenoiseEditStart_sound t.history (Nat.one_le_of_lt hl.len_lt) prompt
    have hstart' : linenoiseEditStart t.history u.editor.buf prompt = some (l', out) := hstart
    rw [Tty.lineBlock, hcommand]
    dsimp only [Option.bind_eq_bind, Option.bind_some]
    rw [if_neg (by decide), if_neg (by decide), hkept.editor, hstart']
    refine ⟨_, rfl, ⟨fun _ => ⟨⟨⟨_, hholds⟩, hbuflen ▸ hsound⟩, ?_, hholds⟩, ?_, Pc.noConfusion⟩, fun hdone => ?_⟩
    · exact hkept.limit.trans (hhistory ▸ hmax)
    · refine hkept.file.elim (fun hold => ?_) fun hnew => .inr ⟨t.submitted, List.prefix_refl _, ?_⟩
      · dsimp only
        rw [hold, hfile, hkept.submitted]
        refine h.file.imp_right ?_
        rintro ⟨lines, hlines, htext⟩
        exact ⟨lines, hlines.trans hpre, htext⟩
      · rw [hkept.submitted, ← hrecall]
        exact hnew
    · obtain ⟨rc, hrc⟩ := hdone
      cases hrc

theorem Remembers.keyBlock (h : Remembers n entries₀ text s) (hrun : ∀ rc, s.pc ≠ .done rc) (hn : n ≤ bufSize)
    (sockfd : ℤ) (config : Connection) (a : Answer) (c : Byte) (log : List Event) :
    KeepsHistory n entries₀ text s a (keyBlock .posix sockfd config a c { s with log := log }) := by
  obtain ⟨hsound, -, hh⟩ := h.running hrun
  obtain ⟨fed, hfed, hl⟩ := hsound.editor.feed (some interactiveCompletionCallback) hh (some c)
  have hfed' : linenoiseEditFeed (some interactiveCompletionCallback) s.history s.editor (some c) = some fed := hfed
  have hfedsound : Session.Sound n ⟨s.history, fed.editor⟩ := ⟨hsound.history, hl⟩
  rw [Tty.keyBlock]
  dsimp only
  rw [hfed']
  dsimp only [Option.bind_eq_bind, Option.bind_some]
  split_ifs
  · exact h.leave hrun a 0 rfl (List.prefix_refl _) rfl
  · exact h.lineBlock hrun hn sockfd config a hfedsound rfl rfl rfl
  · refine ⟨_, rfl, ⟨fun _ => ⟨hfedsound, (h.running hrun).2⟩, h.file, Pc.noConfusion⟩, fun hdone => ?_⟩
    obtain ⟨rc, hrc⟩ := hdone
    cases hrc

theorem Remembers.stdinBlock (h : Remembers n entries₀ text s) (hpc : s.pc = .stdin) (hn : n ≤ bufSize)
    (sockfd : ℤ) (config : Connection) (a : Answer) :
    KeepsHistory n entries₀ text s a (stdinBlock sockfd config a s) := by
  have hrun : ∀ rc, s.pc ≠ .done rc := by simp [hpc]
  unfold Tty.stdinBlock
  split
  · cases a.stdin.clip 1 with
    | data bytes =>
      cases bytes with
      | nil => exact h.leave hrun a 0 rfl (List.prefix_refl _) rfl
      | cons c rest => exact h.keyBlock hrun hn sockfd config a c _
    | fail err => exact h.leave hrun a 0 rfl (List.prefix_refl _) rfl
  · exact h.same hrun rfl rfl rfl (by simp)

theorem Remembers.typeaheadBlock (h : Remembers n entries₀ text s) (hpc : s.pc = .typeahead) (hn : n ≤ bufSize)
    (sockfd : ℤ) (config : Connection) (a : Answer) :
    KeepsHistory n entries₀ text s a (typeaheadBlock sockfd config a s) := by
  have hrun : ∀ rc, s.pc ≠ .done rc := by simp [hpc]
  unfold Tty.typeaheadBlock
  split
  · cases a.stdin.clip 1 with
    | data bytes =>
      cases bytes with
      | nil => exact h.same hrun rfl rfl rfl (by simp)
      | cons c rest => exact h.keyBlock hrun hn sockfd config a c _
    | fail err => exact h.same hrun rfl rfl rfl (by simp)
  · exact h.same hrun rfl rfl rfl (by simp)

/-- **A step** of a session that has not ended. -/
theorem Remembers.step (h : Remembers n entries₀ text s) (hrun : ∀ rc, s.pc ≠ .done rc) (hn : n ≤ bufSize)
    (sockfd : ℤ) (config : Connection) (a : Answer) :
    Remembers n entries₀ text (step sockfd config s a) ∧
      ((∃ rc, (step sockfd config s a).pc = .done rc) → a.canSave = true →
        (step sockfd config s a).histFile = some (fileText (recalled entries₀ s.submitted))) := by
  have hblock : ∀ {r}, KeepsHistory n entries₀ text s a r → Remembers n entries₀ text (orFault s r) ∧
      ((∃ rc, (orFault s r).pc = .done rc) → a.canSave = true →
        (orFault s r).histFile = some (fileText (recalled entries₀ s.submitted))) := by
    rintro r ⟨t, rfl, ht⟩
    exact ht
  cases hpc : s.pc with
  | poll => simpa only [Tty.step, hpc] using hblock (h.pollBlock hpc a)
  | socket => simpa only [Tty.step, hpc] using hblock (h.socketBlock hpc sockfd a)
  | stdin => simpa only [Tty.step, hpc] using hblock (h.stdinBlock hpc hn sockfd config a)
  | typeahead => simpa only [Tty.step, hpc] using hblock (h.typeaheadBlock hpc hn sockfd config a)
  | done rc => exact absurd hpc (hrun rc)
  | fault => exact absurd hpc h.no_fault

/-- A step, also of a session that has ended. -/
theorem Remembers.next (h : Remembers n entries₀ text s) (hn : n ≤ bufSize) (sockfd : ℤ) (config : Connection)
    (a : Answer) : Remembers n entries₀ text (Tty.step sockfd config s a) := by
  by_cases hrun : ∀ rc, s.pc ≠ .done rc
  · exact (h.step hrun hn sockfd config a).1
  · obtain ⟨rc, hrc⟩ := not_forall_not.mp hrun
    have hstay : Tty.step sockfd config s a = s := by rw [Tty.step, hrc]
    rw [hstay]
    exact h

/-- The session starts with what was loaded. -/
theorem remembers_start {h : History} (hmax : h.maxLen = 500) (hh : h.Holds entries₀) {buf : List Byte}
    (hbuf : 1 ≤ buf.length) (text : Option (List Byte)) :
    ∃ s₀, start h text buf = some s₀ ∧ s₀.pc = .poll ∧ Remembers buf.length entries₀ text s₀ := by
  obtain ⟨l, out, hstart, hl, -⟩ := linenoiseEditStart_sound h hbuf prompt
  refine ⟨{ history := h, editor := l, histFile := text, log := [.stdout out] }, ?_, rfl, ?_⟩
  · rw [start, hstart]
    rfl
  · exact ⟨fun _ => ⟨⟨⟨_, hh⟩, hl⟩, hmax, hh⟩, .inl rfl, Pc.noConfusion⟩

end Blocks

/-! ### The law -/

/-- **What a session remembers.** The history is what was loaded, and every line submitted since, in
order, as far as there is room, until the session ends. The file holds what it held, or what the history
held at some time since; however the session ends, it is left with what the history holds then, if
it can be written, and the next session loads just that, as long as each line submitted is one a file
can hold. -/
theorem session_history (sockfd : ℤ) (config : Connection) (text : Option (List Byte)) (buf : List Byte)
    (hbuf : 1 ≤ buf.length) (hsize : buf.length ≤ bufSize) :
    ∃ h s₀, loadHistory text = some h ∧ h.entries = some (loaded text) ∧ start h text buf = some s₀ ∧
      ∀ s, Reach (step sockfd config) Free s₀ s →
        s.pc ≠ .fault ∧
        (s.histFile = text ∨ ∃ lines, lines <+: s.submitted ∧
          s.histFile = some (fileText (recalled (loaded text) lines))) ∧
        ((∀ rc, s.pc ≠ .done rc) → s.history.entries = some (recalled (loaded text) s.submitted) ∧
          ∀ a rc, (step sockfd config s a).pc = .done rc → a.canSave = true →
            (step sockfd config s a).histFile = some (fileText (recalled (loaded text) s.submitted)) ∧
            ((∀ line ∈ s.submitted, OneLine (CStr.ofMem line) ∧ line.length < historyBufSize) →
              ∃ h', loadHistory (step sockfd config s a).histFile = some h' ∧
                h'.entries = some (recalled (loaded text) s.submitted))) := by
  obtain ⟨h, hload, hmax, hh⟩ := loadHistory_holds text
  obtain ⟨s₀, hstart, -, hs₀⟩ := remembers_start hmax hh hbuf text
  refine ⟨h, s₀, hload, hh.entries_eq, hstart, ?_⟩
  intro s hreach
  have hinv : Remembers buf.length (loaded text) text s :=
    hreach.invariant hs₀ fun s a hs _ => hs.next hsize sockfd config a
  refine ⟨hinv.no_fault, hinv.file, fun hrun => ⟨(hinv.running hrun).2.2.entries_eq, fun a rc hdone hsave => ?_⟩⟩
  have hfile := (hinv.step hrun hsize sockfd config a).2 ⟨rc, hdone⟩ hsave
  refine ⟨hfile, fun hlines => ?_⟩
  obtain ⟨h', hload', -, hh'⟩ := loadHistory_holds (step sockfd config s a).histFile
  refine ⟨h', hload', ?_⟩
  rw [hfile, loaded_fileText text hlines] at hh'
  exact hh'.entries_eq

/-- The line `a` is loaded, `b` is sent, and a signal ends the session. -/
theorem session_history_line :
    let answers : List Answer := [{ stdinRev := { pollin := true } }, {}, { stdin := .data (str "b") },
      { stdinRev := { pollin := true }, stdin := .data [13], write := [(.ready, .accept 2)] }]
    ∃ h s₀ h', loadHistory (some (str "a\n")) = some h ∧ start h (some (str "a\n")) [0, 0, 0, 0] = some s₀ ∧
      loadHistory (step 3 ⟨[], 1, 1⟩ (run (step 3 ⟨[], 1, 1⟩) s₀ answers) { interrupted := true }).histFile = some h' ∧
      h'.entries.map (·.map CStr.chars) = some [str "a", str "b"] := by
  intro answers
  obtain ⟨h, s₀, hload, -, hstart, hlaw⟩ :=
    session_history 3 ⟨[], 1, 1⟩ (some (str "a\n")) [0, 0, 0, 0] (by decide) (by decide)
  refine ⟨h, s₀, ?_⟩
  obtain rfl : (loadHistory (some (str "a\n"))).get (by decide) = h := Option.get_of_eq_some _ hload
  obtain rfl : (start ((loadHistory (some (str "a\n"))).get (by decide)) (some (str "a\n")) [0, 0, 0, 0]).get (by decide) =
    s₀ := Option.get_of_eq_some _ hstart
  obtain ⟨-, -, hrun⟩ := hlaw _ (reach_free_run _ answers)
  have hpoll : (run (step 3 ⟨[], 1, 1⟩)
      ((start ((loadHistory (some (str "a\n"))).get (by decide)) (some (str "a\n")) [0, 0, 0, 0]).get (by decide))
      answers).pc = .poll := by decide
  obtain ⟨-, hlast⟩ := hrun (by simp [hpoll])
  obtain ⟨-, hagain⟩ := hlast { interrupted := true } 0 (by decide) rfl
  have hline : OneLine (CStr.ofMem (str "b")) ∧ (str "b").length < historyBufSize := ⟨⟨by decide, by decide⟩, by decide⟩
  obtain ⟨h', hload', hentries⟩ := hagain (List.forall_mem_singleton.mpr hline)
  exact ⟨h', hload, hstart, hload', by rw [hentries]; decide⟩

end TcpClient.Tty
