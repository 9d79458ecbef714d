import TcpClient.Compat
import TcpClient.Lib.CString
import Mathlib.Data.List.DropRight

/-!
# Built-in commands

`is_builtin_command` and `is_exit_command` of `mode_interactive.c`: a line is a
command if it is the command's word between white space, in any case.

The source walks over the string; what it decides is said without a walk by
`isBuiltinCommand_iff`: the line, stripped of white space and in lower case, is the
word.
-/

namespace TcpClient

open CString

/-- `strncasecmp(start, cmd, strlen(cmd)) == 0`. -/
def startsWithNoCase (start cmd : List Byte) : Bool := (start.take cmd.length).map tolower == cmd.map tolower

/-- `is_builtin_command(buf, cmd)`, for the characters of the string at `buf`. -/
def isBuiltinCommand (buf cmd : List Byte) : Bool :=
  let start := buf.dropWhile isspace
  if startsWithNoCase start cmd then
    (start.drop cmd.length).dropWhile (fun c => c == 10 || c == 13 || isspace c) == []
  else false

/-- `is_exit_command(buf)`. -/
def isExitCommand (buf : List Byte) : Bool :=
  isBuiltinCommand buf (str "exit") || isBuiltinCommand buf (str "quit")

/-! ### What the commands print -/

/-- `print_interactive_help()`. -/
def printInteractiveHelp : List Byte :=
  str "Interactive Commands:\n" ++
  str "  help     Display this help message\n" ++
  str "  status   Display connection parameters and status\n" ++
  str "  clear    Clear the terminal screen\n" ++
  str "  history  Display command history\n" ++
  str "  exit     Disconnect and exit session\n" ++
  str "  quit     Disconnect and exit session\n\n" ++
  str "Keyboard Shortcuts:\n" ++
  str "  Up/Down  Navigate command history\n" ++
  str "  Tab      Auto-complete command or payload\n" ++
  str "  Ctrl+C   Abort input line / exit\n" ++
  str "  Ctrl+D   Exit session on empty input line\n" ++
  str "  Ctrl+L   Clear screen\n"

/-- The fields of the configuration that are shown. -/
structure Connection where
  /-- The characters of `host`. -/
  host : List Byte
  port : ℤ
  timeoutMs : ℤ

/-- `print_interactive_status(sockfd, config)`. -/
def printInteractiveStatus (sockfd : ℤ) (config : Connection) : List Byte :=
  str "Connection Status:\n" ++
  str "  Host:       " ++ (if config.host ≠ [] then config.host else str "(unknown)") ++ [10] ++
  str "  Port:       " ++ str (toString config.port) ++ [10] ++
  str "  Timeout:    " ++ str (toString config.timeoutMs) ++ str " ms\n" ++
  str "  Socket FD:  " ++ str (toString sockfd) ++ [10] ++
  str "  Mode:       Interactive (Linenoise TTY)\n"

/-- What `fgets(line, size, fp)` reads, call after call: lines with their ends, in pieces where
they are too long; `line` was read before. -/
def fgetsAll (size : ℕ) : List Byte → List Byte → List (List Byte)
  | line, [] => if line = [] then [] else [line]
  | line, c :: rest =>
    let line := line ++ [c]
    if c = 10 ∨ size ≤ line.length + 1 then line :: fgetsAll size [] rest else fgetsAll size line rest

/-- A string without the line ends at its end. -/
def stripLineEnd (s : List Byte) : List Byte := s.rdropWhile fun c => c == 13 || c == 10

/-- `printf("%4d  %s\n", count, line)`. -/
def historyLine (count : ℕ) (line : List Byte) : List Byte :=
  let digits := str (toString count)
  List.replicate (4 - digits.length) 32 ++ digits ++ str "  " ++ line ++ [10]

/-- `print_interactive_history(hist_path)`, where the file holds `file`, if it can be opened. -/
def printInteractiveHistory (file : Option (List Byte)) : List Byte :=
  match file with
  | none => str "No history recorded.\n"
  | some text =>
    let lines := ((fgetsAll 4096 [] text).map fun line => stripLineEnd (cstr line)).filter (· ≠ [])
    (lines.zipIdx 1).flatMap fun (line, count) => historyLine count line

/-! ### Completions -/

/-- `INTERACTIVE_COMPLETIONS`. -/
def interactiveCompletions : List CStr :=
  [⟨str "exit", by decide⟩, ⟨str "quit", by decide⟩, ⟨str "help", by decide⟩, ⟨str "clear", by decide⟩,
    ⟨str "status", by decide⟩, ⟨str "history", by decide⟩, ⟨str "NC0000", by decide⟩,
    ⟨str "00 06 30 30 30 30", by decide⟩, ⟨str "BA", by decide⟩, ⟨str "BB", by decide⟩, ⟨str "CA", by decide⟩,
    ⟨str "CB", by decide⟩, ⟨str "M0", by decide⟩, ⟨str "M2", by decide⟩]

/-- `interactive_completion_callback`: the commands that begin with the line. -/
def interactiveCompletionCallback (line : CStr) : List CStr :=
  interactiveCompletions.filter fun cmd => cmd.chars.take line.chars.length = line.chars

/-! ### What is decided -/

/-- A string without the white space around it. -/
def strip (s : List Byte) : List Byte := (s.dropWhile isspace).rdropWhile isspace

/-- A word a line can be compared with: not empty, in lower case and without white space. -/
def IsWord (cmd : List Byte) : Prop := cmd ≠ [] ∧ (∀ c ∈ cmd, isspace c = false) ∧ cmd.map tolower = cmd

instance (cmd : List Byte) : Decidable (IsWord cmd) :=
  decidable_of_iff (cmd ≠ [] ∧ cmd.all (!isspace ·) = true ∧ cmd.map tolower = cmd) (by simp [IsWord])

/-- Every byte is one of 256. -/
theorem byte_induction {p : Byte → Prop} (h : ∀ n < 256, p (UInt8.ofNat n)) (c : Byte) : p c := by
  have := h c.toNat c.toNat_lt
  rwa [UInt8.ofNat_toNat] at this

theorem isspace_tolower (c : Byte) : isspace (tolower c) = isspace c := by
  refine byte_induction (p := fun c => isspace (tolower c) = isspace c) ?_ c
  decide +kernel

/-- The two line ends are white space already. -/
theorem line_end_or_isspace : (fun c : Byte => c == 10 || c == 13 || isspace c) = isspace := by
  funext c
  by_cases h10 : c = 10
  · subst h10
    rfl
  · by_cases h13 : c = 13
    · subst h13
      rfl
    · simp [h10, h13]

/-- White space at the end is stripped. -/
theorem rdropWhile_append_of_all {s t : List Byte} (h : ∀ c ∈ t, isspace c = true) :
    (s ++ t).rdropWhile isspace = s.rdropWhile isspace := by
  induction t using List.reverseRecOn with
  | nil => rw [List.append_nil]
  | append_singleton t c ih =>
    rw [← List.append_assoc, List.rdropWhile_concat, if_pos (h c (by simp))]
    exact ih fun d hd => h d (List.mem_append_left _ hd)

/-- A text that reads as a word has no white space at its end. -/
theorem rdropWhile_word {t cmd : List Byte} (hcmd : IsWord cmd) (h : t.map tolower = cmd) :
    t.rdropWhile isspace = t := by
  rw [List.rdropWhile_eq_self_iff]
  intro hne
  have hlast : tolower (t.getLast hne) ∈ cmd := h ▸ List.mem_map_of_mem (List.getLast_mem hne)
  rw [← isspace_tolower, hcmd.2.1 _ hlast]
  decide

/-- **What the walk decides.** -/
theorem isBuiltinCommand_iff {cmd : List Byte} (hcmd : IsWord cmd) (buf : List Byte) :
    isBuiltinCommand buf cmd = true ↔ (strip buf).map tolower = cmd := by
  unfold isBuiltinCommand startsWithNoCase strip
  rw [line_end_or_isspace, hcmd.2.2]
  generalize buf.dropWhile isspace = start
  dsimp only
  constructor
  · intro h
    split_ifs at h with hword
    have hspace : ∀ c ∈ start.drop cmd.length, isspace c = true := by simpa using h
    have hword' : (start.take cmd.length).map tolower = cmd := by simpa using hword
    rw [← List.take_append_drop cmd.length start, rdropWhile_append_of_all hspace, rdropWhile_word hcmd hword', hword']
  · intro h
    have hsplit : start = start.rdropWhile isspace ++ start.rtakeWhile isspace :=
      (List.rdropWhile_append_rtakeWhile ..).symm
    have hlen : (start.rdropWhile isspace).length = cmd.length := by rw [← h, List.length_map]
    have htake : start.take cmd.length = start.rdropWhile isspace := by
      conv_lhs => rw [hsplit, ← hlen]
      exact List.take_left
    have hdrop : start.drop cmd.length = start.rtakeWhile isspace := by
      conv_lhs => rw [hsplit, ← hlen]
      exact List.drop_left
    rw [htake, h, hdrop]
    have hspace : ∀ c ∈ start.rtakeWhile isspace, isspace c = true := fun c => List.mem_rtakeWhile_imp
    simpa using hspace

theorem isWord_exit : IsWord (str "exit") := by decide

theorem isWord_quit : IsWord (str "quit") := by decide

theorem isExitCommand_iff (buf : List Byte) :
    isExitCommand buf = true ↔ (strip buf).map tolower = str "exit" ∨ (strip buf).map tolower = str "quit" := by
  unfold isExitCommand
  rw [Bool.or_eq_true, isBuiltinCommand_iff isWord_exit, isBuiltinCommand_iff isWord_quit]

end TcpClient
