import TcpClient.Linenoise.History

/-!
# The line editor

`linenoiseEditStart`, `linenoiseEditFeed` and `linenoiseEditStop` of `linenoise.c`: an
editor that is fed one byte at a time, and keeps its place in an escape sequence, in
the history and in a completion from one byte to the next.

The memory is the C memory: the line is an array with a terminator, edited in place by
`memmove` and `memcpy`. An access outside an array, and a division by the number of no
completions, give `none`, so that a result is `some` exactly when the C code is
defined. The labels of the source (`handle_up`, …) are functions.

## Honest scope

Allocations succeed. `csi_num` wraps around where the C code would overflow.
-/

namespace TcpClient

open CString

/-- A key: a byte, or `-1` when there is none. -/
abbrev Key := Option Byte

/-- `esc_state_t`. -/
inductive EscState where
  | normal
  | esc
  | csi
  | csiNum
  | ss3
  | winExt
  deriving DecidableEq, Repr

/-- A `linenoiseState`, and the static variables beside it; `buflen` is the length of `buf`, and
`plen` that of the prompt. -/
structure Editor where
  inCompletion : Bool := false
  completionIdx : ℕ := 0
  buf : List Byte
  prompt : List Byte
  pos : ℕ := 0
  len : ℕ := 0
  historyIndex : ℕ := 0
  escState : EscState := .normal
  csiNum : ℤ := 0
  savedLine : Option CStr := none
  cachedCompletions : List CStr := []
  deriving DecidableEq

/-- `linenoiseCompletionCallback`: the completions it adds for a line. -/
abbrev CompletionCallback := CStr → List CStr

/-- What a call leaves behind: its result, the editor, and what it printed. -/
structure Fed where
  rc : ℤ
  editor : Editor
  out : List Byte

/-! ### Printing -/

/-- `linenoiseClearScreen()`. -/
def linenoiseClearScreen : List Byte := [27] ++ str "[H" ++ [27] ++ str "[2J"

/-- `printf("\x1b[%dD", (int)n)`. -/
def cursorBack (n : ℕ) : List Byte := [27] ++ str "[" ++ str (toString ((n : ℤ).bmod (2 ^ 32))) ++ str "D"

/-- `linenoiseEditRedraw(l)`. -/
def linenoiseEditRedraw (l : Editor) : Option (List Byte) :=
  if l.len ≤ l.buf.length then
    some ([13, 27] ++ str "[2K" ++ l.prompt ++ l.buf.take l.len ++ if l.pos < l.len then cursorBack (l.len - l.pos) else [])
  else none

/-- `linenoiseEditRedraw(l); return 0;`. -/
def redrawn (l : Editor) : Option Fed := do
  let out ← linenoiseEditRedraw l
  return ⟨0, l, out⟩

/-- `return 0`, with nothing done. -/
def ignored (l : Editor) : Option Fed := some ⟨0, l, []⟩

/-! ### Starting and stopping -/

/-- `linenoiseEditStart(l, buf, buflen, prompt)`, and what it prints; a `buflen` of `0` is refused. -/
def linenoiseEditStart (h : History) (buf prompt : List Byte) : Option (Editor × List Byte) := do
  let buf ← store buf 0 0
  let l : Editor := { buf := buf, prompt := prompt, historyIndex := h.len }
  let out ← linenoiseEditRedraw l
  return (l, out)

/-- The completion in progress is given up. -/
def endCompletion (l : Editor) : Editor :=
  if l.inCompletion then { l with inCompletion := false, completionIdx := 0, cachedCompletions := [] } else l

/-- `linenoiseEditStop(l)`. -/
def linenoiseEditStop (l : Editor) : Editor :=
  { l with
    inCompletion := false, completionIdx := 0, escState := .normal, csiNum := 0, cachedCompletions := []
    savedLine := none }

/-! ### The labels -/

/-- `linenoise_strdup(buf)`. -/
def linenoiseStrdup (buf : List Byte) : Option CStr := (strlen buf).map fun _ => CStr.ofMem buf

/-- The line becomes `s`, or as much of it as there is room for, with the cursor at its end. -/
def showText (s : CStr) (l : Editor) : Option Fed := do
  let n := if l.buf.length ≤ s.chars.length then l.buf.length - 1 else s.chars.length
  let buf ← memcpy l.buf s.chars n
  let buf ← store buf n 0
  redrawn { l with buf := buf, len := n, pos := n }

/-- What `saved_line` becomes: the line is saved when the history is entered. -/
def saveLine (h : History) (l : Editor) : Option (Option CStr) :=
  if l.historyIndex = h.len then (linenoiseStrdup l.buf).map some else some l.savedLine

/-- `handle_up`: an entry further back. -/
def handleUp (h : History) (l : Editor) : Option Fed :=
  if 0 < h.len ∧ 0 < l.historyIndex then do
    let saved ← saveLine h l
    let line ← h.get (l.historyIndex - 1)
    showText line { l with savedLine := saved, historyIndex := l.historyIndex - 1 }
  else ignored l

/-- The next entry, and after the last one the saved line. -/
def nextLine (h : History) (l : Editor) : Option CStr :=
  if l.historyIndex + 1 = h.len then some (l.savedLine.getD CStr.empty) else h.get (l.historyIndex + 1)

/-- `handle_down`: an entry further on. -/
def handleDown (h : History) (l : Editor) : Option Fed :=
  if 0 < h.len ∧ l.historyIndex < h.len then do
    let line ← nextLine h l
    showText line { l with historyIndex := l.historyIndex + 1 }
  else ignored l

/-- `handle_left`. -/
def handleLeft (l : Editor) : Option Fed :=
  if 0 < l.pos then redrawn { l with pos := l.pos - 1 } else ignored l

/-- `handle_right`. -/
def handleRight (l : Editor) : Option Fed :=
  if l.pos < l.len then redrawn { l with pos := l.pos + 1 } else ignored l

/-- `handle_home`. -/
def handleHome (l : Editor) : Option Fed := redrawn { l with pos := 0 }

/-- `handle_end`. -/
def handleEnd (l : Editor) : Option Fed := redrawn { l with pos := l.len }

/-- `handle_delete`. -/
def handleDelete (l : Editor) : Option Fed :=
  if l.pos < l.len then do
    let buf ← memmove l.buf l.pos (l.pos + 1) (l.len - l.pos)
    redrawn { l with buf := buf, len := l.len - 1 }
  else ignored l

/-! ### Keys outside an escape sequence -/

/-- The Tab key: a completion is begun, or the next one shown. -/
def feedTab (completion : Option CompletionCallback) (l : Editor) : Option Fed :=
  match completion with
  | none => ignored l
  | some callback => do
    if l.inCompletion then
      -- `% cached_completions.len`
      if l.cachedCompletions.length = 0 then none
      else
        let idx := (l.completionIdx + 1) % l.cachedCompletions.length
        let comp ← l.cachedCompletions[idx]?
        showText comp { l with completionIdx := idx }
    else
      let line ← linenoiseStrdup l.buf
      let completions := callback line
      if completions.length = 0 then ignored { l with cachedCompletions := completions }
      else
        let comp ← completions[0]?
        showText comp { l with cachedCompletions := completions, inCompletion := true, completionIdx := 0 }

/-- The Backspace key. -/
def feedBackspace (l : Editor) : Option Fed :=
  if 0 < l.pos then do
    let buf ← memmove l.buf (l.pos - 1) l.pos (l.len - l.pos + 1)
    redrawn { l with buf := buf, pos := l.pos - 1, len := l.len - 1 }
  else ignored l

/-- `\r` and `\n`: the line is submitted. -/
def feedEnter (l : Editor) : Option Fed := do
  let buf ← store l.buf l.len 0
  return ⟨1, { l with buf := buf }, [13, 10]⟩

/-- Ctrl+C. -/
def feedCtrlC (l : Editor) : Option Fed := do
  let buf ← store l.buf 0 0
  return ⟨-1, { l with buf := buf, len := 0, pos := 0 }, str "^C" ++ [13, 10]⟩

/-- Ctrl+U: the whole line goes. -/
def feedCtrlU (l : Editor) : Option Fed := do
  let buf ← store l.buf 0 0
  redrawn { l with buf := buf, len := 0, pos := 0 }

/-- Ctrl+K: the line from the cursor on goes. -/
def feedCtrlK (l : Editor) : Option Fed := do
  let buf ← store l.buf l.pos 0
  redrawn { l with buf := buf, len := l.pos }

/-- Ctrl+L. -/
def feedCtrlL (l : Editor) : Option Fed := do
  let out ← linenoiseEditRedraw l
  return ⟨0, l, linenoiseClearScreen ++ out⟩

/-- The characters from the cursor on, if any, move up by one. -/
def openGap (l : Editor) : Option (List Byte) :=
  if l.pos < l.len then memmove l.buf (l.pos + 1) l.pos (l.len - l.pos) else some l.buf

/-- A character is put in at the cursor, if there is room. -/
def insertChar (c : Byte) (l : Editor) : Option Fed :=
  if l.len < l.buf.length - 1 then do
    let buf ← openGap l
    let buf ← store buf l.pos c
    let buf ← store buf (l.len + 1) 0
    redrawn { l with buf := buf, pos := l.pos + 1, len := l.len + 1 }
  else ignored l

/-- A key that ends a completion. -/
def feedEditing (c : Byte) (l : Editor) : Option Fed :=
  if c = 13 ∨ c = 10 then feedEnter l
  else if c = 8 ∨ c = 127 then feedBackspace l
  else if c = 3 then feedCtrlC l
  else if c = 4 then if l.len = 0 then some ⟨-1, l, []⟩ else handleDelete l
  else if c = 21 then feedCtrlU l
  else if c = 11 then feedCtrlK l
  else if c = 1 then handleHome l
  else if c = 5 then handleEnd l
  else if c = 12 then feedCtrlL l
  else if 32 ≤ c ∧ c ≠ 127 then insertChar c l
  else ignored l

/-- `esc_state == ESC_STATE_NORMAL`. -/
def feedNormal (completion : Option CompletionCallback) (c : Byte) (l : Editor) : Option Fed :=
  if c = 27 then ignored { endCompletion l with escState := .esc }
  else if c = 0 ∨ c = 0xE0 then ignored { endCompletion l with escState := .winExt }
  else if c = 9 then feedTab completion l
  else feedEditing c (endCompletion l)

/-! ### Escape sequences -/

/-- The keys that a letter stands for after `ESC [` and `ESC O`. -/
def feedLetter (h : History) (c : Byte) (l : Editor) : Option Fed :=
  if c = 65 then handleUp h l
  else if c = 66 then handleDown h l
  else if c = 67 then handleRight l
  else if c = 68 then handleLeft l
  else if c = 72 then handleHome l
  else if c = 70 then handleEnd l
  else ignored l

/-- `'0' <= c && c <= '9'`. -/
def isDigit (c : Byte) : Bool := 48 ≤ c && c ≤ 57

/-- The value of a digit. -/
def digit (c : Byte) : ℤ := (c.toNat : ℤ) - 48

/-- `esc_state == ESC_STATE_ESC`. -/
def feedEsc (c : Byte) (l : Editor) : Option Fed :=
  if c = 91 then ignored { l with escState := .csi }
  else if c = 79 then ignored { l with escState := .ss3 }
  else ignored { l with escState := .normal }

/-- `esc_state == ESC_STATE_CSI`. -/
def feedCsi (h : History) (c : Byte) (l : Editor) : Option Fed :=
  -- no letter is a digit, so that it does not matter which is looked for first
  if isDigit c then ignored { l with csiNum := digit c, escState := .csiNum }
  else feedLetter h c { l with escState := .normal }

/-- `esc_state == ESC_STATE_CSI_NUM`. -/
def feedCsiNum (c : Byte) (l : Editor) : Option Fed :=
  if c = 126 then
    let l := { l with escState := .normal }
    if l.csiNum = 3 then handleDelete l
    else if l.csiNum = 1 ∨ l.csiNum = 7 then handleHome l
    else if l.csiNum = 4 ∨ l.csiNum = 8 then handleEnd l
    else ignored l
  else if isDigit c then ignored { l with csiNum := (l.csiNum * 10 + digit c).bmod (2 ^ 32) }
  else ignored { l with escState := .normal }

/-- `esc_state == ESC_STATE_WIN_EXT`: the key codes of the Windows console. -/
def feedWinExt (h : History) (c : Byte) (l : Editor) : Option Fed :=
  let l := { l with escState := .normal }
  if c = 72 then handleUp h l
  else if c = 80 then handleDown h l
  else if c = 75 then handleLeft l
  else if c = 77 then handleRight l
  else if c = 71 then handleHome l
  else if c = 79 then handleEnd l
  else if c = 83 then handleDelete l
  else ignored l

/-- `linenoiseEditFeed(l, c)`. -/
def linenoiseEditFeed (completion : Option CompletionCallback) (h : History) (l : Editor) (key : Key) : Option Fed :=
  if l.buf.length = 0 then ignored l
  else
    match key with
    | none => some ⟨-1, l, []⟩
    | some c =>
      match l.escState with
      | .esc => feedEsc c l
      | .csi => feedCsi h c l
      | .csiNum => feedCsiNum c l
      | .ss3 => feedLetter h c { l with escState := .normal }
      | .winExt => feedWinExt h c l
      | .normal => feedNormal completion c l

end TcpClient
