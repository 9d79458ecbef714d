import TcpClient.Linenoise.Safety
import TcpClient.Linenoise.HistoryLog
import TcpClient.Lib.StringVec

/-!
# The allocated memory of the line editor

The functions of `linenoise.c` once more, as far as they allocate and free: `history`, `saved_line`
and `cached_completions` are pointers to blocks on the heap here, and every `malloc` and `realloc`
may be denied. `grant` says which are granted; it is asked each time anew. A call that reads, writes
or frees through a pointer to nothing gives `none`.

The line itself is an array of the caller, and what is done to it is taken from
`TcpClient.Linenoise.Editor`: an `Editor` is the `linenoiseState` and the place in an escape
sequence, and its own `savedLine` and `cachedCompletions` stay empty.
-/

namespace TcpClient.Memory

open CString

/-- The static variables that point to allocated memory, with the lengths beside them. -/
structure Mem where
  heap : Heap Block := {}
  history : Option ℕ := none
  historyLen : ℕ := 0
  historyMaxLen : ℕ := 500
  savedLine : Option ℕ := none
  /-- `cached_completions`. -/
  cvec : Option ℕ := none
  clen : ℕ := 0

variable (grant : ℕ → Bool)

/-- `free(p)`. -/
def Mem.free (p : ℕ) (m : Mem) : Option Mem := do return { m with heap := ← m.heap.free p }

/-- `linenoise_strdup(s)`. -/
def linenoiseStrdup (s : CStr) (m : Mem) : Option ℕ × Mem :=
  let (p, heap) := m.heap.malloc grant (.text s)
  (p, { m with heap := heap })

/-- `if (saved_line) { free(saved_line); saved_line = NULL; }` -/
def freeSavedLine (m : Mem) : Option Mem :=
  match m.savedLine with
  | none => some m
  | some p => do return { ← m.free p with savedLine := none }

/-! ### The history -/

/-- The oldest entries are freed, and the others move down. -/
def trim (n : ℕ) (m : Mem) : Option Mem := do
  let heap ← m.heap.freeSlots m.history (m.historyLen - n)
  let slots ← moveDown (← heap.slots m.history) (m.historyLen - n) n
  return { m with heap := ← heap.setSlots m.history slots, historyLen := n }

/-- There are at most `n` entries. -/
def shrink (n : ℕ) (m : Mem) : Option Mem := if n < m.historyLen then trim n m else some m

/-- `linenoiseHistorySetMaxLen(len)`. -/
def linenoiseHistorySetMaxLen (len : ℤ) (m : Mem) : Option (ℤ × Mem) :=
  if len < 1 then some (0, m)
  else if m.history = none then some (1, { m with historyMaxLen := len.toNat })
  else do
    let m ← shrink len.toNat m
    let (p, heap) ← m.heap.reallocSlots grant m.history len.toNat
    -- an array that cannot be resized is kept as it is
    return (1, { m with heap := heap, history := p.or m.history, historyMaxLen := len.toNat })

/-- `strcmp(history[history_len - 1], line) == 0`, when there is an entry. -/
def repeats (line : CStr) (m : Mem) : Option Bool :=
  if m.history ≠ none ∧ 0 < m.historyLen then do
    let last ← m.heap.text (← m.heap.load m.history (m.historyLen - 1))
    return decide (last = line)
  else some false

/-- The copy goes into the history. -/
def addCopy (copy : ℕ) (m : Mem) : Option (ℤ × Mem) :=
  if m.historyMaxLen ≤ m.historyLen then do
    return (1, { m with heap := ← m.heap.shift m.history m.historyMaxLen copy })
  else do
    let (p, heap) ← m.heap.append grant m.history m.historyLen copy
    if p = none then return (0, { m with heap := heap })
    else return (1, { m with heap := heap, history := p, historyLen := m.historyLen + 1 })

/-- `linenoiseHistoryAdd(line)`. -/
def linenoiseHistoryAdd (line : CStr) (m : Mem) : Option (ℤ × Mem) :=
  if line = CStr.empty ∨ m.historyMaxLen = 0 then some (0, m)
  else do
    if ← repeats line m then return (0, m)
    else
      match linenoiseStrdup grant line m with
      | (none, m) => return (0, m)
      | (some copy, m) => addCopy grant copy m

/-- What `linenoiseHistorySave` writes. -/
def linenoiseHistorySave (m : Mem) : Option (List Byte) := do
  let lines ← m.heap.texts m.history m.historyLen
  return lines.flatMap fun line => line.chars ++ [10]

/-- `linenoiseHistoryFree()`. -/
def linenoiseHistoryFree (m : Mem) : Option Mem :=
  match m.history with
  | none => freeSavedLine { m with historyLen := 0 }
  | some p => do
    let heap ← m.heap.freeSlots (some p) m.historyLen
    freeSavedLine { m with heap := ← heap.free p, history := none, historyLen := 0 }

/-! ### The completions -/

/-- `linenoiseAddCompletion(&cached_completions, str)`. -/
def linenoiseAddCompletion (m : Mem) (str : CStr) : Option Mem :=
  match linenoiseStrdup grant str m with
  | (none, m) => some m
  | (some copy, m) => do
    let (p, heap) ← m.heap.append grant m.cvec m.clen copy
    if p = none then return { m with heap := heap }
    else return { m with heap := heap, cvec := p, clen := m.clen + 1 }

/-- `linenoiseFreeCompletions(&cached_completions)`. -/
def linenoiseFreeCompletions (m : Mem) : Option Mem :=
  match m.cvec with
  | none => some { m with clen := 0 }
  | some p => do
    let heap ← m.heap.freeSlots (some p) m.clen
    return { m with heap := ← heap.free p, cvec := none, clen := 0 }

/-- The completion in progress is given up. -/
def endCompletion (l : Editor) (m : Mem) : Option (Mem × Editor) :=
  if l.inCompletion then do
    return (← linenoiseFreeCompletions m, { l with inCompletion := false, completionIdx := 0 })
  else some (m, l)

/-! ### The editor -/

/-- What is done to the line alone. -/
def beside (m : Mem) (r : Option Fed) : Option (Mem × Fed) := r.map fun fed => (m, fed)

/-- `linenoiseEditStart(l, buf, buflen, prompt)`, and what it prints. -/
def linenoiseEditStart (buf prompt : List Byte) (m : Mem) : Option (Mem × Editor × List Byte) := do
  let m ← linenoiseFreeCompletions (← freeSavedLine m)
  return (m, ← TcpClient.linenoiseEditStart { len := m.historyLen } buf prompt)

/-- `linenoiseEditStop(l)`. -/
def linenoiseEditStop (l : Editor) (m : Mem) : Option (Mem × Editor) := do
  let m ← freeSavedLine (← linenoiseFreeCompletions m)
  return (m, TcpClient.linenoiseEditStop l)

/-- The line is saved when the history is entered; what was saved is freed. -/
def saveLine (l : Editor) (m : Mem) : Option Mem :=
  if l.historyIndex = m.historyLen then do
    let m ← freeSavedLine m
    let line ← TcpClient.linenoiseStrdup l.buf
    let (p, m) := linenoiseStrdup grant line m
    return { m with savedLine := p }
  else some m

/-- The entry `history[i]`. -/
def entry (m : Mem) (i : ℕ) : Option CStr := do m.heap.text (← m.heap.load m.history i)

/-- `handle_up`. -/
def handleUp (l : Editor) (m : Mem) : Option (Mem × Fed) :=
  if 0 < m.historyLen ∧ 0 < l.historyIndex then do
    let m ← saveLine grant l m
    let line ← entry m (l.historyIndex - 1)
    beside m (showText line { l with historyIndex := l.historyIndex - 1 })
  else beside m (ignored l)

/-- `saved_line ? saved_line : ""`. -/
def savedText (m : Mem) : Option CStr :=
  match m.savedLine with
  | none => some CStr.empty
  | some p => m.heap.text p

/-- The next entry, and after the last one the saved line. -/
def nextLine (l : Editor) (m : Mem) : Option CStr :=
  if l.historyIndex + 1 = m.historyLen then savedText m else entry m (l.historyIndex + 1)

/-- `handle_down`. -/
def handleDown (l : Editor) (m : Mem) : Option (Mem × Fed) :=
  if 0 < m.historyLen ∧ l.historyIndex < m.historyLen then do
    let line ← nextLine l m
    beside m (showText line { l with historyIndex := l.historyIndex + 1 })
  else beside m (ignored l)

/-- `cached_completions.cvec[l->completion_idx]` is shown. -/
def showCompletion (l : Editor) (m : Mem) : Option (Mem × Fed) := do
  let comp ← m.heap.text (← m.heap.load m.cvec l.completionIdx)
  beside m (showText comp l)

/-- The Tab key. -/
def feedTab (completion : Option CompletionCallback) (l : Editor) (m : Mem) : Option (Mem × Fed) :=
  match completion with
  | none => beside m (ignored l)
  | some callback =>
    if l.inCompletion then
      -- `% cached_completions.len`
      if m.clen = 0 then none else showCompletion { l with completionIdx := (l.completionIdx + 1) % m.clen } m
    else do
      let m ← linenoiseFreeCompletions m
      let line ← TcpClient.linenoiseStrdup l.buf
      let m ← (callback line).foldlM (linenoiseAddCompletion grant) m
      if m.clen = 0 then beside m (ignored l)
      else showCompletion { l with inCompletion := true, completionIdx := 0 } m

/-- `esc_state == ESC_STATE_NORMAL`. -/
def feedNormal (completion : Option CompletionCallback) (c : Byte) (l : Editor) (m : Mem) : Option (Mem × Fed) :=
  if c = 9 then feedTab grant completion l m
  else do
    let (m, l) ← endCompletion l m
    if c = 27 then beside m (ignored { l with escState := .esc })
    else if c = 0 ∨ c = 0xE0 then beside m (ignored { l with escState := .winExt })
    else beside m (feedEditing c l)

/-- The keys that a letter stands for after `ESC [` and `ESC O`. -/
def feedLetter (c : Byte) (l : Editor) (m : Mem) : Option (Mem × Fed) :=
  if c = 65 then handleUp grant l m
  else if c = 66 then handleDown l m
  else if c = 67 then beside m (handleRight l)
  else if c = 68 then beside m (handleLeft l)
  else if c = 72 then beside m (handleHome l)
  else if c = 70 then beside m (handleEnd l)
  else beside m (ignored l)

/-- `esc_state == ESC_STATE_CSI`. -/
def feedCsi (c : Byte) (l : Editor) (m : Mem) : Option (Mem × Fed) :=
  if isDigit c then beside m (ignored { l with csiNum := digit c, escState := .csiNum })
  else feedLetter grant c { l with escState := .normal } m

/-- `esc_state == ESC_STATE_WIN_EXT`. -/
def feedWinExt (c : Byte) (l : Editor) (m : Mem) : Option (Mem × Fed) :=
  let l := { l with escState := .normal }
  if c = 72 then handleUp grant l m
  else if c = 80 then handleDown l m
  else if c = 75 then beside m (handleLeft l)
  else if c = 77 then beside m (handleRight l)
  else if c = 71 then beside m (handleHome l)
  else if c = 79 then beside m (handleEnd l)
  else if c = 83 then beside m (handleDelete l)
  else beside m (ignored l)

/-- `linenoiseEditFeed(l, c)`. -/
def linenoiseEditFeed (completion : Option CompletionCallback) (l : Editor) (m : Mem) (key : Key) :
    Option (Mem × Fed) :=
  if l.buf.length = 0 then beside m (ignored l)
  else
    match key with
    | none => some (m, ⟨-1, l, []⟩)
    | some c =>
      match l.escState with
      | .esc => beside m (feedEsc c l)
      | .csi => feedCsi grant c l m
      | .csiNum => beside m (feedCsiNum c l)
      | .ss3 => feedLetter grant c { l with escState := .normal } m
      | .winExt => feedWinExt grant c l m
      | .normal => feedNormal grant completion c l m

/-! ### Runs -/

/-- The static variables, the editor they belong to, and what the calls returned and printed. -/
structure St where
  mem : Mem := {}
  editor : Editor := { buf := [], prompt := [] }
  results : List (ℤ × List Byte) := []

/-- The calls: the history is bounded, added to, saved and freed; a line is edited from
`linenoiseEditStart` on, in an array of at least one byte, by keys that come one at a time. -/
inductive Op where
  | setMaxLen (len : ℤ)
  | add (line : CStr)
  | save
  | start (buf : {buf : List Byte // 1 ≤ buf.length}) (prompt : List Byte)
  | key (k : Key)
  | stop
  | free

/-- A call that changes the memory alone. -/
def St.call (s : St) (r : Option (ℤ × Mem)) : Option St := do
  let (rc, m) ← r
  return { s with mem := m, results := s.results ++ [(rc, [])] }

/-- A key comes. -/
def key (completion : Option CompletionCallback) (s : St) (k : Key) : Option St := do
  let (m, fed) ← linenoiseEditFeed grant completion s.editor s.mem k
  return ⟨m, fed.editor, s.results ++ [(fed.rc, fed.out)]⟩

/-- One operation. -/
def step (completion : Option CompletionCallback) (s : St) : Op → Option St
  | .setMaxLen len => s.call (linenoiseHistorySetMaxLen grant len s.mem)
  | .add line => s.call (linenoiseHistoryAdd grant line s.mem)
  | .save => do
    let text ← linenoiseHistorySave s.mem
    return { s with results := s.results ++ [(0, text)] }
  | .start buf prompt => do
    let (m, l, out) ← linenoiseEditStart buf.1 prompt s.mem
    return ⟨m, l, s.results ++ [(0, out)]⟩
  | .key k => key grant completion s k
  | .stop => do
    let (m, l) ← linenoiseEditStop s.editor s.mem
    return { s with mem := m, editor := l }
  | .free => do return { s with mem := ← linenoiseHistoryFree s.mem }

/-- Whether a key may come after the call. A line that is edited has its place in the history, and neither
`linenoiseHistorySetMaxLen` nor `linenoiseHistoryFree` moves it when what it points to goes. -/
def Op.editing (editing : Bool) : Op → Bool
  | .start _ _ => true
  | .setMaxLen _ | .free => false
  | _ => editing

/-- Keys come behind `linenoiseEditStart`, with the history neither cut nor freed in between. -/
def inOrder : Bool → List Op → Bool
  | _, [] => true
  | editing, .key _ :: ops => editing && inOrder editing ops
  | editing, op :: ops => inOrder (op.editing editing) ops

/-- The blocks there are pointers to: the saved line, the array of the history and its entries, and
the array of the completions and its strings. -/
def Mem.owned (m : Mem) : Option (List ℕ) := do
  let entries ← (List.range m.historyLen).mapM (m.heap.load m.history)
  let completions ← (List.range m.clen).mapM (m.heap.load m.cvec)
  return m.savedLine.toList ++ (m.history.toList ++ entries ++ (m.cvec.toList ++ completions))

end TcpClient.Memory
