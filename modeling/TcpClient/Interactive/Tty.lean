import TcpClient.Interactive.Commands
import TcpClient.Linenoise.Safety
import TcpClient.SocketClient

/-!
# Interactive mode on a terminal

The POSIX loop of `run_interactive_tty_mode` in `mode_interactive.c`, from the first
`linenoiseEditStart` on: the keys go to the line editor one by one, a submitted line is
a command or goes to the server, and what the server sends is printed above the line.
What the loop of the other build does in the same way has the platform as a parameter.

A step is a block of the loop, or one turn of the inner loop that takes the keys typed
ahead. A call of the editor that is not defined leads to `Pc.fault`, from which nothing
goes on.

## Honest scope

The notices of `-v` and the error messages on `stderr` are left out, and what is written
to the history file is written whole.
-/

namespace TcpClient.Tty

open CString

/-- `INTERACTIVE_BUF_SIZE`. -/
def bufSize : ℕ := 65536

/-- `"> "`. -/
def prompt : List Byte := str "> "

/-! ### The state -/

/-- The blocks of the loop. -/
inductive Pc where
  /-- The loop condition and `poll`. -/
  | poll
  | socket
  | stdin
  /-- The inner loop over the keys that are there already. -/
  | typeahead
  /-- The function has returned. -/
  | done (rc : ℤ)
  /-- A call of the editor was not defined. -/
  | fault
  deriving DecidableEq, Repr

/-- The variables of `run_interactive_tty_mode`, those of the editor, and the log of the run. -/
structure St where
  pc : Pc := .poll
  history : History
  editor : Editor
  /-- `revents` of standard input and of the socket. -/
  stdinRev : Revents := {}
  sockRev : Revents := {}
  /-- What the history file holds, if there is one. -/
  histFile : Option (List Byte) := none
  /-- The lines for which `linenoiseEditFeed` returned `1`. -/
  submitted : List (List Byte) := []
  log : List Event := []

/-- What the calls of a block answer; a block looks at those it makes. -/
structure Answer where
  /-- `signal_handler_is_interrupted()`, and once more where `poll` was interrupted. -/
  interrupted : Bool := false
  interruptedAgain : Bool := false
  poll : PollAns := .ready
  stdinRev : Revents := {}
  sockRev : Revents := {}
  /-- `poll` and `recv` in `socket_read`. -/
  readPoll : PollAns := .ready
  recv : RecvAns := .data []
  stdin : RecvAns := .data []
  /-- Whether the history file can be opened for writing and for reading. -/
  canSave : Bool := true
  canOpen : Bool := true
  /-- `poll` and `send` in `socket_write_all`. -/
  write : List (PollAns × SendAns) := []

/-- The state in which the loop is entered: `history` was loaded, and `buf` is what `edit_buf`
happens to hold. -/
def start (history : History) (histFile : Option (List Byte)) (buf : List Byte) : Option St := do
  let (l, out) ← linenoiseEditStart history buf prompt
  return { history := history, editor := l, histFile := histFile, log := [.stdout out] }

/-! ### The calls -/

/-- `s`, or a fault. -/
def orFault (s : St) (r : Option St) : St := r.getD { s with pc := .fault }

/-- `linenoiseHistorySave(hist_path)`. -/
def save (a : Answer) (s : St) : Option St := do
  let text ← linenoiseHistorySave s.history
  return { s with histFile := if a.canSave then some text else s.histFile }

/-- `linenoiseHistoryAdd(l->buf); linenoiseHistorySave(hist_path)`. -/
def addAndSave (a : Answer) (s : St) : Option St := do
  let line ← linenoiseStrdup s.editor.buf
  let (_, history) ← linenoiseHistoryAdd line s.history
  save a { s with history := history }

/-- What is printed. -/
def St.print (s : St) (out : List Byte) : St := { s with log := s.log ++ [.stdout out] }

/-- `socket_write_all` was called with `buf`. -/
def St.wrote (s : St) (buf : List Byte) (r : IoResult) : St :=
  { s with log := s.log ++ [.send r.bytes, .writeAll buf r.rc] }

/-- The code from `cleanup` on. -/
def leave (a : Answer) (rc : ℤ) (s : St) : Option St := do
  let s ← save a { s with editor := linenoiseEditStop s.editor }
  let history ← linenoiseHistoryFree s.history
  return { s with history := history, pc := .done rc }

/-- `socket_read(sockfd, sock_buf, sizeof(sock_buf), …)`. -/
def readSocket (pf : Platform) (sockfd : ℤ) (a : Answer) : IoResult :=
  (socketRead pf ⟨fun _ => (a.readPoll, ()), fun _ _ => (a.recv, ())⟩ sockfd bufSize ()).1

/-! ### `handle_interactive_command` -/

/-- `transmit_buf`, of `INTERACTIVE_BUF_SIZE + 2` bytes, after the first `n` bytes of the line and a
line end were put in. -/
def transmitBuf (buf : List Byte) (n : ℕ) : Option (List Byte) :=
  if n ≤ buf.length ∧ n + 1 ≤ bufSize + 2 then some (buf.take n ++ [10]) else none

/-- The line and a line end go to the server, and the line into the history. -/
def transmit (pf : Platform) (sockfd : ℤ) (a : Answer) (s : St) : Option (ℤ × St) := do
  let buf ← transmitBuf s.editor.buf (if bufSize < s.editor.len then bufSize else s.editor.len)
  let r := socketWriteAll pf sockfd a.write buf
  if r.rc < 0 then return (-1, s.wrote buf r) else return (0, ← addAndSave a (s.wrote buf r))

/-- `handle_interactive_command(l, sockfd, config, hist_path)`. -/
def handleInteractiveCommand (pf : Platform) (sockfd : ℤ) (config : Connection) (a : Answer) (s : St) :
    Option (ℤ × St) :=
  let line := cstr s.editor.buf
  if isExitCommand line then some (1, s)
  else if isBuiltinCommand line (str "help") then do
    return (0, ← addAndSave a (s.print printInteractiveHelp))
  else if isBuiltinCommand line (str "clear") then do
    return (0, ← addAndSave a (s.print linenoiseClearScreen))
  else if isBuiltinCommand line (str "status") then do
    return (0, ← addAndSave a (s.print (printInteractiveStatus sockfd config)))
  else if isBuiltinCommand line (str "history") then do
    let s ← addAndSave a s
    return (0, s.print (printInteractiveHistory (if a.canOpen then s.histFile else none)))
  else if 0 < s.editor.len then transmit pf sockfd a s
  else some (0, s)

/-! ### The blocks -/

/-- The loop condition, and `poll`, which waits as long as it takes. -/
def pollBlock (a : Answer) (s : St) : Option St :=
  if a.interrupted then leave a 0 s
  else
    match a.poll with
    | .fail err => if err = .eintr then (if a.interruptedAgain then leave a 0 s else some s) else leave a 5 s
    | .timeout => some { s with pc := .socket, stdinRev := {}, sockRev := {} }
    | .ready =>
      some { s with
        pc := .socket
        stdinRev := Revents.mask { pollin := true } a.stdinRev
        sockRev := Revents.mask { pollin := true } a.sockRev }

/-- `handle_socket_data(sockfd, config, sock_buf, …, l)`: what came is printed above the line. -/
def handleSocketData (pf : Platform) (sockfd : ℤ) (a : Answer) (s : St) : Option (ℤ × St) :=
  let nread := readSocket pf sockfd a
  if 0 < nread.rc then do
    let line ← linenoiseEditRedraw s.editor
    let shown := [13, 27] ++ str "[2K" ++ nread.bytes ++ (if nread.bytes.getLast? = some 10 then [] else [10])
    return (0, { s with log := s.log ++ [.recv nread.bytes, .stdout (shown ++ line)] })
  else if nread.rc = 0 then some (1, s)
  else if nread.rc ≠ socketErrTimeout then some (-1, s)
  else some (0, s)

/-- The block of the keys: they come on standard input, or from the console (Windows). -/
def Pc.keys : Platform → Pc
  | .posix => .stdin
  | .windows => .typeahead

@[simp] theorem Pc.keys_posix : Pc.keys .posix = .stdin := rfl

@[simp] theorem Pc.keys_windows : Pc.keys .windows = .typeahead := rfl

/-- The blocks of the socket. -/
def socketBlock (pf : Platform) (sockfd : ℤ) (a : Answer) (s : St) : Option St :=
  if (s.sockRev.pollhup || s.sockRev.pollerr) && !s.sockRev.pollin then leave a 0 s
  else if s.sockRev.pollin then do
    let (rc, s) ← handleSocketData pf sockfd a s
    if rc = 1 then leave a 0 s else if rc = -1 then leave a 5 s else return { s with pc := .keys pf }
  else some { s with pc := .keys pf }

/-- The line was submitted: it is handled, and the editor started again. -/
def lineBlock (pf : Platform) (sockfd : ℤ) (config : Connection) (a : Answer) (s : St) : Option St := do
  let (rc, s) ← handleInteractiveCommand pf sockfd config a s
  if rc = 1 then leave a 0 s
  else if rc = -1 then leave a 5 s
  else
    let (l, out) ← linenoiseEditStart s.history s.editor.buf prompt
    return { s with editor := l, pc := .poll, log := s.log ++ [.stdout out] }

/-- A key goes to the editor; as long as the line is edited, the keys typed ahead come next. -/
def keyBlock (pf : Platform) (sockfd : ℤ) (config : Connection) (a : Answer) (c : Byte) (s : St) : Option St := do
  let fed ← linenoiseEditFeed (some interactiveCompletionCallback) s.history s.editor (some c)
  let s := { s with editor := fed.editor, log := s.log ++ [.stdout fed.out] }
  if fed.rc = -1 then leave a 0 s
  else if fed.rc = 1 then
    lineBlock pf sockfd config a { s with submitted := s.submitted ++ [s.editor.buf.take s.editor.len] }
  else return { s with pc := .typeahead }

/-- The block of standard input: one key. The end of standard input is the end of the session. -/
def stdinBlock (sockfd : ℤ) (config : Connection) (a : Answer) (s : St) : Option St :=
  if s.stdinRev.pollin || s.stdinRev.pollerr || s.stdinRev.pollhup then
    match a.stdin.clip 1 with
    | .data (c :: _) => keyBlock .posix sockfd config a c { s with log := s.log ++ [.readStdin [c]] }
    | .data [] => leave a 0 { s with log := s.log ++ [.stdinEof] }
    | .fail _ => leave a 0 s
  else some { s with pc := .poll }

/-- The inner loop: one more key, if there is one. -/
def typeaheadBlock (sockfd : ℤ) (config : Connection) (a : Answer) (s : St) : Option St :=
  if a.poll = .ready && a.stdinRev.pollin then
    match a.stdin.clip 1 with
    | .data (c :: _) => keyBlock .posix sockfd config a c { s with log := s.log ++ [.readStdin [c]] }
    | .data [] => some { s with pc := .poll, log := s.log ++ [.stdinEof] }
    | .fail _ => some { s with pc := .poll }
  else some { s with pc := .poll }

/-- One block. -/
def step (sockfd : ℤ) (config : Connection) (s : St) (a : Answer) : St :=
  match s.pc with
  | .poll => orFault s (pollBlock a s)
  | .socket => orFault s (socketBlock .posix sockfd a s)
  | .stdin => orFault s (stdinBlock sockfd config a s)
  | .typeahead => orFault s (typeaheadBlock sockfd config a s)
  | .done _ => s
  | .fault => s

end TcpClient.Tty
