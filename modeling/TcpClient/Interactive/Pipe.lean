import TcpClient.Interactive.Commands
import TcpClient.SocketClient
import TcpClient.Lib.Machine

/-!
# Interactive mode on piped input

`run_interactive_pipe_mode` of `mode_interactive.c`: standard input is collected into
lines, each line is written to the socket as soon as it is complete, and what the
server answers is printed.

Like the loop of one-shot mode this is a machine: a block of the loop a step, and
the loop over the bytes of a chunk a step for each byte, so that what holds of every
state holds at every store into the line buffer. A store outside the buffer leads
to `Pc.fault`, from which nothing goes on.

## Honest scope

The notices of `-v` and the error messages on `stderr` are left out.
-/

namespace TcpClient.Pipe

open CString

/-- `INTERACTIVE_BUF_SIZE`. -/
def bufSize : ℕ := 65536

/-- `"> "`. -/
def prompt : List Byte := str "> "

/-! ### The state -/

/-- The blocks of the loop. -/
inductive Pc where
  /-- The loop condition and `poll`. -/
  | poll
  | socket
  | stdin
  /-- The loop over a chunk, with the bytes that are left of it. -/
  | scan (rest : List Byte)
  /-- The loop after an exit line. -/
  | drain
  /-- The function has returned. -/
  | done (rc : ℤ)
  /-- A store outside `line_buf`. -/
  | fault
  deriving DecidableEq, Repr

/-- The variables of `run_interactive_pipe_mode`, and the log of the run. -/
structure St where
  pc : Pc := .poll
  /-- `line_buf[0 .. line_len)`. -/
  line : List Byte := []
  /-- `line_cap`, which is `0` as long as `line_buf` is `NULL`. -/
  lineCap : ℕ := 0
  exitRequested : Bool := false
  stdinEof : Bool := false
  /-- `revents` of standard input and of the socket. -/
  stdinRev : Revents := {}
  sockRev : Revents := {}
  log : List Event := []
  deriving DecidableEq, Repr

/-- What the calls of a block answer; a block looks at those it makes. -/
structure Answer where
  /-- `signal_handler_is_interrupted()`, and once more where `poll` was interrupted. -/
  interrupted : Bool := false
  interruptedAgain : Bool := false
  poll : PollAns := .ready
  stdinRev : Revents := {}
  sockRev : Revents := {}
  /-- `poll` and `recv` in `socket_read`. -/
  readPoll : PollAns := .ready
  recv : RecvAns := .data []
  /-- `check_stdin_ready()` (Windows). -/
  stdinReady : Bool := false
  stdin : RecvAns := .data []
  realloc : Bool := true
  /-- `poll` and `send` in `socket_write_all`. -/
  write : List (PollAns × SendAns) := []
  deriving DecidableEq, Repr

/-- `return rc`. -/
def St.ret (s : St) (rc : ℤ) : St := { s with pc := .done rc }

/-- The state in which the loop is entered, or has been returned from before. -/
def start (sockfd : ℤ) : St := if sockfd < 0 then { pc := .done 5 } else { log := [.stdout prompt] }

/-! ### The calls -/

/-- `socket_read(sockfd, sock_buf, sizeof(sock_buf), …)`. -/
def readSocket (pf : Platform) (sockfd : ℤ) (a : Answer) : IoResult :=
  (socketRead pf ⟨fun _ => (a.readPoll, ()), fun _ _ => (a.recv, ())⟩ sockfd bufSize ()).1

/-- `socket_write_all(sockfd, buf, …)`: its result, and the state with what it sent. -/
def writeSocket (pf : Platform) (sockfd : ℤ) (a : Answer) (buf : List Byte) (s : St) : ℤ × St :=
  let r := socketWriteAll pf sockfd a.write buf
  (r.rc, { s with log := s.log ++ [.send r.bytes, .writeAll buf r.rc] })

/-! ### The blocks -/

/-- The end of an iteration. -/
def endIter (s : St) : St := { s with pc := if s.exitRequested then .drain else .poll }

/-- The loop condition, and `poll`. -/
def pollBlock (pf : Platform) (a : Answer) (s : St) : St :=
  if a.interrupted then s.ret 0
  else
    match a.poll with
    | .fail err =>
      match pf with
      | .posix => if err = .eintr then (if a.interruptedAgain then s.ret 0 else s) else s.ret 5
      | .windows => if isSocketWouldblock .windows err then s else s.ret 5
    | .timeout =>
      if s.stdinEof then s.ret 0 else { s with pc := .socket, stdinRev := {}, sockRev := {} }
    | .ready =>
      { s with
        pc := .socket
        stdinRev := if s.stdinEof then {} else Revents.mask { pollin := true } a.stdinRev
        sockRev := Revents.mask { pollin := true } a.sockRev }

/-- The block of the socket. -/
def socketBlock (pf : Platform) (sockfd : ℤ) (a : Answer) (s : St) : St :=
  if s.sockRev.pollin then
    let nread := readSocket pf sockfd a
    if 0 < nread.rc then
      { s with
        pc := .stdin
        log := s.log ++ [.recv nread.bytes, .stdout (nread.bytes ++ if s.stdinEof then [] else prompt)] }
    else if nread.rc = 0 then s.ret 0
    else if nread.rc ≠ socketErrTimeout then s.ret 5
    else { s with pc := .stdin }
  else if s.sockRev.pollhup || s.sockRev.pollerr then s.ret 0
  else { s with pc := .stdin }

/-- The end of standard input: a last line without a line end is sent, unless it is an exit
line. -/
def eofBlock (pf : Platform) (sockfd : ℤ) (a : Answer) (s : St) : St :=
  let s := { s with stdinEof := true }
  if 0 < s.line.length then
    let s := if s.lineCap < s.line.length + 1 && a.realloc then { s with lineCap := s.line.length + 1 } else s
    if s.lineCap = 0 then endIter s
    else if s.line.length < s.lineCap then
      if isExitCommand (cstr s.line) then { s with exitRequested := true }.ret 0
      else endIter { (writeSocket pf sockfd a s.line s).2 with line := [] }
    else { s with pc := .fault }
  else endIter s

/-- Whether standard input is read in this iteration. -/
def readsStdin (pf : Platform) (a : Answer) (s : St) : Bool :=
  match pf with
  | .posix => !s.stdinEof && (s.stdinRev.pollin || s.stdinRev.pollhup || s.stdinRev.pollerr)
  | .windows => !s.stdinEof && a.stdinReady

/-- The block of standard input. A failing read is the end of the input, on POSIX without
the treatment of the last line. -/
def stdinBlock (pf : Platform) (sockfd : ℤ) (a : Answer) (s : St) : St :=
  if readsStdin pf a s then
    match a.stdin.clip bufSize with
    | .data [] => eofBlock pf sockfd a { s with log := s.log ++ [.stdinEof] }
    | .data bs => { s with pc := .scan bs, log := s.log ++ [.readStdin bs] }
    | .fail err =>
      match pf with
      | .posix => if isSocketWouldblock .posix err then endIter s else endIter { s with stdinEof := true }
      | .windows => eofBlock .windows sockfd a s
  else endIter s

/-- The capacity asked for when the line buffer is full. -/
def newCap (s : St) : ℕ :=
  let doubled := if s.lineCap = 0 then 4096 else s.lineCap * 2
  if doubled < s.line.length + 2 then s.line.length + 2 else doubled

/-- A complete line, its end included, is in the buffer. -/
def lineBlock (pf : Platform) (sockfd : ℤ) (a : Answer) (rest : List Byte) (s : St) : St :=
  let (nsent, s') := writeSocket pf sockfd a s.line s
  if isExitCommand (cstr s.line) then endIter { s' with line := [], exitRequested := true }
  else if nsent < 0 then s'.ret 5
  else { s' with line := [], pc := .scan rest }

/-- One byte: the buffer is grown if need be, the byte stored, and at a line end the line is
sent. -/
def byteBlock (pf : Platform) (sockfd : ℤ) (a : Answer) (c : Byte) (rest : List Byte) (s : St) : St :=
  let full := s.lineCap < s.line.length + 2
  if full && !a.realloc then s.ret 5
  else
    let s := if full then { s with lineCap := newCap s } else s
    if s.line.length < s.lineCap then
      let s := { s with line := s.line ++ [c] }
      if c = 10 then
        if s.line.length < s.lineCap then lineBlock pf sockfd a rest s else { s with pc := .fault }
      else { s with pc := .scan rest }
    else { s with pc := .fault }

/-- The loop that prints what still comes after an exit line. -/
def drainBlock (pf : Platform) (sockfd : ℤ) (a : Answer) (s : St) : St :=
  if a.poll = .ready && a.sockRev.pollin then
    let nread := readSocket pf sockfd a
    if 0 < nread.rc then { s with log := s.log ++ [.recv nread.bytes, .stdout nread.bytes] } else s.ret 0
  else s.ret 0

/-- One block. -/
def step (pf : Platform) (sockfd : ℤ) (s : St) (a : Answer) : St :=
  match s.pc with
  | .poll => pollBlock pf a s
  | .socket => socketBlock pf sockfd a s
  | .stdin => stdinBlock pf sockfd a s
  | .scan [] => endIter s
  | .scan (c :: rest) => byteBlock pf sockfd a c rest s
  | .drain => drainBlock pf sockfd a s
  | .done _ => s
  | .fault => s

end TcpClient.Pipe
