import TcpClient.CliArgs
import TcpClient.HsmFormat
import TcpClient.Lib.Machine

/-!
# One-shot mode

`mode_oneshot.c`: `run_oneshot_mode` sends a payload given on the command line, or
standard input, and prints what the server answers.

The function is a loop around `poll`. It is modelled as a machine
(`TcpClient.Machine`): a state is the variables of the function, a program counter
that says which block of the loop comes next, and the log of what was done so far;
a step runs one block on what the calls in it answer. The two builds run the same
blocks in different orders (`Pc.next`); the blocks that differ say so.

## Honest scope

What is printed on `stderr` is left out, and so is the slice of time the Windows
loop waits for: how long `poll` waits does not restrict what it answers here.
-/

namespace TcpClient.Oneshot

open TcpClient.Frame CString

/-- `ONESHOT_BUF_SIZE`. -/
def bufSize : ℕ := 65536

/-! ### The payload -/

/-- The payload bytes with the terminator of `-T` behind them: under `-L` a payload of
65535 bytes or more gives way to it, and it is left out where the scratch buffer is
full. -/
def appendTerm (cfg : CliConfig) (bytes : List Byte) : List Byte :=
  if cfg.hasTermChar then
    let bytes := if cfg.addTcpLen && 65535 ≤ bytes.length then bytes.take 65534 else bytes
    if bytes.length < bufSize then bytes ++ [cfg.termChar] else bytes
  else bytes

/-- What is put in `send_buf`: under `-L` with the length in front, clamped to what two
bytes can say. -/
def queuePayload (cfg : CliConfig) (bytes : List Byte) : List Byte :=
  if cfg.addTcpLen then frame ((appendTerm cfg bytes).take 65535) else appendTerm cfg bytes

/-- What happens before the loop: an early return, or the payload to send; `none` when
standard input is to be sent. -/
def prepare (cfg : CliConfig) (sockfd : ℤ) : Except ℤ (Option (List Byte)) :=
  if sockfd < 0 then .error 5
  else if cfg.isHex then
    let hex := hexToBytes cfg.hexPayload bufSize
    if hex.rc ≠ 0 then .error 1 else .ok (some (queuePayload cfg (hex.outBuf.take hex.outLen)))
  else if cfg.isAscii then .ok (some (queuePayload cfg (cfg.asciiPayload.take bufSize)))
  else .ok none

/-! ### The state -/

/-- The blocks of the loop. -/
inductive Pc where
  /-- The loop condition and the first `shutdown`. -/
  | loop
  | poll
  /-- Hang-up, error and receive. -/
  | socket
  | stdin
  | send
  /-- The function has returned. -/
  | done (rc : ℤ)
  deriving DecidableEq, Repr

/-- Which block comes after one that falls through. -/
def Pc.next : Platform → Pc → Pc
  | .posix, .socket => .stdin
  | .posix, .stdin => .send
  | .posix, .send => .loop
  | .windows, .socket => .send
  | .windows, .send => .stdin
  | .windows, .stdin => .loop
  | _, pc => pc

/-- The variables of `run_oneshot_mode`, and the log of the run. -/
structure St where
  pc : Pc := .loop
  sendBuf : List Byte := []
  sendBufLen : ℕ := 0
  sendBufPos : ℕ := 0
  stdinEof : Bool := false
  shutdownDone : Bool := false
  socketEof : Bool := false
  /-- `hsm_accum_buf[0 .. hsm_accum_len)`. -/
  hsmAccum : List Byte := []
  /-- `last_activity` (Windows). -/
  lastActivity : UInt64 := 0
  /-- `stdin_idx >= 0`: standard input was polled in this iteration and not read yet. -/
  stdinIdx : Bool := false
  /-- `revents` of standard input and of the socket. -/
  stdinRev : Revents := {}
  sockRev : Revents := {}
  log : List Event := []
  deriving DecidableEq, Repr

/-- What the calls of a block answer; a block looks at those it makes. -/
structure Answer where
  interrupted : Bool := false
  poll : PollAns := .ready
  stdinRev : Revents := {}
  sockRev : Revents := {}
  recv : RecvAns := .data []
  stdin : RecvAns := .data []
  send : SendAns := .accept 0
  malloc : Bool := true
  stdout : List SendAns := []
  /-- `check_stdin_ready()` (Windows). -/
  stdinReady : Bool := false
  /-- `get_time_ms_hires()` (Windows): at the start of the block, and later in it. -/
  now : UInt64 := 0
  later : UInt64 := 0
  deriving DecidableEq, Repr

/-- `return rc`. -/
def St.ret (s : St) (rc : ℤ) : St := { s with pc := .done rc }

/-- The bytes queued and not taken by `send` yet: `send_buf[send_buf_pos .. send_buf_len)`. -/
def St.pending (s : St) : List Byte := (s.sendBuf.drop s.sendBufPos).take (s.sendBufLen - s.sendBufPos)

/-- Whether there is more to send: what the loop asks when the server is gone. -/
def St.unsent (cfg : CliConfig) (s : St) : Bool :=
  0 < s.sendBufLen || (!s.stdinEof && !cfg.isHex && !cfg.isAscii)

/-- The state in which the loop is entered, or has been returned from before. -/
def start (cfg : CliConfig) (sockfd : ℤ) (now : UInt64) : St :=
  match prepare cfg sockfd with
  | .error rc => { pc := .done rc, lastActivity := now }
  | .ok none => { lastActivity := now }
  | .ok (some payload) =>
    { sendBuf := payload, sendBufLen := payload.length, stdinEof := true, lastActivity := now }

/-! ### The blocks -/

/-- `write_all_fd`: after the answers listed the descriptor takes whatever is left. -/
def writeAllFd : List SendAns → List Byte → List Byte → Bool × List Byte
  | _, [], written => (true, written)
  | [], left, written => (true, written ++ left)
  | .accept n :: script, left, written =>
    if n = 0 then (false, written) else writeAllFd script (left.drop n) (written ++ left.take n)
  | .fail err :: script, left, written =>
    if err = .eintr then writeAllFd script left written else (false, written)

/-- `write_all_fd(STDOUT_FILENO, text, …)`, and whether it succeeded. -/
def writeStdout (a : Answer) (text : List Byte) (s : St) : Bool × St :=
  let (ok, written) := writeAllFd a.stdout text []
  (ok, { s with log := s.log ++ [.stdout written] })

/-- The `shutdown` of both sites, when neither `-D` nor `-T` is given. -/
def shutdownWrite (cfg : CliConfig) (log : List Event) : List Event :=
  if !cfg.decodeHsm && !cfg.hasTermChar then log ++ [.shutdown] else log

/-- Everything is sent, and the socket has not been half-closed. -/
def St.mayShutdown (s : St) : Bool := s.stdinEof && s.sendBufLen == 0 && !s.shutdownDone

/-- The HSM report under `-D`. -/
def report (cfg : CliConfig) (a : Answer) (s : St) : St :=
  if cfg.decodeHsm && 0 < s.hsmAccum.length then
    match hsmParseResponse s.hsmAccum (sizeOfInt cfg.hsmHeaderLen) with
    | some resp => (writeStdout a (hsmFormatAnalysis resp s.hsmAccum 4096) s).2
    | none => s
  else s

/-- The code after the loop: the second `shutdown` site, the HSM report, `return 0`. -/
def finish (cfg : CliConfig) (a : Answer) (s : St) : St :=
  (report cfg a (if s.mayShutdown then { s with log := shutdownWrite cfg s.log } else s)).ret 0

/-- The loop condition, and the first `shutdown` site. -/
def loopBlock (cfg : CliConfig) (a : Answer) (s : St) : St :=
  if a.interrupted || s.socketEof then finish cfg a s
  else if s.mayShutdown then { s with shutdownDone := true, log := shutdownWrite cfg s.log, pc := .poll }
  else { s with pc := .poll }

/-- The events asked of the socket. -/
def St.sockEvents (s : St) : Revents := { pollin := !s.socketEof, pollout := 0 < s.sendBufLen }

/-- `timeout_ms`, negative ones replaced. -/
def timeoutMs (cfg : CliConfig) : UInt64 :=
  UInt64.ofNat (if cfg.timeoutMs < 0 then 5000 else cfg.timeoutMs).toNat

/-- `poll` on standard input and the socket (POSIX). -/
def pollPosix (cfg : CliConfig) (a : Answer) (s : St) : St :=
  let stdinIdx := !s.stdinEof && s.sendBufLen == 0
  let sockIdx := 0 < s.sendBufLen || !s.socketEof
  if !stdinIdx && !sockIdx then finish cfg a s
  else
    match a.poll with
    | .fail err => if err = .eintr then { s with pc := .loop } else s.ret 5
    | .timeout => s.ret 4
    | .ready =>
      { s with
        pc := .socket
        stdinIdx := stdinIdx
        stdinRev := if stdinIdx then Revents.mask { pollin := true } a.stdinRev else {}
        sockRev := if sockIdx then s.sockEvents.mask a.sockRev else {} }

/-- The timeout and `WSAPoll` on the socket (Windows). -/
def pollWindows (cfg : CliConfig) (a : Answer) (s : St) : St :=
  if timeoutMs cfg ≤ a.now - s.lastActivity then s.ret 4
  else
    match a.poll with
    | .fail err => if isSocketWouldblock .windows err then { s with pc := .loop } else s.ret 5
    | .timeout =>
      if timeoutMs cfg ≤ a.later - s.lastActivity then s.ret 4 else { s with pc := .socket, sockRev := {} }
    | .ready => { s with pc := .socket, sockRev := s.sockEvents.mask a.sockRev }

def pollBlock (pf : Platform) (cfg : CliConfig) (a : Answer) (s : St) : St :=
  match pf with
  | .posix => pollPosix cfg a s
  | .windows => pollWindows cfg a s

/-- The search for the terminator of `-T`: `to_process`, and `term_found`. -/
def scanTerm (cfg : CliConfig) (recvBuf : List Byte) : ℕ × Bool :=
  if cfg.hasTermChar then
    match recvBuf.findIdx? (· == cfg.termChar) with
    | some i => (i + 1, true)
    | none => (recvBuf.length, false)
  else (recvBuf.length, false)

/-- Whether the buffer holds the frame its first two bytes declare. -/
def frameComplete (accum : List Byte) : Bool :=
  match declared accum with
  | some expectedTotal => expectedTotal ≤ accum.length
  | none => false

/-- The HSM accumulation of `-D`; a chunk for which there is no room is dropped. -/
def accumulate (chunk : List Byte) (s : St) : St :=
  if s.hsmAccum.length + chunk.length ≤ bufSize + 512 then
    { s with
      hsmAccum := s.hsmAccum ++ chunk
      socketEof := s.socketEof || frameComplete (s.hsmAccum ++ chunk) }
  else { s with socketEof := true }

/-- The three ways a chunk is used; `false` when standard output fails. -/
def deliver (cfg : CliConfig) (a : Answer) (chunk : List Byte) (s : St) : Bool × St :=
  if cfg.decodeHsm then (true, accumulate chunk s)
  else if cfg.hexOut then
    if a.malloc then
      match bytesToHex chunk (chunk.length * 3 + 2) true true with
      | some text => writeStdout a (cstr text ++ [10]) s
      | none => (true, s)
    else (true, s)
  else writeStdout a chunk s

/-- `last_activity = get_time_ms_hires()`, in the Windows loop. -/
def St.touch (s : St) (pf : Platform) (a : Answer) : St :=
  match pf with
  | .posix => s
  | .windows => { s with lastActivity := a.later }

/-- `recv` gave some bytes. -/
def receiveData (pf : Platform) (cfg : CliConfig) (a : Answer) (bs : List Byte) (s : St) : St :=
  let (toProcess, termFound) := scanTerm cfg bs
  let s := { s.touch pf a with log := s.log ++ [Event.recv bs] }
  let (ok, s) := deliver cfg a (bs.take toProcess) s
  if ok then { s with socketEof := s.socketEof || termFound, pc := Pc.next pf .socket } else s.ret 5

/-- The server is gone: an error while there is more to send. -/
def serverGone (pf : Platform) (cfg : CliConfig) (s : St) : St :=
  let s := { s with log := s.log ++ [Event.recvEof] }
  if s.unsent cfg then s.ret 5 else { s with socketEof := true, pc := Pc.next pf .socket }

/-- `recv`. -/
def receive (pf : Platform) (cfg : CliConfig) (a : Answer) (s : St) : St :=
  match a.recv.clip bufSize with
  | .data [] => serverGone pf cfg s
  | .data bs => receiveData pf cfg a bs s
  | .fail err => if isSocketWouldblock pf err then { s with pc := Pc.next pf .socket } else s.ret 5

/-- Error, hang-up and receive. -/
def socketBlock (pf : Platform) (cfg : CliConfig) (a : Answer) (s : St) : St :=
  if s.sockRev.pollerr then s.ret 5
  else if s.sockRev.pollhup && !s.sockRev.pollin then serverGone pf cfg s
  else if s.sockRev.pollin then receive pf cfg a s
  else { s with pc := Pc.next pf .socket }

/-- `read` from standard input into `send_buf`. A failing read is an error on POSIX and the
end of the input on Windows. -/
def readStdin (pf : Platform) (a : Answer) (s : St) : St :=
  match a.stdin.clip (bufSize + 512) with
  | .data [] => { s with stdinEof := true, log := s.log ++ [.stdinEof], pc := Pc.next pf .stdin }
  | .data bs =>
    { s.touch pf a with
      sendBuf := bs
      sendBufLen := bs.length
      sendBufPos := 0
      log := s.log ++ [.readStdin bs]
      pc := Pc.next pf .stdin }
  | .fail err =>
    match pf with
    | .posix => if isSocketWouldblock .posix err then { s with pc := Pc.next pf .stdin } else s.ret 5
    | .windows => { s with stdinEof := true, pc := Pc.next pf .stdin }

/-- Whether standard input is read in this iteration. -/
def readsStdin (pf : Platform) (a : Answer) (s : St) : Bool :=
  match pf with
  | .posix => s.stdinIdx && (s.stdinRev.pollin || s.stdinRev.pollhup || s.stdinRev.pollerr)
  | .windows => !s.stdinEof && s.sendBufLen == 0 && a.stdinReady

/-- The block of standard input. `stdin_idx` is not looked at again before the next `poll`. -/
def stdinBlock (pf : Platform) (a : Answer) (s : St) : St :=
  if readsStdin pf a s then readStdin pf a { s with stdinIdx := false }
  else { s with stdinIdx := false, pc := Pc.next pf .stdin }

/-- `send` took `n` bytes. -/
def advance (n : ℕ) (s : St) : St :=
  let s := { s with log := s.log ++ [Event.send ((s.sendBuf.drop s.sendBufPos).take n)] }
  if s.sendBufLen ≤ s.sendBufPos + n then { s with sendBufLen := 0, sendBufPos := 0 }
  else { s with sendBufPos := s.sendBufPos + n }

/-- The block of the socket's output. -/
def sendBlock (pf : Platform) (a : Answer) (s : St) : St :=
  if s.sockRev.pollout && 0 < s.sendBufLen then
    match a.send with
    | .accept n =>
      let nsent := min n (s.sendBufLen - s.sendBufPos)
      if 0 < nsent then { (advance nsent s).touch pf a with pc := Pc.next pf .send }
      else { s with pc := Pc.next pf .send }
    | .fail err => if isSocketWouldblock pf err then { s with pc := Pc.next pf .send } else s.ret 5
  else { s with pc := Pc.next pf .send }

/-- One block. -/
def step (pf : Platform) (cfg : CliConfig) (s : St) (a : Answer) : St :=
  match s.pc with
  | .loop => loopBlock cfg a s
  | .poll => pollBlock pf cfg a s
  | .socket => socketBlock pf cfg a s
  | .stdin => stdinBlock pf a s
  | .send => sendBlock pf a s
  | .done _ => s

end TcpClient.Oneshot
