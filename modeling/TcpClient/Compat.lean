import Mathlib.Data.Int.Notation
import Mathlib.Data.List.Basic

/-!
# What the operating system answers

The program meets its environment through a handful of calls: `poll`, `recv`,
`send`, `read`, `write` and `shutdown`. This module has the answers these calls
can give (`PollAns`, `RecvAns`, `SendAns`, …), the error classes of `compat.c`,
and the events a run leaves behind (`Event`), from which what was read, received,
sent and printed is read off.

An answer says what the call would return; a call clips it to what it asked for,
so that no answer hands over more than the buffer holds.
-/

namespace TcpClient

/-- A byte. -/
abbrev Byte := UInt8

/-- The characters of a string literal. -/
def str (s : String) : List Byte := s.toList.map fun c => UInt8.ofNat c.toNat

/-- The two builds of the program. -/
inductive Platform where
  /-- `poll` on both descriptors. -/
  | posix
  /-- `WSAPoll` on the socket, and standard input looked at apart. -/
  | windows
  deriving DecidableEq, Repr

/-! ### Errors -/

/-- The error numbers the program tells apart (`errno`, or `WSAGetLastError`). -/
inductive Errno where
  | eintr | eagain | ewouldblock | einprogress
  | econnrefused | ehostunreach | enetunreach | etimedout
  /-- Any other error. -/
  | other (n : ℕ)
  deriving DecidableEq, Repr

/-- `is_socket_wouldblock`. -/
def isSocketWouldblock : Platform → Errno → Bool
  | .posix, err => err = .eagain || err = .ewouldblock || err = .einprogress
  | .windows, err => err = .ewouldblock || err = .einprogress

/-- `is_socket_refused`. -/
def isSocketRefused (err : Errno) : Bool :=
  err = .econnrefused || err = .ehostunreach || err = .enetunreach

/-- `is_socket_timeout`. -/
def isSocketTimeout (err : Errno) : Bool := err = .etimedout

/-! ### Answers -/

/-- What `poll_sockets` returns: negative, zero, or positive. -/
inductive PollAns where
  | fail (err : Errno)
  | timeout
  | ready
  deriving DecidableEq, Repr

/-- The bits of `events` and `revents` the program looks at. -/
structure Revents where
  pollin : Bool := false
  pollout : Bool := false
  pollhup : Bool := false
  pollerr : Bool := false
  deriving DecidableEq, Repr

/-- `poll` reports a requested event, or a hang-up or error whether requested or not. -/
def Revents.mask (events revents : Revents) : Revents :=
  { revents with pollin := events.pollin && revents.pollin, pollout := events.pollout && revents.pollout }

/-- What `recv` or `read` returns: bytes, none at the end of the stream, or an error. -/
inductive RecvAns where
  | data (bs : List Byte)
  | fail (err : Errno)
  deriving DecidableEq, Repr

/-- The answer to a call with a buffer of `cap` bytes. -/
def RecvAns.clip (cap : ℕ) : RecvAns → RecvAns
  | .data bs => .data (bs.take cap)
  | .fail err => .fail err

/-- What is promised of the bytes that come can be tested, -/
instance RecvAns.decidableData (ans : RecvAns) (p : List Byte → Prop) [DecidablePred p] :
    Decidable (∀ bs, ans = .data bs → p bs) :=
  match ans with
  | .data bs => decidable_of_iff (p bs) ⟨fun h _ heq => RecvAns.data.inj heq ▸ h, fun h => h bs rfl⟩
  | .fail _ => .isTrue fun _ heq => RecvAns.noConfusion heq

/-- and what is promised of the error, -/
instance RecvAns.decidableFail (ans : RecvAns) (p : Errno → Prop) [DecidablePred p] :
    Decidable (∀ err, ans = .fail err → p err) :=
  match ans with
  | .data _ => .isTrue fun _ heq => RecvAns.noConfusion heq
  | .fail err => decidable_of_iff (p err) ⟨fun h _ heq => RecvAns.fail.inj heq ▸ h, fun h => h err rfl⟩

/-- also of that of `poll`. -/
instance PollAns.decidableFail (ans : PollAns) (p : Errno → Prop) [DecidablePred p] :
    Decidable (∀ err, ans = .fail err → p err) :=
  match ans with
  | .fail err => decidable_of_iff (p err) ⟨fun h _ heq => PollAns.fail.inj heq ▸ h, fun h => h err rfl⟩
  | .timeout | .ready => .isTrue fun _ heq => PollAns.noConfusion heq

/-- What `send` or `write` returns: how many bytes it took, or an error. -/
inductive SendAns where
  | accept (n : ℕ)
  | fail (err : Errno)
  deriving DecidableEq, Repr

/-! ### What a run leaves behind -/

/-- What the program did to the world, or was told by it. -/
inductive Event where
  /-- `read` gave these bytes of standard input. -/
  | readStdin (bs : List Byte)
  /-- `read` gave end of file. -/
  | stdinEof
  /-- `recv` gave these bytes. -/
  | recv (bs : List Byte)
  /-- `recv` gave end of stream, or `poll` a hang-up with nothing to read. -/
  | recvEof
  /-- `send` took these bytes. -/
  | send (bs : List Byte)
  /-- `shutdown(sockfd, SHUT_WR)`. -/
  | shutdown
  /-- These bytes were written to standard output. -/
  | stdout (bs : List Byte)
  /-- A call `socket_write_all(sockfd, buf, …)` returned `rc`. -/
  | writeAll (buf : List Byte) (rc : ℤ)
  deriving DecidableEq, Repr

namespace Event

/-- What an event adds to the bytes read from standard input. -/
@[simp] def stdinBytes : Event → List Byte
  | .readStdin bs => bs
  | _ => []

/-- What an event adds to the bytes received. -/
@[simp] def received : Event → List Byte
  | .recv bs => bs
  | _ => []

/-- The result of a receive. -/
@[simp] def recvChunk : Event → List (List Byte)
  | .recv bs => [bs]
  | _ => []

/-- What an event adds to the bytes sent. -/
@[simp] def sent : Event → List Byte
  | .send bs => bs
  | _ => []

/-- A call of `socket_write_all`, and its result. -/
@[simp] def write : Event → List (List Byte × ℤ)
  | .writeAll buf rc => [(buf, rc)]
  | _ => []

/-- What an event adds to the bytes printed. -/
@[simp] def printed : Event → List Byte
  | .stdout bs => bs
  | _ => []

end Event

/-- The bytes read from standard input. -/
def stdinBytes (log : List Event) : List Byte := log.flatMap Event.stdinBytes

/-- The bytes received. -/
def received (log : List Event) : List Byte := log.flatMap Event.received

/-- The results of the receives, one for each. -/
def recvChunks (log : List Event) : List (List Byte) := log.flatMap Event.recvChunk

/-- The bytes sent. -/
def sent (log : List Event) : List Byte := log.flatMap Event.sent

/-- The calls of `socket_write_all`, each with its result. -/
def writes (log : List Event) : List (List Byte × ℤ) := log.flatMap Event.write

/-- The bytes printed. -/
def printed (log : List Event) : List Byte := log.flatMap Event.printed

/-- How often the socket was half-closed. -/
def shutdowns (log : List Event) : ℕ := log.count .shutdown

section Log

variable (log log' : List Event) (ev : Event)

@[simp] theorem stdinBytes_append : stdinBytes (log ++ log') = stdinBytes log ++ stdinBytes log' := by
  simp [stdinBytes]

@[simp] theorem received_append : received (log ++ log') = received log ++ received log' := by
  simp [received]

@[simp] theorem recvChunks_append : recvChunks (log ++ log') = recvChunks log ++ recvChunks log' := by
  simp [recvChunks]

@[simp] theorem sent_append : sent (log ++ log') = sent log ++ sent log' := by simp [sent]

@[simp] theorem writes_append : writes (log ++ log') = writes log ++ writes log' := by simp [writes]

@[simp] theorem printed_append : printed (log ++ log') = printed log ++ printed log' := by simp [printed]

@[simp] theorem shutdowns_append : shutdowns (log ++ log') = shutdowns log + shutdowns log' := by
  simp [shutdowns]

@[simp] theorem stdinBytes_nil : stdinBytes [] = [] := rfl

@[simp] theorem received_nil : received [] = [] := rfl

@[simp] theorem recvChunks_nil : recvChunks [] = [] := rfl

@[simp] theorem sent_nil : sent [] = [] := rfl

@[simp] theorem writes_nil : writes [] = [] := rfl

@[simp] theorem printed_nil : printed [] = [] := rfl

@[simp] theorem shutdowns_nil : shutdowns [] = 0 := rfl

@[simp] theorem stdinBytes_cons : stdinBytes (ev :: log) = ev.stdinBytes ++ stdinBytes log := rfl

@[simp] theorem received_cons : received (ev :: log) = ev.received ++ received log := rfl

@[simp] theorem recvChunks_cons : recvChunks (ev :: log) = ev.recvChunk ++ recvChunks log := rfl

@[simp] theorem sent_cons : sent (ev :: log) = ev.sent ++ sent log := rfl

@[simp] theorem writes_cons : writes (ev :: log) = ev.write ++ writes log := rfl

@[simp] theorem printed_cons : printed (ev :: log) = ev.printed ++ printed log := rfl

@[simp] theorem shutdowns_cons :
    shutdowns (ev :: log) = shutdowns log + if ev = .shutdown then 1 else 0 := by
  simp [shutdowns, List.count_cons]

/-- The bytes received are the results of the receives, one after another. -/
theorem flatten_recvChunks : (recvChunks log).flatten = received log := by
  induction log with
  | nil => rfl
  | cons ev log ih => cases ev <;> simp_all [recvChunks, received]

end Log

/-- `log'` goes on from `log` with events by which nothing is read from standard input and nothing
sent. -/
def Beside (log log' : List Event) : Prop :=
  ∃ evs, log' = log ++ evs ∧ stdinBytes evs = [] ∧ sent evs = [] ∧ writes evs = []

section Beside

variable {log log' : List Event}

theorem Beside.refl (log : List Event) : Beside log log := ⟨[], (List.append_nil log).symm, rfl, rfl, rfl⟩

theorem Beside.stdinBytes (h : Beside log log') : stdinBytes log' = stdinBytes log := by
  obtain ⟨evs, rfl, hstdin, -⟩ := h
  rw [stdinBytes_append, hstdin, List.append_nil]

theorem Beside.sent (h : Beside log log') : sent log' = sent log := by
  obtain ⟨evs, rfl, -, hsent, -⟩ := h
  rw [sent_append, hsent, List.append_nil]

theorem Beside.writes (h : Beside log log') : writes log' = writes log := by
  obtain ⟨evs, rfl, -, -, hwrites⟩ := h
  rw [writes_append, hwrites, List.append_nil]

end Beside

end TcpClient
