import TcpClient.Interactive.Tty

/-!
# Interactive mode on a Windows console

The Windows loop of `run_interactive_tty_mode`: `WSAPoll` waits for the socket alone, for 20 ms at most, and
then the keys that are there are taken from the console, until a line has been submitted or there are no more.
What is done with a key, a line and a packet is the code of the POSIX loop (`TcpClient.Interactive.Tty`), built
for Windows, where the calls on the socket tell other errors apart.

The variables are those of the POSIX loop; `Pc.stdin` does not occur, and `Pc.typeahead` is the loop over the
keys.

## Honest scope

As for the POSIX loop; the history file is seen through a stream in text mode, both when it is written and
when it is read.
-/

namespace TcpClient.WinTty

open CString Tty

/-- What the calls of a block answer; a block looks at those it makes. -/
structure Answer where
  /-- `signal_handler_is_interrupted()`. -/
  interrupted : Bool := false
  /-- `WSAPoll`, and `revents` of the socket. -/
  poll : PollAns := .ready
  sockRev : Revents := {}
  /-- `WSAPoll` and `recv` in `socket_read`. -/
  readPoll : PollAns := .ready
  recv : RecvAns := .data []
  /-- `_kbhit()` and `_getch()`. -/
  kbhit : Bool := false
  getch : Byte := 0
  /-- Whether the history file can be opened for writing and for reading. -/
  canSave : Bool := true
  canOpen : Bool := true
  /-- `WSAPoll` and `send` in `socket_write_all`. -/
  write : List (PollAns × SendAns) := []

/-- The answers to the calls that the code of both loops makes. -/
def Answer.calls (a : Answer) : Tty.Answer :=
  { readPoll := a.readPoll, recv := a.recv, canSave := a.canSave, canOpen := a.canOpen, write := a.write }

/-- The loop condition, and `WSAPoll`; an error that would block is no reason to leave. -/
def pollBlock (a : Answer) (s : St) : Option St :=
  if a.interrupted then leave a.calls 0 s
  else
    match a.poll with
    | .fail err =>
      if isSocketWouldblock .windows err then some { s with pc := .socket, sockRev := {} } else leave a.calls 5 s
    | .timeout => some { s with pc := .socket, sockRev := {} }
    | .ready => some { s with pc := .socket, sockRev := Revents.mask { pollin := true } a.sockRev }

/-- One turn of `while (_kbhit())`. -/
def keysBlock (sockfd : ℤ) (config : Connection) (a : Answer) (s : St) : Option St :=
  if a.kbhit then keyBlock .windows sockfd config a.calls a.getch { s with log := s.log ++ [.readStdin [a.getch]] }
  else some { s with pc := .poll }

/-- One block. -/
def step (sockfd : ℤ) (config : Connection) (s : St) (a : Answer) : St :=
  match s.pc with
  | .poll => orFault s (pollBlock a s)
  | .socket => orFault s (socketBlock .windows sockfd a.calls s)
  | .stdin => s
  | .typeahead => orFault s (keysBlock sockfd config a s)
  | .done _ => s
  | .fault => s

end TcpClient.WinTty
