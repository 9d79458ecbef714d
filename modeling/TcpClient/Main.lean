import TcpClient.Interactive.Pipe
import TcpClient.Interactive.TtyHistory
import TcpClient.Interactive.WinTty
import TcpClient.Oneshot.Model
import TcpClient.ParseCliArgs
import TcpClient.SocketConnect
import TcpClient.TerminalMode

/-!
# The whole program

`main`, and `run_interactive_mode` with what `run_interactive_tty_mode` does before and after its loop: the command
line is parsed, the connection made, one of the modes run, and everything given back. A step is a block of
`main`, or of the mode that runs.

## Honest scope

The help, the version and what is printed on `stderr` are left out. What the files hold is seen when the terminal
session opens its history file. Of `setup_signal_handlers` there is what is about the terminal; that a signal came is
an answer of the calls in the modes.
-/

namespace TcpClient.Main

/-- Where the program is. -/
inductive Phase where
  | start
  | connect (config : CliConfig)
  /-- The connection is made. -/
  | mode (config : CliConfig) (sockfd : ℤ)
  | oneshot (config : CliConfig) (sockfd : ℤ) (s : Oneshot.St)
  | pipe (sockfd : ℤ) (s : Pipe.St)
  | tty (config : CliConfig) (sockfd : ℤ) (s : Tty.St)
  /-- The mode has returned. -/
  | close (sockfd resultCode : ℤ)
  /-- `main` has returned, and the functions registered with `atexit` were called. -/
  | exited (code : ℤ)
  /-- A call was not defined. -/
  | fault

/-- The phase, the terminal, what was done to descriptors, and how often `platform_init` succeeded and
`platform_cleanup` was called. -/
structure St (τ : Type) where
  phase : Phase := .start
  console : Console τ
  socks : List SockEvent := []
  inits : ℕ := 0
  cleanups : ℕ := 0

/-- What the calls of a block answer; a block looks at those it makes. -/
structure Answer where
  /-- `WSAStartup` succeeds (Windows). -/
  wsaStartup : Bool := true
  console : ConsoleAns := {}
  /-- What `getopt_long` finds on the command line. -/
  opts : List Opt := []
  positionals : List CString.CStr := []
  /-- What `getaddrinfo` finds, and the calls for each address. -/
  resolved : Option (List Attempt) := none
  /-- What `getenv` answers. -/
  env : Tty.HomeEnv := {}
  /-- What the file at a path holds, if it can be opened for reading. -/
  files : List Byte → Option (List Byte) := fun _ => none
  /-- What `edit_buf` happens to hold. -/
  editBuf : ℕ → Byte := fun _ => 0
  /-- `get_time_ms_hires()`. -/
  now : UInt64 := 0
  oneshot : Oneshot.Answer := {}
  pipe : Pipe.Answer := {}
  tty : Tty.Answer := {}
  winTty : WinTty.Answer := {}

section Blocks

variable {τ : Type} (pf : Platform) (raw : RawMode τ) (a : Answer)

/-- The fields of the configuration that the terminal session shows. -/
def connectionOf (config : CliConfig) : Connection := ⟨config.host, config.port, config.timeoutMs⟩

/-- `platform_init() == 0`. -/
def platformInit : Bool := pf = .posix || a.wsaStartup

/-- `return code` from `main`. -/
def St.ret (code : ℤ) (s : St τ) : St τ := { s with console := s.console.exit pf a.console, phase := .exited code }

/-- `platform_cleanup()`. -/
def St.cleanup (s : St τ) : St τ := { s with cleanups := s.cleanups + 1 }

/-- `MODE_AUTO` is decided. -/
def chooseMode (stdinIsTty : Bool) (config : CliConfig) : CliConfig :=
  if config.mode = .auto then
    if config.isHex || config.isAscii then { config with mode := .oneshot }
    else { config with mode := if stdinIsTty || config.forceInteractive then .interactive else .oneshot }
  else config

/-- Before the connection. -/
def startBlock (s : St τ) : St τ :=
  if !platformInit pf a then s.ret pf a 5
  else
    let s := { s with inits := s.inits + 1, console := setupSignalHandlers pf a.console s.console }
    match parseCliArgs a.opts a.positionals with
    | .rejected _ => s.cleanup.ret pf a 1
    | .accepted config =>
      if config.showHelp then s.cleanup.ret pf a 0
      else if config.showVersion then s.cleanup.ret pf a 0
      else { s with phase := .connect (chooseMode a.console.isatty config) }

/-- `socket_connect`. -/
def connectBlock (config : CliConfig) (s : St τ) : St τ :=
  let (log, sockfd) := socketConnect pf config.host config.port a.resolved
  let s := { s with socks := s.socks ++ log }
  if sockfd < 0 then s.cleanup.ret pf a (-sockfd) else { s with phase := .mode config sockfd }

/-- What the file at `hist_path` holds; `hist_path` has 1024 bytes. -/
def histFile : Option (List Byte) := (Tty.getInteractiveHistoryPath pf a.env 1024).bind a.files

/-- `run_interactive_tty_mode`, up to its loop; without raw mode it is the pipe mode that runs. -/
def startTty (config : CliConfig) (sockfd : ℤ) (s : St τ) : Option (St τ) := do
  let history ← Tty.loadHistory (histFile pf a)
  let (rc, console) := linenoiseEnableRawMode pf raw a.console s.console
  if rc = -1 then
    let _ ← linenoiseHistoryFree history
    return { s with console := console, phase := .pipe sockfd (Pipe.start sockfd) }
  else
    let loop ← Tty.start history (histFile pf a) ((List.range Tty.bufSize).map a.editBuf)
    return { s with console := console, phase := .tty config sockfd loop }

/-- `run_interactive_mode` or `run_oneshot_mode` is called. -/
def modeBlock (config : CliConfig) (sockfd : ℤ) (s : St τ) : St τ :=
  if config.mode = .interactive then
    if sockfd < 0 then { s with phase := .close sockfd 5 }
    else if !a.console.isatty then { s with phase := .pipe sockfd (Pipe.start sockfd) }
    else (startTty pf raw a config sockfd s).getD { s with phase := .fault }
  else { s with phase := .oneshot config sockfd (Oneshot.start config sockfd a.now) }

/-- A block of `run_oneshot_mode`. -/
def oneshotBlock (config : CliConfig) (sockfd : ℤ) (loop : Oneshot.St) (s : St τ) : St τ :=
  match loop.pc with
  | .done rc => { s with phase := .close sockfd rc }
  | _ => { s with phase := .oneshot config sockfd (Oneshot.step pf config loop a.oneshot) }

/-- A block of `run_interactive_pipe_mode`. -/
def pipeBlock (sockfd : ℤ) (loop : Pipe.St) (s : St τ) : St τ :=
  match loop.pc with
  | .done rc => { s with phase := .close sockfd rc }
  | .fault => { s with phase := .fault }
  | _ => { s with phase := .pipe sockfd (Pipe.step pf sockfd loop a.pipe) }

/-- One block of the loop of this build. -/
def ttyStep (config : CliConfig) (sockfd : ℤ) (loop : Tty.St) : Tty.St :=
  match pf with
  | .posix => Tty.step sockfd (connectionOf config) loop a.tty
  | .windows => WinTty.step sockfd (connectionOf config) loop a.winTty

/-- A block of `run_interactive_tty_mode`; raw mode is left when it returns. -/
def ttyBlock (config : CliConfig) (sockfd : ℤ) (loop : Tty.St) (s : St τ) : St τ :=
  match loop.pc with
  | .done rc => { s with console := linenoiseDisableRawMode pf a.console s.console, phase := .close sockfd rc }
  | .fault => { s with phase := .fault }
  | _ => { s with phase := .tty config sockfd (ttyStep pf a config sockfd loop) }

/-- `socket_close(sockfd)`. -/
def socketClose (sockfd : ℤ) : List SockEvent := if 0 ≤ sockfd then [.close sockfd] else []

/-- The end of `main`. -/
def closeBlock (sockfd resultCode : ℤ) (s : St τ) : St τ :=
  { s with socks := s.socks ++ socketClose sockfd }.cleanup.ret pf a resultCode

/-- One block. -/
def step (s : St τ) (a : Answer) : St τ :=
  match s.phase with
  | .start => startBlock pf a s
  | .connect config => connectBlock pf a config s
  | .mode config sockfd => modeBlock pf raw a config sockfd s
  | .oneshot config sockfd loop => oneshotBlock pf a config sockfd loop s
  | .pipe sockfd loop => pipeBlock pf a sockfd loop s
  | .tty config sockfd loop => ttyBlock pf a config sockfd loop s
  | .close sockfd resultCode => closeBlock pf a sockfd resultCode s
  | .exited _ => s
  | .fault => s

end Blocks

end TcpClient.Main
