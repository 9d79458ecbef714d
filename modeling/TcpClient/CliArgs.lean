import TcpClient.Compat

/-!
# The configuration

`cli_args.h`: the record the command line is parsed into, and from which both modes
read what they are asked to do.
-/

namespace TcpClient

/-- `client_mode_t`. -/
inductive ClientMode where
  | auto
  | interactive
  | oneshot
  deriving DecidableEq, Repr

/-- `cli_config_t`. The character arrays are the strings in them, `asciiPayload` the first
`ascii_payload_len` bytes of the array. -/
structure CliConfig where
  host : List Byte := []
  port : ℤ := 0
  timeoutMs : ℤ := 5000
  forceInteractive : Bool := false
  verbose : Bool := false
  showHelp : Bool := false
  showVersion : Bool := false
  mode : ClientMode := .auto
  hexPayload : List Byte := []
  isHex : Bool := false
  hexOut : Bool := false
  asciiPayload : List Byte := []
  isAscii : Bool := false
  addTcpLen : Bool := false
  decodeHsm : Bool := false
  hsmHeaderLen : ℤ := 0
  hasTermChar : Bool := false
  termChar : Byte := 0
  deriving DecidableEq, Repr

end TcpClient
