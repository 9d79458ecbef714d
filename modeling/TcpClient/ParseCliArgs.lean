import TcpClient.CliArgs
import TcpClient.SocketClient
import TcpClient.Oneshot.Model

/-!
# The command line

`cli_args.c`: `parse_cli_args` reads the options one by one, then what is left as host and
port, and checks that both are there. What `getopt_long` delivers is its input: a list of
options, each with its argument, and the list of the positionals. An option may come
more than once; the last one counts. Every option either changes the configuration or makes the
function return, so the loop is a `foldlM` in `Except ParseResult`, where an error is a `return`.

## What is proved

* `InRange` — what each option and each positional keeps (`parseOption_inRange`,
  `parsePositional_inRange`), hence the whole run (`parseCliArgs_inRange`).
* `accepted_never_rejected` — with a configuration that was accepted, the checks and the clamps
  of `socket_connect` and of `run_oneshot_mode` never act.
-/

namespace TcpClient

open CString Machine

/-! ### Numbers -/

/-- `LONG_MIN`, `LONG_MAX`, `INT_MIN`, `INT_MAX`. Where `long` has 32 bits `parse_int` gives the
same. -/
def longMin : ℤ := -2 ^ 63
def longMax : ℤ := 2 ^ 63 - 1
def intMin : ℤ := -2 ^ 31
def intMax : ℤ := 2 ^ 31 - 1

/-- What `strtol(str, &endptr, 10)` gives: its value, whether it sets `errno`, and the text at
`endptr`. -/
structure StrtolResult where
  val : ℤ
  erange : Bool
  endptr : List Byte
  deriving DecidableEq, Repr

/-- The number some digits spell. -/
def digitsValue (digits : List Byte) : ℤ := digits.foldl (fun n c => n * 10 + (c.toNat - 48 : ℕ)) 0

/-- `strtol`: blanks, a sign, and digits; without a digit nothing is read. -/
def strtol (text : List Byte) : StrtolResult :=
  let (negative, digits) :=
    match text.dropWhile isspace with
    | 45 :: digits => (true, digits)
    | 43 :: digits => (false, digits)
    | digits => (false, digits)
  let value := digitsValue (digits.takeWhile isdigit)
  let val := if negative then -value else value
  let endptr := digits.dropWhile isdigit
  if digits.takeWhile isdigit = [] then ⟨0, false, text⟩
  else if val < longMin then ⟨longMin, true, endptr⟩
  else if longMax < val then ⟨longMax, true, endptr⟩
  else ⟨val, false, endptr⟩

/-- `parse_int(str, &out_val)`: the value, `none` for `false`. -/
def parseInt (text : List Byte) : Option ℤ :=
  if text = [] then none
  else
    let r := strtol text
    if r.erange || r.endptr ≠ [] then none
    else if r.val < intMin ∨ intMax < r.val then none
    else some r.val

/-! ### The options -/

/-- What a call of `getopt_long` delivers: an option with `optarg`, or the `?` of an option it does
not know or that lacks its argument, with `optopt`. -/
inductive Opt where
  | host (optarg : CStr)
  | port (optarg : CStr)
  | timeout (optarg : CStr)
  | hex (optarg : CStr)
  | hexOut
  | ascii (optarg : CStr)
  | term (optarg : CStr)
  | addTcpLen
  | decodeHsm
  | hsmHeaderLen (optarg : CStr)
  | interactive
  | verbose
  | help
  | version
  | bad (optopt : ℕ)
  /-- Any other value. -/
  | other
  deriving DecidableEq

/-- How `parse_cli_args` returns: `0` with the configuration, or `1` with what it wrote to
standard error. -/
inductive ParseResult where
  | accepted (config : CliConfig)
  | rejected (stderr : List Byte)
  deriving DecidableEq

/-- What `parse_cli_args` returns. -/
def ParseResult.rc : ParseResult → ℤ
  | .accepted _ => 0
  | .rejected _ => 1

@[simp] theorem rc_accepted (config : CliConfig) : (ParseResult.accepted config).rc = 0 := rfl

@[simp] theorem rc_rejected (stderr : List Byte) : (ParseResult.rejected stderr).rc = 1 := rfl

/-- The string `strncpy(dst, s, size - 1)` and a terminator in the last place leave in an array of
`size` characters. -/
def copyString (size : ℕ) (s : CStr) : List Byte := s.chars.take (size - 1)

/-- A number as an argument, refused with `message` where it is none or `invalid`. -/
def numberArg (arg : CStr) (invalid : ℤ → Bool) (message : List Byte) : Except ParseResult ℤ :=
  match parseInt arg.chars with
  | none => .error (.rejected message)
  | some val => if invalid val then .error (.rejected message) else .ok val

/-- The host, of `-h` or the first positional. -/
def setHost (config : CliConfig) (arg : CStr) : Except ParseResult CliConfig :=
  if 256 ≤ arg.chars.length then
    .error (.rejected (str "Error: Host string too long (max 255 characters)\n"))
  else .ok { config with host := copyString 256 arg }

/-- The port, of `-p` or the second positional. -/
def setPort (config : CliConfig) (arg : CStr) : Except ParseResult CliConfig := do
  let portVal ← numberArg arg (fun val => val < 1 || 65535 < val)
    (str "Error: Invalid port number '" ++ arg.chars ++
      str "'. Port must be an integer between 1 and 65535.\n")
  return { config with port := portVal }

def setTimeout (config : CliConfig) (arg : CStr) : Except ParseResult CliConfig := do
  let timeoutVal ← numberArg arg (fun val => val < 0)
    (str "Error: Invalid timeout value '" ++ arg.chars ++
      str "'. Timeout must be a non-negative integer.\n")
  return { config with timeoutMs := timeoutVal }

def setHsmHeaderLen (config : CliConfig) (arg : CStr) : Except ParseResult CliConfig := do
  let lenVal ← numberArg arg (fun val => val < 0 || 64 < val)
    (str "Error: Invalid HSM header length '" ++ arg.chars ++
      str "'. Must be an integer between 0 and 64.\n")
  return { config with hsmHeaderLen := lenVal }

/-- `-x`: the text is kept, once it is known to be hex. -/
def setHex (config : CliConfig) (arg : CStr) : Except ParseResult CliConfig :=
  if 65536 ≤ arg.chars.length then
    .error (.rejected (str "Error: HEX payload too long (max 65535 characters)\n"))
  else if (hexToBytes arg.chars 65536).rc ≠ 0 then
    .error (.rejected (str "Error: Invalid HEX string format '" ++ arg.chars ++
      str "'. Ensure even length and valid hex characters (0-9, a-f, A-F).\n"))
  else .ok { config with hexPayload := copyString 65536 arg, isHex := true }

/-- `-a`: the bytes are kept. -/
def setAscii (config : CliConfig) (arg : CStr) : Except ParseResult CliConfig :=
  let r := unescapeString arg.chars 65536
  if r.rc ≠ 0 then
    .error (.rejected (str "Error: Invalid escape sequence in ASCII payload '" ++ arg.chars ++
      str "'. Ensure \\x is followed by two valid hex characters.\n"))
  else .ok { config with asciiPayload := r.outBuf.take (r.outLen.getD 0), isAscii := true }

/-- `-T`. -/
def setTerm (config : CliConfig) (arg : CStr) : Except ParseResult CliConfig :=
  match parseHexByte arg.chars with
  | none =>
    .error (.rejected (str "Error: Invalid termination character '" ++ arg.chars ++
      str "'. Must be a 1-byte HEX value (e.g. '19' or '0x19').\n"))
  | some termChar => .ok { config with termChar := termChar, hasTermChar := true }

/-- What is said of an option that `getopt_long` did not accept. -/
def badOption (optopt : ℕ) : List Byte :=
  if optopt ∈ [104, 112, 116, 120, 97, 84] then
    str "Error: Option '-" ++ [UInt8.ofNat optopt] ++ str "' requires an argument.\n"
  else str "Error: Unrecognized option or invalid argument.\n"

/-- The body of the loop. -/
def parseOption (config : CliConfig) : Opt → Except ParseResult CliConfig
  | .host optarg => setHost config optarg
  | .port optarg => setPort config optarg
  | .timeout optarg => setTimeout config optarg
  | .hex optarg => setHex config optarg
  | .hexOut => .ok { config with hexOut := true }
  | .ascii optarg => setAscii config optarg
  | .term optarg => setTerm config optarg
  | .addTcpLen => .ok { config with addTcpLen := true }
  | .decodeHsm => .ok { config with decodeHsm := true }
  | .hsmHeaderLen optarg => setHsmHeaderLen config optarg
  | .interactive => .ok { config with forceInteractive := true, mode := .interactive }
  | .verbose => .ok { config with verbose := true }
  | .help => .error (.accepted { config with showHelp := true })
  | .version => .error (.accepted { config with showVersion := true })
  | .bad optopt => .error (.rejected (badOption optopt))
  | .other => .error (.rejected [])

/-- A positional is the host, then the port, where the options left them open. -/
def parsePositional (config : CliConfig) (arg : CStr) : Except ParseResult CliConfig :=
  if config.host = [] then setHost config arg
  else if config.port = 0 then setPort config arg
  else .error (.rejected (str "Error: Unexpected argument '" ++ arg.chars ++ str "'\n"))

/-- The end of `parse_cli_args`: host and port must be given. -/
def checkRequired (config : CliConfig) : ParseResult :=
  if config.showHelp || config.showVersion then .accepted config
  else if config.host = [] then .rejected (str "Error: Host parameter is required.\n")
  else if config.port = 0 then .rejected (str "Error: Port parameter is required.\n")
  else .accepted config

/-- `parse_cli_args`, on the options and the positionals `getopt_long` finds. -/
def parseCliArgs (opts : List Opt) (positionals : List CStr) : ParseResult :=
  match opts.foldlM parseOption {} with
  | .error result => result
  | .ok config =>
    match positionals.foldlM parsePositional config with
    | .error result => result
    | .ok config => checkRequired config

/-! ### What every option keeps -/

/-- The bounds a configuration keeps while it is built. -/
structure InRange (config : CliConfig) : Prop where
  host : config.host.length ≤ 255 ∧ 0 ∉ config.host
  port : config.port = 0 ∨ 1 ≤ config.port ∧ config.port ≤ 65535
  timeoutMs : 0 ≤ config.timeoutMs
  hsmHeaderLen : 0 ≤ config.hsmHeaderLen ∧ config.hsmHeaderLen ≤ 64
  asciiPayload : config.asciiPayload.length ≤ 65536
  hexPayload : config.isHex = true →
    (hexToBytes config.hexPayload 65536).rc = 0 ∧ config.hexPayload.length ≤ 65535

theorem inRange_default : InRange {} := by
  refine ⟨⟨Nat.zero_le _, List.not_mem_nil⟩, .inl rfl, ?_, ?_, Nat.zero_le _, ?_⟩
  · show (0 : ℤ) ≤ 5000
    decide
  · exact ⟨le_rfl, by decide⟩
  · intro hhex
    exact absurd hhex (by decide)

section Options

variable {config config' : CliConfig} {arg : CStr}

/-- A string that fits is copied whole. -/
theorem copyString_of_lt {size : ℕ} (h : arg.chars.length < size) : copyString size arg = arg.chars :=
  List.take_of_length_le (by omega)

/-- A number is refused, or it passed its check. -/
theorem numberArg_cases (arg : CStr) (invalid : ℤ → Bool) (message : List Byte) :
    numberArg arg invalid message = .error (.rejected message) ∨
      ∃ val, invalid val = false ∧ numberArg arg invalid message = .ok val := by
  rw [numberArg]
  cases parseInt arg.chars with
  | none => exact .inl rfl
  | some val =>
    cases hinvalid : invalid val with
    | true => exact .inl (if_pos hinvalid)
    | false => exact .inr ⟨val, hinvalid, if_neg (by rw [hinvalid]; decide)⟩

section Number

variable {invalid : ℤ → Bool} {message : List Byte} {set : ℤ → CliConfig}

/-- An option with a number stores one that passed its check. -/
theorem bind_numberArg_ok
    (h : (do let val ← numberArg arg invalid message; return set val : Except ParseResult CliConfig) = .ok config') :
    ∃ val, invalid val = false ∧ config' = set val := by
  rcases numberArg_cases arg invalid message with hrefused | ⟨val, hval, hread⟩
  · rw [hrefused] at h
    cases h
  · rw [hread] at h
    cases h
    exact ⟨val, hval, rfl⟩

/-- A number refused makes the function return `1`. -/
theorem bind_numberArg_error {result : ParseResult}
    (h : (do let val ← numberArg arg invalid message; return set val : Except ParseResult CliConfig) = .error result) :
    result.rc = 1 := by
  rcases numberArg_cases arg invalid message with hrefused | ⟨val, -, hread⟩
  · rw [hrefused] at h
    cases h
    rfl
  · rw [hread] at h
    cases h

end Number

theorem setHost_inRange (hw : InRange config) (h : setHost config arg = .ok config') : InRange config' := by
  rw [setHost] at h
  split_ifs at h with hlong
  cases h
  refine { hw with host := ?_ }
  rw [copyString_of_lt (not_le.mp hlong)]
  exact ⟨Nat.le_of_lt_succ (not_le.mp hlong), arg.nul_free⟩

theorem setPort_inRange (hw : InRange config) (h : setPort config arg = .ok config') : InRange config' := by
  obtain ⟨val, hval, rfl⟩ := bind_numberArg_ok h
  rw [Bool.or_eq_false_iff, decide_eq_false_iff_not, decide_eq_false_iff_not] at hval
  exact { hw with port := .inr ⟨not_lt.mp hval.1, not_lt.mp hval.2⟩ }

theorem setTimeout_inRange (hw : InRange config) (h : setTimeout config arg = .ok config') : InRange config' := by
  obtain ⟨val, hval, rfl⟩ := bind_numberArg_ok h
  rw [decide_eq_false_iff_not] at hval
  exact { hw with timeoutMs := not_lt.mp hval }

theorem setHsmHeaderLen_inRange (hw : InRange config) (h : setHsmHeaderLen config arg = .ok config') :
    InRange config' := by
  obtain ⟨val, hval, rfl⟩ := bind_numberArg_ok h
  rw [Bool.or_eq_false_iff, decide_eq_false_iff_not, decide_eq_false_iff_not] at hval
  exact { hw with hsmHeaderLen := ⟨not_lt.mp hval.1, not_lt.mp hval.2⟩ }

/-- The text that was checked is the text that is kept. -/
theorem setHex_inRange (hw : InRange config) (h : setHex config arg = .ok config') : InRange config' := by
  rw [setHex] at h
  split_ifs at h with hlong hrc
  cases h
  refine { hw with hexPayload := fun _ => ?_ }
  rw [copyString_of_lt (not_le.mp hlong)]
  exact ⟨not_not.mp hrc, Nat.le_of_lt_succ (not_le.mp hlong)⟩

theorem setAscii_inRange (hw : InRange config) (h : setAscii config arg = .ok config') : InRange config' := by
  rw [setAscii] at h
  split_ifs at h with hrc
  cases h
  obtain ⟨-, hroom⟩ := unescapeString_ok (not_not.mp hrc)
  exact { hw with asciiPayload := (List.length_take_le' _ _).trans hroom }

theorem setTerm_inRange (hw : InRange config) (h : setTerm config arg = .ok config') : InRange config' := by
  rw [setTerm] at h
  split at h
  · cases h
  · cases h
    exact { hw with }

/-- **One option.** -/
theorem parseOption_inRange {opt : Opt} (hw : InRange config) (h : parseOption config opt = .ok config') :
    InRange config' := by
  cases opt with
  | host optarg => exact setHost_inRange hw h
  | port optarg => exact setPort_inRange hw h
  | timeout optarg => exact setTimeout_inRange hw h
  | hex optarg => exact setHex_inRange hw h
  | ascii optarg => exact setAscii_inRange hw h
  | term optarg => exact setTerm_inRange hw h
  | hsmHeaderLen optarg => exact setHsmHeaderLen_inRange hw h
  | hexOut | addTcpLen | decodeHsm | interactive | verbose =>
    cases h
    exact { hw with }
  | help | version | bad optopt | other => cases h

/-- **One positional.** -/
theorem parsePositional_inRange (hw : InRange config) (h : parsePositional config arg = .ok config') :
    InRange config' := by
  rw [parsePositional] at h
  split_ifs at h
  · exact setHost_inRange hw h
  · exact setPort_inRange hw h

/-! ### Early returns -/

variable {result : ParseResult}

theorem setHost_error (h : setHost config arg = .error result) : result.rc = 1 := by
  rw [setHost] at h
  split_ifs at h
  cases h
  rfl

theorem setHex_error (h : setHex config arg = .error result) : result.rc = 1 := by
  rw [setHex] at h
  split_ifs at h
  · cases h
    rfl
  · cases h
    rfl

theorem setAscii_error (h : setAscii config arg = .error result) : result.rc = 1 := by
  rw [setAscii] at h
  split_ifs at h
  cases h
  rfl

theorem setTerm_error (h : setTerm config arg = .error result) : result.rc = 1 := by
  rw [setTerm] at h
  split at h
  · cases h
    rfl
  · cases h

/-- An option other than help and version makes the function return `1`, if it makes it return at all. -/
theorem parseOption_error {opt : Opt} (hhelp : opt ≠ .help) (hversion : opt ≠ .version)
    (h : parseOption config opt = .error result) : result.rc = 1 := by
  cases opt with
  | host optarg => exact setHost_error h
  | port optarg | timeout optarg | hsmHeaderLen optarg => exact bind_numberArg_error h
  | hex optarg => exact setHex_error h
  | ascii optarg => exact setAscii_error h
  | term optarg => exact setTerm_error h
  | help => exact absurd rfl hhelp
  | version => exact absurd rfl hversion
  | hexOut | addTcpLen | decodeHsm | interactive | verbose => cases h
  | bad optopt | other =>
    cases h
    rfl

/-- **Among the options only help and version make the function return `0`.** -/
theorem parseOption_accepted {opt : Opt} (h : parseOption config opt = .error (.accepted config')) :
    config'.showHelp = true ∨ config'.showVersion = true := by
  by_cases hhelp : opt = .help
  · subst hhelp
    cases h
    exact .inl rfl
  · by_cases hversion : opt = .version
    · subst hversion
      cases h
      exact .inr rfl
    · exact absurd (parseOption_error hhelp hversion h) (by simp)

/-- A positional never makes the function return `0`. -/
theorem parsePositional_error (h : parsePositional config arg = .error result) : result.rc = 1 := by
  rw [parsePositional] at h
  split_ifs at h
  · exact setHost_error h
  · exact bind_numberArg_error h
  · cases h
    rfl

end Options

/-! ### The whole command line -/

variable {opts : List Opt} {positionals : List CStr} {config : CliConfig}

/-- A command line accepted without help or version went through both loops and has host and port. -/
theorem parseCliArgs_accepted (h : parseCliArgs opts positionals = .accepted config)
    (hhelp : config.showHelp = false) (hversion : config.showVersion = false) :
    ∃ config', opts.foldlM parseOption {} = .ok config' ∧ positionals.foldlM parsePositional config' = .ok config ∧
      config.host ≠ [] ∧ config.port ≠ 0 := by
  have hnone : ¬ (config.showHelp = true ∨ config.showVersion = true) := by
    rw [hhelp, hversion]
    decide
  rw [parseCliArgs] at h
  cases hopts : opts.foldlM parseOption {} with
  | error result =>
    rw [hopts] at h
    subst h
    obtain ⟨config', opt, -, hreturn⟩ := foldlM_error hopts
    exact absurd (parseOption_accepted hreturn) hnone
  | ok config' =>
    rw [hopts] at h
    dsimp only at h
    cases hpos : positionals.foldlM parsePositional config' with
    | error result =>
      rw [hpos] at h
      subst h
      obtain ⟨config'', arg, -, hreturn⟩ := foldlM_error hpos
      exact absurd (parsePositional_error hreturn) (by simp)
    | ok config'' =>
      rw [hpos] at h
      dsimp only [checkRequired] at h
      split_ifs at h with hshow hhost hport
      · cases h
        exact absurd ((Bool.or_eq_true _ _).mp hshow) hnone
      · cases h
        exact ⟨config', rfl, hpos, hhost, hport⟩

/-- **What a command line that is accepted is parsed into.** -/
theorem parseCliArgs_inRange (h : parseCliArgs opts positionals = .accepted config)
    (hhelp : config.showHelp = false) (hversion : config.showVersion = false) :
    InRange config ∧ config.host ≠ [] ∧ config.port ≠ 0 := by
  obtain ⟨config', hopts, hpos, hhost, hport⟩ := parseCliArgs_accepted h hhelp hversion
  have hw : InRange config' := foldlM_ok_invariant (fun _ _ _ => parseOption_inRange) inRange_default hopts
  exact ⟨foldlM_ok_invariant (fun _ _ _ => parsePositional_inRange) hw hpos, hhost, hport⟩

/-! ### Nothing left to reject -/

/-- The configuration `parse_cli_args` promises. -/
structure Accepted (config : CliConfig) : Prop where
  host : 1 ≤ config.host.length ∧ config.host.length ≤ 255 ∧ 0 ∉ config.host
  port : 1 ≤ config.port ∧ config.port ≤ 65535
  timeoutMs : 0 ≤ config.timeoutMs
  hsmHeaderLen : 0 ≤ config.hsmHeaderLen ∧ config.hsmHeaderLen ≤ 64
  asciiPayload : config.asciiPayload.length ≤ 65536
  hexPayload : config.isHex = true →
    (hexToBytes config.hexPayload 65536).rc = 0 ∧ (hexToBytes config.hexPayload 65536).outLen ≤ 32767

/-- The bytes of `-x` as `run_oneshot_mode` decodes them. -/
def hexBytes (config : CliConfig) : List Byte :=
  (hexToBytes config.hexPayload Oneshot.bufSize).outBuf.take (hexToBytes config.hexPayload Oneshot.bufSize).outLen

/-- No rejection and no clamp downstream acts on the configuration. -/
structure NeverRejected (config : CliConfig) : Prop where
  /-- `socket_connect` goes on to resolve the host. -/
  connect : socketConnectCheck config.host config.port = none
  /-- No timeout is replaced by the default. -/
  timeout : ¬ config.timeoutMs < 0
  /-- `run_oneshot_mode` does not return `1` for invalid hex. -/
  invalidHex : ∀ sockfd, Oneshot.prepare config sockfd ≠ .error 1
  /-- `ascii_len` is not clamped. -/
  asciiLen : ¬ Oneshot.bufSize < config.asciiPayload.length
  /-- Under `-L`, `hex_len` does not give way to the terminator. -/
  hexGivesWay : config.isHex = true → ¬ (config.addTcpLen = true ∧ 65535 ≤ (hexBytes config).length)
  /-- The scratch buffer has room for the terminator. -/
  hexRoom : config.isHex = true → (hexBytes config).length < Oneshot.bufSize
  /-- `hex_len`, the terminator included, is not clamped to what two bytes can say. -/
  hexLen : config.isHex = true → ¬ 65535 < (Oneshot.appendTerm config (hexBytes config)).length

theorem InRange.accepted (hw : InRange config) (hhost : config.host ≠ []) (hport : config.port ≠ 0) :
    Accepted config := by
  refine ⟨⟨List.length_pos_iff.mpr hhost, hw.host⟩, hw.port.resolve_left hport, hw.timeoutMs, hw.hsmHeaderLen,
    hw.asciiPayload, ?_⟩
  intro hhex
  obtain ⟨hrc, hlen⟩ := hw.hexPayload hhex
  obtain ⟨hout, hhalf⟩ := hexToBytes_ok hrc
  exact ⟨hrc, by omega⟩

/-- The terminator adds at most a byte. -/
theorem length_appendTerm_le (config : CliConfig) (bytes : List Byte) :
    (Oneshot.appendTerm config bytes).length ≤ bytes.length + 1 := by
  have htake : (bytes.take 65534).length ≤ bytes.length := List.length_take_le' _ _
  rw [Oneshot.appendTerm]
  dsimp only
  split_ifs
  · rw [List.length_append, List.length_singleton]
    omega
  · omega
  · rw [List.length_append, List.length_singleton]
  · omega
  · omega

theorem Accepted.length_hexBytes (ha : Accepted config) (hhex : config.isHex = true) :
    (hexBytes config).length ≤ 32767 :=
  (List.length_take_le _ _).trans (ha.hexPayload hhex).2

theorem Accepted.neverRejected (ha : Accepted config) : NeverRejected config := by
  have hbytes := ha.length_hexBytes
  refine ⟨?_, not_lt.mpr ha.timeoutMs, ?_, not_lt.mpr ha.asciiPayload, ?_, ?_, ?_⟩
  · have hhost : config.host ≠ [] := List.length_pos_iff.mp ha.host.1
    rw [socketConnectCheck, if_neg]
    rintro (hnil | hlow | hhigh)
    · exact hhost hnil
    · exact absurd ha.port.1 (not_le.mpr hlow)
    · exact absurd ha.port.2 (not_le.mpr hhigh)
  · intro sockfd
    rw [Oneshot.prepare]
    dsimp only
    split_ifs with hfd hhex hrc
    · simp
    · exact absurd (ha.hexPayload hhex).1 hrc
    · simp
    · simp
    · simp
  · rintro hhex ⟨-, hlong⟩
    have hshort := hbytes hhex
    omega
  · intro hhex
    exact Nat.lt_of_le_of_lt (hbytes hhex) (by decide)
  · intro hhex
    have hshort := hbytes hhex
    have hterm := length_appendTerm_le config (hexBytes config)
    omega

/-- **An accepted command line leaves nothing to reject**: whatever the options and positionals,
if they are accepted and ask neither for help nor for the version, the configuration is
within its bounds, and the checks and clamps downstream do not act on it. -/
theorem accepted_never_rejected (h : parseCliArgs opts positionals = .accepted config)
    (hhelp : config.showHelp = false) (hversion : config.showVersion = false) :
    Accepted config ∧ NeverRejected config := by
  obtain ⟨hw, hhost, hport⟩ := parseCliArgs_inRange h hhelp hversion
  have ha := hw.accepted hhost hport
  exact ⟨ha, ha.neverRejected⟩

/-- An argument spelled out. -/
def word (s : String) : CStr := .ofMem (str s)

/-- `-h a -x 0x0A -t 100 -L -T 19 -h localhost -x "4E 43" 8080`. -/
theorem accepted_never_rejected_NC :
    ∃ config,
      parseCliArgs
        [.host (word "a"), .hex (word "0x0A"), .timeout (word "100"), .addTcpLen, .term (word "19"),
          .host (word "localhost"), .hex (word "4E 43")] [word "8080"] = .accepted config ∧
      Accepted config ∧ NeverRejected config := by
  have hparse :
      parseCliArgs
        [.host (word "a"), .hex (word "0x0A"), .timeout (word "100"), .addTcpLen, .term (word "19"),
          .host (word "localhost"), .hex (word "4E 43")] [word "8080"] = .accepted
        { host := str "localhost", port := 8080, timeoutMs := 100, hexPayload := str "4E 43", isHex := true,
          addTcpLen := true, hasTermChar := true, termChar := 0x19 } := by decide +kernel
  exact ⟨_, hparse, accepted_never_rejected hparse rfl rfl⟩

end TcpClient
