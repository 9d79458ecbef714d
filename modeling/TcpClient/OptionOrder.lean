import TcpClient.ParseCliArgs
import Mathlib.Data.List.Pairwise

/-!
# The order of the options

What an option of `parse_cli_args` does to the configuration depends on its argument alone: it is
refused, or it writes a setting (`Opt.setting`). Settings of different options are written to
different fields, so they can be written in any order (`Setting.apply_comm`), and with them the options
of a command line (`parseArgs_perm`).

Help and version are apart: they make the function return at once.
-/

namespace TcpClient

open CString Machine

/-! ### Settings -/

/-- What an option writes into the configuration. -/
inductive Setting where
  | host (text : List Byte)
  | port (val : ℤ)
  | timeout (val : ℤ)
  | hex (text : List Byte)
  | hexOut
  | ascii (bytes : List Byte)
  | term (byte : Byte)
  | addTcpLen
  | decodeHsm
  | hsmHeaderLen (val : ℤ)
  | interactive
  | verbose
  deriving DecidableEq, Repr

/-- The configuration with a setting written to it. -/
def Setting.apply (config : CliConfig) : Setting → CliConfig
  | .host text => { config with host := text }
  | .port val => { config with port := val }
  | .timeout val => { config with timeoutMs := val }
  | .hex text => { config with hexPayload := text, isHex := true }
  | .hexOut => { config with hexOut := true }
  | .ascii bytes => { config with asciiPayload := bytes, isAscii := true }
  | .term byte => { config with termChar := byte, hasTermChar := true }
  | .addTcpLen => { config with addTcpLen := true }
  | .decodeHsm => { config with decodeHsm := true }
  | .hsmHeaderLen val => { config with hsmHeaderLen := val }
  | .interactive => { config with forceInteractive := true, mode := .interactive }
  | .verbose => { config with verbose := true }

/-- What `getopt_long` returns for an option: its letter, `1000` for `--hsm-header-len`, `?` for one it does
not accept. -/
def Opt.value : Opt → ℕ
  | .host _ => 104
  | .port _ => 112
  | .timeout _ => 116
  | .hex _ => 120
  | .hexOut => 88
  | .ascii _ => 97
  | .term _ => 84
  | .addTcpLen => 76
  | .decodeHsm => 68
  | .hsmHeaderLen _ => 1000
  | .interactive => 105
  | .verbose => 118
  | .help => 72
  | .version => 86
  | .bad _ => 63
  | .other => 0

/-- **Settings of different kinds do not meet.** -/
theorem Setting.apply_comm {a b : Setting} (h : a.ctorIdx ≠ b.ctorIdx) (config : CliConfig) :
    b.apply (a.apply config) = a.apply (b.apply config) := by
  cases a <;> cases b <;> first | rfl | exact absurd rfl h

/-- The number an argument is, if it passes the check. -/
def numberOf (arg : CStr) (invalid : ℤ → Bool) : Option ℤ := (numberArg arg invalid []).toOption

/-- What an option other than help and version writes, `none` if it is refused. -/
def Opt.setting : Opt → Option Setting
  | .host optarg => if 256 ≤ optarg.chars.length then none else some (.host (copyString 256 optarg))
  | .port optarg => (numberOf optarg fun val => val < 1 || 65535 < val).map .port
  | .timeout optarg => (numberOf optarg fun val => val < 0).map .timeout
  | .hex optarg =>
    if 65536 ≤ optarg.chars.length then none
    else if (hexToBytes optarg.chars 65536).rc ≠ 0 then none
    else some (.hex (copyString 65536 optarg))
  | .hexOut => some .hexOut
  | .ascii optarg =>
    let r := unescapeString optarg.chars 65536
    if r.rc ≠ 0 then none else some (.ascii (r.outBuf.take (r.outLen.getD 0)))
  | .term optarg => (parseHexByte optarg.chars).map .term
  | .addTcpLen => some .addTcpLen
  | .decodeHsm => some .decodeHsm
  | .hsmHeaderLen optarg => (numberOf optarg fun val => val < 0 || 64 < val).map .hsmHeaderLen
  | .interactive => some .interactive
  | .verbose => some .verbose
  | .help => none
  | .version => none
  | .bad _ => none
  | .other => none

/-- Neither help nor version. -/
def Opt.Plain (opt : Opt) : Prop := opt ≠ .help ∧ opt ≠ .version

/-- Options of one kind have one value. -/
theorem Opt.value_eq {a b : Opt} (h : a.ctorIdx = b.ctorIdx) : a.value = b.value := by
  cases a <;> cases b <;> first | rfl | exact absurd h (Nat.ne_of_beq_eq_false rfl)

/-- A setting is of the kind of its option, which is accepted. -/
theorem Opt.setting_ctorIdx {opt : Opt} {s : Setting} (h : opt.setting = some s) :
    s.ctorIdx = opt.ctorIdx ∧ opt.value ≠ 63 := by
  cases opt with
  | host optarg | hex optarg | ascii optarg =>
    rw [Opt.setting] at h
    split_ifs at h
    cases h
    exact ⟨rfl, Nat.ne_of_beq_eq_false rfl⟩
  | port optarg | timeout optarg | hsmHeaderLen optarg | term optarg =>
    obtain ⟨val, -, rfl⟩ := Option.map_eq_some_iff.mp h
    exact ⟨rfl, Nat.ne_of_beq_eq_false rfl⟩
  | hexOut | addTcpLen | decodeHsm | interactive | verbose =>
    cases h
    exact ⟨rfl, Nat.ne_of_beq_eq_false rfl⟩
  | help | version | bad optopt | other => cases h

/-- An option with a number: the text it is refused with does not matter here. -/
theorem toOption_numberArg (arg : CStr) (invalid : ℤ → Bool) (message : List Byte) (set : ℤ → CliConfig) :
    (do let val ← numberArg arg invalid message; return set val : Except ParseResult CliConfig).toOption =
      (numberOf arg invalid).map set := by
  rw [numberOf, numberArg, numberArg]
  cases parseInt arg.chars with
  | none => rfl
  | some val => cases hval : invalid val <;> simp [hval] <;> rfl

/-- **An option is refused, or its setting written**, whatever the configuration is. -/
theorem parseOption_setting (config : CliConfig) {opt : Opt} (hplain : opt.Plain) :
    (parseOption config opt).toOption = opt.setting.map (Setting.apply config) := by
  cases opt with
  | host optarg =>
    rw [parseOption, setHost, Opt.setting]
    split_ifs <;> rfl
  | port optarg | timeout optarg | hsmHeaderLen optarg =>
    rw [Opt.setting, Option.map_map]
    exact toOption_numberArg _ _ _ _
  | hex optarg =>
    rw [parseOption, setHex, Opt.setting]
    split_ifs <;> rfl
  | ascii optarg =>
    rw [parseOption, setAscii, Opt.setting]
    split_ifs <;> rfl
  | term optarg =>
    rw [parseOption, setTerm, Opt.setting]
    cases parseHexByte optarg.chars <;> rfl
  | hexOut | addTcpLen | decodeHsm | interactive | verbose => rfl
  | help => exact absurd rfl hplain.1
  | version => exact absurd rfl hplain.2
  | bad optopt | other => rfl

/-! ### All options -/

/-- Different options; one that is not accepted may come more than once. -/
def Distinct (a b : Opt) : Prop := a.value = b.value → a.value = 63

/-- One option more, where those before were not refused. -/
def writeOption (config : Option CliConfig) (opt : Opt) : Option CliConfig :=
  config.bind fun config => opt.setting.map (Setting.apply config)

instance : Std.Symm Distinct := ⟨fun _ _ h heq => heq.trans (h heq.symm)⟩

/-- **Two different options can be exchanged.** -/
theorem writeOption_comm {a b : Opt} (h : Distinct a b) (config : Option CliConfig) :
    writeOption (writeOption config a) b = writeOption (writeOption config b) a := by
  cases config with
  | none => rfl
  | some config =>
    simp only [writeOption, Option.bind_some]
    cases ha : a.setting with
    | none => cases b.setting <;> rfl
    | some s =>
      cases hb : b.setting with
      | none => rfl
      | some t =>
        obtain ⟨hkind, hvalue⟩ := Opt.setting_ctorIdx ha
        obtain ⟨hkind', -⟩ := Opt.setting_ctorIdx hb
        have hne : s.ctorIdx ≠ t.ctorIdx := by
          intro heq
          -- an option that is not accepted has no setting
          exact hvalue (h (Opt.value_eq (hkind.symm.trans (heq.trans hkind'))))
        exact congrArg some (Setting.apply_comm hne config)

theorem foldl_writeOption_none (opts : List Opt) : opts.foldl writeOption none = none := by
  induction opts with
  | nil => rfl
  | cons opt opts ih => exact ih

/-- The loop over the options, seen without the texts of its errors. -/
theorem toOption_foldlM (opts : List Opt) (hplain : ∀ opt ∈ opts, opt.Plain) (config : CliConfig) :
    (opts.foldlM parseOption config).toOption = opts.foldl writeOption (some config) := by
  induction opts generalizing config with
  | nil => rfl
  | cons opt opts ih =>
    rw [List.forall_mem_cons] at hplain
    have hfirst := parseOption_setting config hplain.1
    have hwrite : writeOption (some config) opt = (parseOption config opt).toOption := hfirst.symm
    rw [List.foldlM_cons, List.foldl_cons, hwrite]
    cases parseOption config opt with
    | ok config' => exact ih hplain.2 config'
    | error result => exact (foldl_writeOption_none opts).symm

/-- **The options of a command line in any order** leave the same configuration, or one of them is refused. -/
theorem foldl_writeOption_perm {opts opts' : List Opt} (hperm : opts.Perm opts') (hdistinct : opts.Pairwise Distinct)
    (config : Option CliConfig) : opts.foldl writeOption config = opts'.foldl writeOption config := by
  refine hperm.foldl_eq' ?_ config
  intro a ha b hb config
  by_cases hab : a = b
  · rw [hab]
  · exact writeOption_comm (hdistinct.forall ha hb hab) config

/-! ### The command line -/

/-- An element of the command line. -/
inductive Arg where
  | option (opt : Opt)
  | positional (text : CStr)
  deriving DecidableEq

/-- The options of a command line, in order. -/
def optionsOf : List Arg → List Opt
  | [] => []
  | .option opt :: args => opt :: optionsOf args
  | .positional _ :: args => optionsOf args

/-- The positionals, in order. -/
def positionalsOf : List Arg → List CStr
  | [] => []
  | .option _ :: args => positionalsOf args
  | .positional text :: args => text :: positionalsOf args

/-- `parse_cli_args` on a command line: `getopt_long` delivers its options in order and moves the
positionals behind them. -/
def parseArgs (args : List Arg) : ParseResult := parseCliArgs (optionsOf args) (positionalsOf args)

/-- What is returned, in terms of the loop without the texts of its errors. -/
theorem parseCliArgs_cases (opts : List Opt) (positionals : List CStr) (hplain : ∀ opt ∈ opts, opt.Plain) :
    (opts.foldl writeOption (some {}) = none ∧ (parseCliArgs opts positionals).rc = 1) ∨
      ∃ config, opts.foldl writeOption (some {}) = some config ∧
        parseCliArgs opts positionals =
          match positionals.foldlM parsePositional config with
          | .error result => result
          | .ok config => checkRequired config := by
  rw [parseCliArgs, ← toOption_foldlM opts hplain]
  cases hopts : opts.foldlM parseOption {} with
  | ok config => exact Or.inr ⟨config, rfl, rfl⟩
  | error result =>
    refine Or.inl ⟨rfl, ?_⟩
    obtain ⟨config, opt, hopt, hreturn⟩ := foldlM_error hopts
    exact parseOption_error (hplain opt hopt).1 (hplain opt hopt).2 hreturn

/-- **Option order does not matter**: the options of a command line may be permuted, and the positionals be
put anywhere between them. -/
theorem parseArgs_perm (args args' : List Arg) (hopts : (optionsOf args).Perm (optionsOf args'))
    (hpositionals : positionalsOf args = positionalsOf args') (hdistinct : (optionsOf args).Pairwise Distinct)
    (hplain : ∀ opt ∈ optionsOf args, opt ≠ .help ∧ opt ≠ .version) :
    (parseArgs args).rc = (parseArgs args').rc ∧
      ∀ config, parseArgs args = .accepted config → parseArgs args' = .accepted config := by
  have hplain' : ∀ opt ∈ optionsOf args', opt.Plain := fun opt hopt => hplain opt (hopts.mem_iff.mpr hopt)
  have hsame := foldl_writeOption_perm hopts hdistinct (some {})
  rw [parseArgs, parseArgs, ← hpositionals]
  rcases parseCliArgs_cases (optionsOf args) (positionalsOf args) hplain with ⟨hnone, hrc⟩ | ⟨config, hsome, heq⟩
  · rcases parseCliArgs_cases (optionsOf args') (positionalsOf args) hplain' with ⟨-, hrc'⟩ | ⟨config', hsome', -⟩
    · refine ⟨hrc.trans hrc'.symm, ?_⟩
      intro config hok
      rw [hok] at hrc
      cases hrc
    · rw [← hsame, hnone] at hsome'
      cases hsome'
  · rcases parseCliArgs_cases (optionsOf args') (positionalsOf args) hplain' with ⟨hnone', -⟩ | ⟨config', hsome', heq'⟩
    · rw [← hsame, hsome] at hnone'
      cases hnone'
    · rw [← hsame, hsome] at hsome'
      cases hsome'
      rw [heq, heq']
      exact ⟨rfl, fun _ h => h⟩

/-- Two options in either order, the host behind them or before them. -/
theorem parseArgs_perm_two :
    parseArgs [.option .verbose, .option (.port (CStr.ofMem (str "80"))), .positional (CStr.ofMem (str "h"))] =
        .accepted { host := str "h", port := 80, verbose := true } ∧
      parseArgs [.positional (CStr.ofMem (str "h")), .option (.port (CStr.ofMem (str "80"))), .option .verbose] =
        .accepted { host := str "h", port := 80, verbose := true } := by
  have hok : parseArgs [.option .verbose, .option (.port (CStr.ofMem (str "80"))),
      .positional (CStr.ofMem (str "h"))] = .accepted { host := str "h", port := 80, verbose := true } := by
    decide +kernel
  have hdistinct : [Opt.verbose, .port (CStr.ofMem (str "80"))].Pairwise Distinct := by
    simp [Distinct, Opt.value]
  have hsame := parseArgs_perm
    [.option .verbose, .option (.port (CStr.ofMem (str "80"))), .positional (CStr.ofMem (str "h"))]
    [.positional (CStr.ofMem (str "h")), .option (.port (CStr.ofMem (str "80"))), .option .verbose]
    (List.Perm.swap _ _ []) rfl hdistinct (by simp [optionsOf])
  exact ⟨hok, hsame.2 _ hok⟩

end TcpClient
