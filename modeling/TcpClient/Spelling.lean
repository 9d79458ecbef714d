import TcpClient.ParseCliArgs
import TcpClient.HsmFormat
import TcpClient.Unescape

/-!
# Spelling a configuration out

`parse_cli_args` read backwards: `spell` writes the options that ask for a configuration, one for each field that
is set. What can be asked for is then known exactly: `Askable` says which configurations a command line gives, and
each of them is given by its spelling, whatever bytes the payload and the terminator are.

## What is proved

* `parseOption_asked`, `parsePositional_asked` — what one argument keeps.
* `parse_spell` — the spelling is parsed back.
* `askable_iff_parsed` — a configuration can be asked for just when it is `Askable`.
-/

namespace TcpClient

open CString Machine

/-! ### The options that ask for a configuration -/

/-- The bytes written as `\xHH`. -/
def escaped (bytes : List Byte) : List Byte := bytes.flatMap fun byte => 92 :: 120 :: hexPair false byte

/-- An option with a number. -/
def numberText (val : ℤ) : CStr := .ofMem (decimal val.toNat)

/-- The options that ask for no more than a flag. -/
def spellFlags (config : CliConfig) : List Opt :=
  (if config.hexOut then [.hexOut] else []) ++ (if config.addTcpLen then [.addTcpLen] else []) ++
  (if config.decodeHsm then [.decodeHsm] else []) ++ (if config.verbose then [.verbose] else []) ++
  (if config.forceInteractive then [.interactive] else [])

/-- The options that ask for a configuration. -/
def spell (config : CliConfig) : List Opt :=
  [.host (.ofMem config.host), .port (numberText config.port), .timeout (numberText config.timeoutMs),
    .hsmHeaderLen (numberText config.hsmHeaderLen)] ++
  (if config.isHex then [.hex (.ofMem config.hexPayload)] else []) ++
  (if config.isAscii then [.ascii (.ofMem (escaped config.asciiPayload))] else []) ++
  (if config.hasTermChar then [.term (.ofMem (hexPair false config.termChar))] else []) ++ spellFlags config

/-- What any arguments keep. A field that no option has set is as `memset` left it. -/
structure Asked (config : CliConfig) : Prop extends InRange config where
  timeoutFits : config.timeoutMs ≤ intMax
  hexText : 0 ∉ config.hexPayload
  noHex : config.isHex = false → config.hexPayload = []
  noAscii : config.isAscii = false → config.asciiPayload = []
  noTerm : config.hasTermChar = false → config.termChar = 0
  mode : config.mode = if config.forceInteractive then .interactive else .auto
  noHelp : config.showHelp = false
  noVersion : config.showVersion = false

/-- The configurations that can be asked for. -/
structure Askable (config : CliConfig) : Prop extends Asked config where
  hostGiven : config.host ≠ []
  portGiven : config.port ≠ 0

/-! ### What an argument keeps -/

section Keeps

variable {config config' : CliConfig} {arg : CStr}

theorem asked_default : Asked {} :=
  { inRange_default with
    timeoutFits := show (5000 : ℤ) ≤ intMax by decide
    hexText := List.not_mem_nil
    noHex := fun _ => rfl
    noAscii := fun _ => rfl
    noTerm := fun _ => rfl
    mode := rfl
    noHelp := rfl
    noVersion := rfl }

/-- A number that is read is an `int`. -/
theorem parseInt_fits {text : List Byte} {val : ℤ} (h : parseInt text = some val) : val ≤ intMax := by
  rw [parseInt] at h
  dsimp only at h
  split_ifs at h with hnil hend hrange
  rw [not_or, not_lt, not_lt] at hrange
  cases h
  exact hrange.2

theorem numberArg_fits {invalid : ℤ → Bool} {message : List Byte} {val : ℤ}
    (h : numberArg arg invalid message = .ok val) : val ≤ intMax := by
  rw [numberArg] at h
  cases hread : parseInt arg.chars with
  | none =>
    rw [hread] at h
    cases h
  | some read =>
    rw [hread] at h
    dsimp only at h
    split_ifs at h
    cases h
    exact parseInt_fits hread

theorem setHost_asked (hasked : Asked config) (h : setHost config arg = .ok config') : Asked config' := by
  have hw := setHost_inRange hasked.toInRange h
  rw [setHost] at h
  split_ifs at h
  cases h
  exact { hw, hasked with }

theorem setPort_asked (hasked : Asked config) (h : setPort config arg = .ok config') : Asked config' := by
  have hw := setPort_inRange hasked.toInRange h
  obtain ⟨val, -, rfl⟩ := bind_numberArg_ok h
  exact { hw, hasked with }

theorem setTimeout_asked (hasked : Asked config) (h : setTimeout config arg = .ok config') : Asked config' := by
  have hw := setTimeout_inRange hasked.toInRange h
  rw [setTimeout] at h
  cases hread : numberArg arg (fun val => val < 0) (str "Error: Invalid timeout value '" ++ arg.chars ++
      str "'. Timeout must be a non-negative integer.\n") with
  | error result =>
    rw [hread] at h
    cases h
  | ok val =>
    rw [hread] at h
    cases h
    exact { hw, hasked with timeoutFits := numberArg_fits hread }

theorem setHsmHeaderLen_asked (hasked : Asked config) (h : setHsmHeaderLen config arg = .ok config') :
    Asked config' := by
  have hw := setHsmHeaderLen_inRange hasked.toInRange h
  obtain ⟨val, -, rfl⟩ := bind_numberArg_ok h
  exact { hw, hasked with }

theorem setHex_asked (hasked : Asked config) (h : setHex config arg = .ok config') : Asked config' := by
  have hw := setHex_inRange hasked.toInRange h
  rw [setHex] at h
  split_ifs at h with hlong
  cases h
  refine { hw, hasked with hexText := ?_, noHex := fun hset : true = false => absurd hset (by decide) }
  rw [copyString_of_lt (not_le.mp hlong)]
  exact arg.nul_free

theorem setAscii_asked (hasked : Asked config) (h : setAscii config arg = .ok config') : Asked config' := by
  have hw := setAscii_inRange hasked.toInRange h
  rw [setAscii] at h
  split_ifs at h
  cases h
  exact { hw, hasked with noAscii := fun hset : true = false => absurd hset (by decide) }

theorem setTerm_asked (hasked : Asked config) (h : setTerm config arg = .ok config') : Asked config' := by
  have hw := setTerm_inRange hasked.toInRange h
  rw [setTerm] at h
  split at h
  · cases h
  · cases h
    exact { hw, hasked with noTerm := fun hset : true = false => absurd hset (by decide) }

/-- **One option.** -/
theorem parseOption_asked {opt : Opt} (hasked : Asked config) (h : parseOption config opt = .ok config') :
    Asked config' := by
  cases opt with
  | host optarg => exact setHost_asked hasked h
  | port optarg => exact setPort_asked hasked h
  | timeout optarg => exact setTimeout_asked hasked h
  | hex optarg => exact setHex_asked hasked h
  | ascii optarg => exact setAscii_asked hasked h
  | term optarg => exact setTerm_asked hasked h
  | hsmHeaderLen optarg => exact setHsmHeaderLen_asked hasked h
  | hexOut | addTcpLen | decodeHsm | verbose =>
    cases h
    exact { hasked with }
  | interactive =>
    cases h
    exact { hasked with mode := rfl }
  | help | version | bad optopt | other => cases h

/-- **One positional.** -/
theorem parsePositional_asked (hasked : Asked config) (h : parsePositional config arg = .ok config') :
    Asked config' := by
  rw [parsePositional] at h
  split_ifs at h
  · exact setHost_asked hasked h
  · exact setPort_asked hasked h

end Keeps

/-- **What is accepted can be asked for.** -/
theorem askable_of_parsed {opts : List Opt} {positionals : List CStr} {config : CliConfig}
    (h : parseCliArgs opts positionals = .accepted config) (hhelp : config.showHelp = false)
    (hversion : config.showVersion = false) : Askable config := by
  obtain ⟨config', hopts, hpos, hhost, hport⟩ := parseCliArgs_accepted h hhelp hversion
  have hasked : Asked config' := foldlM_ok_invariant (fun _ _ _ => parseOption_asked) asked_default hopts
  exact { foldlM_ok_invariant (fun _ _ _ => parsePositional_asked) hasked hpos with
    hostGiven := hhost
    portGiven := hport }

/-! ### Texts that are read back -/

/-- A text without a NUL is one in memory. -/
theorem chars_ofMem {text : List Byte} (h : 0 ∉ text) : (CStr.ofMem text).chars = text := cstr_eq_self h

theorem digitsValue_eq (digits : List Byte) : digitsValue digits = decimalValue digits := by
  induction digits using List.reverseRecOn with
  | nil => rfl
  | append_singleton digits c ih =>
    rw [decimalValue_concat, digitsValue, List.foldl_append, List.foldl_cons, List.foldl_nil]
    rw [digitsValue] at ih
    rw [ih]
    push_cast
    rfl

theorem decimal_ne_nil (n : ℕ) : decimal n ≠ [] := by
  rw [decimal, ne_eq, List.map_eq_nil_iff]
  exact Nat.toDigits_ne_nil

/-- A digit is neither a blank nor a sign. -/
theorem digit_plain {d : Byte} (hd : isdigit d = true) : isspace d = false ∧ d ≠ 45 ∧ d ≠ 43 := by
  rw [isdigit, Bool.and_eq_true, decide_eq_true_eq, decide_eq_true_eq, UInt8.le_iff_toNat_le,
    UInt8.le_iff_toNat_le] at hd
  have hlow : 48 ≤ d.toNat := hd.1
  have hne : ∀ c : Byte, c.toNat < 48 → d ≠ c := by
    rintro c hc rfl
    omega
  refine ⟨?_, hne 45 (by decide), hne 43 (by decide)⟩
  rw [isspace, Bool.or_eq_false_iff, Bool.and_eq_false_iff]
  refine ⟨beq_false_of_ne (hne 32 (by decide)), .inr (decide_eq_false ?_)⟩
  rw [UInt8.le_iff_toNat_le]
  exact not_le.mpr (Nat.lt_of_lt_of_le (by decide) hlow)

/-- `strtol` on digits and nothing else. -/
theorem strtol_digits {digits : List Byte} (hne : digits ≠ []) (hdigits : ∀ d ∈ digits, isdigit d = true)
    (hfits : (decimalValue digits : ℤ) ≤ longMax) : strtol digits = ⟨decimalValue digits, false, []⟩ := by
  obtain ⟨d, ds, rfl⟩ := List.exists_cons_of_ne_nil hne
  obtain ⟨hspace, hminus, hplus⟩ := digit_plain (hdigits d List.mem_cons_self)
  have hblank : (d :: ds).dropWhile isspace = d :: ds := by rw [List.dropWhile_cons, if_neg (by rw [hspace]; decide)]
  have htake : (d :: ds).takeWhile isdigit = d :: ds := List.takeWhile_eq_self_iff.mpr hdigits
  have hdrop : (d :: ds).dropWhile isdigit = [] := List.dropWhile_eq_nil_iff.mpr hdigits
  have hlow : ¬ (decimalValue (d :: ds) : ℤ) < longMin := by
    have : longMin ≤ 0 := by decide
    omega
  rw [strtol, hblank]
  split
  next negative rest hsign =>
    have hpair : (negative, rest) = (false, d :: ds) := by
      rw [← hsign]
      split
      · next heq => exact absurd (List.cons.inj heq).1 hminus
      · next heq => exact absurd (List.cons.inj heq).1 hplus
      · rfl
    cases hpair
    dsimp only
    rw [htake, hdrop, if_neg hne, digitsValue_eq, if_neg Bool.false_ne_true, if_neg hlow, if_neg (not_lt.mpr hfits)]

/-- **A number is read back.** -/
theorem parseInt_decimal {n : ℕ} (hn : (n : ℤ) ≤ intMax) : parseInt (decimal n) = some (n : ℤ) := by
  have hdigit : ∀ d ∈ decimal n, isdigit d = true := by
    intro d hd
    obtain ⟨hlow, hhigh⟩ := byte_of_mem_toDigits hd
    rw [isdigit, Bool.and_eq_true, decide_eq_true_eq, decide_eq_true_eq]
    exact ⟨hlow, hhigh⟩
  have hval : decimalValue (decimal n) = n := decimalValue_toDigits n
  have hlong : intMax ≤ longMax := by decide
  have hread := strtol_digits (decimal_ne_nil n) hdigit (by rw [hval]; exact hn.trans hlong)
  have hlow : intMin ≤ 0 := by decide
  rw [parseInt, if_neg (decimal_ne_nil n), hread, hval]
  simp only [Bool.false_or, ne_eq, not_true, decide_false, Bool.false_eq_true, if_false]
  rw [if_neg]
  omega

/-- The two digits of a byte. -/
theorem exists_digits (byte : Byte) :
    ∃ d₁ d₂ hi lo, hexPair false byte = [d₁, d₂] ∧ (hexCharToInt d₁ = some hi ∧ isspace d₁ = false) ∧
      (hexCharToInt d₂ = some lo ∧ isspace d₂ = false) ∧ UInt8.ofNat (hi <<< 4 ||| lo) = byte := by
  have hspace : ∀ n < 16, isspace ((hexChars false).getD n 0) = false := by decide
  have hhi : byte.toNat >>> 4 &&& 0x0F < 16 := Nat.lt_of_le_of_lt Nat.and_le_right (by decide)
  have hlo : byte.toNat &&& 0x0F < 16 := Nat.lt_of_le_of_lt Nat.and_le_right (by decide)
  exact ⟨_, _, _, _, rfl, ⟨(hexCharToInt_hexChars false _ hhi).1, hspace _ hhi⟩,
    ⟨(hexCharToInt_hexChars false _ hlo).1, hspace _ hlo⟩, ofNat_nibbles byte⟩

/-- **A byte is read back.** -/
theorem parseHexByte_hexPair (byte : Byte) : parseHexByte (hexPair false byte) = some byte := by
  have hskip := skip_hexPair false byte []
  rw [List.append_nil] at hskip
  obtain ⟨d₁, d₂, hi, lo, hpair, ⟨hval₁, hspace₁⟩, ⟨hval₂, hspace₂⟩, hbyte⟩ := exists_digits byte
  rw [parseHexByte, hskip, hpair]
  have hdigits : hexDigits [d₁, d₂] [] = some ([hi, lo], []) := by
    simp [hexDigits, hspace₁, hval₁, hspace₂, hval₂]
  dsimp only
  rw [hdigits, ← hbyte]
  rfl

theorem nul_not_mem_hexPair (byte : Byte) : 0 ∉ hexPair false byte := by
  have h := nul_not_mem_hexText false false [byte]
  rwa [hexText, hexText, List.append_nil] at h

/-- The bytes are written as escapes. -/
theorem hexEscapes_escaped (bytes : List Byte) : HexEscapes (escaped bytes) bytes := by
  induction bytes with
  | nil => exact .nil
  | cons byte bytes ih =>
    obtain ⟨d₁, d₂, hi, lo, hpair, ⟨hval₁, -⟩, ⟨hval₂, -⟩, hbyte⟩ := exists_digits byte
    have hcons := HexEscapes.cons (.inl rfl) (hexCharToInt_eq d₁ ▸ hval₁) (hexCharToInt_eq d₂ ▸ hval₂) ih
    rw [← Hex.shiftLeft_or _ (hexCharToInt_lt hval₂), hbyte] at hcons
    rwa [escaped, List.flatMap_cons, hpair]

theorem nul_not_mem_escaped (bytes : List Byte) : 0 ∉ escaped bytes := by
  intro h
  obtain ⟨byte, -, hmem⟩ := List.mem_flatMap.mp h
  rcases List.mem_cons.mp hmem with h0 | hmem
  · exact absurd h0 (by decide)
  · rcases List.mem_cons.mp hmem with h0 | hmem
    · exact absurd h0 (by decide)
    · exact nul_not_mem_hexPair byte hmem

/-! ### The spelling is parsed back -/

section Spell

variable {config config' : CliConfig}

/-- An option that is there when the field is set, and otherwise leaves the field as it is. -/
theorem foldlM_optional {set : Bool} {opt : Opt} (hset : set = true → parseOption config opt = .ok config')
    (hunset : set = false → config = config') :
    (if set then [opt] else []).foldlM parseOption config = .ok config' := by
  cases set with
  | true =>
    rw [if_pos rfl, List.foldlM_cons, hset rfl]
    rfl
  | false =>
    rw [if_neg (by decide), hunset rfl]
    rfl

theorem numberArg_numberText {val : ℤ} {invalid : ℤ → Bool} {message : List Byte} (hlow : 0 ≤ val)
    (hfits : val ≤ intMax) (hvalid : invalid val = false) :
    numberArg (numberText val) invalid message = .ok val := by
  have hval : (val.toNat : ℤ) = val := Int.toNat_of_nonneg hlow
  have hnul : 0 ∉ decimal val.toNat := fun h0 => absurd (byte_of_mem_toDigits h0).1 (by decide)
  rw [numberArg, numberText, chars_ofMem hnul, parseInt_decimal (by rw [hval]; exact hfits), hval]
  dsimp only
  rw [hvalid]
  rfl

/-- The text of `-x` is kept as it is. -/
theorem foldlM_hex (h : Asked config) (hunset : config'.hexPayload = [] ∧ config'.isHex = false) :
    (if config.isHex then [Opt.hex (.ofMem config.hexPayload)] else []).foldlM parseOption config' =
      .ok { config' with hexPayload := config.hexPayload, isHex := config.isHex } := by
  refine foldlM_optional (fun hset => ?_) fun hset => ?_
  · obtain ⟨hrc, hlen⟩ := h.hexPayload hset
    rw [parseOption, setHex, copyString, chars_ofMem h.hexText, if_neg (by omega), if_neg (not_not.mpr hrc),
      List.take_of_length_le hlen, hset]
  · rw [h.noHex hset, hset, ← hunset.1, ← hunset.2]

/-- The bytes of `-a` are kept, whatever they are. -/
theorem foldlM_ascii (h : Asked config) (hunset : config'.asciiPayload = [] ∧ config'.isAscii = false) :
    (if config.isAscii then [Opt.ascii (.ofMem (escaped config.asciiPayload))] else []).foldlM parseOption config' =
      .ok { config' with asciiPayload := config.asciiPayload, isAscii := config.isAscii } := by
  refine foldlM_optional (fun hset => ?_) fun hset => ?_
  · rw [parseOption, setAscii, chars_ofMem (nul_not_mem_escaped config.asciiPayload),
      unescapeString_tokens (hexEscapes_escaped config.asciiPayload).tokens h.asciiPayload, hset]
    simp
  · rw [h.noAscii hset, hset, ← hunset.1, ← hunset.2]

theorem foldlM_term (h : Asked config) (hunset : config'.termChar = 0 ∧ config'.hasTermChar = false) :
    (if config.hasTermChar then [Opt.term (.ofMem (hexPair false config.termChar))] else []).foldlM parseOption
      config' = .ok { config' with termChar := config.termChar, hasTermChar := config.hasTermChar } := by
  refine foldlM_optional (fun hset => ?_) fun hset => ?_
  · rw [parseOption, setTerm, chars_ofMem (nul_not_mem_hexPair config.termChar),
      parseHexByte_hexPair config.termChar, hset]
  · rw [h.noTerm hset, hset, ← hunset.1, ← hunset.2]

theorem foldlM_flags (h : Asked config) (hflags : config'.hexOut = false ∧ config'.addTcpLen = false ∧
      config'.decodeHsm = false ∧ config'.verbose = false ∧ config'.forceInteractive = false)
    (hauto : config'.mode = .auto) :
    (spellFlags config).foldlM parseOption config' =
      .ok { config' with
        hexOut := config.hexOut
        addTcpLen := config.addTcpLen
        decodeHsm := config.decodeHsm
        verbose := config.verbose
        forceInteractive := config.forceInteractive
        mode := config.mode } := by
  obtain ⟨hhexOut, haddTcpLen, hdecodeHsm, hverbose, hforce⟩ := hflags
  rw [h.mode, spellFlags]
  generalize config.hexOut = a, config.addTcpLen = b, config.decodeHsm = c, config.verbose = d,
    config.forceInteractive = e
  cases config'
  dsimp only at hhexOut haddTcpLen hdecodeHsm hverbose hforce hauto
  subst hhexOut haddTcpLen hdecodeHsm hverbose hforce hauto
  cases a <;> cases b <;> cases c <;> cases d <;> cases e <;> rfl

/-- **The options give the configuration**, one field after another. -/
theorem foldlM_spell (h : Askable config) : (spell config).foldlM parseOption {} = .ok config := by
  have hint : (65535 : ℤ) ≤ intMax ∧ (64 : ℤ) ≤ intMax := by decide
  obtain ⟨hhostLen, hhostNul⟩ := h.host
  obtain ⟨hportLow, hportHigh⟩ := h.port.resolve_left h.portGiven
  obtain ⟨hheaderLow, hheaderHigh⟩ := h.hsmHeaderLen
  have hnumbers : [Opt.host (.ofMem config.host), .port (numberText config.port),
      .timeout (numberText config.timeoutMs), .hsmHeaderLen (numberText config.hsmHeaderLen)].foldlM parseOption {} =
      .ok { host := config.host, port := config.port, timeoutMs := config.timeoutMs,
            hsmHeaderLen := config.hsmHeaderLen } := by
    have hhost : setHost {} (.ofMem config.host) = .ok { host := config.host } := by
      rw [setHost, copyString, chars_ofMem hhostNul, if_neg (by omega), List.take_of_length_le hhostLen]
    rw [List.foldlM_cons, parseOption, hhost]
    show (parseOption _ _ >>= _) = _
    rw [parseOption, setPort, numberArg_numberText (by omega) (by omega) (by simp; omega)]
    show (parseOption _ _ >>= _) = _
    rw [parseOption, setTimeout, numberArg_numberText h.timeoutMs h.timeoutFits (by simp [h.timeoutMs])]
    show (parseOption _ _ >>= _) = _
    rw [parseOption, setHsmHeaderLen, numberArg_numberText hheaderLow (by omega) (by simp; omega)]
    rfl
  have hhex := foldlM_append_ok hnumbers (foldlM_hex h.toAsked ⟨rfl, rfl⟩)
  have hascii := foldlM_append_ok hhex (foldlM_ascii h.toAsked ⟨rfl, rfl⟩)
  have hterm := foldlM_append_ok hascii (foldlM_term h.toAsked ⟨rfl, rfl⟩)
  have hflags := foldlM_append_ok hterm (foldlM_flags h.toAsked ⟨rfl, rfl, rfl, rfl, rfl⟩ rfl)
  have hwhole : ∀ help version, help = config.showHelp → version = config.showVersion →
      { config with showHelp := help, showVersion := version } = config := by
    rintro _ _ rfl rfl
    rfl
  exact hflags.trans (congrArg Except.ok (hwhole false false h.noHelp.symm h.noVersion.symm))

/-- **A spelling is parsed back.** -/
theorem parse_spell (h : Askable config) : parseCliArgs (spell config) [] = .accepted config := by
  rw [parseCliArgs, foldlM_spell h]
  dsimp only
  rw [List.foldlM_nil]
  dsimp only [pure, Except.pure]
  rw [checkRequired, h.noHelp, h.noVersion, if_neg (by decide), if_neg h.hostGiven, if_neg h.portGiven]

end Spell

/-- **What can be asked for.** The configurations that command lines are parsed into are those within their bounds,
and each of them is parsed back from its own spelling: no payload, no terminator and no combination of options is out
of reach. -/
theorem askable_iff_parsed (config : CliConfig) :
    (Askable config ↔ ∃ opts positionals, parseCliArgs opts positionals = .accepted config ∧
      config.showHelp = false ∧ config.showVersion = false) ∧
    (Askable config ↔ parseCliArgs (spell config) [] = .accepted config ∧
      config.showHelp = false ∧ config.showVersion = false) := by
  have hparsed : ∀ opts positionals, parseCliArgs opts positionals = .accepted config ∧
      config.showHelp = false ∧ config.showVersion = false → Askable config :=
    fun opts positionals h => askable_of_parsed h.1 h.2.1 h.2.2
  have hspelt : Askable config → parseCliArgs (spell config) [] = .accepted config ∧
      config.showHelp = false ∧ config.showVersion = false :=
    fun h => ⟨parse_spell h, h.noHelp, h.noVersion⟩
  refine ⟨⟨fun h => ⟨_, _, hspelt h⟩, ?_⟩, hspelt, hparsed _ _⟩
  rintro ⟨opts, positionals, h⟩
  exact hparsed opts positionals h

end TcpClient
