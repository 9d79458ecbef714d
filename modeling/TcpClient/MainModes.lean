import TcpClient.MainRuns
import TcpClient.Spelling

/-!
# What the modes are run with

Inside `main` a mode runs as it does alone: its states are states of its own machine, from its own start. So what
is proved of the modes holds of the program, and what they are promised is kept: the configuration was accepted, there is
a connection, and the mode is the one that was asked for. Two of the answers decide: the first, to which the command
line is read and the mode chosen (`Chosen`), and the one to which the mode is called (`Called`).

## What is proved

* `chosen_of_parsed` — which mode is chosen.
* `histFile_eq` — where the history file is.
* `main_runs_modes` — every state of a mode inside `main` is one that the machine of the mode reaches.
-/

namespace TcpClient.Main

open Machine

variable {τ : Type} {pf : Platform} {raw : RawMode τ} {a : Answer} {s : St τ} {sockfd : ℤ} {config : CliConfig}

/-! ### The mode that is chosen -/

/-- In the first block of `main` the command line asks for `config`, and the mode is chosen. -/
structure Chosen (a : Answer) (config : CliConfig) : Prop where
  accepted : Accepted config
  asked : ∃ parsed, parseCliArgs a.opts a.positionals = .accepted parsed ∧ parsed.showHelp = false ∧
    parsed.showVersion = false ∧ config = chooseMode a.console.isatty parsed
  /-- `-i` wins over a payload, and a payload over a terminal. -/
  mode : config.mode = .interactive ↔
    config.forceInteractive = true ∨ (config.isHex = false ∧ config.isAscii = false ∧ a.console.isatty = true)

theorem chosen_of_parsed (hparse : parseCliArgs a.opts a.positionals = .accepted config)
    (hhelp : config.showHelp = false) (hversion : config.showVersion = false) :
    Chosen a (chooseMode a.console.isatty config) := by
  have hasked := askable_of_parsed hparse hhelp hversion
  have ha := hasked.toInRange.accepted hasked.hostGiven hasked.portGiven
  -- `-i` sets the mode at once, and nothing else does while the command line is read.
  have hopen := hasked.mode
  have hmode : ∀ mode, Accepted { config with mode := mode } := fun mode =>
    ⟨ha.host, ha.port, ha.timeoutMs, ha.hsmHeaderLen, ha.asciiPayload, ha.hexPayload⟩
  refine ⟨?_, ⟨config, hparse, hhelp, hversion, rfl⟩, ?_⟩
  · unfold chooseMode
    split_ifs
    · exact hmode _
    · exact hmode _
    · exact hmode _
    · exact ha
  · unfold chooseMode
    cases hforce : config.forceInteractive with
    | true => simp [hopen, hforce]
    | false =>
      have hauto : config.mode = .auto := by
        rw [hopen, hforce]
        rfl
      rw [if_pos hauto]
      cases hpayload : config.isHex || config.isAscii with
      | true =>
        rw [Bool.or_eq_true] at hpayload
        rcases hpayload with h | h <;> simp [h]
      | false =>
        rw [Bool.or_eq_false_iff] at hpayload
        cases a.console.isatty <;> simp [hpayload]

/-- One-shot mode is chosen just when `-i` is not given, and a payload is or standard input is no terminal. -/
theorem Chosen.oneshot (h : Chosen a config) (hmode : config.mode ≠ .interactive) :
    config.forceInteractive = false ∧
      (config.isHex = true ∨ config.isAscii = true ∨ a.console.isatty = false) := by
  rw [ne_eq, h.mode, not_or] at hmode
  obtain ⟨hforce, hterminal⟩ := hmode
  refine ⟨Bool.eq_false_iff.mpr hforce, ?_⟩
  cases hhex : config.isHex with
  | true => exact .inl rfl
  | false =>
    cases hascii : config.isAscii with
    | true => exact .inr (.inl rfl)
    | false =>
      refine .inr (.inr (Bool.eq_false_iff.mpr fun htty => ?_))
      exact hterminal ⟨hhex, hascii, htty⟩

/-! ### The phases -/

/-- The loop of this build has come from `loop₀` to `loop`. -/
def TtyReach (pf : Platform) (config : CliConfig) (sockfd : ℤ) (loop₀ loop : Tty.St) : Prop :=
  match pf with
  | .posix => Reach (Tty.step sockfd (connectionOf config)) Free loop₀ loop
  | .windows => Reach (WinTty.step sockfd (connectionOf config)) Free loop₀ loop

section Origin

variable (pf) (raw) (s₀ : St τ) (answers : List Answer)

/-- The first of the answers chose `config`. -/
def ChosenFirst (config : CliConfig) : Prop := ∃ a, answers.head? = some a ∧ Chosen a config

/-- The mode was called in the state `t`, on the answer `b`. -/
def Called (config : CliConfig) (sockfd : ℤ) (t : St τ) (b : Answer) : Prop :=
  (∃ pre post, answers = pre ++ b :: post ∧ run (step pf raw) s₀ pre = t) ∧ t.phase = .mode config sockfd

/-- What a phase comes from, with the answers so far. -/
def Origin : Phase → Prop
  | .start => answers = []
  | .connect config => ChosenFirst answers config
  | .mode config sockfd => ChosenFirst answers config ∧ 0 ≤ sockfd
  | .oneshot config sockfd loop =>
    ChosenFirst answers config ∧ 0 ≤ sockfd ∧ config.mode ≠ .interactive ∧
      ∃ t b, Called pf raw s₀ answers config sockfd t b ∧
        Reach (Oneshot.step pf config) Free (Oneshot.start config sockfd b.now) loop
  | .pipe sockfd loop =>
    0 ≤ sockfd ∧ Reach (Pipe.step pf sockfd) Free (Pipe.start sockfd) loop ∧
      ∃ config t b, ChosenFirst answers config ∧ config.mode = .interactive ∧
        Called pf raw s₀ answers config sockfd t b ∧
        (b.console.isatty = true → (linenoiseEnableRawMode pf raw b.console t.console).1 = -1)
  | .tty config sockfd loop =>
    ChosenFirst answers config ∧ 0 ≤ sockfd ∧ config.mode = .interactive ∧
      ∃ t b history loop₀, Called pf raw s₀ answers config sockfd t b ∧
        (b.console.isatty = true ∧ (linenoiseEnableRawMode pf raw b.console t.console).1 ≠ -1) ∧
        Tty.loadHistory (histFile pf b) = some history ∧
        Tty.start history (histFile pf b) ((List.range Tty.bufSize).map b.editBuf) = some loop₀ ∧
        TtyReach pf config sockfd loop₀ loop
  | _ => True

end Origin

section Steps

variable {s₀ t : St τ} {answers : List Answer} {b : Answer}

/-- An answer more changes nothing of what was chosen, -/
theorem ChosenFirst.concat (h : ChosenFirst answers config) (a : Answer) : ChosenFirst (answers ++ [a]) config := by
  obtain ⟨first, hfirst, hchosen⟩ := h
  refine ⟨first, ?_, hchosen⟩
  rw [List.head?_append, hfirst]
  rfl

/-- nor of what was called. -/
theorem Called.concat (h : Called pf raw s₀ answers config sockfd t b) (a : Answer) :
    Called pf raw s₀ (answers ++ [a]) config sockfd t b := by
  obtain ⟨⟨pre, post, rfl, ht⟩, hphase⟩ := h
  exact ⟨⟨pre, post ++ [a], by rw [List.append_assoc, List.cons_append], ht⟩, hphase⟩

theorem origin_startBlock (raw : RawMode τ) (s₀ : St τ) (a : Answer) (s : St τ) :
    Origin pf raw s₀ [a] (startBlock pf a s).phase := by
  unfold startBlock
  split_ifs
  · trivial
  · dsimp only
    split
    · trivial
    · rename_i config hparse
      split_ifs with hhelp hversion
      · trivial
      · trivial
      · rw [Bool.not_eq_true] at hhelp hversion
        exact ⟨a, rfl, chosen_of_parsed hparse hhelp hversion⟩

theorem origin_connectBlock (h : ChosenFirst answers config) (a : Answer) (s : St τ) :
    Origin pf raw s₀ (answers ++ [a]) (connectBlock pf a config s).phase := by
  unfold connectBlock
  dsimp only
  split_ifs with hneg
  · trivial
  · exact ⟨h.concat a, not_lt.mp hneg⟩

theorem origin_modeBlock (hchosen : ChosenFirst answers config) (hfd : 0 ≤ sockfd)
    (hphase : (run (step pf raw) s₀ answers).phase = .mode config sockfd) (a : Answer) :
    Origin pf raw s₀ (answers ++ [a]) (modeBlock pf raw a config sockfd (run (step pf raw) s₀ answers)).phase := by
  have hcalled : Called pf raw s₀ (answers ++ [a]) config sockfd (run (step pf raw) s₀ answers) a :=
    ⟨⟨answers, [], rfl, rfl⟩, hphase⟩
  unfold modeBlock
  split_ifs with hmode hneg htty
  · trivial
  · refine ⟨hfd, .refl, config, _, a, hchosen.concat a, hmode, hcalled, fun hyes => ?_⟩
    rw [hyes] at htty
    cases htty
  · obtain ⟨history, loop, hload, hstart, -, -, heq⟩ :=
      startTty_eq pf raw a config sockfd (run (step pf raw) s₀ answers)
    rw [heq, Option.getD_some]
    dsimp only
    split_ifs with hraw
    · exact ⟨hfd, .refl, config, _, a, hchosen.concat a, hmode, hcalled, fun _ => hraw⟩
    · refine ⟨hchosen.concat a, hfd, hmode, _, a, history, loop, hcalled, ⟨?_, hraw⟩, hload, hstart, ?_⟩
      · simpa using htty
      · cases pf with
        | posix => exact .refl
        | windows => exact .refl
  · exact ⟨hchosen.concat a, hfd, hmode, _, a, hcalled, .refl⟩

/-- **A step** of `main` inside a mode is one of the mode. -/
theorem origin_step (h : Origin pf raw s₀ answers (run (step pf raw) s₀ answers).phase) (a : Answer) :
    Origin pf raw s₀ (answers ++ [a]) (step pf raw (run (step pf raw) s₀ answers) a).phase := by
  generalize hs : run (step pf raw) s₀ answers = s at h ⊢
  unfold step
  cases hphase : s.phase with
  | start =>
    rw [hphase] at h
    obtain rfl : answers = [] := h
    exact origin_startBlock raw s₀ a s
  | connect config =>
    rw [hphase] at h
    exact origin_connectBlock h a s
  | mode config sockfd =>
    rw [hphase] at h
    subst hs
    exact origin_modeBlock h.1 h.2 hphase a
  | oneshot config sockfd loop =>
    rw [hphase] at h
    obtain ⟨hchosen, hfd, hmode, t, b, hcalled, hreach⟩ := h
    dsimp only
    unfold oneshotBlock
    split
    · trivial
    · exact ⟨hchosen.concat a, hfd, hmode, t, b, hcalled.concat a, hreach.tail trivial⟩
  | pipe sockfd loop =>
    rw [hphase] at h
    obtain ⟨hfd, hreach, config, t, b, hchosen, hmode, hcalled, hraw⟩ := h
    dsimp only
    unfold pipeBlock
    split
    · trivial
    · trivial
    · exact ⟨hfd, hreach.tail trivial, config, t, b, hchosen.concat a, hmode, hcalled.concat a, hraw⟩
  | tty config sockfd loop =>
    rw [hphase] at h
    obtain ⟨hchosen, hfd, hmode, t, b, history, loop₀, hcalled, htty, hload, hstart, hreach⟩ := h
    dsimp only
    unfold ttyBlock
    split
    · trivial
    · trivial
    · refine ⟨hchosen.concat a, hfd, hmode, t, b, history, loop₀, hcalled.concat a, htty, hload, hstart, ?_⟩
      cases pf with
      | posix => exact hreach.tail trivial
      | windows => exact hreach.tail trivial
  | close sockfd resultCode => trivial
  | exited code =>
    dsimp only
    rw [hphase]
    trivial
  | fault =>
    dsimp only
    rw [hphase]
    trivial

end Steps

/-! ### The history file -/

/-- The path is that of the history file in the home directory; if there is none, or it does not fit, of the one in the
current directory. -/
def HistoryPath (pf : Platform) (env : Tty.HomeEnv) (path : List Byte) : Prop :=
  path.length < 1024 ∧ (Tty.homeHistoryPath pf env = some path ∨
    (∀ home, Tty.homeHistoryPath pf env = some home → 1024 ≤ home.length) ∧ path = str "./.tcp_client_history")

theorem histFile_eq (pf : Platform) (a : Answer) :
    ∃ path, HistoryPath pf a.env path ∧ histFile pf a = a.files path := by
  obtain ⟨path, hpath, hfits, hwhere⟩ := Tty.getInteractiveHistoryPath_spec pf a.env (Nat.zero_lt_succ 1023)
  refine ⟨path, ⟨hfits, hwhere⟩, ?_⟩
  rw [histFile, hpath, Option.bind_some]

/-! ### The law -/

/-- **`main` runs the modes.** Every state of a mode inside `main` is one that the machine of the mode reaches from its
start, on an open connection, with the configuration of the command line. One-shot mode runs just when `-i` was not
given, and a payload was or standard input is no terminal; the pipe runs in place of the session just where standard
input is no terminal or raw mode cannot be entered; in the terminal session the history is what the file in the home
directory holds, or the one here. -/
theorem main_runs_modes (pf : Platform) (raw : RawMode τ) (input output zero : τ) (answers : List Answer) :
    let s₀ := boot input output zero
    let s := run (step pf raw) s₀ answers
    (∀ config sockfd loop, s.phase = .oneshot config sockfd loop → 0 ≤ sockfd ∧
        (∃ a, answers.head? = some a ∧ Chosen a config ∧ config.forceInteractive = false ∧
          (config.isHex = true ∨ config.isAscii = true ∨ a.console.isatty = false)) ∧
        ∃ t b, Called pf raw s₀ answers config sockfd t b ∧
          Reach (Oneshot.step pf config) Free (Oneshot.start config sockfd b.now) loop) ∧
      (∀ sockfd loop, s.phase = .pipe sockfd loop → 0 ≤ sockfd ∧
        Reach (Pipe.step pf sockfd) Free (Pipe.start sockfd) loop ∧
        ∃ config a t b, answers.head? = some a ∧ Chosen a config ∧ (config.forceInteractive = true ∨
            (config.isHex = false ∧ config.isAscii = false ∧ a.console.isatty = true)) ∧
          Called pf raw s₀ answers config sockfd t b ∧
          (b.console.isatty = true → (linenoiseEnableRawMode pf raw b.console t.console).1 = -1)) ∧
      ∀ config sockfd loop, s.phase = .tty config sockfd loop → 0 ≤ sockfd ∧
        (∃ a, answers.head? = some a ∧ Chosen a config ∧ (config.forceInteractive = true ∨
          (config.isHex = false ∧ config.isAscii = false ∧ a.console.isatty = true))) ∧
        ∃ t b path history loop₀, Called pf raw s₀ answers config sockfd t b ∧
          (b.console.isatty = true ∧ (linenoiseEnableRawMode pf raw b.console t.console).1 ≠ -1) ∧
          HistoryPath pf b.env path ∧ Tty.loadHistory (b.files path) = some history ∧
          Tty.start history (b.files path) ((List.range Tty.bufSize).map b.editBuf) = some loop₀ ∧
          TtyReach pf config sockfd loop₀ loop := by
  intro s₀ s
  have hstart : Origin pf raw s₀ [] s₀.phase := rfl
  have horigin : Origin pf raw s₀ answers s.phase :=
    run_invariant (I := fun answers (s : St τ) => Origin pf raw s₀ answers s.phase) hstart
      (fun _ a hs => origin_step hs a) answers
  refine ⟨fun config sockfd loop hphase => ?_, fun sockfd loop hphase => ?_, fun config sockfd loop hphase => ?_⟩
  · rw [hphase] at horigin
    obtain ⟨⟨a, hfirst, hchosen⟩, hfd, hmode, hloop⟩ := horigin
    have hasked := hchosen.oneshot hmode
    exact ⟨hfd, ⟨a, hfirst, hchosen, hasked.1, hasked.2⟩, hloop⟩
  · rw [hphase] at horigin
    obtain ⟨hfd, hreach, config, t, b, ⟨a, hfirst, hchosen⟩, hmode, hcalled, hraw⟩ := horigin
    exact ⟨hfd, hreach, config, a, t, b, hfirst, hchosen, hchosen.mode.mp hmode, hcalled, hraw⟩
  · rw [hphase] at horigin
    obtain ⟨⟨a, hfirst, hchosen⟩, hfd, hmode, t, b, history, loop₀, hcalled, htty, hload, hstart', hreach⟩ := horigin
    obtain ⟨path, hpath, hfile⟩ := histFile_eq pf b
    rw [hfile] at hload hstart'
    exact ⟨hfd, ⟨a, hfirst, hchosen, hchosen.mode.mp hmode⟩, t, b, path, history, loop₀, hcalled, htty, hpath, hload,
      hstart', hreach⟩

/-- `tcp-client -a a h 80` on a terminal is in one-shot mode. -/
theorem main_runs_modes_payload :
    let answers : List Answer :=
      [{ opts := [.ascii (word "a")], positionals := [word "h", word "80"] },
        { resolved := some [⟨3, true, none, .ready, .fail⟩] }, {}, {}]
    ∃ config loop now, (run (step .posix ⟨fun _ => true, id⟩) (boot false false false) answers).phase =
        .oneshot config 3 loop ∧
      config.forceInteractive = false ∧ Reach (Oneshot.step .posix config) Free (Oneshot.start config 3 now) loop := by
  intro answers
  obtain ⟨honeshot, -, -⟩ := main_runs_modes .posix ⟨fun _ => true, id⟩ false false false answers
  have hphase : ∃ config loop, (run (step .posix ⟨fun _ => true, id⟩) (boot false false false) answers).phase =
      .oneshot config 3 loop := ⟨_, _, rfl⟩
  obtain ⟨config, loop, hphase⟩ := hphase
  obtain ⟨-, ⟨-, -, -, hforce, -⟩, t, b, -, hreach⟩ := honeshot config 3 loop hphase
  exact ⟨config, loop, b.now, hphase, hforce, hreach⟩

end TcpClient.Main
