import TcpClient.Compat

/-!
# The mode of the terminal

Who changes the attributes of the terminal, and who changes them back: `linenoiseEnableRawMode` and
`linenoiseDisableRawMode`, and `setup_signal_handlers`, which saves the attributes at the start; each has
a function that is called at exit. On Windows the console has a mode for its input and one for its output.

What the attributes are is left open; raw mode is a function of them (`RawMode`).

## What is proved

* `Tame.disable`, `Tame.exit` — after `linenoiseDisableRawMode`, and after the functions called at exit wherever the
  program stops, the attributes are those it found, if they can be set.
-/

namespace TcpClient

universe u

variable {τ : Type u}

/-- A function registered with `atexit`. -/
inductive AtExit where
  | restoreTerminal
  | linenoiseAtExit
  deriving DecidableEq, Repr

/-- The attributes in force, and the static variables about them. -/
structure Console (τ : Type u) where
  /-- The attributes of the terminal, or the mode of the console's input. -/
  input : τ
  /-- The mode of the console's output (Windows). -/
  output : τ
  rawmode : Bool := false
  /-- `orig_termios`, or `orig_stdin_mode`. -/
  origInput : τ
  /-- `orig_stdout_mode`. -/
  origOutput : τ
  gOrigTermios : τ
  gTermiosSaved : Bool := false
  /-- The functions to be called at exit, the last registered first. -/
  atExit : List AtExit := []

/-- What raw mode makes of the attributes. -/
structure RawMode (τ : Type u) where
  input : τ → τ
  output : τ → τ

/-- What the calls about the terminal answer, in one block. -/
structure ConsoleAns where
  isatty : Bool := true
  /-- `tcgetattr`, or `GetStdHandle` and `GetConsoleMode` for the input, succeeds. -/
  getInput : Bool := true
  /-- `GetConsoleMode` for the output succeeds. -/
  getOutput : Bool := true
  /-- `tcsetattr`, or `SetConsoleMode` for the input, succeeds. -/
  setInput : Bool := true
  /-- `SetConsoleMode` for the output succeeds. -/
  setOutput : Bool := true
  deriving DecidableEq, Repr

/-- The program has been started on a terminal with the attributes `input` and `output`; its static variables are
`zero`. -/
def Console.boot (input output zero : τ) : Console τ :=
  { input := input, output := output, origInput := zero, origOutput := zero, gOrigTermios := zero }

/-- `setup_signal_handlers`, as far as it is about the terminal. -/
def setupSignalHandlers (pf : Platform) (a : ConsoleAns) (c : Console τ) : Console τ :=
  match pf with
  | .posix =>
    if a.isatty && a.getInput then
      { c with gOrigTermios := c.input, gTermiosSaved := true, atExit := .restoreTerminal :: c.atExit }
    else c
  | .windows => c

/-- `rawmode = 1`, and `atexit(linenoiseAtExit)` the first time. -/
def Console.entered (c : Console τ) : Console τ :=
  { c with
    rawmode := true
    atExit := if .linenoiseAtExit ∈ c.atExit then c.atExit else .linenoiseAtExit :: c.atExit }

/-- `linenoiseEnableRawMode(fd)`. -/
def linenoiseEnableRawMode (pf : Platform) (raw : RawMode τ) (a : ConsoleAns) (c : Console τ) : ℤ × Console τ :=
  if c.rawmode then (0, c)
  else
    match pf with
    | .posix =>
      if !a.isatty || !a.getInput then (-1, c)
      else if !a.setInput then (-1, { c with origInput := c.input })
      else (0, { c with origInput := c.input, input := raw.input c.input }.entered)
    | .windows =>
      if !a.getInput then (-1, c)
      else if !a.getOutput then (-1, { c with origInput := c.input })
      else if !a.setInput then (-1, { c with origInput := c.input, origOutput := c.output })
      else
        (0, { c with
          origInput := c.input
          origOutput := c.output
          input := raw.input c.input
          -- whether this succeeds is not looked at
          output := if a.setOutput then raw.output c.output else c.output }.entered)

/-- `linenoiseDisableRawMode(fd)`. -/
def linenoiseDisableRawMode (pf : Platform) (a : ConsoleAns) (c : Console τ) : Console τ :=
  if !c.rawmode then c
  else
    match pf with
    | .posix => { c with input := if a.setInput then c.origInput else c.input, rawmode := false }
    | .windows =>
      { c with
        input := if a.setInput then c.origInput else c.input
        output := if a.setOutput then c.origOutput else c.output
        rawmode := false }

/-- A function called at exit: `restore_terminal`, or `linenoiseAtExit`. -/
def AtExit.call (pf : Platform) (a : ConsoleAns) (c : Console τ) : AtExit → Console τ
  | .restoreTerminal => if c.gTermiosSaved && a.setInput then { c with input := c.gOrigTermios } else c
  | .linenoiseAtExit => linenoiseDisableRawMode pf a c

/-- `exit`: the registered functions are called, the last one first. -/
def Console.exit (pf : Platform) (a : ConsoleAns) (c : Console τ) : Console τ := c.atExit.foldl (AtExit.call pf a) c

/-! ### What is kept -/

/-- The attributes found at the start, `input` and `output`, are in force unless raw mode is on, and then they are
saved, and will be set again at exit. -/
structure Tame (pf : Platform) (input output : τ) (c : Console τ) : Prop where
  cooked : c.rawmode = false → c.input = input ∧ c.output = output
  saved : c.rawmode = true → c.origInput = input ∧ .linenoiseAtExit ∈ c.atExit
  output : c.rawmode = true → match pf with
    | .posix => c.output = output
    | .windows => c.origOutput = output
  termios : c.gTermiosSaved = true → c.gOrigTermios = input

section Tame

variable {pf : Platform} {raw : RawMode τ} {a : ConsoleAns} {input output : τ} {c : Console τ}

theorem tame_boot (pf : Platform) (input output zero : τ) : Tame pf input output (.boot input output zero) :=
  ⟨fun _ => ⟨rfl, rfl⟩, Bool.noConfusion, Bool.noConfusion, Bool.noConfusion⟩

/-- The start saves the attributes. -/
theorem Tame.setup (h : Tame pf input output c) (hraw : c.rawmode = false) (a : ConsoleAns) :
    Tame pf input output (setupSignalHandlers pf a c) ∧ (setupSignalHandlers pf a c).rawmode = false := by
  cases pf with
  | windows => exact ⟨h, hraw⟩
  | posix =>
    rw [setupSignalHandlers]
    split_ifs
    · refine ⟨⟨h.cooked, fun hon => ?_, h.output, fun _ => (h.cooked hraw).1⟩, hraw⟩
      exact absurd hon (by simp [hraw])
    · exact ⟨h, hraw⟩

/-- `linenoiseAtExit` is registered, once. -/
theorem Console.mem_atExit_entered (c : Console τ) : .linenoiseAtExit ∈ c.entered.atExit := by
  rw [Console.entered]
  split_ifs with hmem
  · exact hmem
  · exact List.mem_cons_self

/-- **Raw mode** is entered with the attributes saved, or not at all. -/
theorem Tame.enable (h : Tame pf input output c) (hraw : c.rawmode = false) (raw : RawMode τ) (a : ConsoleAns) :
    Tame pf input output (linenoiseEnableRawMode pf raw a c).2 ∧
      ((linenoiseEnableRawMode pf raw a c).1 = 0 ∧ (linenoiseEnableRawMode pf raw a c).2.rawmode = true ∧
          (linenoiseEnableRawMode pf raw a c).2.input = raw.input input ∨
        (linenoiseEnableRawMode pf raw a c).1 = -1 ∧ (linenoiseEnableRawMode pf raw a c).2.rawmode = false) := by
  obtain ⟨hin, hout⟩ := h.cooked hraw
  have hoff : ∀ {i o : τ}, Tame pf input output { c with origInput := i, origOutput := o } := by
    intro i o
    refine ⟨h.cooked, fun hon => ?_, fun hon => ?_, h.termios⟩ <;> exact absurd hon (by simp [hraw])
  unfold linenoiseEnableRawMode
  rw [if_neg (by simp [hraw])]
  cases pf with
  | posix =>
    dsimp only
    split_ifs
    · exact ⟨h, .inr ⟨rfl, hraw⟩⟩
    · exact ⟨hoff, .inr ⟨rfl, hraw⟩⟩
    · refine ⟨⟨Bool.noConfusion, fun _ => ⟨hin, Console.mem_atExit_entered _⟩, fun _ => hout, h.termios⟩,
        .inl ⟨rfl, rfl, ?_⟩⟩
      exact congrArg raw.input hin
  | windows =>
    dsimp only
    split_ifs
    · exact ⟨h, .inr ⟨rfl, hraw⟩⟩
    · exact ⟨hoff, .inr ⟨rfl, hraw⟩⟩
    · exact ⟨hoff, .inr ⟨rfl, hraw⟩⟩
    · refine ⟨⟨Bool.noConfusion, fun _ => ⟨hin, Console.mem_atExit_entered _⟩, fun _ => hout, h.termios⟩,
        .inl ⟨rfl, rfl, ?_⟩⟩
      exact congrArg raw.input hin
    · refine ⟨⟨Bool.noConfusion, fun _ => ⟨hin, Console.mem_atExit_entered _⟩, fun _ => hout, h.termios⟩,
        .inl ⟨rfl, rfl, ?_⟩⟩
      exact congrArg raw.input hin

/-- **Raw mode is left.** -/
theorem Tame.disable (h : Tame pf input output c) (hset : a.setInput = true ∧ a.setOutput = true) :
    Tame pf input output (linenoiseDisableRawMode pf a c) ∧ (linenoiseDisableRawMode pf a c).rawmode = false := by
  unfold linenoiseDisableRawMode
  cases hraw : c.rawmode with
  | false => exact ⟨h, hraw⟩
  | true =>
    have hin := (h.saved hraw).1
    have hout := h.output hraw
    rw [if_neg (by simp)]
    cases pf with
    | posix =>
      dsimp only
      rw [if_pos hset.1]
      exact ⟨⟨fun _ => ⟨hin, hout⟩, Bool.noConfusion, Bool.noConfusion, h.termios⟩, rfl⟩
    | windows =>
      dsimp only
      rw [if_pos hset.1, if_pos hset.2]
      exact ⟨⟨fun _ => ⟨hin, hout⟩, Bool.noConfusion, Bool.noConfusion, h.termios⟩, rfl⟩

/-- A function called at exit leaves raw mode off where it is off. -/
theorem Tame.call (h : Tame pf input output c) (hset : a.setInput = true ∧ a.setOutput = true) (f : AtExit) :
    Tame pf input output (f.call pf a c) ∧
      ((c.rawmode = false ∨ f = .linenoiseAtExit) → (f.call pf a c).rawmode = false) := by
  cases f with
  | linenoiseAtExit =>
    obtain ⟨htame, hoff⟩ := h.disable hset
    exact ⟨htame, fun _ => hoff⟩
  | restoreTerminal =>
    rw [AtExit.call]
    split_ifs with hsaved
    · rw [Bool.and_eq_true] at hsaved
      refine ⟨⟨fun hoff => ⟨h.termios hsaved.1, (h.cooked hoff).2⟩, h.saved, h.output, h.termios⟩, ?_⟩
      rintro (hoff | hne)
      · exact hoff
      · cases hne
    · refine ⟨h, ?_⟩
      rintro (hoff | hne)
      · exact hoff
      · cases hne

/-- **At exit** the attributes are those found at the start, wherever the program stopped. -/
theorem Tame.exit (h : Tame pf input output c) (hset : a.setInput = true ∧ a.setOutput = true) :
    (c.exit pf a).input = input ∧ (c.exit pf a).output = output := by
  have hall : ∀ (fs : List AtExit) (c : Console τ), Tame pf input output c →
      (c.rawmode = false ∨ .linenoiseAtExit ∈ fs) →
        Tame pf input output (fs.foldl (AtExit.call pf a) c) ∧ (fs.foldl (AtExit.call pf a) c).rawmode = false := by
    intro fs
    induction fs with
    | nil =>
      rintro c hc (hoff | hmem)
      · exact ⟨hc, hoff⟩
      · cases hmem
    | cons f fs ih =>
      intro c hc hor
      obtain ⟨htame, hoff⟩ := hc.call hset f
      refine ih _ htame ?_
      rcases hor with hraw | hmem
      · exact .inl (hoff (.inl hraw))
      · cases List.mem_cons.mp hmem with
        | inl heq => exact .inl (hoff (.inr heq.symm))
        | inr hrest => exact .inr hrest
  have hor : c.rawmode = false ∨ .linenoiseAtExit ∈ c.atExit := by
    cases hraw : c.rawmode with
    | false => exact .inl rfl
    | true => exact .inr (h.saved hraw).2
  obtain ⟨htame, hoff⟩ := hall c.atExit c h hor
  exact htame.cooked hoff

end Tame

end TcpClient
