import TcpClient.Main
import TcpClient.ModeSteps

/-!
# What the whole program does

What holds in a phase of `main` (`PhaseSound`) is kept by every block; from this it is read off with which code `main`
returns, and that it gives everything back.

## What is proved

* `main_exit_codes` — no call of a run is undefined, and `main` returns a code just where there is a cause for
  it (`ExitCause`), the last of which is that the mode has returned that code (`Phase.Finished`).
* `main_gives_back` — the descriptors that are open are those the phase holds, and at the end there are none.
* `main_restores_terminal` — the terminal is in raw mode in the terminal session and never else, and is left as it was
  found.
-/

namespace TcpClient

open Machine

namespace Main

variable {τ : Type} {pf : Platform} {raw : RawMode τ} {a : Answer} {s : St τ} {sockfd : ℤ} {config : CliConfig}

/-! ### The terminal session, in either build -/

/-- The loop of this build, and the POSIX loop that it follows. -/
def Follows : Platform → Tty.St → Tty.St → Prop
  | .posix, loop, p => p = loop
  | .windows, loop, p => WinTty.Matches loop p

/-- The terminal session keeps its history, and returns only what it may. -/
def TtySound (pf : Platform) (loop : Tty.St) : Prop :=
  ∃ text p, Follows pf loop p ∧ Tty.Remembers Tty.bufSize (Tty.loaded text) text p ∧ Tty.Returns p

theorem TtySound.step {loop : Tty.St} (h : TtySound pf loop) (a : Answer) (config : CliConfig) (sockfd : ℤ) :
    TtySound pf (ttyStep pf a config sockfd loop) := by
  obtain ⟨text, p, hfollows, hp⟩ := h
  have hnext : ∀ p b, Tty.Remembers Tty.bufSize (Tty.loaded text) text p ∧ Tty.Returns p →
      Tty.Remembers Tty.bufSize (Tty.loaded text) text (Tty.step sockfd (connectionOf config) p b) ∧
        Tty.Returns (Tty.step sockfd (connectionOf config) p b) := fun p b hp =>
    ⟨hp.1.next le_rfl sockfd (connectionOf config) b, hp.2.step sockfd (connectionOf config) b⟩
  cases pf with
  | posix =>
    obtain rfl : p = loop := hfollows
    exact ⟨text, _, rfl, hnext p a.tty hp⟩
  | windows =>
    obtain ⟨bs, hmatch⟩ := WinTty.Matches.step hfollows sockfd (connectionOf config) a.winTty
    exact ⟨text, _, hmatch, (reach_free_run p bs).invariant (I := fun p =>
      Tty.Remembers Tty.bufSize (Tty.loaded text) text p ∧ Tty.Returns p) hp fun p b hp _ => hnext p b hp⟩

theorem TtySound.ends {loop : Tty.St} (h : TtySound pf loop) :
    loop.pc ≠ .fault ∧ ∀ rc, loop.pc = .done rc → rc ∈ [0, 5] := by
  obtain ⟨text, p, hfollows, hremembers, hreturns⟩ := h
  cases pf with
  | posix =>
    obtain rfl : p = loop := hfollows
    exact ⟨hremembers.no_fault, hreturns⟩
  | windows =>
    refine ⟨fun hpc => hremembers.no_fault ?_, fun rc hpc => hreturns rc ?_⟩
    · exact (WinTty.Matches.pc_iff hfollows (.inl rfl)).mp hpc
    · exact (WinTty.Matches.pc_iff hfollows (.inr ⟨rc, rfl⟩)).mp hpc

/-- The Windows loop waits for no key. -/
theorem TtySound.ne_stdin {loop : Tty.St} (h : TtySound .windows loop) : loop.pc ≠ .stdin := by
  intro hpc
  obtain ⟨text, p, hfollows, -⟩ := h
  obtain ⟨r₁, r₂, q, -, hplace⟩ : WinTty.Matches loop p := hfollows
  rw [hpc] at hplace
  exact hplace

/-- The session starts, with what the history file holds. -/
theorem ttySound_start (pf : Platform) (text : Option (List Byte)) (editBuf : ℕ → Byte) :
    ∃ history loop freed, Tty.loadHistory text = some history ∧ linenoiseHistoryFree history = some freed ∧
      Tty.start history text ((List.range Tty.bufSize).map editBuf) = some loop ∧ loop.pc = .poll ∧
      TtySound pf loop := by
  obtain ⟨history, hload, hmax, hh⟩ := Tty.loadHistory_holds text
  obtain ⟨freed, hfree, -, -⟩ := linenoiseHistoryFree_holds hh
  have hlen : ((List.range Tty.bufSize).map editBuf).length = Tty.bufSize := by
    rw [List.length_map, List.length_range]
  have hone : 1 ≤ Tty.bufSize := by decide
  obtain ⟨loop, hstart, hpc, hremembers⟩ := Tty.remembers_start hmax hh (hlen ▸ hone) text
  rw [hlen] at hremembers
  refine ⟨history, loop, freed, hload, hfree, hstart, hpc, text, loop, ?_, hremembers, fun rc hrc => ?_⟩
  · cases pf with
    | posix => rfl
    | windows => exact WinTty.matches_withRevents (by simp [hpc]) loop.stdinRev loop.sockRev
  · rw [hpc] at hrc
    cases hrc

/-! ### The phases -/

/-- Why `main` returns what it returns. -/
inductive ExitCause (pf : Platform) (a : Answer) : Phase → ℤ → Prop where
  | platform : platformInit pf a = false → ExitCause pf a .start 5
  | rejected (stderr : List Byte) :
    platformInit pf a = true → parseCliArgs a.opts a.positionals = .rejected stderr → ExitCause pf a .start 1
  /-- Help, or the version, is what is asked for. -/
  | answered (config : CliConfig) :
    platformInit pf a = true → parseCliArgs a.opts a.positionals = .accepted config →
      config.showHelp = true ∨ config.showVersion = true → ExitCause pf a .start 0
  | unresolved (config : CliConfig) : a.resolved = none → ExitCause pf a (.connect config) 2
  /-- No address connects; the last one that had a socket says why. -/
  | unconnected (config : CliConfig) (addrs : List Attempt) :
    a.resolved = some addrs → (∀ addr ∈ addrs, addr.succeeds pf = false) →
      ExitCause pf a (.connect config) (-lastErrorOf pf addrs socketErrRefused)
  | returned (sockfd resultCode : ℤ) :
    resultCode ∈ [0, 4, 5] → ExitCause pf a (.close sockfd resultCode) resultCode

/-- The codes are those of the manual. -/
theorem ExitCause.code {phase : Phase} {code : ℤ} (h : ExitCause pf a phase code) : code ∈ [0, 1, 2, 3, 4, 5] := by
  cases h with
  | platform _ => simp
  | rejected _ _ _ => simp
  | answered _ _ _ _ => simp
  | unresolved _ _ => simp
  | unconnected _ addrs _ _ =>
    have hclass := lastErrorOf_mem pf addrs (show socketErrRefused ∈ _ from List.mem_cons_self)
    simp only [List.mem_cons, List.not_mem_nil, or_false] at hclass
    rcases hclass with h | h | h <;> rw [h] <;> decide
  | returned _ _ hrc =>
    simp only [List.mem_cons, List.not_mem_nil, or_false] at hrc
    rcases hrc with rfl | rfl | rfl <;> simp

/-- What holds in a phase. -/
def PhaseSound (pf : Platform) : Phase → Prop
  | .start => True
  | .connect config => NeverRejected config
  | .mode config sockfd => 0 ≤ sockfd ∧ NeverRejected config
  | .oneshot _ sockfd loop => 0 ≤ sockfd ∧ Oneshot.Returns loop
  | .pipe sockfd loop =>
    0 ≤ sockfd ∧ Pipe.Room loop ∧ loop.pc ≠ .fault ∧ Pipe.Returns loop ∧ loop.pc.left ≤ Pipe.bufSize + 4
  | .tty _ sockfd loop => 0 ≤ sockfd ∧ TtySound pf loop
  | .close sockfd resultCode => 0 ≤ sockfd ∧ resultCode ∈ [0, 4, 5]
  | .exited code => code ∈ [0, 1, 2, 3, 4, 5]
  | .fault => False

/-- There is one cause at a time. -/
theorem ExitCause.unique {phase : Phase} {code code' : ℤ} (h : ExitCause pf a phase code)
    (h' : ExitCause pf a phase code') : code = code' := by
  cases h with
  | platform hinit =>
    cases h' with
    | platform _ => rfl
    | rejected _ hinit' _ | answered _ hinit' _ _ => exact absurd (hinit.symm.trans hinit') (by simp)
  | rejected _ hinit hparse =>
    cases h' with
    | platform hinit' => exact absurd (hinit.symm.trans hinit') (by simp)
    | rejected _ _ _ => rfl
    | answered _ _ hparse' _ => exact absurd (hparse.symm.trans hparse') (by simp)
  | answered _ hinit hparse _ =>
    cases h' with
    | platform hinit' => exact absurd (hinit.symm.trans hinit') (by simp)
    | rejected _ _ hparse' => exact absurd (hparse.symm.trans hparse') (by simp)
    | answered _ _ _ _ => rfl
  | unresolved _ hres =>
    cases h' with
    | unresolved _ _ => rfl
    | unconnected _ _ hres' _ => exact absurd (hres.symm.trans hres') (by simp)
  | unconnected _ _ hres _ =>
    cases h' with
    | unresolved _ hres' => exact absurd (hres.symm.trans hres') (by simp)
    | unconnected _ _ hres' _ =>
      cases hres.symm.trans hres'
      rfl
  | returned _ _ _ =>
    cases h' with
    | returned _ _ _ => rfl

/-- A block leads from `phase` to `next`: what holds in a phase holds, and `main` has returned just for the causes there
are. -/
def Leads (pf : Platform) (a : Answer) (phase next : Phase) : Prop :=
  PhaseSound pf next ∧ ∀ code, next = .exited code ↔ ExitCause pf a phase code

theorem ExitCause.leads {phase : Phase} {code : ℤ} (h : ExitCause pf a phase code) :
    Leads pf a phase (.exited code) := by
  refine ⟨h.code, fun code' => ⟨fun heq => ?_, fun h' => congrArg Phase.exited (h.unique h')⟩⟩
  cases heq
  exact h

/-- A block that `main` does not return from. -/
theorem leads_of_running {phase next : Phase} (hsound : PhaseSound pf next) (hnext : ∀ code, next ≠ .exited code)
    (hphase : ∀ code, ¬ ExitCause pf a phase code) : Leads pf a phase next :=
  ⟨hsound, fun code => ⟨fun heq => absurd heq (hnext code), fun hcause => absurd hcause (hphase code)⟩⟩

/-- `MODE_AUTO` is decided; nothing else changes. -/
theorem neverRejected_chooseMode (stdinIsTty : Bool) (h : NeverRejected config) :
    NeverRejected (chooseMode stdinIsTty config) := by
  have hmode : ∀ mode, NeverRejected { config with mode := mode } := fun mode =>
    ⟨h.connect, h.timeout, h.invalidHex, h.asciiLen, h.hexGivesWay, h.hexRoom, h.hexLen⟩
  unfold chooseMode
  split_ifs
  · exact hmode _
  · exact hmode _
  · exact hmode _
  · exact h

theorem leads_startBlock (pf : Platform) (a : Answer) (s : St τ) : Leads pf a .start (startBlock pf a s).phase := by
  unfold startBlock
  cases hinit : platformInit pf a with
  | false => exact (ExitCause.platform hinit).leads
  | true =>
    rw [if_neg (by simp)]
    dsimp only
    cases hparse : parseCliArgs a.opts a.positionals with
    | rejected stderr => exact (ExitCause.rejected stderr hinit hparse).leads
    | accepted config =>
      dsimp only
      split_ifs with hhelp hversion
      · exact (ExitCause.answered config hinit hparse (.inl hhelp)).leads
      · exact (ExitCause.answered config hinit hparse (.inr hversion)).leads
      · rw [Bool.not_eq_true] at hhelp hversion
        obtain ⟨hw, hhost, hport⟩ := parseCliArgs_inRange hparse hhelp hversion
        have hnever := (hw.accepted hhost hport).neverRejected
        have hmode := neverRejected_chooseMode a.console.isatty hnever
        refine leads_of_running hmode (fun code => Phase.noConfusion) fun code hcause => ?_
        cases hcause with
        | platform hinit' => exact absurd (hinit.symm.trans hinit') (by simp)
        | rejected _ _ hparse' => exact absurd (hparse.symm.trans hparse') (by simp)
        | answered _ _ hparse' hasked =>
          cases hparse.symm.trans hparse'
          simp [hhelp, hversion] at hasked

theorem leads_connectBlock (pf : Platform) (a : Answer) (hnever : NeverRejected config) (s : St τ) :
    Leads pf a (.connect config) (connectBlock pf a config s).phase := by
  unfold connectBlock socketConnect
  rw [hnever.connect]
  dsimp only
  cases hres : a.resolved with
  | none => exact (ExitCause.unresolved config hres).leads
  | some addrs =>
    dsimp only
    rcases connectLoop_cases pf addrs socketErrRefused with ⟨addr, hmem, hsucceeds, hfd, -⟩ | ⟨hall, hfd, -⟩
    · have hnonneg := Attempt.socket_nonneg hsucceeds
      rw [hfd, if_neg (not_lt.mpr hnonneg)]
      refine leads_of_running ⟨hnonneg, hnever⟩ (fun code => Phase.noConfusion) fun code hcause => ?_
      cases hcause with
      | unresolved _ hres' => exact absurd (hres.symm.trans hres') (by simp)
      | unconnected _ _ hres' hnone =>
        cases hres.symm.trans hres'
        exact absurd (hsucceeds.symm.trans (hnone addr hmem)) (by simp)
    · have hneg := lastErrorOf_neg pf addrs (show socketErrRefused < 0 by decide)
      rw [hfd, if_pos hneg]
      exact (ExitCause.unconnected config addrs hres hall).leads

/-- Nothing of the start of the terminal session is undefined. -/
theorem startTty_eq (pf : Platform) (raw : RawMode τ) (a : Answer) (config : CliConfig) (sockfd : ℤ) (s : St τ) :
    ∃ history loop, Tty.loadHistory (histFile pf a) = some history ∧
      Tty.start history (histFile pf a) ((List.range Tty.bufSize).map a.editBuf) = some loop ∧
      loop.pc = .poll ∧ TtySound pf loop ∧
      startTty pf raw a config sockfd s =
        some { s with
          console := (linenoiseEnableRawMode pf raw a.console s.console).2
          phase :=
            if (linenoiseEnableRawMode pf raw a.console s.console).1 = -1 then .pipe sockfd (Pipe.start sockfd)
            else .tty config sockfd loop } := by
  obtain ⟨history, loop, freed, hload, hfree, hstart, hpc, hsound⟩ := ttySound_start pf (histFile pf a) a.editBuf
  refine ⟨history, loop, hload, hstart, hpc, hsound, ?_⟩
  rw [startTty, hload, Option.bind_eq_bind, Option.bind_some]
  dsimp only
  split_ifs
  · rw [hfree]
    rfl
  · rw [hstart]
    rfl

theorem leads_modeBlock (pf : Platform) (raw : RawMode τ) (a : Answer) (hfd : 0 ≤ sockfd)
    (hnever : NeverRejected config) (s : St τ) :
    Leads pf a (.mode config sockfd) (modeBlock pf raw a config sockfd s).phase := by
  have hno : ∀ code, ¬ ExitCause pf a (.mode config sockfd) code := fun code hcause => by cases hcause
  have hpipe : PhaseSound pf (.pipe sockfd (Pipe.start sockfd)) := by
    have hstart : Pipe.start sockfd = { log := [.stdout Pipe.prompt] } := if_neg (not_lt.mpr hfd)
    rw [hstart]
    refine ⟨hfd, fun hne => absurd rfl hne, Pipe.Pc.noConfusion, ?_, Nat.le_add_left 1 _⟩
    intro rc hrc
    cases hrc
  unfold modeBlock
  split_ifs with hmode hneg htty
  · exact absurd hfd (not_le.mpr hneg)
  · exact leads_of_running hpipe (fun code => Phase.noConfusion) hno
  · obtain ⟨-, loop, -, -, -, hsound, heq⟩ := startTty_eq pf raw a config sockfd s
    rw [heq, Option.getD_some]
    dsimp only
    split_ifs
    · exact leads_of_running hpipe (fun code => Phase.noConfusion) hno
    · exact leads_of_running ⟨hfd, hsound⟩ (fun code => Phase.noConfusion) hno
  · exact leads_of_running ⟨hfd, (Oneshot.returns_start hfd (hnever.invalidHex sockfd) a.now).1⟩
      (fun code => Phase.noConfusion) hno

theorem leads_oneshotBlock (a : Answer) {loop : Oneshot.St} (h : PhaseSound pf (.oneshot config sockfd loop))
    (s : St τ) : Leads pf a (.oneshot config sockfd loop) (oneshotBlock pf a config sockfd loop s).phase := by
  have hno : ∀ code, ¬ ExitCause pf a (.oneshot config sockfd loop) code := fun code hcause => by cases hcause
  obtain ⟨hfd, hloop⟩ := h
  unfold oneshotBlock
  split
  · rename_i rc hpc
    exact leads_of_running ⟨hfd, hloop rc hpc⟩ (fun code => Phase.noConfusion) hno
  · exact leads_of_running ⟨hfd, hloop.step pf config a.oneshot⟩ (fun code => Phase.noConfusion) hno

theorem leads_pipeBlock (a : Answer) {loop : Pipe.St} (h : PhaseSound pf (.pipe sockfd loop)) (s : St τ) :
    Leads pf a (.pipe sockfd loop) (pipeBlock pf a sockfd loop s).phase := by
  have hno : ∀ code, ¬ ExitCause pf a (.pipe sockfd loop) code := fun code hcause => by cases hcause
  obtain ⟨hfd, hroom, hfault, hreturns, hleft⟩ := h
  unfold pipeBlock
  split
  · rename_i rc hpc
    have hrc := hreturns rc hpc
    simp only [List.mem_cons, List.not_mem_nil, or_false] at hrc
    refine leads_of_running ⟨hfd, ?_⟩ (fun code => Phase.noConfusion) hno
    rcases hrc with rfl | rfl <;> simp
  · rename_i hpc
    exact absurd hpc hfault
  · have hnext : PhaseSound pf (.pipe sockfd (Pipe.step pf sockfd loop a.pipe)) :=
      ⟨hfd, Pipe.room_step pf sockfd a.pipe hroom, Pipe.step_ne_fault pf sockfd a.pipe hroom hfault,
        hreturns.step hroom pf sockfd a.pipe, (Pipe.step_leads hroom pf sockfd a.pipe).left_le hleft⟩
    exact leads_of_running hnext (fun code => Phase.noConfusion) hno

theorem leads_ttyBlock (a : Answer) {loop : Tty.St} (h : PhaseSound pf (.tty config sockfd loop)) (s : St τ) :
    Leads pf a (.tty config sockfd loop) (ttyBlock pf a config sockfd loop s).phase := by
  have hno : ∀ code, ¬ ExitCause pf a (.tty config sockfd loop) code := fun code hcause => by cases hcause
  obtain ⟨hfd, hloop⟩ := h
  unfold ttyBlock
  split
  · rename_i rc hpc
    have hrc := hloop.ends.2 rc hpc
    simp only [List.mem_cons, List.not_mem_nil, or_false] at hrc
    refine leads_of_running ⟨hfd, ?_⟩ (fun code => Phase.noConfusion) hno
    rcases hrc with rfl | rfl <;> simp
  · rename_i hpc
    exact absurd hpc hloop.ends.1
  · exact leads_of_running ⟨hfd, hloop.step a config sockfd⟩ (fun code => Phase.noConfusion) hno

/-- **A step.** -/
theorem leads_step (raw : RawMode τ) (h : PhaseSound pf s.phase) (hrun : ∀ code, s.phase ≠ .exited code) (a : Answer) :
    Leads pf a s.phase (step pf raw s a).phase := by
  unfold step
  cases hphase : s.phase with
  | start => exact leads_startBlock pf a s
  | connect config =>
    rw [hphase] at h
    exact leads_connectBlock pf a h s
  | mode config sockfd =>
    rw [hphase] at h
    exact leads_modeBlock pf raw a h.1 h.2 s
  | oneshot config sockfd loop =>
    rw [hphase] at h
    exact leads_oneshotBlock a h s
  | pipe sockfd loop =>
    rw [hphase] at h
    exact leads_pipeBlock a h s
  | tty config sockfd loop =>
    rw [hphase] at h
    exact leads_ttyBlock a h s
  | close sockfd resultCode =>
    rw [hphase] at h
    exact (ExitCause.returned sockfd resultCode h.2).leads
  | exited code => exact absurd hphase (hrun code)
  | fault =>
    rw [hphase] at h
    exact h.elim

/-- The mode that runs in a phase has returned `rc`, and is done with `sockfd`. -/
def Phase.Finished : Phase → ℤ → ℤ → Prop
  | .oneshot _ fd loop, sockfd, rc => fd = sockfd ∧ loop.pc = .done rc
  | .pipe fd loop, sockfd, rc => fd = sockfd ∧ loop.pc = .done rc
  | .tty _ fd loop, sockfd, rc => fd = sockfd ∧ loop.pc = .done rc
  | _, _, _ => False

/-- **The connection is closed, with a result, just when the mode has returned that result.** -/
theorem close_iff (raw : RawMode τ) (h : PhaseSound pf s.phase) (a : Answer) (fd rc : ℤ) :
    (step pf raw s a).phase = .close fd rc ↔ s.phase.Finished fd rc := by
  unfold step
  cases hphase : s.phase with
  | start =>
    refine iff_of_false ?_ id
    dsimp only
    unfold startBlock
    split_ifs
    · exact Phase.noConfusion
    · dsimp only
      split
      · exact Phase.noConfusion
      · split_ifs
        · exact Phase.noConfusion
        · exact Phase.noConfusion
        · exact not_false
  | connect config =>
    refine iff_of_false ?_ id
    dsimp only
    unfold connectBlock
    dsimp only
    split_ifs
    · exact Phase.noConfusion
    · exact not_false
  | mode config sockfd =>
    rw [hphase] at h
    refine iff_of_false ?_ id
    dsimp only
    unfold modeBlock
    split_ifs with hmode hneg htty
    · exact absurd h.1 (not_le.mpr hneg)
    · exact not_false
    · obtain ⟨-, loop, -, -, -, -, heq⟩ := startTty_eq pf raw a config sockfd s
      rw [heq, Option.getD_some]
      dsimp only
      split_ifs <;> exact not_false
    · exact not_false
  | oneshot config sockfd loop =>
    dsimp only
    unfold oneshotBlock Phase.Finished
    split
    · rename_i rc' hpc
      simp [hpc]
    · rename_i hnot
      exact iff_of_false Phase.noConfusion fun hdone => hnot rc hdone.2
  | pipe sockfd loop =>
    dsimp only
    unfold pipeBlock Phase.Finished
    split
    · rename_i rc' hpc
      simp [hpc]
    · rename_i hpc
      exact iff_of_false Phase.noConfusion fun hdone => by simp [hpc] at hdone
    · rename_i hnot _
      exact iff_of_false Phase.noConfusion fun hdone => hnot rc hdone.2
  | tty config sockfd loop =>
    dsimp only
    unfold ttyBlock Phase.Finished
    split
    · rename_i rc' hpc
      simp [hpc]
    · rename_i hpc
      exact iff_of_false Phase.noConfusion fun hdone => by simp [hpc] at hdone
    · rename_i hnot _
      exact iff_of_false Phase.noConfusion fun hdone => hnot rc hdone.2
  | close sockfd resultCode => exact iff_of_false Phase.noConfusion id
  | exited code => exact iff_of_false (by simp [hphase]) id
  | fault => exact iff_of_false (by simp [hphase]) id

/-- The start of the program, on a terminal with these attributes. -/
def boot (input output zero : τ) : St τ := { console := .boot input output zero }

theorem phaseSound_step (raw : RawMode τ) (h : PhaseSound pf s.phase) (a : Answer) :
    PhaseSound pf (step pf raw s a).phase := by
  by_cases hrun : ∀ code, s.phase ≠ .exited code
  · exact (leads_step raw h hrun a).1
  · obtain ⟨code, hcode⟩ := not_forall_not.mp hrun
    have hstay : step pf raw s a = s := by rw [step, hcode]
    rw [hstay]
    exact h

theorem reach_phaseSound {A : St τ → Answer → Prop} {input output zero : τ}
    (h : Reach (step pf raw) A (boot input output zero) s) : PhaseSound pf s.phase := by
  have hstart : PhaseSound pf .start := trivial
  exact h.invariant (I := fun s => PhaseSound pf s.phase) hstart fun s a hs _ => phaseSound_step raw hs a

theorem exit_code_range {code : ℤ} (h : PhaseSound pf (.exited code)) : 0 ≤ code ∧ code ≤ 5 := by
  have hmem : code ∈ [0, 1, 2, 3, 4, 5] := h
  simp only [List.mem_cons, List.not_mem_nil, or_false] at hmem
  omega

/-! ### What is given back -/

/-- The descriptors that a phase holds. -/
def Phase.descriptors : Phase → List ℤ
  | .mode _ sockfd => [sockfd]
  | .oneshot _ sockfd _ => [sockfd]
  | .pipe sockfd _ => [sockfd]
  | .tty _ sockfd _ => [sockfd]
  | .close sockfd _ => [sockfd]
  | .start => []
  | .connect _ => []
  | .exited _ => []
  | .fault => []

/-- How often `platform_cleanup` has still to be called. -/
def Phase.initialised : Phase → ℕ
  | .start => 0
  | .exited _ => 0
  | _ => 1

/-- What is open is what the phase holds. -/
structure Owns (s : St τ) : Prop where
  socks : openAfter s.socks [] = some s.phase.descriptors
  inits : s.inits = s.cleanups + s.phase.initialised

theorem Owns.startBlock (h : Owns s) (hphase : s.phase = .start) (a : Answer) : Owns (startBlock pf a s) := by
  obtain ⟨hsocks, hinits⟩ := h
  rw [hphase] at hsocks hinits
  unfold Main.startBlock
  split_ifs
  · exact ⟨hsocks, hinits⟩
  · dsimp only
    split
    · exact ⟨hsocks, congrArg (· + 1) hinits⟩
    · split_ifs
      · exact ⟨hsocks, congrArg (· + 1) hinits⟩
      · exact ⟨hsocks, congrArg (· + 1) hinits⟩
      · exact ⟨hsocks, congrArg (· + 1) hinits⟩

theorem Owns.connectBlock (h : Owns s) (hphase : s.phase = .connect config) (hnever : NeverRejected config)
    (a : Answer) : Owns (connectBlock pf a config s) := by
  obtain ⟨hsocks, hinits⟩ := h
  rw [hphase] at hsocks hinits
  have hlog : ∀ log fds, openAfter log [] = some fds → openAfter (s.socks ++ log) [] = some fds := by
    intro log fds hopen
    rw [openAfter_append, hsocks]
    exact hopen
  unfold Main.connectBlock socketConnect
  rw [hnever.connect]
  dsimp only
  cases a.resolved with
  | none => exact ⟨hlog [] [] rfl, hinits⟩
  | some addrs =>
    dsimp only
    rcases connectLoop_cases pf addrs socketErrRefused with ⟨addr, -, hsucceeds, hfd, hopen⟩ | ⟨-, hfd, hopen⟩
    · rw [if_neg (not_lt.mpr (hfd ▸ Attempt.socket_nonneg hsucceeds))]
      rw [← hfd] at hopen
      exact ⟨hlog _ _ hopen, hinits⟩
    · have hneg := lastErrorOf_neg pf addrs (show socketErrRefused < 0 by decide)
      rw [if_pos (hfd ▸ hneg)]
      exact ⟨hlog _ _ hopen, hinits⟩

/-- A block that opens and closes nothing, in a phase that goes on holding the same. -/
theorem Owns.same {t : St τ} (h : Owns s) (hsocks : t.socks = s.socks) (hinits : t.inits = s.inits)
    (hcleanups : t.cleanups = s.cleanups) (hdescriptors : t.phase.descriptors = s.phase.descriptors)
    (hinitialised : t.phase.initialised = s.phase.initialised) : Owns t :=
  ⟨by rw [hsocks, hdescriptors, h.socks], by rw [hinits, hcleanups, hinitialised, h.inits]⟩

/-- **A step** opens and closes what the phases hold. -/
theorem Owns.step (h : Owns s) (hsound : PhaseSound pf s.phase) (raw : RawMode τ) (a : Answer) :
    Owns (step pf raw s a) := by
  unfold Main.step
  cases hphase : s.phase with
  | start => exact h.startBlock hphase a
  | connect config =>
    rw [hphase] at hsound
    exact h.connectBlock hphase hsound a
  | mode config sockfd =>
    rw [hphase] at hsound
    dsimp only
    unfold modeBlock
    split_ifs with hmode hneg htty
    · exact absurd hsound.1 (not_le.mpr hneg)
    · exact h.same rfl rfl rfl (by rw [hphase]; rfl) (by rw [hphase]; rfl)
    · obtain ⟨-, loop, -, -, -, -, heq⟩ := startTty_eq pf raw a config sockfd s
      rw [heq, Option.getD_some]
      refine h.same rfl rfl rfl ?_ ?_
      · rw [hphase]
        dsimp only
        split_ifs <;> rfl
      · rw [hphase]
        dsimp only
        split_ifs <;> rfl
    · exact h.same rfl rfl rfl (by rw [hphase]; rfl) (by rw [hphase]; rfl)
  | oneshot config sockfd loop =>
    dsimp only
    unfold oneshotBlock
    split <;> exact h.same rfl rfl rfl (by rw [hphase]; rfl) (by rw [hphase]; rfl)
  | pipe sockfd loop =>
    rw [hphase] at hsound
    dsimp only
    unfold pipeBlock
    split
    · exact h.same rfl rfl rfl (by rw [hphase]; rfl) (by rw [hphase]; rfl)
    · rename_i hpc
      exact absurd hpc hsound.2.2.1
    · exact h.same rfl rfl rfl (by rw [hphase]; rfl) (by rw [hphase]; rfl)
  | tty config sockfd loop =>
    rw [hphase] at hsound
    dsimp only
    unfold ttyBlock
    split
    · exact h.same rfl rfl rfl (by rw [hphase]; rfl) (by rw [hphase]; rfl)
    · rename_i hpc
      exact absurd hpc hsound.2.ends.1
    · exact h.same rfl rfl rfl (by rw [hphase]; rfl) (by rw [hphase]; rfl)
  | close sockfd resultCode =>
    obtain ⟨hsocks, hinits⟩ := h
    rw [hphase] at hsocks hinits hsound
    refine ⟨?_, hinits⟩
    show openAfter (s.socks ++ socketClose sockfd) [] = some []
    rw [openAfter_append, hsocks, socketClose, if_pos hsound.1]
    show openAfter [.close sockfd] [sockfd] = some []
    rw [openAfter, if_pos List.mem_cons_self, List.erase_cons_head]
    rfl
  | exited code => exact h
  | fault => exact h

/-! ### The terminal -/

/-- What the terminal is like in a phase: raw in the terminal session, and as it was found in every other. -/
def TerminalAt (pf : Platform) (raw : RawMode τ) (input output : τ) (c : Console τ) : Phase → Prop
  | .tty _ _ _ => Tame pf input output c ∧ c.rawmode = true ∧ c.input = raw.input input
  | .exited _ => c.input = input ∧ c.output = output
  | .fault => False
  | _ => Tame pf input output c ∧ c.rawmode = false

/-- The attributes can be set back: when raw mode is entered they may not be set, but when it is left, and at
exit, they are. -/
def CanRestore (s : St τ) (a : Answer) : Prop :=
  (∀ config sockfd, s.phase ≠ .mode config sockfd) → a.console.setInput = true ∧ a.console.setOutput = true

variable {input output : τ}

theorem terminalAt_step (hsound : PhaseSound pf s.phase) (h : TerminalAt pf raw input output s.console s.phase)
    (ha : CanRestore s a) :
    TerminalAt pf raw input output (step pf raw s a).console (step pf raw s a).phase := by
  unfold step
  cases hphase : s.phase with
  | start =>
    have hset := ha (by simp [hphase])
    rw [hphase] at h
    obtain ⟨htame, hraw⟩ := h
    obtain ⟨hsetup, hraw'⟩ := htame.setup hraw a.console
    dsimp only
    unfold startBlock
    split_ifs
    · exact htame.exit hset
    · dsimp only
      split
      · exact hsetup.exit hset
      · split_ifs
        · exact hsetup.exit hset
        · exact hsetup.exit hset
        · exact ⟨hsetup, hraw'⟩
  | connect config =>
    have hset := ha (by simp [hphase])
    rw [hphase] at h
    dsimp only
    unfold connectBlock
    dsimp only
    split_ifs
    · exact h.1.exit hset
    · exact h
  | mode config sockfd =>
    rw [hphase] at h hsound
    dsimp only
    unfold modeBlock
    split_ifs with hmode hneg htty
    · exact h
    · exact h
    · obtain ⟨-, loop, -, -, -, -, heq⟩ := startTty_eq pf raw a config sockfd s
      rw [heq, Option.getD_some]
      obtain ⟨htame, ⟨hrc, hraw, hin⟩ | ⟨hrc, hraw⟩⟩ := h.1.enable h.2 raw a.console
      · dsimp only
        rw [if_neg (by rw [hrc]; decide)]
        exact ⟨htame, hraw, hin⟩
      · dsimp only
        rw [if_pos hrc]
        exact ⟨htame, hraw⟩
    · exact h
  | oneshot config sockfd loop =>
    rw [hphase] at h
    dsimp only
    unfold oneshotBlock
    split <;> exact h
  | pipe sockfd loop =>
    rw [hphase] at h hsound
    dsimp only
    unfold pipeBlock
    split
    · exact h
    · rename_i hpc
      exact absurd hpc hsound.2.2.1
    · exact h
  | tty config sockfd loop =>
    have hset := ha (by simp [hphase])
    rw [hphase] at h hsound
    dsimp only
    unfold ttyBlock
    split
    · exact h.1.disable hset
    · rename_i hpc
      exact absurd hpc hsound.2.ends.1
    · exact h
  | close sockfd resultCode =>
    have hset := ha (by simp [hphase])
    rw [hphase] at h
    exact h.1.exit hset
  | exited code =>
    rw [hphase] at h
    dsimp only
    rw [hphase]
    exact h
  | fault =>
    rw [hphase] at h
    exact h.elim

/-! ### The laws -/

/-- **How `main` returns**: whatever the command line, the addresses, the terminal and the calls answer, no call is
undefined, and a step makes `main` return a code just where there is a cause for it, which is one of those in the
manual. What is returned after a mode is what the mode has returned. -/
theorem main_exit_codes (pf : Platform) (raw : RawMode τ) (input output zero : τ) (s : St τ)
    (h : Reach (step pf raw) Free (boot input output zero) s) :
    s.phase ≠ .fault ∧ (∀ code, s.phase = .exited code → 0 ≤ code ∧ code ≤ 5) ∧
      ((∀ code, s.phase ≠ .exited code) →
        ∀ a code, (step pf raw s a).phase = .exited code ↔ ExitCause pf a s.phase code) ∧
      ∀ a sockfd rc, (step pf raw s a).phase = .close sockfd rc ↔ s.phase.Finished sockfd rc := by
  have hsound := reach_phaseSound h
  refine ⟨fun hfault => ?_, fun code hcode => ?_, fun hrun a => (leads_step raw hsound hrun a).2,
    close_iff raw hsound⟩
  · rw [hfault] at hsound
    exact hsound
  · rw [hcode] at hsound
    exact exit_code_range hsound

/-- The host of `tcp-client h 80` is not found. -/
theorem main_exit_codes_unresolved :
    let s := run (step .posix ⟨fun _ => true, id⟩) (boot false false false) [{ positionals := [word "h", word "80"] }]
    (step .posix ⟨fun _ => true, id⟩ s {}).phase = .exited 2 := by
  intro s
  obtain ⟨-, -, hcodes, -⟩ := main_exit_codes .posix ⟨fun _ => true, id⟩ false false false s (reach_free_run _ _)
  have hphase : s.phase = .connect { host := str "h", port := 80, mode := .interactive } := rfl
  rw [hcodes (by simp [hphase]), hphase]
  exact .unresolved _ rfl

/-- **Everything is given back**: at any time the descriptors open are those the phase holds, none is closed that is not
open, and `platform_cleanup` is due once if it is due; when `main` has returned no descriptor is open, and
`platform_cleanup` was called once for each `platform_init`. -/
theorem main_gives_back (pf : Platform) (raw : RawMode τ) (input output zero : τ) (s : St τ)
    (h : Reach (step pf raw) Free (boot input output zero) s) :
    openAfter s.socks [] = some s.phase.descriptors ∧ s.inits = s.cleanups + s.phase.initialised ∧
      ∀ code, s.phase = .exited code → openAfter s.socks [] = some [] ∧ s.inits = s.cleanups := by
  have hstart : Owns (boot input output zero) := ⟨rfl, rfl⟩
  have howns : Owns s :=
    (h.strengthen fun _ => reach_phaseSound).invariant hstart fun s a hs ha => hs.step ha.2 raw a
  obtain ⟨hsocks, hinits⟩ := howns
  refine ⟨hsocks, hinits, fun code hcode => ?_⟩
  rw [hcode] at hsocks hinits
  exact ⟨hsocks, hinits⟩

/-- `tcp-client -a a h 80` has a signal. -/
theorem main_gives_back_signal :
    let answers : List Answer :=
      [{ opts := [.ascii (word "a")], positionals := [word "h", word "80"] },
        { resolved := some [⟨3, true, none, .ready, .fail⟩] }, {}, { oneshot := { interrupted := true } }, {}, {}]
    let s := run (step .posix ⟨fun _ => true, id⟩) (boot false false false) answers
    s.phase = .exited 0 ∧ openAfter s.socks [] = some [] ∧ s.inits = s.cleanups := by
  intro answers s
  obtain ⟨-, -, hexit⟩ := main_gives_back .posix ⟨fun _ => true, id⟩ false false false s (reach_free_run _ _)
  have hphase : s.phase = .exited 0 := rfl
  exact ⟨hphase, hexit 0 hphase⟩

/-- **The terminal is left as it was found.** As long as the attributes can be set back, the terminal is in raw mode in
the terminal session, and has the attributes it had at the start in every other phase, whichever way that was
reached, and when `main` has returned. -/
theorem main_restores_terminal (pf : Platform) (raw : RawMode τ) (input output zero : τ) (s : St τ)
    (h : Reach (step pf raw) CanRestore (boot input output zero) s) :
    (∀ config sockfd loop, s.phase = .tty config sockfd loop →
        s.console.rawmode = true ∧ s.console.input = raw.input input) ∧
      ((∀ config sockfd loop, s.phase ≠ .tty config sockfd loop) →
        s.console.input = input ∧ s.console.output = output) := by
  have hstart : TerminalAt pf raw input output (boot input output zero).console (boot input output zero).phase :=
    ⟨tame_boot pf input output zero, rfl⟩
  have hat : TerminalAt pf raw input output s.console s.phase :=
    (h.strengthen fun _ => reach_phaseSound).invariant (I := fun s => TerminalAt pf raw input output s.console s.phase)
      hstart fun s a hs ha => terminalAt_step ha.2 hs ha.1
  refine ⟨fun config sockfd loop hphase => ?_, fun hother => ?_⟩
  · rw [hphase] at hat
    exact hat.2
  · cases hphase : s.phase with
    | tty config sockfd loop => exact absurd hphase (hother config sockfd loop)
    | exited code =>
      rw [hphase] at hat
      exact hat
    | fault =>
      rw [hphase] at hat
      exact hat.elim
    | start | connect _ | mode _ _ | oneshot _ _ _ | pipe _ _ | close _ _ =>
      rw [hphase] at hat
      exact hat.1.cooked hat.2

/-- Raw mode cannot be entered, and the pipe mode runs instead. -/
theorem main_restores_terminal_pipe :
    let answers : List Answer :=
      [{ positionals := [word "h", word "80"] }, { resolved := some [⟨3, true, none, .ready, .fail⟩] },
        { console := { setInput := false } }]
    let s := run (step .posix ⟨fun _ => true, id⟩) (boot false false false) answers
    s.phase = .pipe 3 (Pipe.start 3) ∧ s.console.input = false ∧ s.console.output = false := by
  intro answers s
  have hkeeps : Keeps (step .posix ⟨fun _ => true, id⟩) CanRestore (boot false false false) answers :=
    ⟨fun _ => ⟨rfl, rfl⟩, fun _ => ⟨rfl, rfl⟩, fun hmode => absurd rfl (hmode _ 3), trivial⟩
  have hphase : s.phase = .pipe 3 (Pipe.start 3) := rfl
  obtain ⟨-, hother⟩ :=
    main_restores_terminal .posix ⟨fun _ => true, id⟩ false false false s (reach_run hkeeps)
  exact ⟨hphase, hother (by simp [hphase])⟩

end Main

end TcpClient
