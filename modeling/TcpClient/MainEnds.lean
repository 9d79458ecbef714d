import TcpClient.MainRuns

/-!
# What makes `main` return

`main` returns because its modes do. Let the modes be measured, so that a block has less left than the one before
as long as the calls keep a promise (`Measure.Falls`); then so is the whole program, and a run that is long enough has
returned. What the promise is, and how the modes are measured, is left open here.

## What is proved

* `Measure.Falls.step` — a block of `main` has less left.
* `Measure.Falls.exits` — a run that is long enough has returned.
-/

namespace TcpClient.Main

open Machine

/-- How many blocks of a mode are left: of one that starts, at most, and of each that runs. -/
structure Measure where
  start : ℕ
  oneshot : Oneshot.St → ℕ
  pipe : Pipe.St → ℕ
  tty : Tty.St → ℕ

/-- How many blocks of `main` are left. -/
def Measure.left (m : Measure) : Phase → ℕ
  | .start => m.start + 5
  | .connect _ => m.start + 4
  | .mode _ _ => m.start + 3
  | .oneshot _ _ loop => m.oneshot loop + 2
  | .pipe _ loop => m.pipe loop + 2
  | .tty _ _ loop => m.tty loop + 2
  | .close _ _ => 1
  | .exited _ => 0
  | .fault => 0

variable {τ : Type} {pf : Platform} {raw : RawMode τ} {a : Answer} {s : St τ} {config : CliConfig} {sockfd : ℤ}
  {P : Answer → Prop} {busy : Answer → Bool} {m : Measure}

/-- Of `n` blocks `n'` are left: less, or no more where the answer is a busy one. -/
def Uses (busy : Answer → Bool) (a : Answer) (n n' : ℕ) : Prop := n' < n ∨ (busy a = true ∧ n' ≤ n)

theorem Uses.add {n n' : ℕ} (h : Uses busy a n n') (k : ℕ) : Uses busy a (n + k) (n' + k) :=
  h.imp (fun hless => Nat.add_lt_add_right hless k) fun hbusy => ⟨hbusy.1, Nat.add_le_add_right hbusy.2 k⟩

/-- Under the promise `P` the blocks of the modes use up the measure, those not counted whose answers are `busy`. -/
structure Measure.Falls (pf : Platform) (P : Answer → Prop) (busy : Answer → Bool) (m : Measure) : Prop where
  oneshotStart : ∀ {loop}, loop.pc = .loop → m.oneshot loop ≤ m.start
  pipeStart : ∀ {loop}, loop.pc = .poll → m.pipe loop ≤ m.start
  ttyStart : ∀ {loop}, loop.pc = .poll → m.tty loop ≤ m.start
  oneshotStep : ∀ {a loop}, P a → (∀ rc, loop.pc ≠ .done rc) → ∀ config,
    Uses busy a (m.oneshot loop) (m.oneshot (Oneshot.step pf config loop a.oneshot))
  pipeStep : ∀ {a loop sockfd}, P a → Pipe.Room loop → (∀ rc, loop.pc ≠ .done rc) → loop.pc ≠ .fault → 0 ≤ sockfd →
    Uses busy a (m.pipe loop) (m.pipe (Pipe.step pf sockfd loop a.pipe))
  ttyStep : ∀ {a loop sockfd}, P a → TtySound pf loop → (∀ rc, loop.pc ≠ .done rc) → 0 ≤ sockfd → ∀ config,
    Uses busy a (m.tty loop) (m.tty (Main.ttyStep pf a config sockfd loop))

/-! ### A step -/

theorem startBlock_left (m : Measure) (pf : Platform) (a : Answer) (s : St τ) :
    m.left (startBlock pf a s).phase < m.left .start := by
  unfold startBlock
  split_ifs
  · simp [St.ret, Measure.left]
  · dsimp only
    split
    · simp [St.ret, Measure.left]
    · split_ifs <;> simp [St.ret, Measure.left]

theorem connectBlock_left (m : Measure) (pf : Platform) (a : Answer) (config : CliConfig) (s : St τ) :
    m.left (connectBlock pf a config s).phase < m.left (.connect config) := by
  unfold connectBlock
  dsimp only
  split_ifs <;> simp [St.ret, Measure.left]

/-- The mode that starts has no more left than any. -/
theorem Measure.Falls.modeBlock (h : m.Falls pf P busy) (raw : RawMode τ) (a : Answer) (hfd : 0 ≤ sockfd)
    (hnever : NeverRejected config) (s : St τ) :
    m.left (modeBlock pf raw a config sockfd s).phase < m.left (.mode config sockfd) := by
  have hpipe : m.pipe (Pipe.start sockfd) ≤ m.start := by
    refine h.pipeStart ?_
    rw [Pipe.start, if_neg (not_lt.mpr hfd)]
  unfold Main.modeBlock
  split_ifs with hmode hneg htty
  · simp [Measure.left]
  · exact Nat.add_lt_add_of_le_of_lt hpipe (by decide)
  · obtain ⟨-, loop, -, -, hpc, -, heq⟩ := startTty_eq pf raw a config sockfd s
    rw [heq, Option.getD_some]
    dsimp only
    split_ifs
    · exact Nat.add_lt_add_of_le_of_lt hpipe (by decide)
    · exact Nat.add_lt_add_of_le_of_lt (h.ttyStart hpc) (by decide)
  · have hstart := (Oneshot.returns_start hfd (hnever.invalidHex sockfd) a.now).2
    exact Nat.add_lt_add_of_le_of_lt (h.oneshotStart hstart) (by decide)

/-- **A step** uses up some of the measure. -/
theorem Measure.Falls.step (h : m.Falls pf P busy) (raw : RawMode τ) (hs : PhaseSound pf s.phase) (ha : P a)
    (hrun : ∀ code, s.phase ≠ .exited code) :
    Uses busy a (m.left s.phase) (m.left (step pf raw s a).phase) := by
  unfold Main.step
  cases hphase : s.phase with
  | start => exact .inl (startBlock_left m pf a s)
  | connect config => exact .inl (connectBlock_left m pf a config s)
  | mode config sockfd =>
    rw [hphase] at hs
    exact .inl (h.modeBlock raw a hs.1 hs.2 s)
  | oneshot config sockfd loop =>
    dsimp only
    unfold oneshotBlock
    split
    · exact .inl (Nat.lt_add_left _ Nat.one_lt_two)
    · rename_i hnot
      exact (h.oneshotStep ha hnot config).add 2
  | pipe sockfd loop =>
    rw [hphase] at hs
    obtain ⟨hfd, hroom, hfault, -⟩ := hs
    dsimp only
    unfold pipeBlock
    split
    · exact .inl (Nat.lt_add_left _ Nat.one_lt_two)
    · rename_i hpc
      exact absurd hpc hfault
    · rename_i hdone hnot
      exact (h.pipeStep ha hroom hdone hfault hfd).add 2
  | tty config sockfd loop =>
    rw [hphase] at hs
    obtain ⟨hfd, hsound⟩ := hs
    dsimp only
    unfold ttyBlock
    split
    · exact .inl (Nat.lt_add_left _ Nat.one_lt_two)
    · rename_i hpc
      exact absurd hpc hsound.ends.1
    · rename_i hdone hnot
      exact (h.ttyStep ha hsound hdone hfd config).add 2
  | close sockfd resultCode => exact .inl Nat.zero_lt_one
  | exited code => exact absurd hphase (hrun code)
  | fault =>
    rw [hphase] at hs
    exact hs.elim

/-! ### A run -/

/-- **A run that is long enough has returned**, the blocks with a busy answer not counted. -/
theorem Measure.Falls.exits (h : m.Falls pf P busy) (raw : RawMode τ) (hs : PhaseSound pf s.phase)
    {answers : List Answer} (hpromise : ∀ a ∈ answers, P a)
    (hlen : m.left s.phase + answers.countP busy ≤ answers.length) :
    ∃ code, (run (Main.step pf raw) s answers).phase = .exited code ∧ 0 ≤ code ∧ code ≤ 5 := by
  have hstep : ∀ (s : St τ) a, PhaseSound pf s.phase → P a → PhaseSound pf (Main.step pf raw s a).phase :=
    fun s a hs _ => phaseSound_step raw hs a
  have hdone : ∀ (s : St τ) a, (∃ code, s.phase = .exited code) →
      ∃ code, (Main.step pf raw s a).phase = .exited code := by
    rintro s a ⟨code, hcode⟩
    have hstay : Main.step pf raw s a = s := by rw [Main.step, hcode]
    exact ⟨code, by rw [hstay, hcode]⟩
  have hzero : ∀ s : St τ, PhaseSound pf s.phase → m.left s.phase = 0 → ∃ code, s.phase = .exited code := by
    intro s hs hleft
    cases hphase : s.phase with
    | exited code => exact ⟨code, rfl⟩
    | fault =>
      rw [hphase] at hs
      exact hs.elim
    | start | connect _ | mode _ _ | oneshot _ _ _ | pipe _ _ | tty _ _ _ | close _ _ =>
      simp [hphase, Measure.left] at hleft
  have hends : ∃ code, (run (Main.step pf raw) s answers).phase = .exited code := by
    refine run_of_variant (I := fun s : St τ => PhaseSound pf s.phase) hstep hdone (fun s a hs ha hnot => ?_) hzero
      hs answers hpromise hlen
    exact h.step raw hs ha fun code hcode => hnot ⟨code, hcode⟩
  obtain ⟨code, hcode⟩ := hends
  have hlast := (reach_free_run s answers).invariant (I := fun s : St τ => PhaseSound pf s.phase) hs
    fun s a hs _ => phaseSound_step raw hs a
  rw [hcode] at hlast
  exact ⟨code, hcode, exit_code_range hlast⟩

end TcpClient.Main
