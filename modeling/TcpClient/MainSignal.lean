import TcpClient.MainEnds

/-!
# A signal ends the program

Once `SIGINT` or `SIGTERM` has come, `signal_handler_is_interrupted()` is true for ever. Each mode looks at it in its
loop condition only; the loops inside do not, so that keys that are there already are read before, and packets
that still come after an exit line are printed before.

## What is proved

* `signal_ends_main` — after a signal `main` returns within a number of blocks that does not depend on the run, the
  blocks that find more to read not counted.

## Honest scope

A block waits as long as its calls do, and a call that goes on after an error (`socket_write_all`, `write_all_fd`)
counts as one.
-/

namespace TcpClient.Main

open Machine

variable {τ : Type} {pf : Platform} {raw : RawMode τ} {a : Answer} {s : St τ}

/-- `signal_handler_is_interrupted()` is true. -/
def Answer.Signalled (a : Answer) : Prop :=
  a.oneshot.interrupted = true ∧ a.pipe.interrupted = true ∧ a.tty.interrupted = true ∧ a.winTty.interrupted = true

/-- A key is there, or a packet. -/
def Answer.more (a : Answer) : Bool := a.pipe.sockRev.pollin || a.tty.stdinRev.pollin || a.winTty.kbhit

/-- How many blocks are left after a signal. -/
def signalMeasure (pf : Platform) : Measure :=
  ⟨1, fun loop => loop.pc.left pf, fun loop => loop.pc.left, fun loop => loop.pc.left⟩

/-- The chunk of a piped session is the longest there is to do. -/
theorem signalMeasure_le {phase : Phase} (h : PhaseSound pf phase) :
    (signalMeasure pf).left phase ≤ Pipe.bufSize + 6 := by
  cases phase with
  | pipe sockfd loop => exact Nat.add_le_add_right h.2.2.2.2 2
  | oneshot config sockfd loop =>
    have hleft : loop.pc.left pf ≤ 5 := by
      cases loop.pc <;> cases pf <;> simp [Oneshot.Pc.left]
    exact (Nat.add_le_add_right hleft 2).trans (Nat.le_add_left 7 65535)
  | tty config sockfd loop =>
    have hleft : loop.pc.left ≤ 4 := by
      cases loop.pc <;> simp [Tty.Pc.left]
    exact (Nat.add_le_add_right hleft 2).trans (Nat.le_add_left 6 _)
  | start | connect _ | mode _ _ | close _ _ | exited _ | fault => simp [Measure.left, signalMeasure]

/-- A block of the terminal session, in either build. -/
theorem ttyStep_left {loop : Tty.St} (h : TtySound pf loop) (ha : a.Signalled) (hrun : ∀ rc, loop.pc ≠ .done rc)
    (config : CliConfig) (sockfd : ℤ) :
    Uses Answer.more a loop.pc.left (ttyStep pf a config sockfd loop).pc.left := by
  have hfault := (h.step a config sockfd).ends.1
  obtain ⟨-, -, htty, hwin⟩ := ha
  cases pf with
  | posix =>
    refine (Tty.step_left htty hrun h.ends.1 hfault).imp_right fun hmore => ⟨?_, hmore.2⟩
    simp [Answer.more, hmore.1]
  | windows =>
    refine (WinTty.step_left hwin hrun h.ends.1 h.ne_stdin hfault).imp_right fun hmore => ⟨?_, hmore.2⟩
    simp [Answer.more, hmore.1]

/-- **After a signal** every block has less left, unless there is more to read. -/
theorem signalMeasure_falls (pf : Platform) : (signalMeasure pf).Falls pf Answer.Signalled Answer.more where
  oneshotStart hpc := by simp [signalMeasure, hpc, Oneshot.Pc.left]
  pipeStart hpc := by simp [signalMeasure, hpc, Pipe.Pc.left]
  ttyStart hpc := by simp [signalMeasure, hpc, Tty.Pc.left]
  oneshotStep ha hrun _ := .inl (Oneshot.step_left ha.1 hrun)
  pipeStep ha hroom hrun hfault _ := by
    refine (Pipe.step_left hroom ha.2.1 ⟨hfault, hrun⟩).imp_right fun hmore => ⟨?_, hmore.2⟩
    simp [Answer.more, hmore.1]
  ttyStep ha hsound hrun _ config := ttyStep_left hsound ha hrun config _

/-! ### The law -/

/-- **A signal ends the program**: wherever it is when the signal comes, and whatever the calls answer from then on,
`main` returns within a chunk and six blocks, those not counted that find a key or a packet. -/
theorem signal_ends_main (pf : Platform) (raw : RawMode τ) (input output zero : τ) (s : St τ)
    (h : Reach (step pf raw) Free (boot input output zero) s) (answers : List Answer)
    (hsignal : ∀ a ∈ answers, a.Signalled)
    (hlen : Pipe.bufSize + 6 + answers.countP Answer.more ≤ answers.length) :
    ∃ code, (run (step pf raw) s answers).phase = .exited code ∧ 0 ≤ code ∧ code ≤ 5 := by
  have hsound := reach_phaseSound h
  have hbound := signalMeasure_le hsound
  exact (signalMeasure_falls pf).exits raw hsound hsignal (by omega)

/-- A signal comes as soon as there is a connection. -/
theorem signal_ends_main_connected :
    let s := run (step .posix ⟨fun _ => true, id⟩) (boot false false false)
      [{ positionals := [word "h", word "80"] }, { resolved := some [⟨3, true, none, .ready, .fail⟩] }]
    let a : Answer :=
      { oneshot := { interrupted := true }, pipe := { interrupted := true }, tty := { interrupted := true },
        winTty := { interrupted := true } }
    ∃ code, (run (step .posix ⟨fun _ => true, id⟩) s (List.replicate (Pipe.bufSize + 6) a)).phase = .exited code ∧
      0 ≤ code ∧ code ≤ 5 := by
  intro s a
  refine signal_ends_main .posix ⟨fun _ => true, id⟩ false false false s (reach_free_run _ _) _ (fun b hb => ?_) ?_
  · rw [List.eq_of_mem_replicate hb]
    exact ⟨rfl, rfl, rfl, rfl⟩
  · rw [List.countP_replicate, List.length_replicate]
    exact le_rfl

end TcpClient.Main
