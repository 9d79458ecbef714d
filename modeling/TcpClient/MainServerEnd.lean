import TcpClient.MainEnds

/-!
# The end of the server ends the program

Once the server has closed the connection, and what it sent was read, `poll` returns at once for ever and `recv` finds
the end of the stream (`Ended`). Each mode comes to look at the socket again, and leaves: one-shot mode when it comes
to its loop condition, or at once where there is more to send; the interactive modes at once, except that the lines
of a chunk and the keys that are there already are taken before.

## What is proved

* `Oneshot.step_endLeft`, `Pipe.step_endLeft`, `Tty.step_endLeft`, `WinTty.step_endLeft` — a step after the end of the
  server has one block less left, unless there is a key to read.
* `server_end_ends_main` — after the end of the server `main` returns within a number of blocks that does not depend on
  the run, the blocks that find a key not counted.

## Honest scope

As for a signal: a block waits as long as its calls do.
-/

namespace TcpClient

open CString

/-- `revents` says that there is something to read, a hang-up or an error. -/
def Revents.gone (r : Revents) : Bool := r.pollin || r.pollhup || r.pollerr

/-- What `poll` and `recv` answer when the server has closed and there is nothing left to read. -/
def Ended (poll : PollAns) (sockRev : Revents) (recv : RecvAns) : Prop :=
  poll = .ready ∧ sockRev.gone = true ∧ recv = .data []

theorem Revents.gone_mask {events r : Revents} (h : events.pollin = true) : (events.mask r).gone = r.gone := by
  simp [Revents.gone, Revents.mask, h]

namespace Oneshot

variable {pf : Platform} {cfg : CliConfig} {s : St} {a : Answer}

/-- The end of the server was seen, or is seen before the loop condition is looked at. -/
def St.seesEnd (s : St) : Bool :=
  s.socketEof ||
    match s.pc with
    | .poll | .done _ => true
    | .socket => s.sockRev.gone
    | _ => false

/-- How many blocks are left after the end of the server; one turn more where it is not seen in this one. -/
def St.endLeft (pf : Platform) (s : St) : ℕ := s.pc.left pf + if s.seesEnd then 0 else 5

theorem serverGone_seesEnd (pf : Platform) (cfg : CliConfig) (s : St) : (serverGone pf cfg s).seesEnd = true := by
  unfold serverGone
  dsimp only
  split_ifs <;> simp [St.ret, St.seesEnd]

/-- `poll` reports it. -/
theorem pollBlock_seesEnd (pf : Platform) (cfg : CliConfig) (s : St) (ha : Ended a.poll a.sockRev a.recv) :
    (pollBlock pf cfg a s).seesEnd = true := by
  obtain ⟨hready, hgone, -⟩ := ha
  have hmask : s.socketEof = true ∨ (s.sockEvents.mask a.sockRev).gone = true := by
    cases heof : s.socketEof with
    | true => exact .inl rfl
    | false =>
      right
      rw [Revents.gone_mask (by simp [St.sockEvents, heof])]
      exact hgone
  cases pf with
  | posix =>
    unfold pollBlock pollPosix
    dsimp only
    rw [hready]
    split
    · simp [St.seesEnd, finish_pc]
    · dsimp only
      cases hsock : decide (0 < s.sendBufLen) || !s.socketEof with
      | true =>
        rw [if_pos rfl]
        rcases hmask with h | h <;> simp [St.seesEnd, h]
      | false =>
        rw [Bool.or_eq_false_iff, Bool.not_eq_false'] at hsock
        simp [St.seesEnd, hsock.2]
  | windows =>
    unfold pollBlock pollWindows
    dsimp only
    rw [hready]
    split
    · simp [St.seesEnd, St.ret]
    · rcases hmask with h | h <;> simp [St.seesEnd, h]

/-- Where it was reported, it is seen. -/
theorem socketBlock_seesEnd (pf : Platform) (cfg : CliConfig) (ha : Ended a.poll a.sockRev a.recv)
    (hsees : s.socketEof = true ∨ s.sockRev.gone = true) : (socketBlock pf cfg a s).seesEnd = true := by
  have hreceive : receive pf cfg a s = serverGone pf cfg s := by
    rw [receive, ha.2.2]
    rfl
  unfold socketBlock
  split_ifs with herr hhup hin
  · simp [St.seesEnd, St.ret]
  · exact serverGone_seesEnd pf cfg s
  · rw [hreceive]
    exact serverGone_seesEnd pf cfg s
  · rcases hsees with heof | hgone
    · simp [St.seesEnd, heof]
    · simp_all [Revents.gone]

/-- What is seen stays seen where the socket is left alone. -/
theorem seesEnd_of_still {t : St} (h : Still s t) (heof : s.socketEof = true) : t.seesEnd = true := by
  rw [St.seesEnd, h.socketEof, heof]
  rfl

/-- Before the loop condition, what is seen stays seen. -/
theorem step_seesEnd (ha : Ended a.poll a.sockRev a.recv) (hloop : s.pc ≠ .loop) (hsees : s.seesEnd = true) :
    (step pf cfg s a).seesEnd = true := by
  unfold step
  cases hpc : s.pc with
  | loop => exact absurd hpc hloop
  | poll => exact pollBlock_seesEnd pf cfg s ha
  | socket =>
    refine socketBlock_seesEnd pf cfg ha ?_
    rw [St.seesEnd, hpc, Bool.or_eq_true] at hsees
    exact hsees
  | stdin =>
    rw [St.seesEnd, hpc, Bool.or_false] at hsees
    exact seesEnd_of_still (still_stdinBlock pf a s).1 hsees
  | send =>
    rw [St.seesEnd, hpc, Bool.or_false] at hsees
    exact seesEnd_of_still (still_sendBlock pf a s).1 hsees
  | done rc => exact hsees

/-- **After the end of the server** a step has one block less left. -/
theorem step_endLeft (ha : Ended a.poll a.sockRev a.recv) (hrun : ∀ rc, s.pc ≠ .done rc) :
    (step pf cfg s a).endLeft pf < s.endLeft pf := by
  by_cases hloop : s.pc = .loop
  · have hstep : step pf cfg s a = loopBlock cfg a s := by rw [step, hloop]
    rw [hstep]
    rcases loopBlock_cases cfg a s with ⟨-, heq⟩ | ⟨hopen, hpoll, -⟩
    · simp [heq, St.endLeft, St.seesEnd, finish_pc, hloop, Pc.left]
    · simp [St.endLeft, St.seesEnd, hpoll, hloop, hopen, Pc.left]
  · have hless := (step_leads pf cfg s a).left_lt hloop hrun
    unfold St.endLeft
    cases hsees : s.seesEnd with
    | true =>
      rw [step_seesEnd ha hloop hsees]
      exact hless
    | false =>
      rw [if_neg Bool.false_ne_true]
      split_ifs <;> omega

end Oneshot

/-- How many blocks are left after the end of the server, where `left` are before `poll` looks again: `poll` sees it, if
it has not been reported already (`gone`). -/
def endLeft (gone : Bool) (left : ℕ) : ℕ := if left = 0 then 0 else if gone then 1 else left + 1

theorem endLeft_le (gone : Bool) (left : ℕ) : endLeft gone left ≤ left + 1 := by
  unfold endLeft
  split_ifs <;> omega

namespace Pipe

variable {pf : Platform} {sockfd : ℤ} {a : Answer} {s : St}

/-- How many blocks are left after the end of the server, which is seen where `poll` has reported it. -/
def St.endLeft (s : St) : ℕ := TcpClient.endLeft (s.pc = .socket && s.sockRev.gone) s.pc.left

/-- `socket_read` finds the end of the stream. -/
theorem readSocket_ended (pf : Platform) (hfd : 0 ≤ sockfd) (hpoll : a.readPoll = .ready) (hrecv : a.recv = .data []) :
    (readSocket pf sockfd a).rc = 0 := by
  simp [readSocket, socketRead, not_lt.mpr hfd, hpoll, hrecv]

/-- Where the end was reported, the mode returns. -/
theorem socketBlock_ended (pf : Platform) (hfd : 0 ≤ sockfd) (ha : Ended a.poll a.sockRev a.recv)
    (hread : a.readPoll = .ready) (hgone : s.sockRev.gone = true) : socketBlock pf sockfd a s = s.ret 0 := by
  have hzero := readSocket_ended pf hfd hread ha.2.2
  unfold socketBlock
  cases hin : s.sockRev.pollin with
  | true =>
    rw [if_pos rfl]
    simp [hzero]
  | false =>
    rw [Revents.gone, hin, Bool.false_or] at hgone
    rw [if_neg Bool.false_ne_true, if_pos hgone]

/-- **After the end of the server** a step has one block less left. -/
theorem step_endLeft (hroom : Room s) (hfd : 0 ≤ sockfd) (ha : Ended a.poll a.sockRev a.recv)
    (hread : a.readPoll = .ready) (hrun : ∀ rc, s.pc ≠ .done rc) (hfault : s.pc ≠ .fault) :
    (step pf sockfd s a).endLeft < s.endLeft := by
  have hleads := step_leads hroom pf sockfd a
  -- Between two calls of `poll` a step has less left, as it has after a signal.
  have hbetween : s.pc ≠ .poll → s.pc ≠ .drain → s.endLeft = s.pc.left + 1 →
      (step pf sockfd s a).endLeft < s.endLeft := by
    intro hpoll hdrain hleft
    rw [hleft]
    exact (endLeft_le _ _).trans_lt (Nat.add_lt_add_right (hleads.left_lt hpoll hdrain hfault hrun) 1)
  cases hpc : s.pc with
  | poll =>
    have hstep : step pf sockfd s a = pollBlock pf a s := by rw [step, hpc]
    rw [hstep, pollBlock, ha.1]
    dsimp only
    split_ifs
    · simp [St.endLeft, endLeft, St.ret, hpc, Pc.left]
    all_goals simp [St.endLeft, endLeft, hpc, Pc.left, Revents.gone_mask, ha.2.1]
  | socket =>
    cases hgone : s.sockRev.gone with
    | true =>
      have hret : step pf sockfd s a = s.ret 0 := by rw [step, hpc, socketBlock_ended pf hfd ha hread hgone]
      rw [hret]
      simp [St.endLeft, endLeft, St.ret, hpc, hgone, Pc.left]
    | false => exact hbetween (by simp [hpc]) (by simp [hpc]) (by simp [St.endLeft, endLeft, hpc, hgone, Pc.left])
  | drain =>
    have hret : step pf sockfd s a = s.ret 0 := by
      have hzero := readSocket_ended pf hfd hread ha.2.2
      rw [step, hpc, drainBlock]
      simp [hzero]
    rw [hret]
    simp [St.endLeft, endLeft, St.ret, hpc, Pc.left]
  | stdin | scan rest => exact hbetween (by simp [hpc]) (by simp [hpc]) (by simp [St.endLeft, endLeft, hpc, Pc.left])
  | done rc => exact absurd hpc (hrun rc)
  | fault => exact absurd hpc hfault

end Pipe

namespace Tty

variable {pf : Platform} {sockfd : ℤ} {config : Connection} {a : Answer} {s t : St} {more : Bool}

/-- How many blocks are left after the end of the server, which is seen where `poll` has reported it. -/
def St.endLeft (s : St) : ℕ := TcpClient.endLeft (s.pc = .socket && s.sockRev.gone) s.pc.left

/-! ### What both builds have -/

/-- Where the end was reported, the session is left. -/
theorem socketBlock_ended (pf : Platform) (hfd : 0 ≤ sockfd) (hrecv : a.recv = .data []) (hread : a.readPoll = .ready)
    (hgone : s.sockRev.gone = true) : socketBlock pf sockfd a s = leave a 0 s := by
  have hzero : (readSocket pf sockfd a).rc = 0 := by
    simp [readSocket, socketRead, not_lt.mpr hfd, hread, hrecv]
  unfold socketBlock
  cases hin : s.sockRev.pollin with
  | true => simp [handleSocketData, hzero]
  | false =>
    rw [Revents.gone, hin, Bool.false_or] at hgone
    simp [hgone]

/-- Where `poll` reports the end, it is seen in the next block, or the session is left. -/
theorem orFault_endLeft {r : Option St} (h : (orFault s r).pc ≠ .fault)
    (hr : r = leave a 0 s ∨ ∃ t, r = some t ∧ t.pc = .socket ∧ t.sockRev.gone = true) :
    (orFault s r).endLeft ≤ 1 := by
  rcases hr with rfl | ⟨t, rfl, hpc, hgone⟩
  · simp [St.endLeft, endLeft, orFault_leave h, Pc.left]
  · simp [St.endLeft, endLeft, orFault, hpc, hgone, Pc.left]

/-- A turn that sees the end where it is reported has one block less left, but for the keys that are there already. -/
theorem Turn.endLeft (h : Turn pf more s t) (hrun : ∀ rc, s.pc ≠ .done rc) (hs : s.pc ≠ .fault)
    (hpoll : s.pc = .poll → t.endLeft ≤ 1)
    (hsocket : s.pc = .socket → s.sockRev.gone = true → t.pc = .done 0) :
    t.endLeft < s.endLeft ∨ (more = true ∧ t.endLeft ≤ s.endLeft) := by
  have hleads := h.leads
  have hle : t.endLeft ≤ t.pc.left + 1 := endLeft_le _ _
  cases hpc : s.pc with
  | poll =>
    have hleft : s.endLeft = 2 := by simp [St.endLeft, TcpClient.endLeft, hpc, Pc.left]
    rw [hleft]
    exact .inl (Nat.lt_succ_of_le (hpoll hpc))
  | socket =>
    left
    cases hgone : s.sockRev.gone with
    | true => simp [St.endLeft, TcpClient.endLeft, hsocket hpc hgone, hpc, hgone, Pc.left]
    | false =>
      have hleft : s.endLeft = Pc.left .socket + 1 := by simp [St.endLeft, TcpClient.endLeft, hpc, hgone, Pc.left]
      rw [hpc] at hleads
      rw [hleft]
      exact hle.trans_lt (Nat.add_lt_add_right (hleads.left_lt (.inl rfl)) 1)
  | stdin =>
    have hleft : s.endLeft = Pc.left .stdin + 1 := by simp [St.endLeft, TcpClient.endLeft, hpc, Pc.left]
    rw [hpc] at hleads
    rw [hleft]
    exact .inl (hle.trans_lt (Nat.add_lt_add_right (hleads.left_lt (.inr rfl)) 1))
  | typeahead =>
    have hleft : s.endLeft = 3 := by simp [St.endLeft, TcpClient.endLeft, hpc, Pc.left]
    rw [hpc] at hleads
    rw [hleft]
    cases more with
    | false =>
      left
      simp [St.endLeft, TcpClient.endLeft, h.key hpc rfl, Pc.left]
    | true => exact .inr ⟨rfl, hle.trans (Nat.add_le_add_right hleads.left_le 1)⟩
  | done rc => exact absurd hpc (hrun rc)
  | fault => exact absurd hpc hs

/-! ### The POSIX loop -/

/-- **After the end of the server** a step has one block less left, but for the keys that are there already. -/
theorem step_endLeft (hfd : 0 ≤ sockfd) (ha : Ended a.poll a.sockRev a.recv) (hread : a.readPoll = .ready)
    (hrun : ∀ rc, s.pc ≠ .done rc) (hs : s.pc ≠ .fault) (hfault : (step sockfd config s a).pc ≠ .fault) :
    (step sockfd config s a).endLeft < s.endLeft ∨
      (a.stdinRev.pollin = true ∧ (step sockfd config s a).endLeft ≤ s.endLeft) := by
  refine (step_turn hfault).endLeft hrun hs (fun hpc => ?_) fun hpc hgone => ?_
  · rw [step, hpc] at hfault ⊢
    refine orFault_endLeft (a := a) hfault ?_
    rw [pollBlock, ha.1]
    split
    · exact .inl rfl
    · exact .inr ⟨_, rfl, rfl, by simp [Revents.gone_mask, ha.2.1]⟩
  · rw [step, hpc] at hfault ⊢
    dsimp only at hfault ⊢
    rw [socketBlock_ended .posix hfd ha.2.2 hread hgone] at hfault ⊢
    exact orFault_leave hfault

end Tty

namespace WinTty

open Tty

variable {sockfd : ℤ} {config : Connection} {a : Answer} {s : St}

/-- **After the end of the server** a step has one block less left, but for the keys that are there already. -/
theorem step_endLeft (hfd : 0 ≤ sockfd) (ha : Ended a.poll a.sockRev a.recv) (hread : a.readPoll = .ready)
    (hrun : ∀ rc, s.pc ≠ .done rc) (hs : s.pc ≠ .fault) (hstdin : s.pc ≠ .stdin)
    (hfault : (step sockfd config s a).pc ≠ .fault) :
    (step sockfd config s a).endLeft < s.endLeft ∨
      (a.kbhit = true ∧ (step sockfd config s a).endLeft ≤ s.endLeft) := by
  refine (step_turn hstdin hfault).endLeft hrun hs (fun hpc => ?_) fun hpc hgone => ?_
  · rw [step, hpc] at hfault ⊢
    refine orFault_endLeft (a := a.calls) hfault ?_
    rw [pollBlock, ha.1]
    split
    · exact .inl rfl
    · exact .inr ⟨_, rfl, rfl, by simp [Revents.gone_mask, ha.2.1]⟩
  · rw [step, hpc] at hfault ⊢
    dsimp only at hfault ⊢
    rw [socketBlock_ended .windows hfd (a := a.calls) ha.2.2 hread hgone] at hfault ⊢
    exact orFault_leave hfault

end WinTty

namespace Main

open Machine

variable {τ : Type} {pf : Platform} {a : Answer} {s : St τ}

/-- The server has closed, and what it sent was read. -/
structure Answer.ServerEnded (a : Answer) : Prop where
  oneshot : Ended a.oneshot.poll a.oneshot.sockRev a.oneshot.recv
  pipe : Ended a.pipe.poll a.pipe.sockRev a.pipe.recv
  pipeRead : a.pipe.readPoll = .ready
  tty : Ended a.tty.poll a.tty.sockRev a.tty.recv
  ttyRead : a.tty.readPoll = .ready
  winTty : Ended a.winTty.poll a.winTty.sockRev a.winTty.recv
  winTtyRead : a.winTty.readPoll = .ready

/-- A key is there. -/
def Answer.key (a : Answer) : Bool := a.tty.stdinRev.pollin || a.winTty.kbhit

/-- How many blocks are left after the end of the server. -/
def endMeasure (pf : Platform) : Measure := ⟨6, fun loop => loop.endLeft pf, Pipe.St.endLeft, Tty.St.endLeft⟩

/-- The chunk of a piped session is the longest there is to do. -/
theorem endMeasure_le {phase : Phase} (h : PhaseSound pf phase) : (endMeasure pf).left phase ≤ Pipe.bufSize + 7 := by
  cases phase with
  | pipe sockfd loop =>
    have hleft : loop.endLeft ≤ loop.pc.left + 1 := endLeft_le _ _
    have hbound := h.2.2.2.2
    simp only [endMeasure, Measure.left]
    omega
  | oneshot config sockfd loop =>
    have hleft : loop.endLeft pf ≤ 10 := by
      unfold Oneshot.St.endLeft
      cases loop.pc <;> cases pf <;> simp only [Oneshot.Pc.left] <;> split_ifs <;> decide
    exact (Nat.add_le_add_right hleft 2).trans (Nat.le_add_left 12 65531)
  | tty config sockfd loop =>
    have hleft : loop.pc.left ≤ 4 := by
      cases loop.pc <;> simp [Tty.Pc.left]
    exact (Nat.add_le_add_right ((endLeft_le _ _).trans (Nat.add_le_add_right hleft 1)) 2).trans
      (Nat.le_add_left 7 _)
  | start | connect _ | mode _ _ | close _ _ | exited _ | fault => simp [Measure.left, endMeasure, Pipe.bufSize]

/-- A block of the terminal session, in either build. -/
theorem ttyStep_endLeft {loop : Tty.St} {sockfd : ℤ} (h : TtySound pf loop) (ha : a.ServerEnded) (hfd : 0 ≤ sockfd)
    (hrun : ∀ rc, loop.pc ≠ .done rc) (config : CliConfig) :
    Uses Answer.key a loop.endLeft (ttyStep pf a config sockfd loop).endLeft := by
  have hfault := (h.step a config sockfd).ends.1
  cases pf with
  | posix =>
    refine (Tty.step_endLeft hfd ha.tty ha.ttyRead hrun h.ends.1 hfault).imp_right fun hmore => ⟨?_, hmore.2⟩
    simp [Answer.key, hmore.1]
  | windows =>
    refine (WinTty.step_endLeft hfd ha.winTty ha.winTtyRead hrun h.ends.1 h.ne_stdin hfault).imp_right
      fun hmore => ⟨?_, hmore.2⟩
    simp [Answer.key, hmore.1]

/-- **After the end of the server** every block has less left, unless there is a key to read. -/
theorem endMeasure_falls (pf : Platform) : (endMeasure pf).Falls pf Answer.ServerEnded Answer.key where
  oneshotStart hpc := by
    simp only [endMeasure, Oneshot.St.endLeft, hpc, Oneshot.Pc.left]
    split_ifs <;> decide
  pipeStart hpc := by simp [endMeasure, Pipe.St.endLeft, endLeft, hpc, Pipe.Pc.left]
  ttyStart hpc := by simp [endMeasure, Tty.St.endLeft, endLeft, hpc, Tty.Pc.left]
  oneshotStep ha hrun _ := .inl (Oneshot.step_endLeft ha.oneshot hrun)
  pipeStep ha hroom hrun hfault hfd := .inl (Pipe.step_endLeft hroom hfd ha.pipe ha.pipeRead hrun hfault)
  ttyStep ha hsound hrun hfd config := ttyStep_endLeft hsound ha hfd hrun config

/-! ### The law -/

/-- **The end of the server ends the program**: wherever it is when the server has closed and all that it sent was read,
`main` returns within a chunk and seven blocks, those not counted that find a key. -/
theorem server_end_ends_main (pf : Platform) (raw : RawMode τ) (input output zero : τ) (s : St τ)
    (h : Reach (step pf raw) Free (boot input output zero) s) (answers : List Answer)
    (hended : ∀ a ∈ answers, a.ServerEnded)
    (hlen : Pipe.bufSize + 7 + answers.countP Answer.key ≤ answers.length) :
    ∃ code, (run (step pf raw) s answers).phase = .exited code ∧ 0 ≤ code ∧ code ≤ 5 := by
  have hsound := reach_phaseSound h
  have hbound := endMeasure_le hsound
  exact (endMeasure_falls pf).exits raw hsound hended (by omega)

/-- The server closes as soon as there is a connection. -/
theorem server_end_ends_main_connected :
    let s := run (step .posix ⟨fun _ => true, id⟩) (boot false false false)
      [{ positionals := [word "h", word "80"] }, { resolved := some [⟨3, true, none, .ready, .fail⟩] }]
    let rev : Revents := { pollin := true }
    let a : Answer :=
      { oneshot := { sockRev := rev }, pipe := { sockRev := rev }, tty := { sockRev := rev },
        winTty := { sockRev := rev } }
    ∃ code, (run (step .posix ⟨fun _ => true, id⟩) s (List.replicate (Pipe.bufSize + 7) a)).phase = .exited code ∧
      0 ≤ code ∧ code ≤ 5 := by
  intro s rev a
  have hended : Ended .ready rev (.data []) := ⟨rfl, rfl, rfl⟩
  refine server_end_ends_main .posix ⟨fun _ => true, id⟩ false false false s (reach_free_run _ _) _ (fun b hb => ?_) ?_
  · rw [List.eq_of_mem_replicate hb]
    exact ⟨hended, hended, rfl, hended, rfl, hended, rfl⟩
  · rw [List.countP_replicate, List.length_replicate]
    exact le_rfl

end Main

end TcpClient
