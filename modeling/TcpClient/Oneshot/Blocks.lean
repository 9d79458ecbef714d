import TcpClient.Oneshot.Model

/-!
# What the blocks leave alone

The loop of one-shot mode carries two streams: one from standard input, or the
payload, to the socket, and one from the socket to standard output. A block works
on one of them. This module says so, once for every block (`Calm`: only the
receiving side has moved; `Still`: only the sending side has), and where each block
goes next; what is proved of either stream rests on this and never opens a block
of the other.
-/

namespace TcpClient.Oneshot

open Machine

/-! ### The two sides -/

/-- An event of the receiving side. -/
def Event.inbound : Event → Bool
  | .recv _ | .recvEof | .stdout _ => true
  | _ => false

/-- From `s` to `t` only the receiving side has moved, or `poll` was asked. -/
structure Calm (s t : St) : Prop where
  sendBuf : t.sendBuf = s.sendBuf
  sendBufLen : t.sendBufLen = s.sendBufLen
  sendBufPos : t.sendBufPos = s.sendBufPos
  stdinEof : t.stdinEof = s.stdinEof
  shutdownDone : t.shutdownDone = s.shutdownDone
  polled : t.stdinIdx = true → s.stdinIdx = true ∨ s.stdinEof = false ∧ s.sendBufLen = 0
  log : ∃ evs, t.log = s.log ++ evs ∧ evs.all Event.inbound

/-- From `s` to `t` only the sending side has moved, or `poll` was asked. -/
structure Still (s t : St) : Prop where
  socketEof : t.socketEof = s.socketEof
  hsmAccum : t.hsmAccum = s.hsmAccum
  log : ∃ evs, t.log = s.log ++ evs ∧ evs.all fun ev => !Event.inbound ev

section Sides

variable {s t r : St} {evs : List Event}

/-- What the receiving side logs says nothing about the upload. -/
theorem inbound_silent (h : evs.all Event.inbound) : sent evs = [] ∧ stdinBytes evs = [] ∧ shutdowns evs = 0 := by
  have hev : ∀ ev ∈ evs, ev.sent = [] ∧ ev.stdinBytes = [] ∧ ev ≠ .shutdown := fun ev hmem => by
    have := List.all_eq_true.mp h ev hmem
    cases ev <;> simp_all [Event.inbound]
  exact ⟨List.flatMap_eq_nil_iff.mpr fun ev hm => (hev ev hm).1,
    List.flatMap_eq_nil_iff.mpr fun ev hm => (hev ev hm).2.1, List.count_eq_zero.mpr fun hm => (hev _ hm).2.2 rfl⟩

/-- What the sending side logs says nothing about what was received and printed. -/
theorem outbound_silent (h : evs.all fun ev => !Event.inbound ev) : recvChunks evs = [] ∧ printed evs = [] := by
  have hev : ∀ ev ∈ evs, ev.recvChunk = [] ∧ ev.printed = [] := fun ev hmem => by
    have := List.all_eq_true.mp h ev hmem
    cases ev <;> simp_all [Event.inbound]
  exact ⟨List.flatMap_eq_nil_iff.mpr fun ev hm => (hev ev hm).1,
    List.flatMap_eq_nil_iff.mpr fun ev hm => (hev ev hm).2⟩

theorem Calm.refl (s : St) : Calm s s := ⟨rfl, rfl, rfl, rfl, rfl, .inl, [], by simp⟩

theorem Calm.trans (h₁ : Calm s t) (h₂ : Calm t r) : Calm s r := by
  obtain ⟨evs₁, hlog₁, hin₁⟩ := h₁.log
  obtain ⟨evs₂, hlog₂, hin₂⟩ := h₂.log
  refine ⟨h₂.sendBuf.trans h₁.sendBuf, h₂.sendBufLen.trans h₁.sendBufLen, h₂.sendBufPos.trans h₁.sendBufPos,
    h₂.stdinEof.trans h₁.stdinEof, h₂.shutdownDone.trans h₁.shutdownDone, fun hidx => ?_,
    evs₁ ++ evs₂, by rw [hlog₂, hlog₁, List.append_assoc], by rw [List.all_append, hin₁, hin₂]; rfl⟩
  rcases h₂.polled hidx with hidx | ⟨he, hl⟩
  · exact h₁.polled hidx
  · exact .inr ⟨h₁.stdinEof ▸ he, h₁.sendBufLen ▸ hl⟩

theorem Calm.shutdowns (h : Calm s t) : shutdowns t.log = shutdowns s.log := by
  obtain ⟨evs, hlog, hin⟩ := h.log
  rw [hlog, shutdowns_append, (inbound_silent hin).2.2, Nat.add_zero]

theorem Calm.unsent (h : Calm s t) (cfg : CliConfig) : t.unsent cfg = s.unsent cfg := by
  simp only [St.unsent, h.sendBufLen, h.stdinEof]

theorem Still.trans (h₁ : Still s t) (h₂ : Still t r) : Still s r := by
  obtain ⟨evs₁, hlog₁, hout₁⟩ := h₁.log
  obtain ⟨evs₂, hlog₂, hout₂⟩ := h₂.log
  exact ⟨h₂.socketEof.trans h₁.socketEof, h₂.hsmAccum.trans h₁.hsmAccum, evs₁ ++ evs₂,
    by rw [hlog₂, hlog₁, List.append_assoc], by rw [List.all_append, hout₁, hout₂]; rfl⟩

theorem Still.recvChunks (h : Still s t) : recvChunks t.log = recvChunks s.log := by
  obtain ⟨evs, hlog, hout⟩ := h.log
  rw [hlog, recvChunks_append, (outbound_silent hout).1, List.append_nil]

theorem Still.received (h : Still s t) : received t.log = received s.log := by
  rw [← flatten_recvChunks, h.recvChunks, flatten_recvChunks]

theorem Still.printed (h : Still s t) : printed t.log = printed s.log := by
  obtain ⟨evs, hlog, hout⟩ := h.log
  rw [hlog, printed_append, (outbound_silent hout).2, List.append_nil]

end Sides

/-! ### Before the loop -/

/-- An early return is not `0`, and without a payload neither `-x` nor `-a` is given. -/
theorem prepare_cases (cfg : CliConfig) (sockfd : ℤ) :
    (∃ rc, rc ≠ 0 ∧ prepare cfg sockfd = .error rc) ∨
      (cfg.isHex = false ∧ cfg.isAscii = false ∧ prepare cfg sockfd = .ok none) ∨
      ∃ payload, prepare cfg sockfd = .ok (some payload) := by
  unfold prepare
  dsimp only
  split_ifs with _ hhex _ hascii
  · exact .inl ⟨5, by decide, rfl⟩
  · exact .inl ⟨1, by decide, rfl⟩
  · exact .inr (.inr ⟨_, rfl⟩)
  · exact .inr (.inr ⟨_, rfl⟩)
  · exact .inr (.inl ⟨by simpa using hhex, by simpa using hascii, rfl⟩)

/-! ### Going on, and returning -/

theorem calm_goto (s : St) (pc : Pc) : Calm s { s with pc := pc } :=
  ⟨rfl, rfl, rfl, rfl, rfl, .inl, [], by simp, rfl⟩

theorem calm_ret (s : St) (rc : ℤ) : Calm s (s.ret rc) := calm_goto s _

theorem still_goto (s : St) (pc : Pc) : Still s { s with pc := pc } := ⟨rfl, rfl, [], by simp, rfl⟩

theorem calm_touch (s : St) (pf : Platform) (a : Answer) : Calm s (s.touch pf a) := by
  cases pf <;> exact ⟨rfl, rfl, rfl, rfl, rfl, .inl, [], by simp [St.touch], rfl⟩

/-! ### The loop condition and the code after the loop -/

theorem mayShutdown_iff {s : St} : s.mayShutdown = true ↔
    s.stdinEof = true ∧ s.sendBufLen = 0 ∧ s.shutdownDone = false := by
  simp [St.mayShutdown, and_assoc]

theorem writeStdout_snd (a : Answer) (text : List Byte) (s : St) :
    (writeStdout a text s).2 = { s with log := s.log ++ [.stdout (writeAllFd a.stdout text []).2] } := rfl

theorem shutdownWrite_eq (cfg : CliConfig) (log : List Event) :
    ∃ evs : List Event, (evs = [] ∨ evs = [.shutdown]) ∧ shutdownWrite cfg log = log ++ evs := by
  unfold shutdownWrite
  split_ifs
  · exact ⟨[.shutdown], .inr rfl, rfl⟩
  · exact ⟨[], .inl rfl, by simp⟩

/-- The report only prints, and only under `-D`. -/
theorem report_eq (cfg : CliConfig) (a : Answer) (s : St) :
    ∃ evs : List Event, evs.all Event.inbound ∧ recvChunks evs = [] ∧ (cfg.decodeHsm = false → evs = []) ∧
      report cfg a s = { s with log := s.log ++ evs } := by
  unfold report
  split_ifs with hd
  · simp only [Bool.and_eq_true] at hd
    split
    · rw [writeStdout_snd]
      exact ⟨[.stdout _], rfl, rfl, fun hoff => by simp [hoff] at hd, rfl⟩
    · exact ⟨[], rfl, rfl, fun _ => rfl, by simp⟩
  · exact ⟨[], rfl, rfl, fun _ => rfl, by simp⟩

theorem finish_pc (cfg : CliConfig) (a : Answer) (s : St) : (finish cfg a s).pc = .done 0 := rfl

/-- The code after the loop: the `shutdown`, if it is due, and the report. -/
theorem finish_eq (cfg : CliConfig) (a : Answer) (s : St) :
    ∃ evs : List Event, evs.all Event.inbound ∧ recvChunks evs = [] ∧ (cfg.decodeHsm = false → evs = []) ∧
      finish cfg a s =
        { s with
          pc := .done 0
          log := (if s.mayShutdown then shutdownWrite cfg s.log else s.log) ++ evs } := by
  unfold finish
  split_ifs
  · obtain ⟨evs, hin, hrecv, hoff, heq⟩ := report_eq cfg a { s with log := shutdownWrite cfg s.log }
    exact ⟨evs, hin, hrecv, hoff, by rw [heq]; rfl⟩
  · obtain ⟨evs, hin, hrecv, hoff, heq⟩ := report_eq cfg a s
    exact ⟨evs, hin, hrecv, hoff, by rw [heq]; rfl⟩

/-- Without `-D` nothing is printed after the loop. -/
theorem still_finish {cfg : CliConfig} (hoff : cfg.decodeHsm = false) (a : Answer) (s : St) :
    Still s (finish cfg a s) := by
  obtain ⟨evs, -, -, hevs, heq⟩ := finish_eq cfg a s
  obtain ⟨shut, hshut, hwrite⟩ := shutdownWrite_eq cfg s.log
  rw [heq, hevs hoff, hwrite]
  split_ifs
  · exact ⟨rfl, rfl, shut, by simp, by rcases hshut with rfl | rfl <;> rfl⟩
  · exact ⟨rfl, rfl, [], by simp, rfl⟩

/-- What was received is what it was before the code after the loop. -/
theorem finish_recvChunks (cfg : CliConfig) (a : Answer) (s : St) :
    recvChunks (finish cfg a s).log = recvChunks s.log ∧ (finish cfg a s).hsmAccum = s.hsmAccum := by
  obtain ⟨evs, -, hrecv, -, heq⟩ := finish_eq cfg a s
  obtain ⟨shut, hshut, hwrite⟩ := shutdownWrite_eq cfg s.log
  rw [heq, hwrite]
  have hnone : recvChunks shut = [] := by rcases hshut with rfl | rfl <;> rfl
  refine ⟨?_, rfl⟩
  split_ifs <;> simp only [recvChunks_append, hnone, hrecv, List.append_nil]

/-- The loop goes on to `poll` as long as the socket is open and no signal came. -/
theorem loopBlock_cases (cfg : CliConfig) (a : Answer) (s : St) :
    ((a.interrupted || s.socketEof) = true ∧ loopBlock cfg a s = finish cfg a s) ∨
      (s.socketEof = false ∧ (loopBlock cfg a s).pc = .poll ∧ Still s (loopBlock cfg a s)) := by
  unfold loopBlock
  split_ifs with hstop hmay
  · exact .inl ⟨hstop, rfl⟩
  · simp only [Bool.or_eq_true, not_or, Bool.not_eq_true] at hstop
    obtain ⟨shut, hshut, hwrite⟩ := shutdownWrite_eq cfg s.log
    refine .inr ⟨hstop.2, rfl, rfl, rfl, shut, hwrite, ?_⟩
    rcases hshut with rfl | rfl <;> rfl
  · simp only [Bool.or_eq_true, not_or, Bool.not_eq_true] at hstop
    exact .inr ⟨hstop.2, rfl, still_goto s _⟩

/-! ### `poll` -/

/-- `poll` moves neither side. Only when there is nothing to poll does its block leave the
loop, and then the socket is at its end. -/
theorem pollBlock_cases (pf : Platform) (cfg : CliConfig) (a : Answer) (s : St) :
    (s.socketEof = true ∧ pollBlock pf cfg a s = finish cfg a s) ∨
      (Calm s (pollBlock pf cfg a s) ∧ Still s (pollBlock pf cfg a s) ∧
        (pollBlock pf cfg a s).pc ∈ [.loop, .socket, .done 4, .done 5]) := by
  cases pf with
  | posix =>
    simp only [pollBlock, pollPosix]
    split
    · next hidle =>
      simp only [Bool.and_eq_true, Bool.not_eq_true', Bool.or_eq_false_iff, Bool.not_eq_false'] at hidle
      exact .inl ⟨hidle.2.2, rfl⟩
    · refine .inr ?_
      rcases a.poll with err | _ | _ <;> dsimp only
      · split_ifs
        · exact ⟨calm_goto s _, still_goto s _, by simp⟩
        · exact ⟨calm_ret s 5, still_goto s _, by simp [St.ret]⟩
      · exact ⟨calm_ret s 4, still_goto s _, by simp [St.ret]⟩
      · refine ⟨⟨rfl, rfl, rfl, rfl, rfl, fun hidx => .inr ?_, [], by simp, rfl⟩, ⟨rfl, rfl, [], by simp, rfl⟩, by simp⟩
        simpa using hidx
  | windows =>
    refine .inr ?_
    simp only [pollBlock, pollWindows]
    split
    · exact ⟨calm_ret s 4, still_goto s _, by simp [St.ret]⟩
    · rcases a.poll with err | _ | _ <;> dsimp only <;> try split_ifs
      · exact ⟨calm_goto s _, still_goto s _, by simp⟩
      · exact ⟨calm_ret s 5, still_goto s _, by simp [St.ret]⟩
      · exact ⟨calm_ret s 4, still_goto s _, by simp [St.ret]⟩
      · exact ⟨⟨rfl, rfl, rfl, rfl, rfl, .inl, [], by simp, rfl⟩, ⟨rfl, rfl, [], by simp, rfl⟩, by simp⟩
      · exact ⟨⟨rfl, rfl, rfl, rfl, rfl, .inl, [], by simp, rfl⟩, ⟨rfl, rfl, [], by simp, rfl⟩, by simp⟩

/-! ### Receiving -/

theorem calm_writeStdout (a : Answer) (text : List Byte) (s : St) : Calm s (writeStdout a text s).2 :=
  ⟨rfl, rfl, rfl, rfl, rfl, .inl, _, rfl, rfl⟩

theorem calm_accumulate (chunk : List Byte) (s : St) : Calm s (accumulate chunk s) := by
  unfold accumulate
  split_ifs <;> exact ⟨rfl, rfl, rfl, rfl, rfl, .inl, [], by simp, rfl⟩

theorem calm_deliver (cfg : CliConfig) (a : Answer) (chunk : List Byte) (s : St) :
    Calm s (deliver cfg a chunk s).2 := by
  unfold deliver
  split_ifs
  · exact calm_accumulate chunk s
  · split
    · exact calm_writeStdout a _ s
    · exact .refl s
  · exact .refl s
  · exact calm_writeStdout a _ s

/-- `receiveData`, with the result of `deliver` named. -/
theorem receiveData_eq (pf : Platform) (cfg : CliConfig) (a : Answer) (bs : List Byte) (s : St) :
    receiveData pf cfg a bs s =
      let d := deliver cfg a (bs.take (scanTerm cfg bs).1) { s.touch pf a with log := s.log ++ [.recv bs] }
      if d.1 then { d.2 with socketEof := d.2.socketEof || (scanTerm cfg bs).2, pc := Pc.next pf .socket }
      else d.2.ret 5 := rfl

theorem calm_receiveData (pf : Platform) (cfg : CliConfig) (a : Answer) (bs : List Byte) (s : St) :
    Calm s (receiveData pf cfg a bs s) := by
  have hlog : Calm s { s.touch pf a with log := s.log ++ [.recv bs] } := by
    cases pf <;> exact ⟨rfl, rfl, rfl, rfl, rfl, .inl, _, rfl, rfl⟩
  have hdel := hlog.trans (calm_deliver cfg a (bs.take (scanTerm cfg bs).1) _)
  rw [receiveData_eq]
  dsimp only
  split_ifs
  · exact hdel.trans ⟨rfl, rfl, rfl, rfl, rfl, .inl, [], by simp, rfl⟩
  · exact hdel.trans (calm_ret _ 5)

theorem calm_serverGone (pf : Platform) (cfg : CliConfig) (s : St) : Calm s (serverGone pf cfg s) := by
  unfold serverGone St.ret
  dsimp only
  split_ifs <;> exact ⟨rfl, rfl, rfl, rfl, rfl, .inl, _, rfl, rfl⟩

/-- **Errors, hang-ups and receives leave the upload alone.** -/
theorem calm_socketBlock (pf : Platform) (cfg : CliConfig) (a : Answer) (s : St) :
    Calm s (socketBlock pf cfg a s) := by
  unfold socketBlock
  split_ifs
  · exact calm_ret s 5
  · exact calm_serverGone pf cfg s
  · unfold receive
    split
    · exact calm_serverGone pf cfg s
    · exact calm_receiveData pf cfg a _ s
    · split_ifs
      · exact calm_goto s _
      · exact calm_ret s 5
  · exact calm_goto s _

/-- When the server is gone the loop goes on, or returns `5`. -/
theorem serverGone_pc (pf : Platform) (cfg : CliConfig) (s : St) :
    (serverGone pf cfg s).pc = Pc.next pf .socket ∨ (serverGone pf cfg s).pc = .done 5 := by
  unfold serverGone
  dsimp only
  split_ifs
  · exact .inr rfl
  · exact .inl rfl

/-- The socket block goes on, or returns `5`. -/
theorem socketBlock_pc (pf : Platform) (cfg : CliConfig) (a : Answer) (s : St) :
    (socketBlock pf cfg a s).pc = Pc.next pf .socket ∨ (socketBlock pf cfg a s).pc = .done 5 := by
  unfold socketBlock
  split_ifs
  · exact .inr rfl
  · exact serverGone_pc pf cfg s
  · unfold receive
    split
    · exact serverGone_pc pf cfg s
    · rw [receiveData_eq]
      dsimp only
      split_ifs
      · exact .inl rfl
      · exact .inr rfl
    · split_ifs
      · exact .inl rfl
      · exact .inr rfl
  · exact .inl rfl

/-! ### Standard input and sending -/

theorem advance_eq (n : ℕ) (s : St) :
    advance n s =
      { s with
        log := s.log ++ [.send ((s.sendBuf.drop s.sendBufPos).take n)]
        sendBufLen := if s.sendBufLen ≤ s.sendBufPos + n then 0 else s.sendBufLen
        sendBufPos := if s.sendBufLen ≤ s.sendBufPos + n then 0 else s.sendBufPos + n } := by
  unfold advance
  dsimp only
  split_ifs <;> rfl

/-- **Standard input leaves the receiving side alone**, and goes on or returns `5`. -/
theorem still_stdinBlock (pf : Platform) (a : Answer) (s : St) :
    Still s (stdinBlock pf a s) ∧
      ((stdinBlock pf a s).pc = Pc.next pf .stdin ∨ (stdinBlock pf a s).pc = .done 5) := by
  unfold stdinBlock
  split_ifs
  · unfold readStdin
    split
    · exact ⟨⟨rfl, rfl, [.stdinEof], rfl, rfl⟩, .inl rfl⟩
    · next bs _ _ => cases pf <;> exact ⟨⟨rfl, rfl, [.readStdin bs], rfl, rfl⟩, .inl rfl⟩
    · cases pf <;> dsimp only
      · split_ifs
        · exact ⟨⟨rfl, rfl, [], by simp, rfl⟩, .inl rfl⟩
        · exact ⟨⟨rfl, rfl, [], by simp [St.ret], rfl⟩, .inr rfl⟩
      · exact ⟨⟨rfl, rfl, [], by simp, rfl⟩, .inl rfl⟩
  · exact ⟨⟨rfl, rfl, [], by simp, rfl⟩, .inl rfl⟩

/-- **Sending leaves the receiving side alone**, and goes on or returns `5`. -/
theorem still_sendBlock (pf : Platform) (a : Answer) (s : St) :
    Still s (sendBlock pf a s) ∧
      ((sendBlock pf a s).pc = Pc.next pf .send ∨ (sendBlock pf a s).pc = .done 5) := by
  unfold sendBlock
  split
  · rcases a.send with n | err <;> dsimp only
    · split_ifs
      · rw [advance_eq]
        cases pf <;> exact ⟨⟨rfl, rfl, [.send _], rfl, rfl⟩, .inl rfl⟩
      · exact ⟨still_goto s _, .inl rfl⟩
    · split_ifs
      · exact ⟨still_goto s _, .inl rfl⟩
      · exact ⟨still_goto s _, .inr rfl⟩
  · exact ⟨still_goto s _, .inl rfl⟩

/-! ### The socket is open where it is polled -/

/-- At `poll`, and at the block of the socket, the socket is open. -/
def Open (s : St) : Prop := s.pc = .poll ∨ s.pc = .socket → s.socketEof = false

/-- Neither comes right after a block that does input or output. -/
theorem open_of_next {pf : Platform} {s : St} {pc : Pc} {rc : ℤ} (hpc : pc = .socket ∨ pc = .stdin ∨ pc = .send)
    (h : s.pc = Pc.next pf pc ∨ s.pc = .done rc) : Open s := by
  rintro hs
  rcases hpc with rfl | rfl | rfl <;> cases pf <;> rcases h with h | h <;> simp [Pc.next, h] at hs

theorem open_step (pf : Platform) (cfg : CliConfig) (a : Answer) {s : St} (h : Open s) : Open (step pf cfg s a) := by
  unfold step
  split <;> rename_i hpc
  · rcases loopBlock_cases cfg a s with ⟨-, heq⟩ | ⟨hopen, -, hstill⟩
    · rw [heq]
      simp [Open, finish_pc]
    · exact fun _ => hstill.socketEof.trans hopen
  · rcases pollBlock_cases pf cfg a s with ⟨-, heq⟩ | ⟨-, hstill, -⟩
    · rw [heq]
      simp [Open, finish_pc]
    · exact fun _ => hstill.socketEof.trans (h (.inl hpc))
  · exact open_of_next (.inl rfl) (socketBlock_pc pf cfg a s)
  · exact open_of_next (.inr (.inl rfl)) (still_stdinBlock pf a s).2
  · exact open_of_next (.inr (.inr rfl)) (still_sendBlock pf a s).2
  · exact h

/-- The socket is open wherever a run polls it or receives from it. -/
theorem reach_open {pf : Platform} {cfg : CliConfig} {sockfd : ℤ} {now : UInt64} {A : St → Answer → Prop} {s : St}
    (h : Reach (step pf cfg) A (start cfg sockfd now) s) : Open s := by
  refine h.invariant (I := Open) (fun _ => ?_) fun _ a ho _ => open_step pf cfg a ho
  unfold start
  split <;> rfl

end TcpClient.Oneshot
