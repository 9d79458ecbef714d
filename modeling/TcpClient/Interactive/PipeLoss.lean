import TcpClient.Interactive.PipeForward

/-!
# What a result of 0 says in piped interactive mode

When the writes may fail and standard input may break, the POSIX loop gives back `5` for
a write of a line that fails, but looks away in three places: the write of a last line
without a line end at the end of the input, an error on standard input while bytes wait
in the line buffer, and a `poll` in `socket_read` that would block, which
`socket_read` reports as the end of the stream.

## What is proved

* `pipe_no_loss` — in every run that stays clear of these three: a result of `0` means
  that every byte read was part of a write that succeeded, and a failed write means a
  result of `5`.
* `pipe_loss_last_line` — the first of the three, in a run: the last line is lost, and the
  result is `0`.
-/

namespace TcpClient.Pipe

open Machine CString TcpClient.Stream

/-- The bytes of the writes that succeeded. -/
def delivered (log : List Event) : List Byte := (writes log).flatMap fun w => if 0 ≤ w.2 then w.1 else []

/-- The step meets an exit line. -/
def EntersExit (s : St) (a : Answer) : Prop :=
  (s.pc.rest.head? = some 10 ∧ isExitLine (s.line ++ [10]) = true) ∨
    (reads .posix s a ∧ a.stdin.clip bufSize = .data [] ∧ isExitLine s.line = true)

instance (s : St) (a : Answer) : Decidable (EntersExit s a) := inferInstanceAs (Decidable (_ ∨ _))

/-- No signal comes, the server does not close, and no exit line is entered. -/
structure Undisturbed (s : St) (a : Answer) : Prop where
  no_signal : a.interrupted = false ∧ a.interruptedAgain = false
  server : s.pc = .socket → (s.sockRev.pollin = true → a.recv.clip bufSize ≠ .data []) ∧
    (s.sockRev.pollin = false → (s.sockRev.pollhup || s.sockRev.pollerr) = false)
  no_exit : ¬ EntersExit s a

instance (s : St) (a : Answer) : Decidable (Undisturbed s a) :=
  decidable_of_iff (_ ∧ _ ∧ _) ⟨fun ⟨hsignal, hserver, hexit⟩ => ⟨hsignal, hserver, hexit⟩,
    fun h => ⟨h.no_signal, h.server, h.no_exit⟩⟩

/-- The three places are not met with bytes in the line buffer. -/
structure Clear (sockfd : ℤ) (s : St) (a : Answer) : Prop where
  last_line : reads .posix s a → a.stdin.clip bufSize = .data [] → s.line ≠ [] →
    0 ≤ (socketWriteAll .posix sockfd a.write s.line).rc
  stdin_error : reads .posix s a → ∀ err, a.stdin = .fail err → isSocketWouldblock .posix err = false → s.line = []
  read_poll : s.pc = .socket → s.sockRev.pollin = true →
    ∀ err, a.readPoll = .fail err → isSocketWouldblock .posix err = true → s.line = []

instance (sockfd : ℤ) (s : St) (a : Answer) : Decidable (Clear sockfd s a) :=
  decidable_of_iff (_ ∧ _ ∧ _) ⟨fun ⟨hline, herror, hpoll⟩ => ⟨hline, herror, hpoll⟩,
    fun h => ⟨h.last_line, h.stdin_error, h.read_poll⟩⟩

/-! ### The invariant -/

/-- The bytes read are those delivered, the line buffer, and the rest of the chunk; only a run
that returned `5` has a failed write behind it. -/
structure Accounts (s : St) : Prop where
  pc : s.pc ∉ [.drain, .fault]
  going : s.exitRequested = false
  eof : s.stdinEof = true → s.line = []
  reading : s.pc.rest ≠ [] → s.stdinEof = false
  balance : s.pc ≠ .done 5 → stdinBytes s.log = delivered s.log ++ s.line ++ s.pc.rest
  zero : s.pc = .done 0 → s.line = []
  failed : (∃ w ∈ writes s.log, w.2 < 0) → s.pc = .done 5

section Invariant

variable {sockfd : ℤ} {s t : St} {a : Answer}

/-- A step beside the line, from a state in which no write has failed. -/
theorem Accounts.aside (h : Accounts s) (ht : Aside s t) (hok : s.pc ≠ .done 5) (hrest : t.pc.rest = s.pc.rest)
    (hpc : t.pc ∉ [.drain, .fault]) (hzero : t.pc = .done 0 → s.line = []) : Accounts t := by
  refine ⟨hpc, ht.exitRequested.trans h.going, fun he => ?_, fun hr => ?_, fun _ => ?_, fun h0 => ?_, fun hf => ?_⟩
  · rw [ht.line]
    exact h.eof (ht.stdinEof ▸ he)
  · rw [ht.stdinEof]
    exact h.reading (hrest ▸ hr)
  · unfold delivered
    rw [hrest, ht.log.stdinBytes, ht.log.writes, ht.line]
    exact h.balance hok
  · rw [ht.line]
    exact hzero h0
  · rw [ht.log.writes] at hf
    exact absurd (h.failed hf) hok

/-- The next block, or the result `5`. -/
theorem Accounts.onward (h : Accounts s) (ht : Aside s t) (hok : s.pc ≠ .done 5) (hrest : s.pc.rest = [])
    (hpc : t.pc ∈ [.poll, .socket, .stdin, .done 5]) : Accounts t := by
  simp only [List.mem_cons, List.not_mem_nil, or_false] at hpc
  rcases hpc with hn | hn | hn | hn <;>
    exact h.aside ht hok (by rw [hn, hrest]; rfl) (by simp [hn]) (by simp [hn])

/-- The result `0`, with nothing in the buffer. -/
theorem Accounts.quit (h : Accounts s) (ht : Aside s t) (hok : s.pc ≠ .done 5) (hrest : s.pc.rest = [])
    (hpc : t.pc = .done 0) (hnil : s.line = []) : Accounts t :=
  h.aside ht hok (by rw [hpc, hrest]; rfl) (by simp [hpc]) fun _ => hnil

/-- The end of an iteration. -/
theorem Accounts.endIter (h : Accounts s) (hok : s.pc ≠ .done 5) (hrest : s.pc.rest = []) : Accounts (endIter s) := by
  have hpoll : (Pipe.endIter s).pc = .poll := endIter_pc h.going
  exact h.onward (aside_goto s _) hok hrest (by simp [hpoll])

/-- Standard input has ended, with nothing in the buffer. -/
theorem Accounts.ended (h : Accounts s) (hok : s.pc ≠ .done 5) (hrest : s.pc.rest = []) (hnil : s.line = []) :
    Accounts (Pipe.endIter { s with stdinEof := true }) := by
  have hpoll : (Pipe.endIter { s with stdinEof := true }).pc = .poll := endIter_pc h.going
  have hbal := h.balance hok
  rw [hrest] at hbal
  refine ⟨by simp [hpoll], h.going, fun _ => hnil, fun hr => by simp [hpoll, Pc.rest] at hr, fun _ => ?_,
    fun h0 => by simp [hpoll] at h0, fun hf => absurd (h.failed hf) hok⟩
  rw [hpoll]
  exact hbal

/-- `socket_read` returns `0` at the end of the stream, and when its `poll` would block. -/
theorem readSocket_zero {pf : Platform} (h : (readSocket pf sockfd a).rc = 0) :
    a.recv.clip bufSize = .data [] ∨ ∃ err, a.readPoll = .fail err ∧ isSocketWouldblock pf err = true := by
  unfold readSocket socketRead at h
  split_ifs at h
  · exact absurd h socketErrIo_neg.ne
  · dsimp only at h
    split at h
    · exact absurd h socketErrTimeout_neg.ne
    · next err _ hpoll =>
      split_ifs at h with hblock
      · exact .inr ⟨err, (Prod.mk.inj hpoll).1, hblock⟩
      · exact absurd h socketErrIo_neg.ne
    · split at h
      · next bs _ hrecv =>
        have hnil : bs.take bufSize = [] := List.length_eq_zero_iff.mp (Int.natCast_eq_zero.mp h)
        rw [(Prod.mk.inj hrecv).1]
        exact .inl (congrArg RecvAns.data hnil)
      · split_ifs at h
        · exact absurd h socketErrTimeout_neg.ne
        · exact absurd h socketErrIo_neg.ne

/-- What a write adds to the bytes delivered. -/
theorem delivered_writeSocket (sockfd : ℤ) (a : Answer) (buf : List Byte) (s : St) :
    writes (writeSocket .posix sockfd a buf s).2.log =
        writes s.log ++ [(buf, (socketWriteAll .posix sockfd a.write buf).rc)] ∧
      stdinBytes (writeSocket .posix sockfd a buf s).2.log = stdinBytes s.log ∧
      (0 ≤ (socketWriteAll .posix sockfd a.write buf).rc →
        delivered (writeSocket .posix sockfd a buf s).2.log = delivered s.log ++ buf) := by
  refine ⟨by simp [writeSocket], by simp [writeSocket], fun hok => ?_⟩
  simp [writeSocket, delivered, hok]

/-- No write has failed in a run that has not returned. -/
theorem Accounts.all_ok (h : Accounts s) (hpc : s.pc ≠ .done 5) : ∀ w ∈ writes s.log, 0 ≤ w.2 := by
  intro w hw
  by_contra hneg
  exact hpc (h.failed ⟨w, hw, not_le.mp hneg⟩)

/-- After a write that succeeded the line buffer is empty. -/
theorem Accounts.written (h : Accounts s) (hpc : s.pc ≠ .done 5) {buf rest : List Byte}
    (hok : 0 ≤ (socketWriteAll .posix sockfd a.write buf).rc)
    (hbal : stdinBytes s.log = delivered s.log ++ buf ++ rest) (hlog : t.log = (writeSocket .posix sockfd a buf s).2.log)
    (hline : t.line = []) (hgoing : t.exitRequested = false) (hrest : t.pc.rest = rest)
    (hopen : rest ≠ [] → t.stdinEof = false)
    (htpc : t.pc ∉ [.drain, .fault]) : Accounts t := by
  obtain ⟨hwrites, hstdin, hdel⟩ := delivered_writeSocket sockfd a buf s
  refine ⟨htpc, hgoing, fun _ => hline, hrest.symm ▸ hopen, fun _ => ?_, fun _ => hline, ?_⟩
  · rw [hlog, hstdin, hbal, hdel hok, hline, hrest, List.append_nil]
  · rintro ⟨w, hw, hneg⟩
    rw [hlog, hwrites, List.mem_append, List.mem_singleton] at hw
    rcases hw with hw | rfl
    · exact absurd (h.all_ok hpc w hw) (not_le.mpr hneg)
    · exact absurd hok (not_le.mpr hneg)

/-- The end of the input, when the last line can be written. -/
theorem Accounts.eofBlock (h : Accounts s) (hroom : Room s) (hpc : s.pc = .stdin) (hexit : isExitLine s.line = false)
    (hok : s.line ≠ [] → 0 ≤ (socketWriteAll .posix sockfd a.write s.line).rc) :
    Accounts (eofBlock .posix sockfd a s) := by
  have hrun : s.pc ≠ .done 5 := by simp [hpc]
  have hbal := h.balance hrun
  rw [hpc] at hbal
  rw [eofBlock_eq hroom, isExitCommand_cstr, hexit, if_neg Bool.false_ne_true]
  split
  · next hnil => exact h.ended hrun (by rw [hpc]; rfl) hnil
  · next hne =>
    have hpoll : (Pipe.endIter { (writeSocket .posix sockfd a s.line { s with stdinEof := true }).2 with line := [] }).pc =
        .poll := endIter_pc h.going
    refine h.written hrun (hok hne) hbal rfl rfl h.going ?_ (fun hr => absurd rfl hr) ?_
    · rw [hpoll]
      rfl
    · rw [hpoll]
      decide

/-- A byte: a line that is completed is written, or the run returns `5`. -/
theorem Accounts.byteBlock (h : Accounts s) {c : Byte} {rest : List Byte} (hpc : s.pc = .scan (c :: rest))
    (hexit : c = 10 → isExitLine (s.line ++ [10]) = false) :
    Accounts (byteBlock .posix sockfd a c rest s) := by
  have hrun : s.pc ≠ .done 5 := by simp [hpc]
  have hopen : s.stdinEof = false := h.reading (by simp [hpc, Pc.rest])
  have hbal : stdinBytes s.log = delivered s.log ++ (s.line ++ [c]) ++ rest := by
    rw [h.balance hrun, hpc]
    simp [Pc.rest]
  rcases byteBlock_cases .posix sockfd a c rest s with ⟨-, heq⟩ | ⟨cap, -, heq⟩
  · rw [heq]
    exact ⟨by simp [St.ret], h.going, h.eof, fun _ => hopen, fun h5 => absurd rfl h5,
      fun h0 => by simp [St.ret] at h0, fun _ => rfl⟩
  rw [heq]
  by_cases hc : c = 10
  · subst hc
    rw [if_pos rfl]
    unfold lineBlock
    dsimp only
    rw [isExitCommand_cstr, hexit rfl, if_neg Bool.false_ne_true]
    split
    · -- the write failed, and the run says so
      refine ⟨by simp [St.ret], h.going, fun he => ?_, fun _ => hopen, fun h5 => absurd rfl h5,
        fun h0 => by simp [St.ret] at h0, fun _ => rfl⟩
      exact absurd (he.symm.trans hopen) (by decide)
    · next hnn => exact h.written hrun (not_lt.mp hnn) hbal rfl rfl h.going rfl (fun _ => hopen) (by simp)
  · rw [if_neg hc]
    refine ⟨by simp, h.going, fun he => ?_, fun _ => hopen, fun _ => hbal, fun h0 => by simp at h0,
      fun hf => absurd (h.failed hf) hrun⟩
    exact absurd (he.symm.trans hopen) (by decide)

/-- The loop condition and `poll`. -/
theorem Accounts.pollBlock (h : Accounts s) (hpc : s.pc = .poll) (hu : Undisturbed s a) :
    Accounts (pollBlock .posix a s) := by
  have hrun : s.pc ≠ .done 5 := by simp [hpc]
  have hrest : s.pc.rest = [] := by rw [hpc]; rfl
  obtain ⟨haside, hnext | ⟨hzero, hwhy⟩⟩ := aside_pollBlock .posix a s
  · refine h.onward haside hrun hrest ?_
    rw [hpc] at hnext
    simp only [List.mem_cons, List.not_mem_nil, or_false] at hnext ⊢
    rcases hnext with hn | hn | hn <;> simp [hn]
  · rcases hwhy with heof | hsig | hsig
    · exact h.quit haside hrun hrest hzero (h.eof heof)
    · exact absurd hsig (by simp [hu.no_signal.1])
    · exact absurd hsig (by simp [hu.no_signal.2])

/-- The block of the socket. -/
theorem Accounts.socketBlock (h : Accounts s) (hpc : s.pc = .socket) (hu : Undisturbed s a) (hc : Clear sockfd s a) :
    Accounts (socketBlock .posix sockfd a s) := by
  have hrun : s.pc ≠ .done 5 := by simp [hpc]
  have hrest : s.pc.rest = [] := by rw [hpc]; rfl
  obtain ⟨haside, hnext | ⟨hzero, hgone⟩⟩ := aside_socketBlock .posix sockfd a s
  · refine h.onward haside hrun hrest ?_
    simp only [List.mem_cons, List.not_mem_nil, or_false] at hnext ⊢
    rcases hnext with hn | hn <;> simp [hn]
  · refine h.quit haside hrun hrest hzero ?_
    rcases hgone with ⟨hin, hread⟩ | ⟨hin, hhup⟩
    · rcases readSocket_zero hread with hend | ⟨err, hpoll, hblock⟩
      · exact absurd hend ((hu.server hpc).1 hin)
      · exact hc.read_poll hpc hin err hpoll hblock
    · simp [(hu.server hpc).2 hin] at hhup

/-- A chunk was read. -/
theorem Accounts.chunk (h : Accounts s) (hpc : s.pc = .stdin) (hopen : s.stdinEof = false) (bs : List Byte) :
    Accounts { s with pc := .scan bs, log := s.log ++ [.readStdin bs] } := by
  have hrun : s.pc ≠ .done 5 := by simp [hpc]
  have hbal := h.balance hrun
  rw [hpc] at hbal
  refine ⟨by simp, h.going, h.eof, fun _ => hopen, fun _ => ?_, fun h0 => by simp at h0, fun hf => ?_⟩
  · simp [hbal, delivered, Pc.rest]
  · exact absurd (h.failed (by simpa using hf)) hrun

/-- The block of standard input. -/
theorem Accounts.stdinBlock (h : Accounts s) (hroom : Room s) (hpc : s.pc = .stdin) (hu : Undisturbed s a)
    (hc : Clear sockfd s a) : Accounts (stdinBlock .posix sockfd a s) := by
  have hrun : s.pc ≠ .done 5 := by simp [hpc]
  have hrest : s.pc.rest = [] := by rw [hpc]; rfl
  rcases stdinBlock_cases .posix sockfd a s with
    heq | ⟨hread, hopen, ⟨bs, -, -, heq⟩ | ⟨hdata, heq⟩ | ⟨err, herr, -, hblock, heq⟩ | ⟨_, -, hpf, -⟩⟩
  · rw [heq]
    exact h.endIter hrun hrest
  · rw [heq]
    exact h.chunk hpc hopen bs
  · have hlogged : Accounts { s with log := s.log ++ [.stdinEof] } := by
      refine ⟨h.pc, h.going, h.eof, h.reading, ?_, h.zero, ?_⟩
      · simpa [delivered] using h.balance
      · simpa using h.failed
    rw [heq]
    refine hlogged.eofBlock hroom hpc ?_ (hc.last_line ⟨hpc, hread⟩ hdata)
    by_contra hexit
    exact hu.no_exit (.inr ⟨⟨hpc, hread⟩, hdata, by simpa using hexit⟩)
  · -- the error is treated like the end of the input, and nothing is left in the buffer
    rw [heq]
    exact h.ended hrun hrest (hc.stdin_error ⟨hpc, hread⟩ err herr hblock)
  · exact absurd hpf (by decide)

/-- **One step** of a run that stays clear of the three places. -/
theorem accounts_step (h : Accounts s) (hroom : Room s) (hu : Undisturbed s a) (hc : Clear sockfd s a) :
    Accounts (step .posix sockfd s a) := by
  unfold step
  split <;> rename_i hpc
  · exact h.pollBlock hpc hu
  · exact h.socketBlock hpc hu hc
  · exact h.stdinBlock hroom hpc hu hc
  · exact h.endIter (by simp [hpc]) (by rw [hpc]; rfl)
  · refine h.byteBlock hpc ?_
    rintro rfl
    by_contra hexit
    exact hu.no_exit (.inl ⟨by rw [hpc]; rfl, by simpa using hexit⟩)
  · exact absurd h.pc (by simp [hpc])
  · exact h
  · exact h

end Invariant

/-! ### The law -/

theorem start_accounts {sockfd : ℤ} (hfd : 0 ≤ sockfd) : Accounts (start sockfd) := by
  rw [start, if_neg (not_lt.mpr hfd)]
  exact ⟨by decide, rfl, by simp, fun _ => rfl, fun _ => rfl, by simp, by simp [writes]⟩

/-- **No input is lost behind a result of `0`** in a run that stays clear of the three
places, and a failed write is reported. -/
theorem pipe_no_loss (sockfd : ℤ) (s : St) (hfd : 0 ≤ sockfd)
    (h : Reach (step .posix sockfd) (fun s a => Undisturbed s a ∧ Clear sockfd s a) (start sockfd) s) :
    (s.pc = .done 0 → delivered s.log = stdinBytes s.log) ∧
      ((∃ w ∈ writes s.log, w.2 < 0) → s.pc = .done 5) := by
  have hacc : Accounts s := by
    refine (h.strengthen fun s hs => reach_room hs).invariant (I := Accounts) (start_accounts hfd) ?_
    rintro s a hs ⟨⟨hu, hc⟩, hroom⟩
    exact accounts_step hs hroom hu hc
  refine ⟨fun h0 => ?_, hacc.failed⟩
  have hbal := hacc.balance (by simp [h0])
  rw [hbal, hacc.zero h0, h0]
  simp [Pc.rest]

/-- One line, and the end of the input. -/
theorem pipe_no_loss_one :
    let answers : List Answer := [{ stdinRev := { pollin := true } }, {}, { stdin := .data (str "a\n") }, {}, {}, {},
      { stdinRev := { pollhup := true } }, {}, { stdin := .data [] }, { poll := .timeout }]
    let s := run (step .posix 3) (start 3) answers
    s.pc = .done 0 ∧ delivered s.log = stdinBytes s.log := by
  intro answers s
  have hkeeps : Keeps (step .posix 3) (fun s a => Undisturbed s a ∧ Clear 3 s a) (start 3) answers := by decide +kernel
  have hret : s.pc = .done 0 := by decide
  exact ⟨hret, (pipe_no_loss 3 s (by decide) (reach_run hkeeps)).1 hret⟩

/-- The write of a last line without a line end fails, and the result is `0`. -/
theorem pipe_loss_last_line :
    let answers : List Answer := [{ stdinRev := { pollin := true } }, {}, { stdin := .data (str "a") }, {}, {},
      { stdinRev := { pollhup := true } }, {}, { stdin := .data [], write := [(.ready, .fail (.other 32))] },
      { poll := .timeout }]
    let s := run (step .posix 3) (start 3) answers
    Keeps (step .posix 3) Undisturbed (start 3) answers ∧
      s.pc = .done 0 ∧ (∃ w ∈ writes s.log, w.2 < 0) ∧ delivered s.log = [] ∧ stdinBytes s.log = str "a" := by
  intro answers s
  have hkeeps : Keeps (step .posix 3) Undisturbed (start 3) answers := by decide +kernel
  exact ⟨hkeeps, by decide, ⟨(str "a", socketErrIo), by decide, socketErrIo_neg⟩, by decide, by decide⟩

end TcpClient.Pipe
