import TcpClient.Interactive.PipeBlocks
import TcpClient.Lib.Stream

/-!
# What piped interactive mode forwards

The bytes written to the socket are a function of the bytes on standard input alone:
`forwarded input`. They do not depend on the chunks `read` delivers, nor on what the
server sends in between.

## What is proved

* `pipe_forwards` — in every state of every run the bytes written are the beginning of
  `forwarded input`, and all of it once standard input has ended or an exit line was
  met; every write before the end of the input is one line. Only a signal or the server
  can make the result `0` before that.

The invariant (`Reading`) is that the line buffer holds the tail of what was read, as
`Stream.records` cuts it, and that the records before it were written.
-/

namespace TcpClient.Pipe

open Machine CString TcpClient.Stream

/-! ### The law -/

/-- An exit line: up to its first NUL and stripped of white space it is `exit` or `quit`, in
any case. -/
def isExitLine (line : List Byte) : Bool :=
  (strip (cstr line)).map tolower == str "exit" || (strip (cstr line)).map tolower == str "quit"

/-- What is sent of `input`: all up to and including its first exit line; if no line is one,
all of it, but for a last line without a line end that is one. -/
def forwarded (input : List Byte) : List Byte :=
  let (lines, tail) := records 10 input
  if lines.any isExitLine then (cutAfter isExitLine lines).flatten
  else lines.flatten ++ if isExitLine tail then [] else tail

/-- One line and its end. -/
def IsLine (buf : List Byte) : Prop := ∃ body, 10 ∉ body ∧ buf = body ++ [10]

theorem isExitCommand_cstr (line : List Byte) : isExitCommand (cstr line) = isExitLine line := by
  rw [Bool.eq_iff_iff, isExitCommand_iff]
  simp [isExitLine]

section Forwarded

variable {input read : List Byte}

/-- As long as no line was an exit line, the lines read are the beginning of what is sent. -/
theorem records_flatten_prefix (hno : ∀ line ∈ (records 10 read).1, isExitLine line = false) (hread : read <+: input) :
    (records 10 read).1.flatten <+: forwarded input := by
  obtain ⟨rest, rfl⟩ := hread
  obtain ⟨more, hmore⟩ := records_prefix 10 read rest
  unfold forwarded
  dsimp only
  rw [← hmore]
  split
  · rw [cutAfter_append_of_all isExitLine hno, List.flatten_append]
    exact List.prefix_append _ _
  · rw [List.flatten_append, List.append_assoc]
    exact List.prefix_append _ _

/-- When the whole input was read and no line is an exit line. -/
theorem forwarded_of_none (hno : ∀ line ∈ (records 10 input).1, isExitLine line = false) :
    forwarded input =
      (records 10 input).1.flatten ++ if isExitLine (records 10 input).2 then [] else (records 10 input).2 := by
  have hany : (records 10 input).1.any isExitLine = false := by simpa using hno
  unfold forwarded
  dsimp only
  rw [hany]
  rfl

/-- When an exit line was just completed, whatever comes after it. -/
theorem forwarded_of_exit {lines : List (List Byte)} {line : List Byte} (hread : read <+: input)
    (hlines : (records 10 read).1 = lines ++ [line]) (hno : ∀ l ∈ lines, isExitLine l = false)
    (hexit : isExitLine line = true) : forwarded input = lines.flatten ++ line := by
  obtain ⟨rest, rfl⟩ := hread
  obtain ⟨more, hmore⟩ := records_prefix 10 read rest
  have hany : (records 10 (read ++ rest)).1.any isExitLine = true := by
    rw [← hmore, hlines]
    simp [hexit]
  unfold forwarded
  dsimp only
  rw [hany, ← hmore, hlines, List.append_assoc, if_pos rfl, cutAfter_append_of_all isExitLine hno]
  simp [cutAfter, hexit]

end Forwarded

/-! ### The environment -/

/-- Whether the step reads standard input. -/
def reads (pf : Platform) (s : St) (a : Answer) : Prop := s.pc = .stdin ∧ readsStdin pf a s = true

instance (pf : Platform) (s : St) (a : Answer) : Decidable (reads pf s a) := inferInstanceAs (Decidable (_ ∧ _))

/-- Standard input is `input`, in whatever chunks; writes and allocations succeed. -/
structure Piped (pf : Platform) (sockfd : ℤ) (input : List Byte) (s : St) (a : Answer) : Prop where
  alloc : a.realloc = true
  write : ∀ w ∈ writes (step pf sockfd s a).log, 0 ≤ w.2
  chunk : reads pf s a → ∀ bs, a.stdin.clip bufSize = .data bs →
    stdinBytes s.log ++ bs <+: input ∧ (bs = [] → stdinBytes s.log = input)
  no_error : reads pf s a → ∀ err, a.stdin = .fail err → pf = .posix ∧ isSocketWouldblock .posix err = true

/-- Nothing ends the run before the input: no signal comes, and the server stays. -/
structure Steady (pf : Platform) (sockfd : ℤ) (s : St) (a : Answer) : Prop where
  no_signal : a.interrupted = false ∧ a.interruptedAgain = false
  server : s.pc = .socket → ¬ ServerGone pf sockfd s a

instance (pf : Platform) (sockfd : ℤ) (input : List Byte) (s : St) (a : Answer) :
    Decidable (Piped pf sockfd input s a) :=
  decidable_of_iff (_ ∧ _ ∧ _ ∧ _) ⟨fun ⟨halloc, hwrite, hchunk, herror⟩ => ⟨halloc, hwrite, hchunk, herror⟩,
    fun h => ⟨h.alloc, h.write, h.chunk, h.no_error⟩⟩

instance (pf : Platform) (sockfd : ℤ) (s : St) (a : Answer) : Decidable (Steady pf sockfd s a) :=
  decidable_of_iff (_ ∧ _) ⟨fun ⟨hsignal, hserver⟩ => ⟨hsignal, hserver⟩, fun h => ⟨h.no_signal, h.server⟩⟩

/-! ### The invariant -/

/-- The bytes of the chunk that are still to be looked at. -/
def Pc.rest : Pc → List Byte
  | .scan rest => rest
  | _ => []

/-- While standard input is read: the bytes looked at are some lines, which were written, and
the line buffer. A steady run does not return `0` here. -/
structure Reading (steady : Prop) (input : List Byte) (s : St) : Prop where
  going : s.stdinEof = false ∧ s.exitRequested = false
  pc : s.pc ∉ [.drain, .fault]
  stays : steady → s.pc ≠ .done 0
  account : ∃ read, stdinBytes s.log = read ++ s.pc.rest ∧ read ++ s.pc.rest <+: input ∧
    (∀ line ∈ (records 10 read).1, isExitLine line = false) ∧
    sent s.log = (records 10 read).1.flatten ∧ s.line = (records 10 read).2

/-- After the end of the input, or an exit line: all is written. -/
structure Over (input : List Byte) (s : St) : Prop where
  ended : s.stdinEof = true ∨ s.exitRequested = true
  pc : (∀ rest, s.pc ≠ .scan rest) ∧ s.pc ≠ .fault
  exit : s.exitRequested = true → s.pc = .drain ∨ s.pc = .done 0
  sent : sent s.log = forwarded input

section Invariant

variable {pf : Platform} {sockfd : ℤ} {steady : Prop} {input : List Byte} {s t : St} {a : Answer}

theorem Reading.aside (h : Reading steady input s) (ht : Aside s t) (hrest : t.pc.rest = s.pc.rest)
    (hpc : t.pc ∉ [.drain, .fault]) (hstays : steady → t.pc ≠ .done 0) : Reading steady input t := by
  refine ⟨⟨ht.stdinEof.trans h.going.1, ht.exitRequested.trans h.going.2⟩, hpc, hstays, ?_⟩
  rw [hrest, ht.log.stdinBytes, ht.log.sent, ht.line]
  exact h.account

theorem Over.aside (h : Over input s) (ht : Aside s t) (hpc : (∀ rest, t.pc ≠ .scan rest) ∧ t.pc ≠ .fault)
    (hexit : s.exitRequested = true → t.pc = .drain ∨ t.pc = .done 0) : Over input t := by
  refine ⟨?_, hpc, ?_, ht.log.sent.trans h.sent⟩
  · rw [ht.stdinEof, ht.exitRequested]
    exact h.ended
  · rw [ht.exitRequested]
    exact hexit

/-- The next block, or the result `5`. -/
theorem Reading.onward (h : Reading steady input s) (ht : Aside s t) (hrest : s.pc.rest = [])
    (hpc : t.pc ∈ [.poll, .socket, .stdin, .done 5]) : Reading steady input t := by
  simp only [List.mem_cons, List.not_mem_nil, or_false] at hpc
  rcases hpc with hn | hn | hn | hn <;> exact h.aside ht (by rw [hn, hrest]; rfl) (by simp [hn]) (by simp [hn])

/-- The run is left before the end of the input. -/
theorem Reading.cut (h : Reading steady input s) (ht : Aside s t) (hrest : s.pc.rest = []) (hpc : t.pc = .done 0)
    (hnot : ¬ steady) : Reading steady input t :=
  h.aside ht (by rw [hpc, hrest]; rfl) (by simp [hpc]) fun hsteady => absurd hsteady hnot

/-- The next block, or a result. -/
theorem Over.onward (h : Over input s) (ht : Aside s t) (hexit : s.exitRequested ≠ true)
    (hpc : t.pc ∈ [.poll, .socket, .stdin, .done 5, .done 0]) : Over input t := by
  refine h.aside ht ?_ fun hreq => absurd hreq hexit
  simp only [List.mem_cons, List.not_mem_nil, or_false] at hpc
  rcases hpc with hn | hn | hn | hn | hn <;> simp [hn]

theorem endIter_pc (h : s.exitRequested = false) : (endIter s).pc = .poll := by simp [endIter, h]

theorem Reading.endIter (h : Reading steady input s) (hrest : s.pc.rest = []) : Reading steady input (endIter s) := by
  have hpc : (Pipe.endIter s).pc = .poll := endIter_pc h.going.2
  exact h.onward (aside_goto s _) hrest (by simp [hpc])

/-- What a successful write adds. -/
theorem sent_writeSocket (buf : List Byte) (s : St)
    (hok : ∀ w ∈ writes (writeSocket pf sockfd a buf s).2.log, 0 ≤ w.2) :
    sent (writeSocket pf sockfd a buf s).2.log = sent s.log ++ buf := by
  have hrc : 0 ≤ (socketWriteAll pf sockfd a.write buf).rc := hok (buf, _) (by simp [writeSocket])
  simp [writeSocket, socketWriteAll_ok hrc]

/-- The end of the input. -/
theorem Reading.eof (h : Reading steady input s) (hroom : Room s) (hrest : s.pc.rest = [])
    (hall : stdinBytes s.log = input) (hok : ∀ w ∈ writes (eofBlock pf sockfd a s).log, 0 ≤ w.2) :
    Over input (eofBlock pf sockfd a s) := by
  obtain ⟨read, hread, -, hno, hsent, hline⟩ := h.account
  have hwhole : read = input := by rw [← hall, hread, hrest, List.append_nil]
  subst hwhole
  have hexit : s.exitRequested ≠ true := by simp [h.going.2]
  have hlaw := forwarded_of_none hno
  rw [← hsent, ← hline] at hlaw
  rw [eofBlock_eq hroom, isExitCommand_cstr] at hok ⊢
  split_ifs at hok ⊢ with hnil hel
  · refine ⟨.inl rfl, ⟨fun rest => ?_, ?_⟩, fun hreq => absurd hreq hexit, ?_⟩
    · simp [Pipe.endIter, h.going.2]
    · simp [Pipe.endIter, h.going.2]
    · simpa [hnil, Pipe.endIter] using hlaw.symm
  · refine ⟨.inl rfl, ⟨fun rest => ?_, ?_⟩, fun _ => .inr rfl, ?_⟩
    · simp [St.ret]
    · simp [St.ret]
    · simpa [hel, St.ret] using hlaw.symm
  · refine ⟨.inl rfl, ⟨fun rest => ?_, ?_⟩, fun hreq => absurd hreq hexit, ?_⟩
    · simp [Pipe.endIter, writeSocket, h.going.2]
    · simp [Pipe.endIter, writeSocket, h.going.2]
    · refine (sent_writeSocket s.line _ hok).trans ?_
      simpa [hel] using hlaw.symm

/-- **A byte.** It lengthens the line, or completes it; an exit line ends the reading. -/
theorem Reading.byte (h : Reading steady input s) {c : Byte} {rest : List Byte} (hpc : s.pc = .scan (c :: rest))
    (halloc : a.realloc = true) (hok : ∀ w ∈ writes (byteBlock pf sockfd a c rest s).log, 0 ≤ w.2) :
    Reading steady input (byteBlock pf sockfd a c rest s) ∨ Over input (byteBlock pf sockfd a c rest s) := by
  obtain ⟨read, hread, hpre, hno, hsent, hline⟩ := h.account
  simp only [hpc, Pc.rest] at hread hpre
  have hsplit : read ++ c :: rest = (read ++ [c]) ++ rest := by simp
  rw [hsplit] at hread hpre
  have hrec := records_concat 10 read c
  rcases byteBlock_cases pf sockfd a c rest s with ⟨hno', -⟩ | ⟨cap, -, heq⟩
  · simp [halloc] at hno'
  · rw [heq] at hok ⊢
    split_ifs at hok ⊢ with hc
    · rw [if_pos hc, ← hline] at hrec
      unfold lineBlock at hok ⊢
      dsimp only at hok ⊢
      rw [isExitCommand_cstr] at hok ⊢
      split_ifs at hok ⊢ with hel hfail
      · have hwrite := sent_writeSocket (s.line ++ [c]) _ hok
        have hlaw := forwarded_of_exit ((List.prefix_append _ _).trans hpre) (congrArg Prod.fst hrec) hno hel
        refine .inr ⟨.inr rfl, ⟨fun rest => ?_, ?_⟩, fun _ => .inl rfl, ?_⟩
        · simp [Pipe.endIter]
        · simp [Pipe.endIter]
        · exact hwrite.trans (by rw [hlaw, hsent])
      · have hrc := hok (s.line ++ [c], (socketWriteAll pf sockfd a.write (s.line ++ [c])).rc)
          (by simp [writeSocket, St.ret])
        exact absurd hfail (not_lt.mpr hrc)
      · have hwrite := sent_writeSocket (s.line ++ [c]) _ hok
        refine .inl ⟨h.going, by simp, by simp, read ++ [c], by simpa [writeSocket, Pc.rest] using hread, hpre, ?_, ?_, ?_⟩
        · intro line hmem
          rw [hrec, List.mem_append, List.mem_singleton] at hmem
          rcases hmem with hmem | rfl
          · exact hno line hmem
          · simpa using hel
        · rw [hrec]
          simpa [hsent] using hwrite
        · rw [hrec]
    · rw [if_neg hc, ← hline] at hrec
      refine .inl ⟨h.going, by simp, by simp, read ++ [c], hread, hpre, ?_, ?_, ?_⟩
      · rw [hrec]
        exact hno
      · rw [hrec]
        exact hsent
      · rw [hrec]

/-- A chunk of the input was read. -/
theorem Reading.chunk (h : Reading steady input s) (hrest : s.pc.rest = []) {bs : List Byte}
    (hread : stdinBytes s.log ++ bs <+: input) :
    Reading steady input { s with pc := .scan bs, log := s.log ++ [.readStdin bs] } := by
  obtain ⟨read, hsplit, -, hno, hsent, hline⟩ := h.account
  rw [hrest, List.append_nil] at hsplit
  refine ⟨h.going, by simp, by simp, read, ?_, ?_, hno, ?_, hline⟩
  · simp [hsplit, Pc.rest]
  · rw [← hsplit]
    exact hread
  · simpa using hsent

/-- The block of standard input. -/
theorem Reading.stdinBlock (h : Reading steady input s) (hroom : Room s) (hpc : s.pc = .stdin)
    (hp : Piped pf sockfd input s a) :
    Reading steady input (step pf sockfd s a) ∨ Over input (step pf sockfd s a) := by
  have hrest : s.pc.rest = [] := by rw [hpc]; rfl
  have hstep : step pf sockfd s a = Pipe.stdinBlock pf sockfd a s := by rw [step, hpc]
  have hwrite := hp.write
  rw [hstep] at hwrite ⊢
  rcases stdinBlock_cases pf sockfd a s with
    heq | ⟨hread, -, ⟨bs, -, hdata, heq⟩ | ⟨hdata, heq⟩ | ⟨err, herr, hpf, hblock, -⟩ | ⟨err, herr, hpf, -⟩⟩
  · rw [heq]
    exact .inl (h.endIter hrest)
  · rw [heq]
    exact .inl (h.chunk hrest (hp.chunk ⟨hpc, hread⟩ bs hdata).1)
  · have hlogged : Reading steady input { s with log := s.log ++ [.stdinEof] } :=
      ⟨h.going, h.pc, h.stays, by simpa using h.account⟩
    have hall : stdinBytes (s.log ++ [.stdinEof]) = input := by
      rw [stdinBytes_append]
      simpa using (hp.chunk ⟨hpc, hread⟩ [] hdata).2 rfl
    rw [heq] at hwrite ⊢
    exact .inr (hlogged.eof hroom hrest hall hwrite)
  · simp [(hp.no_error ⟨hpc, hread⟩ err herr).2] at hblock
  · simp [(hp.no_error ⟨hpc, hread⟩ err herr).1] at hpf

/-- **A step while standard input is read.** -/
theorem reading_step (h : Reading steady input s) (hroom : Room s) (hp : Piped pf sockfd input s a)
    (hsteady : steady → Steady pf sockfd s a) :
    Reading steady input (step pf sockfd s a) ∨ Over input (step pf sockfd s a) := by
  cases hpc : s.pc with
  | poll =>
    obtain ⟨haside, hnext | ⟨hzero, heof | hsig | hsig⟩⟩ := aside_pollBlock pf a s
    · rw [step, hpc]
      refine .inl (h.onward haside (by rw [hpc]; rfl) ?_)
      rw [hpc] at hnext
      simp only [List.mem_cons, List.not_mem_nil, or_false] at hnext ⊢
      rcases hnext with hn | hn | hn <;> simp [hn]
    · simp [h.going.1] at heof
    · rw [step, hpc]
      exact .inl (h.cut haside (by rw [hpc]; rfl) hzero fun hs => by simp [(hsteady hs).no_signal.1] at hsig)
    · rw [step, hpc]
      exact .inl (h.cut haside (by rw [hpc]; rfl) hzero fun hs => by simp [(hsteady hs).no_signal.2] at hsig)
  | socket =>
    obtain ⟨haside, hnext | ⟨hzero, hgone⟩⟩ := aside_socketBlock pf sockfd a s
    · rw [step, hpc]
      refine .inl (h.onward haside (by rw [hpc]; rfl) ?_)
      simp only [List.mem_cons, List.not_mem_nil, or_false] at hnext ⊢
      rcases hnext with hn | hn <;> simp [hn]
    · rw [step, hpc]
      exact .inl (h.cut haside (by rw [hpc]; rfl) hzero fun hs => (hsteady hs).server hpc hgone)
  | stdin => exact h.stdinBlock hroom hpc hp
  | scan rest =>
    cases rest with
    | nil =>
      rw [step, hpc]
      exact .inl (h.endIter (by rw [hpc]; rfl))
    | cons c rest =>
      have hstep : step pf sockfd s a = byteBlock pf sockfd a c rest s := by rw [step, hpc]
      rw [hstep]
      exact h.byte hpc hp.alloc (hstep ▸ hp.write)
  | drain => exact absurd h.pc (by simp [hpc])
  | done rc =>
    rw [step, hpc]
    exact .inl h
  | fault => exact absurd h.pc (by simp [hpc])

/-- **A step after the end**: nothing more is sent. -/
theorem over_step (h : Over input s) : Over input (step pf sockfd s a) := by
  have hgoes : s.pc ≠ .drain → s.pc ≠ .done 0 → s.exitRequested ≠ true := by
    intro hdrain hdone hreq
    cases h.exit hreq with
    | inl hn => exact hdrain hn
    | inr hn => exact hdone hn
  cases hpc : s.pc with
  | poll =>
    have hexit := hgoes (by simp [hpc]) (by simp [hpc])
    obtain ⟨haside, hnext⟩ := aside_pollBlock pf a s
    rw [step, hpc]
    refine h.onward haside hexit ?_
    rw [hpc] at hnext
    simp only [List.mem_cons, List.not_mem_nil, or_false] at hnext ⊢
    rcases hnext with (hn | hn | hn) | ⟨hn, -⟩ <;> simp [hn]
  | socket =>
    have hexit := hgoes (by simp [hpc]) (by simp [hpc])
    obtain ⟨haside, hnext⟩ := aside_socketBlock pf sockfd a s
    rw [step, hpc]
    refine h.onward haside hexit ?_
    simp only [List.mem_cons, List.not_mem_nil, or_false] at hnext ⊢
    rcases hnext with (hn | hn) | ⟨hn, -⟩ <;> simp [hn]
  | stdin =>
    have hexit := hgoes (by simp [hpc]) (by simp [hpc])
    have hpoll : (endIter s).pc = .poll := endIter_pc (Bool.eq_false_iff.mpr hexit)
    rcases stdinBlock_cases pf sockfd a s with heq | ⟨-, hopen, -⟩
    · rw [step, hpc]
      simp only [heq]
      exact h.onward (aside_goto s _) hexit (by simp [hpoll])
    · simp [h.ended.resolve_right hexit] at hopen
  | scan rest => exact absurd hpc (h.pc.1 rest)
  | drain =>
    obtain ⟨haside, hnext⟩ := aside_drainBlock pf sockfd a s
    have hpcs : (drainBlock pf sockfd a s).pc = .drain ∨ (drainBlock pf sockfd a s).pc = .done 0 := by
      simpa [hpc] using hnext
    rw [step, hpc]
    refine h.aside haside ?_ fun _ => hpcs
    rcases hpcs with hn | hn <;> simp [hn]
  | done rc =>
    rw [step, hpc]
    exact h
  | fault => exact absurd hpc h.pc.2

/-- **Every step keeps to the law.** -/
theorem piped_step (h : Reading steady input s ∨ Over input s) (hroom : Room s) (hp : Piped pf sockfd input s a)
    (hsteady : steady → Steady pf sockfd s a) :
    Reading steady input (step pf sockfd s a) ∨ Over input (step pf sockfd s a) := by
  cases h with
  | inl h => exact reading_step h hroom hp hsteady
  | inr h => exact .inr (over_step h)

end Invariant

/-! ### Writes are lines -/

/-- The log up to the end of standard input. -/
def beforeEof (log : List Event) : List Event := log.takeWhile (· ≠ .stdinEof)

/-- Every write before the end of the input is one line. -/
def LineWrites (log : List Event) : Prop := ∀ w ∈ writes (beforeEof log), IsLine w.1

theorem beforeEof_append (log evs : List Event) :
    beforeEof (log ++ evs) = if .stdinEof ∈ log then beforeEof log else log ++ beforeEof evs := by
  unfold beforeEof
  split_ifs with hmem
  · induction log with
    | nil => simp at hmem
    | cons ev log ih =>
      by_cases hev : ev = .stdinEof
      · subst hev
        simp
      · have hmem' : .stdinEof ∈ log := (List.mem_cons.mp hmem).resolve_left fun h => hev h.symm
        simp only [List.cons_append, List.takeWhile_cons, hev, ne_eq, not_false_eq_true, decide_true, if_true,
          ih hmem']
  · refine List.takeWhile_append_of_pos fun ev hev => ?_
    simpa using fun heq : ev = .stdinEof => hmem (heq ▸ hev)

theorem LineWrites.append {log evs : List Event} (h : LineWrites log)
    (hevs : .stdinEof ∉ log → ∀ w ∈ writes evs, IsLine w.1) : LineWrites (log ++ evs) := by
  intro w hw
  rw [beforeEof_append] at hw
  split_ifs at hw with hmem
  · exact h w hw
  · rw [writes_append, List.mem_append] at hw
    cases hw with
    | inl hw =>
      have hall : beforeEof log = log := by
        have := beforeEof_append log []
        rw [List.append_nil, if_neg hmem] at this
        exact this.trans (List.append_nil log)
      exact h w (by rwa [hall])
    | inr hw =>
      obtain ⟨ev, hev, hmemw⟩ := List.mem_flatMap.mp hw
      exact hevs hmem w (List.mem_flatMap.mpr ⟨ev, (List.takeWhile_prefix _).subset hev, hmemw⟩)

section LineWrites

variable {pf : Platform} {sockfd : ℤ} {steady : Prop} {input : List Byte} {s t : St} {a : Answer}

theorem LineWrites.aside (h : LineWrites s.log) (ht : Aside s t) : LineWrites t.log := by
  obtain ⟨evs, hlog, -, -, hnone⟩ := ht.log
  rw [hlog]
  exact h.append fun _ w hw => by simp [hnone] at hw

/-- The last write comes after the end of the input. -/
theorem LineWrites.eof (h : LineWrites s.log) (hroom : Room s) :
    LineWrites (eofBlock pf sockfd a { s with log := s.log ++ [.stdinEof] }).log := by
  have hlogged : LineWrites (s.log ++ [.stdinEof]) := h.append fun _ w hw => by simp at hw
  rw [eofBlock_eq (s := { s with log := s.log ++ [.stdinEof] }) hroom]
  split_ifs
  · exact hlogged
  · exact hlogged
  · exact hlogged.append fun hnot => absurd (by simp) hnot

theorem LineWrites.byte (h : LineWrites s.log) {c : Byte} {rest : List Byte} (hline : 10 ∉ s.line) :
    LineWrites (byteBlock pf sockfd a c rest s).log := by
  rcases byteBlock_cases pf sockfd a c rest s with ⟨-, heq⟩ | ⟨cap, -, heq⟩
  · rw [heq]
    exact h
  · rw [heq]
    split_ifs with hc
    · have hsent : LineWrites (writeSocket pf sockfd a (s.line ++ [c]) s).2.log := by
        refine h.append fun _ w hw => ⟨s.line, hline, ?_⟩
        have hw' : w = (s.line ++ [c], (socketWriteAll pf sockfd a.write (s.line ++ [c])).rc) := by simpa using hw
        rw [hw', hc]
      unfold lineBlock
      dsimp only
      split_ifs <;> exact hsent
    · exact h

theorem lineWrites_step (h : LineWrites s.log) (hr : Reading steady input s ∨ Over input s) (hroom : Room s)
    (hp : Piped pf sockfd input s a) : LineWrites (step pf sockfd s a).log := by
  unfold step
  split <;> rename_i hpc
  · exact h.aside (aside_pollBlock pf a s).1
  · exact h.aside (aside_socketBlock pf sockfd a s).1
  · rcases stdinBlock_cases pf sockfd a s with
      heq | ⟨hread, -, ⟨bs, -, -, heq⟩ | ⟨-, heq⟩ | ⟨_, -, -, -, heq⟩ | ⟨err, herr, hpf, -⟩⟩
    · rw [heq]
      exact h
    · rw [heq]
      exact h.append fun _ w hw => by simp at hw
    · rw [heq]
      exact h.eof hroom
    · rw [heq]
      exact h
    · simp [(hp.no_error ⟨hpc, hread⟩ err herr).1] at hpf
  · exact h
  · cases hr with
    | inl hr =>
      obtain ⟨read, -, -, -, -, hline⟩ := hr.account
      exact h.byte (hline ▸ not_mem_records_tail 10 read)
    | inr hr => exact absurd hpc (hr.pc.1 _)
  · exact h.aside (aside_drainBlock pf sockfd a s).1
  · exact h
  · exact h

end LineWrites

/-! ### The law -/

theorem start_reading {sockfd : ℤ} (steady : Prop) (hfd : 0 ≤ sockfd) (input : List Byte) :
    Reading steady input (start sockfd) := by
  rw [start, if_neg (not_lt.mpr hfd)]
  exact ⟨⟨rfl, rfl⟩, by decide, fun _ => by decide, [], rfl, List.nil_prefix, List.forall_mem_nil _, rfl, rfl⟩

/-- The invariant of a run. -/
theorem reach_piped {pf : Platform} {sockfd : ℤ} (steady : Prop) {input : List Byte} {s : St} (hfd : 0 ≤ sockfd)
    (h : Reach (step pf sockfd) (fun s a => Piped pf sockfd input s a ∧ (steady → Steady pf sockfd s a))
      (start sockfd) s) :
    (Reading steady input s ∨ Over input s) ∧ LineWrites s.log := by
  refine (h.strengthen fun s hs => reach_room hs).invariant
    (I := fun s => (Reading steady input s ∨ Over input s) ∧ LineWrites s.log) ?_ ?_
  · refine ⟨.inl (start_reading steady hfd input), ?_⟩
    rw [start, if_neg (not_lt.mpr hfd)]
    exact fun w hw => by simp [beforeEof] at hw
  · rintro s a ⟨hr, hl⟩ ⟨⟨hp, hsteady⟩, hroom⟩
    exact ⟨piped_step hr hroom hp hsteady, lineWrites_step hl hr hroom hp⟩

/-- **Piped input is forwarded whatever its chunks.** The bytes written are the beginning of
`forwarded input` in every state, and all of it once standard input has ended or an
exit line was met; every write before the end of the input is one line. If no signal comes
and the server stays, a result of `0` means that all of it was written. -/
theorem pipe_forwards (pf : Platform) (sockfd : ℤ) (input : List Byte) (s : St) (hfd : 0 ≤ sockfd) :
    (Reach (step pf sockfd) (Piped pf sockfd input) (start sockfd) s →
      sent s.log <+: forwarded input ∧
        (s.stdinEof = true ∨ s.exitRequested = true → sent s.log = forwarded input) ∧
        s.pc ≠ .fault ∧ LineWrites s.log) ∧
      (Reach (step pf sockfd) (fun s a => Piped pf sockfd input s a ∧ Steady pf sockfd s a) (start sockfd) s →
        s.pc = .done 0 → sent s.log = forwarded input) := by
  constructor
  · intro h
    obtain ⟨hr | hr, hl⟩ := reach_piped False hfd (h.mono fun _ _ ha => ⟨ha, False.elim⟩)
    · obtain ⟨read, -, hpre, hno, hsent, -⟩ := hr.account
      have hpc := hr.pc
      simp only [List.mem_cons, List.not_mem_nil, or_false, not_or] at hpc
      refine ⟨?_, fun hend => ?_, hpc.2, hl⟩
      · rw [hsent]
        exact records_flatten_prefix hno ((List.prefix_append _ _).trans hpre)
      · simp [hr.going.1, hr.going.2] at hend
    · exact ⟨hr.sent ▸ List.prefix_refl _, fun _ => hr.sent, hr.pc.2, hl⟩
  · intro h h0
    obtain ⟨hr | hr, -⟩ := reach_piped True hfd (h.mono fun _ _ ha => ⟨ha.1, fun _ => ha.2⟩)
    · exact absurd h0 (hr.stays trivial)
    · exact hr.sent

/-- One line, and a last one without its end. -/
theorem pipe_forwards_two :
    let answers : List Answer := [{ stdinRev := { pollin := true } }, {}, { stdin := .data (str "a\nb") }, {}, {}, {}, {},
      { stdinRev := { pollhup := true } }, {}, { stdin := .data [] }, { poll := .timeout }]
    let s := run (step .posix 3) (start 3) answers
    s.pc = .done 0 ∧ sent s.log = forwarded (str "a\nb") ∧ LineWrites s.log := by
  intro answers s
  have hpiped : Keeps (step .posix 3) (fun s a => Piped .posix 3 (str "a\nb") s a ∧ Steady .posix 3 s a)
      (start 3) answers := by decide +kernel
  have hret : s.pc = .done 0 := by decide
  obtain ⟨hlines, hall⟩ := pipe_forwards .posix 3 (str "a\nb") s (by decide)
  exact ⟨hret, hall (reach_run hpiped) hret, (hlines ((reach_run hpiped).mono fun _ _ ha => ha.1)).2.2.2⟩

end TcpClient.Pipe
