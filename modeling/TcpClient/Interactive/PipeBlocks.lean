import TcpClient.Interactive.Pipe

/-!
# What the blocks of the pipe loop do

For each block of `run_interactive_pipe_mode` one lemma that says what it can do, from
which the invariants of its runs are proved without opening the block again:

* `aside_pollBlock`, `aside_socketBlock`, `aside_drainBlock` — these leave the line,
  standard input and what is sent alone;
* `stdinBlock_cases`, `eofBlock_eq` — a chunk is read, or standard input ends;
* `byteBlock_cases` — a byte goes into the line, and a complete line is sent;
* `reach_room` — the line always fits its buffer with its terminator;
* `reach_ne_fault` — no store is ever outside.
-/

namespace TcpClient.Pipe

open Machine CString

/-! ### The blocks that leave the line alone -/

/-- From `s` to `t` nothing was read from standard input, collected or sent. -/
structure Aside (s t : St) : Prop where
  line : t.line = s.line
  lineCap : t.lineCap = s.lineCap
  exitRequested : t.exitRequested = s.exitRequested
  stdinEof : t.stdinEof = s.stdinEof
  log : Beside s.log t.log

section Aside

variable {s t : St}

theorem aside_goto (s : St) (pc : Pc) : Aside s { s with pc := pc } :=
  ⟨rfl, rfl, rfl, rfl, .refl _⟩

theorem aside_ret (s : St) (rc : ℤ) : Aside s (s.ret rc) := aside_goto s _

theorem aside_pollBlock (pf : Platform) (a : Answer) (s : St) :
    Aside s (pollBlock pf a s) ∧
      ((pollBlock pf a s).pc ∈ [.socket, s.pc, .done 5] ∨
        ((pollBlock pf a s).pc = .done 0 ∧ (s.stdinEof = true ∨ a.interrupted = true ∨ a.interruptedAgain = true))) := by
  unfold pollBlock
  split
  · next hint => exact ⟨aside_ret s 0, .inr ⟨rfl, .inr (.inl hint)⟩⟩
  · rcases a.poll with err | _ | _
    · cases pf with
      | posix =>
        dsimp only
        split_ifs with _ hagain
        · exact ⟨aside_ret s 0, .inr ⟨rfl, .inr (.inr hagain)⟩⟩
        · exact ⟨aside_goto s s.pc, .inl (by simp)⟩
        · exact ⟨aside_ret s 5, .inl (by simp [St.ret])⟩
      | windows =>
        dsimp only
        split_ifs
        · exact ⟨aside_goto s s.pc, .inl (by simp)⟩
        · exact ⟨aside_ret s 5, .inl (by simp [St.ret])⟩
    · dsimp only
      split_ifs with heof
      · exact ⟨aside_ret s 0, .inr ⟨rfl, .inl heof⟩⟩
      · exact ⟨⟨rfl, rfl, rfl, rfl, .refl _⟩, .inl (by simp)⟩
    · exact ⟨⟨rfl, rfl, rfl, rfl, .refl _⟩, .inl (by simp)⟩

/-- The server is taken to be gone: `socket_read` returns `0`, or a hang-up or an error is
all `poll` reports. -/
def ServerGone (pf : Platform) (sockfd : ℤ) (s : St) (a : Answer) : Prop :=
  (s.sockRev.pollin = true ∧ (readSocket pf sockfd a).rc = 0) ∨
    (s.sockRev.pollin = false ∧ (s.sockRev.pollhup || s.sockRev.pollerr) = true)

instance (pf : Platform) (sockfd : ℤ) (s : St) (a : Answer) : Decidable (ServerGone pf sockfd s a) :=
  inferInstanceAs (Decidable (_ ∨ _))

theorem aside_socketBlock (pf : Platform) (sockfd : ℤ) (a : Answer) (s : St) :
    Aside s (socketBlock pf sockfd a s) ∧
      ((socketBlock pf sockfd a s).pc ∈ [.stdin, .done 5] ∨
        ((socketBlock pf sockfd a s).pc = .done 0 ∧ ServerGone pf sockfd s a)) := by
  unfold socketBlock
  split
  · next hin =>
    dsimp only
    split
    · exact ⟨⟨rfl, rfl, rfl, rfl, _, rfl, rfl, rfl, rfl⟩, .inl (by simp)⟩
    · split_ifs with hzero
      · exact ⟨aside_ret s 0, .inr ⟨rfl, .inl ⟨hin, hzero⟩⟩⟩
      · exact ⟨aside_ret s 5, .inl (by simp [St.ret])⟩
      · exact ⟨aside_goto s _, .inl (by simp)⟩
  · next hin =>
    split_ifs with hhup
    · exact ⟨aside_ret s 0, .inr ⟨rfl, .inr ⟨by simpa using hin, hhup⟩⟩⟩
    · exact ⟨aside_goto s _, .inl (by simp)⟩

theorem aside_drainBlock (pf : Platform) (sockfd : ℤ) (a : Answer) (s : St) :
    Aside s (drainBlock pf sockfd a s) ∧
      (drainBlock pf sockfd a s).pc ∈ [s.pc, .done 0] := by
  unfold drainBlock
  dsimp only
  split_ifs
  · exact ⟨⟨rfl, rfl, rfl, rfl, _, rfl, rfl, rfl, rfl⟩, by simp⟩
  · exact ⟨aside_ret s 0, by simp [St.ret]⟩
  · exact ⟨aside_ret s 0, by simp [St.ret]⟩

end Aside

/-! ### The blocks that read -/

section Read

variable {pf : Platform} {sockfd : ℤ} {a : Answer} {s : St}

/-- A non-empty line fits the buffer, and so does a terminator after it. -/
def Room (s : St) : Prop := s.line ≠ [] → s.line.length < s.lineCap

/-- **The end of standard input**, when the line has room: nothing is left of a line that is
sent; an exit line ends the run. -/
theorem eofBlock_eq (hroom : Room s) :
    eofBlock pf sockfd a s =
      if s.line = [] then endIter { s with stdinEof := true }
      else if isExitCommand (cstr s.line) then { s with stdinEof := true, exitRequested := true }.ret 0
      else endIter { (writeSocket pf sockfd a s.line { s with stdinEof := true }).2 with line := [] } := by
  unfold eofBlock
  by_cases hnil : s.line = []
  · simp [hnil]
  · have hlt := hroom hnil
    have hcap : s.lineCap ≠ 0 := by omega
    have hfull : ¬ s.lineCap < s.line.length + 1 := by omega
    simp [hnil, hlt, hcap, hfull, List.length_pos_iff]

/-- What the block of standard input may do: nothing, or read a chunk, or meet the end of the
input or an error. -/
theorem stdinBlock_cases (pf : Platform) (sockfd : ℤ) (a : Answer) (s : St) :
    stdinBlock pf sockfd a s = endIter s ∨
      (readsStdin pf a s = true ∧ s.stdinEof = false ∧
        ((∃ bs, bs ≠ [] ∧ a.stdin.clip bufSize = .data bs ∧
            stdinBlock pf sockfd a s = { s with pc := .scan bs, log := s.log ++ [.readStdin bs] }) ∨
          (a.stdin.clip bufSize = .data [] ∧
            stdinBlock pf sockfd a s = eofBlock pf sockfd a { s with log := s.log ++ [.stdinEof] }) ∨
          (∃ err, a.stdin = .fail err ∧ pf = .posix ∧ isSocketWouldblock .posix err = false ∧
            stdinBlock pf sockfd a s = endIter { s with stdinEof := true }) ∨
          (∃ err, a.stdin = .fail err ∧ pf = .windows ∧
            stdinBlock pf sockfd a s = eofBlock pf sockfd a s))) := by
  unfold stdinBlock
  split_ifs with hread
  · have heof : s.stdinEof = false := by
      cases pf <;> simp only [readsStdin, Bool.and_eq_true, Bool.not_eq_true'] at hread <;> exact hread.1
    split
    · next hdata => exact .inr ⟨hread, heof, .inr (.inl ⟨hdata, rfl⟩)⟩
    · next bs hne hdata => exact .inr ⟨hread, heof, .inl ⟨bs, hne, hdata, rfl⟩⟩
    · next err hfail =>
      have herr : a.stdin = .fail err := by
        unfold RecvAns.clip at hfail
        split at hfail <;> simp_all
      cases pf <;> dsimp only
      · split_ifs with hblock
        · exact .inl rfl
        · exact .inr ⟨hread, heof, .inr (.inr (.inl ⟨err, herr, rfl, by simpa using hblock, rfl⟩))⟩
      · exact .inr ⟨hread, heof, .inr (.inr (.inr ⟨err, herr, rfl, rfl⟩))⟩
  · exact .inl rfl

theorem newCap_ge (s : St) : s.line.length + 2 ≤ newCap s := by
  unfold newCap
  dsimp only
  split_ifs <;> omega

/-- **A byte goes into the line** with room for two more, and a line end sends it; or the
buffer cannot be grown. -/
theorem byteBlock_cases (pf : Platform) (sockfd : ℤ) (a : Answer) (c : Byte) (rest : List Byte) (s : St) :
    (a.realloc = false ∧ byteBlock pf sockfd a c rest s = s.ret 5) ∨
      ∃ cap, s.line.length + 2 ≤ cap ∧
        byteBlock pf sockfd a c rest s =
          if c = 10 then lineBlock pf sockfd a rest { s with lineCap := cap, line := s.line ++ [c] }
          else { s with lineCap := cap, line := s.line ++ [c], pc := .scan rest } := by
  unfold byteBlock
  by_cases hfull : s.lineCap < s.line.length + 2
  · cases ha : a.realloc with
    | false => exact .inl ⟨rfl, by simp [hfull]⟩
    | true =>
      have hcap := newCap_ge s
      have h₁ : s.line.length < newCap s := by omega
      have h₂ : s.line.length + 1 < newCap s := by omega
      exact .inr ⟨newCap s, hcap, by simp [hfull, h₁, h₂]⟩
  · have h₁ : s.line.length < s.lineCap := by omega
    have h₂ : s.line.length + 1 < s.lineCap := by omega
    exact .inr ⟨s.lineCap, by omega, by simp [hfull, h₁, h₂]⟩

end Read

/-! ### No store is outside the buffer -/

theorem Aside.room {s t : St} (h : Aside s t) (hroom : Room s) : Room t := by
  unfold Room
  rw [h.line, h.lineCap]
  exact hroom

theorem room_eofBlock {pf : Platform} {sockfd : ℤ} {a : Answer} {s : St} (hroom : Room s) :
    Room (eofBlock pf sockfd a s) := by
  rw [eofBlock_eq hroom]
  split_ifs
  · exact hroom
  · exact hroom
  · exact fun hne => absurd rfl hne

theorem endIter_ne_fault (s : St) : (endIter s).pc ≠ .fault := by
  unfold endIter
  cases s.exitRequested <;> simp

/-- A complete line is sent, or kept where the call returns. -/
theorem lineBlock_safe (pf : Platform) (sockfd : ℤ) (a : Answer) (rest : List Byte) {s : St} (hroom : Room s) :
    Room (lineBlock pf sockfd a rest s) ∧ (lineBlock pf sockfd a rest s).pc ≠ .fault := by
  unfold lineBlock
  dsimp only
  split_ifs
  · exact ⟨fun hne => absurd rfl hne, endIter_ne_fault _⟩
  · exact ⟨hroom, Pc.noConfusion⟩
  · exact ⟨fun hne => absurd rfl hne, Pc.noConfusion⟩

/-- A byte and the terminator behind it are stored inside the buffer, grown for them where it must be. -/
theorem byteBlock_safe (pf : Platform) (sockfd : ℤ) (a : Answer) (c : Byte) (rest : List Byte) {s : St}
    (hroom : Room s) : Room (byteBlock pf sockfd a c rest s) ∧ (byteBlock pf sockfd a c rest s).pc ≠ .fault := by
  rcases byteBlock_cases pf sockfd a c rest s with ⟨-, heq⟩ | ⟨cap, hcap, heq⟩
  · rw [heq]
    exact ⟨hroom, Pc.noConfusion⟩
  · have hroom' : Room { s with lineCap := cap, line := s.line ++ [c] } := by
      intro _
      dsimp only
      rw [List.length_append, List.length_singleton]
      omega
    rw [heq]
    split_ifs
    · exact lineBlock_safe pf sockfd a rest hroom'
    · exact ⟨hroom', Pc.noConfusion⟩

theorem room_step (pf : Platform) (sockfd : ℤ) (a : Answer) {s : St} (hroom : Room s) :
    Room (step pf sockfd s a) := by
  unfold step
  split
  · exact (aside_pollBlock pf a s).1.room hroom
  · exact (aside_socketBlock pf sockfd a s).1.room hroom
  · rcases stdinBlock_cases pf sockfd a s with
      heq | ⟨-, -, ⟨bs, -, -, heq⟩ | ⟨-, heq⟩ | ⟨_, -, -, -, heq⟩ | ⟨_, -, -, heq⟩⟩
    · rw [heq]
      exact hroom
    · rw [heq]
      exact hroom
    · rw [heq]
      exact room_eofBlock hroom
    · rw [heq]
      exact hroom
    · rw [heq]
      exact room_eofBlock hroom
  · exact hroom
  · exact (byteBlock_safe pf sockfd a _ _ hroom).1
  · exact (aside_drainBlock pf sockfd a s).1.room hroom
  · exact hroom
  · exact hroom

/-- The line has room in every state of every run. -/
theorem reach_room {pf : Platform} {sockfd : ℤ} {A : St → Answer → Prop} {s : St}
    (h : Reach (step pf sockfd) A (start sockfd) s) : Room s := by
  refine h.invariant (I := Room) ?_ fun s a hs _ => room_step pf sockfd a hs
  unfold start
  split_ifs <;> exact fun hne => absurd rfl hne

/-- At the end of standard input the terminator is stored inside the buffer, and the buffer is not
grown for it: it does not matter whether it could be. -/
theorem eofBlock_safe (pf : Platform) (sockfd : ℤ) (a : Answer) {s : St} (hroom : Room s) :
    (eofBlock pf sockfd a s).pc ≠ .fault ∧ (eofBlock pf sockfd a s).lineCap = s.lineCap ∧
      ∀ realloc, eofBlock pf sockfd { a with realloc := realloc } s = eofBlock pf sockfd a s := by
  refine ⟨?_, ?_, ?_⟩
  · rw [eofBlock_eq hroom]
    split_ifs
    · exact endIter_ne_fault _
    · exact Pc.noConfusion
    · exact endIter_ne_fault _
  · rw [eofBlock_eq hroom]
    split_ifs <;> rfl
  · intro realloc
    rw [eofBlock_eq hroom, eofBlock_eq hroom]
    rfl

/-- The same of the whole block of standard input. -/
theorem stdinBlock_safe (pf : Platform) (sockfd : ℤ) (a : Answer) {s : St} (hroom : Room s) :
    (stdinBlock pf sockfd a s).pc ≠ .fault ∧ (stdinBlock pf sockfd a s).lineCap = s.lineCap ∧
      ∀ realloc, stdinBlock pf sockfd { a with realloc := realloc } s = stdinBlock pf sockfd a s := by
  have hlogged : Room { s with log := s.log ++ [.stdinEof] } := hroom
  obtain ⟨hend, hendCap, hendSame⟩ := eofBlock_safe pf sockfd a hlogged
  obtain ⟨hfail, hfailCap, -⟩ := eofBlock_safe pf sockfd a hroom
  have hblock : (stdinBlock pf sockfd a s).pc ≠ .fault ∧ (stdinBlock pf sockfd a s).lineCap = s.lineCap := by
    rcases stdinBlock_cases pf sockfd a s with
      heq | ⟨-, -, ⟨bs, -, -, heq⟩ | ⟨-, heq⟩ | ⟨_, -, -, -, heq⟩ | ⟨_, -, -, heq⟩⟩ <;> rw [heq]
    · exact ⟨endIter_ne_fault s, rfl⟩
    · exact ⟨Pc.noConfusion, rfl⟩
    · exact ⟨hend, hendCap⟩
    · exact ⟨endIter_ne_fault _, rfl⟩
    · exact ⟨hfail, hfailCap⟩
  refine ⟨hblock.1, hblock.2, fun realloc => ?_⟩
  have hfailSame := (eofBlock_safe .windows sockfd a hroom).2.2 realloc
  unfold stdinBlock
  rw [hendSame, hfailSame]
  rfl

/-- **No step stores outside the buffer.** -/
theorem step_ne_fault (pf : Platform) (sockfd : ℤ) (a : Answer) {s : St} (hroom : Room s) (hpc : s.pc ≠ .fault) :
    (step pf sockfd s a).pc ≠ .fault := by
  unfold step
  split
  · rcases (aside_pollBlock pf a s).2 with h | ⟨h, -⟩
    · simp only [List.mem_cons, List.not_mem_nil, or_false] at h
      rcases h with h | h | h <;> rw [h]
      · exact Pc.noConfusion
      · exact hpc
      · exact Pc.noConfusion
    · rw [h]
      exact Pc.noConfusion
  · rcases (aside_socketBlock pf sockfd a s).2 with h | ⟨h, -⟩
    · simp only [List.mem_cons, List.not_mem_nil, or_false] at h
      rcases h with h | h <;> rw [h] <;> exact Pc.noConfusion
    · rw [h]
      exact Pc.noConfusion
  · exact (stdinBlock_safe pf sockfd a hroom).1
  · exact endIter_ne_fault s
  · exact (byteBlock_safe pf sockfd a _ _ hroom).2
  · have h := (aside_drainBlock pf sockfd a s).2
    simp only [List.mem_cons, List.not_mem_nil, or_false] at h
    rcases h with h | h <;> rw [h]
    · exact hpc
    · exact Pc.noConfusion
  · exact hpc
  · exact hpc

theorem reach_ne_fault {pf : Platform} {sockfd : ℤ} {A : St → Answer → Prop} {s : St}
    (h : Reach (step pf sockfd) A (start sockfd) s) : s.pc ≠ .fault := by
  have hstrong := h.strengthen (I := Room) fun _ => reach_room
  refine hstrong.invariant (I := fun s => s.pc ≠ .fault) ?_ fun s a hs ha => step_ne_fault pf sockfd a ha.2 hs
  unfold start
  split_ifs <;> exact Pc.noConfusion

/-- **The line buffer is never overrun**: whatever the calls answer, no store is outside it, a
non-empty line has room for its terminator, and the end of standard input needs no more room than
there is, so that it does not matter whether the buffer could be grown there. -/
theorem pipe_buffer (pf : Platform) (sockfd : ℤ) (answers : List Answer) :
    let s := run (step pf sockfd) (start sockfd) answers
    s.pc ≠ .fault ∧ (0 < s.line.length → s.line.length + 1 ≤ s.lineCap) ∧
      ∀ a, (stdinBlock pf sockfd a s).pc ≠ .fault ∧ (stdinBlock pf sockfd a s).lineCap = s.lineCap ∧
        ∀ realloc, stdinBlock pf sockfd { a with realloc := realloc } s = stdinBlock pf sockfd a s := by
  intro s
  have hreach : Reach (step pf sockfd) Free (start sockfd) s := reach_free_run _ answers
  have hroom : Room s := reach_room hreach
  refine ⟨reach_ne_fault hreach, ?_, fun a => stdinBlock_safe pf sockfd a hroom⟩
  intro hpos
  exact hroom (List.length_pos_iff.mp hpos)

end TcpClient.Pipe
