import TcpClient.Interactive.TtyHistory
import TcpClient.Interactive.WinTty

/-!
# The Windows loop is the POSIX loop

The two loops wait in different ways and tell different errors apart. But every run of the Windows loop is
matched by one of the POSIX loop in which the calls answer what they answer there (`Answer.posix`): the keys of
the console come as keys of standard input, and an error that only one build knows as another.

## What is proved

* `windows_refines_posix` — for every run of the Windows loop there is a run of the POSIX loop from the same state
  with the same log, lines, editor, history and history file, that has returned the same if it has returned.
-/

namespace TcpClient.WinTty

open Machine CString Tty

/-! ### The answers -/

/-- The error, as the POSIX build would have to see it: `EAGAIN` and `EINTR` mean nothing on Windows. -/
def posixError (err : Errno) : Errno := if err = .eagain ∨ err = .eintr then .other 0 else err

def posixPoll : PollAns → PollAns
  | .fail err => .fail (posixError err)
  | .timeout => .timeout
  | .ready => .ready

def posixRecv : RecvAns → RecvAns
  | .data bs => .data bs
  | .fail err => .fail (posixError err)

def posixSend : SendAns → SendAns
  | .accept n => .accept n
  | .fail err => .fail (posixError err)

/-- What `poll` would have to answer for the loop to go where it goes after `WSAPoll`. -/
def posixWait : PollAns → PollAns
  | .fail err => if isSocketWouldblock .windows err then .timeout else .fail (posixError err)
  | .timeout => .timeout
  | .ready => .ready

/-- The answers of a block of the Windows loop, given to a block of the POSIX loop in which `poll` answers `wait`;
`key` if there is a key. -/
def Answer.posix (a : Answer) (wait : PollAns) (key : Bool) : Tty.Answer where
  interrupted := a.interrupted
  poll := wait
  sockRev := a.sockRev
  readPoll := posixPoll a.readPoll
  recv := posixRecv a.recv
  stdinRev := { pollin := key }
  stdin := .data [a.getch]
  canSave := a.canSave
  canOpen := a.canOpen
  write := a.write.map fun w => (posixPoll w.1, posixSend w.2)

/-- `poll` answers that there is a key. -/
def keyReady : Tty.Answer := { stdinRev := { pollin := true } }

section Blocks

variable {pf : Platform} {sockfd : ℤ} {config : Connection} {a : Answer} {s w p : St} {key : Bool} {q : Pc}
  {r₁ r₂ : Revents}

theorem isSocketWouldblock_posixError (err : Errno) :
    isSocketWouldblock .posix (posixError err) = isSocketWouldblock .windows err := by
  cases err <;> rfl

/-! ### The same calls -/

theorem readSocket_posix (sockfd : ℤ) (a : Answer) (wait : PollAns) (key : Bool) :
    readSocket .windows sockfd a.calls = readSocket .posix sockfd (a.posix wait key) := by
  have hblock := isSocketWouldblock_posixError
  unfold readSocket socketRead Answer.posix Answer.calls
  cases a.readPoll <;> cases a.recv <;> simp [posixPoll, posixRecv, hblock]

theorem socketWriteLoop_posix (len : ℕ) (script : List (PollAns × SendAns)) (remaining taken : List Byte) :
    socketWriteLoop .windows len script remaining taken =
      socketWriteLoop .posix len (script.map fun w => (posixPoll w.1, posixSend w.2)) remaining taken := by
  have hblock := isSocketWouldblock_posixError
  induction script generalizing remaining taken with
  | nil => cases remaining <;> rfl
  | cons ans script ih =>
    cases remaining with
    | nil => simp [socketWriteLoop]
    | cons b remaining =>
      rcases ans with ⟨err | _ | _, n | err'⟩ <;> simp [socketWriteLoop, posixPoll, posixSend, hblock, ih]

theorem transmit_posix (sockfd : ℤ) (a : Answer) (wait : PollAns) (key : Bool) (s : St) :
    transmit .windows sockfd a.calls s = transmit .posix sockfd (a.posix wait key) s := by
  have hwrite : ∀ buf, socketWriteAll .windows sockfd a.calls.write buf =
      socketWriteAll .posix sockfd (a.posix wait key).write buf := by
    intro buf
    rw [socketWriteAll, socketWriteAll, socketWriteLoop_posix]
    rfl
  simp only [transmit, hwrite]
  rfl

theorem handleInteractiveCommand_posix (sockfd : ℤ) (config : Connection) (a : Answer) (wait : PollAns) (key : Bool)
    (s : St) :
    handleInteractiveCommand .windows sockfd config a.calls s =
      handleInteractiveCommand .posix sockfd config (a.posix wait key) s := by
  simp only [handleInteractiveCommand, transmit_posix sockfd a wait key]
  rfl

theorem lineBlock_posix (sockfd : ℤ) (config : Connection) (a : Answer) (wait : PollAns) (key : Bool) (s : St) :
    lineBlock .windows sockfd config a.calls s = lineBlock .posix sockfd config (a.posix wait key) s := by
  simp only [lineBlock, handleInteractiveCommand_posix sockfd config a wait key]
  rfl

/-- A key of the console goes where a key of standard input goes. -/
theorem keysBlock_posix (sockfd : ℤ) (config : Connection) (wait : PollAns) (key : Bool) (s : St)
    (hkbhit : a.kbhit = true) :
    keysBlock sockfd config a s =
      keyBlock .posix sockfd config (a.posix wait key) a.getch { s with log := s.log ++ [.readStdin [a.getch]] } := by
  rw [keysBlock, if_pos hkbhit]
  simp only [keyBlock, lineBlock_posix sockfd config a wait key]
  rfl

theorem handleSocketData_posix (sockfd : ℤ) (a : Answer) (wait : PollAns) (key : Bool) (s : St) :
    handleSocketData .windows sockfd a.calls s = handleSocketData .posix sockfd (a.posix wait key) s := by
  simp only [handleSocketData, readSocket_posix sockfd a wait key]

/-! ### What the events of `poll` do not touch -/

/-- `s`, with what was asked of `poll` different. -/
def withRevents (r₁ r₂ : Revents) (s : St) : St := { s with stdinRev := r₁, sockRev := r₂ }

/-- `s` elsewhere in the loop. -/
def elsewhere (q : Pc) (r₁ r₂ : Revents) (s : St) : St := { s with pc := q, stdinRev := r₁, sockRev := r₂ }

theorem save_elsewhere (b : Tty.Answer) (s : St) :
    save b (elsewhere q r₁ r₂ s) = (save b s).map (elsewhere q r₁ r₂) := by
  rw [save, save, elsewhere]
  cases linenoiseHistorySave s.history <;> rfl

theorem addAndSave_elsewhere (b : Tty.Answer) (s : St) :
    addAndSave b (elsewhere q r₁ r₂ s) = (addAndSave b s).map (elsewhere q r₁ r₂) := by
  rw [addAndSave, addAndSave]
  have hsave : ∀ history, save b { elsewhere q r₁ r₂ s with history := history } =
      (save b { s with history := history }).map (elsewhere q r₁ r₂) :=
    fun history => save_elsewhere b { s with history := history }
  simp only [hsave]
  cases hline : linenoiseStrdup s.editor.buf with
  | none => simp [elsewhere, hline]
  | some line =>
    cases hadd : linenoiseHistoryAdd line s.history with
    | none => simp [elsewhere, hline, hadd]
    | some r => simp [elsewhere, hline, hadd]

theorem leave_elsewhere (b : Tty.Answer) (rc : ℤ) (s : St) :
    leave b rc (elsewhere q r₁ r₂ s) = (leave b rc s).map (withRevents r₁ r₂) := by
  have hsave : save b { elsewhere q r₁ r₂ s with editor := linenoiseEditStop s.editor } =
      (save b { s with editor := linenoiseEditStop s.editor }).map (elsewhere q r₁ r₂) :=
    save_elsewhere b { s with editor := linenoiseEditStop s.editor }
  have hstop : linenoiseEditStop (elsewhere q r₁ r₂ s).editor = linenoiseEditStop s.editor := rfl
  rw [leave, leave, hstop, hsave]
  cases save b { s with editor := linenoiseEditStop s.editor } with
  | none => rfl
  | some t =>
    simp only [Option.map_some, Option.bind_eq_bind, Option.bind_some]
    have hsame : (elsewhere q r₁ r₂ t).history = t.history := rfl
    rw [hsame]
    cases linenoiseHistoryFree t.history <;> rfl

theorem transmit_elsewhere (pf : Platform) (sockfd : ℤ) (b : Tty.Answer) (s : St) :
    transmit pf sockfd b (elsewhere q r₁ r₂ s) =
      (transmit pf sockfd b s).map fun r => (r.1, elsewhere q r₁ r₂ r.2) := by
  have heditor : (elsewhere q r₁ r₂ s).editor = s.editor := rfl
  rw [transmit, transmit, heditor]
  cases transmitBuf s.editor.buf (if bufSize < s.editor.len then bufSize else s.editor.len) with
  | none => rfl
  | some buf =>
    simp only [Option.bind_eq_bind, Option.bind_some]
    split_ifs
    · rfl
    · have hwrote : (elsewhere q r₁ r₂ s).wrote buf (socketWriteAll pf sockfd b.write buf) =
          elsewhere q r₁ r₂ (s.wrote buf (socketWriteAll pf sockfd b.write buf)) := rfl
      rw [hwrote, addAndSave_elsewhere]
      cases addAndSave b (s.wrote buf (socketWriteAll pf sockfd b.write buf)) <;> rfl

theorem handleInteractiveCommand_elsewhere (pf : Platform) (sockfd : ℤ) (config : Connection) (b : Tty.Answer)
    (s : St) :
    handleInteractiveCommand pf sockfd config b (elsewhere q r₁ r₂ s) =
      (handleInteractiveCommand pf sockfd config b s).map fun r => (r.1, elsewhere q r₁ r₂ r.2) := by
  have heditor : (elsewhere q r₁ r₂ s).editor = s.editor := rfl
  have hprint : ∀ out, addAndSave b ((elsewhere q r₁ r₂ s).print out) =
      (addAndSave b (s.print out)).map (elsewhere q r₁ r₂) := fun out => addAndSave_elsewhere b (s.print out)
  unfold handleInteractiveCommand
  rw [heditor, transmit_elsewhere, addAndSave_elsewhere]
  simp only [hprint]
  split_ifs
  · rfl
  · cases addAndSave b (s.print printInteractiveHelp) <;> rfl
  · cases addAndSave b (s.print linenoiseClearScreen) <;> rfl
  · cases addAndSave b (s.print (printInteractiveStatus sockfd config)) <;> rfl
  · cases addAndSave b s <;> rfl
  · cases addAndSave b s <;> rfl
  · rfl
  · rfl

/-- Where a line leaves the loop does not depend on where it was before. -/
theorem lineBlock_elsewhere (pf : Platform) (sockfd : ℤ) (config : Connection) (b : Tty.Answer) (s : St) :
    lineBlock pf sockfd config b (elsewhere q r₁ r₂ s) =
      (lineBlock pf sockfd config b s).map (withRevents r₁ r₂) := by
  rw [lineBlock, lineBlock, handleInteractiveCommand_elsewhere]
  cases handleInteractiveCommand pf sockfd config b s with
  | none => rfl
  | some r =>
    obtain ⟨rc, t⟩ := r
    simp only [Option.map_some, Option.bind_eq_bind, Option.bind_some, leave_elsewhere]
    split_ifs
    · rfl
    · rfl
    · have hsame : linenoiseEditStart (elsewhere q r₁ r₂ t).history (elsewhere q r₁ r₂ t).editor.buf prompt =
          linenoiseEditStart t.history t.editor.buf prompt := rfl
      rw [hsame]
      cases linenoiseEditStart t.history t.editor.buf prompt <;> rfl

theorem keyBlock_elsewhere (pf : Platform) (sockfd : ℤ) (config : Connection) (b : Tty.Answer) (c : Byte)
    (s : St) :
    keyBlock pf sockfd config b c (elsewhere q r₁ r₂ s) =
      (keyBlock pf sockfd config b c s).map (withRevents r₁ r₂) := by
  have hsame : linenoiseEditFeed (some interactiveCompletionCallback) (elsewhere q r₁ r₂ s).history
      (elsewhere q r₁ r₂ s).editor (some c) =
      linenoiseEditFeed (some interactiveCompletionCallback) s.history s.editor (some c) := rfl
  rw [keyBlock, keyBlock, hsame]
  cases linenoiseEditFeed (some interactiveCompletionCallback) s.history s.editor (some c) with
  | none => rfl
  | some fed =>
    simp only [Option.bind_eq_bind, Option.bind_some]
    split_ifs
    · exact leave_elsewhere b 0 { s with editor := fed.editor, log := s.log ++ [.stdout fed.out] }
    · exact lineBlock_elsewhere pf sockfd config b { s with
        editor := fed.editor
        log := s.log ++ [.stdout fed.out]
        submitted := s.submitted ++ [fed.editor.buf.take fed.editor.len] }
    · rfl

theorem handleSocketData_elsewhere (pf : Platform) (sockfd : ℤ) (b : Tty.Answer) (s : St) :
    handleSocketData pf sockfd b (elsewhere q r₁ r₂ s) =
      (handleSocketData pf sockfd b s).map fun r => (r.1, elsewhere q r₁ r₂ r.2) := by
  have heditor : (elsewhere q r₁ r₂ s).editor = s.editor := rfl
  unfold handleSocketData
  rw [heditor]
  by_cases hpos : 0 < (readSocket pf sockfd b).rc
  · simp only [if_pos hpos]
    cases linenoiseEditRedraw s.editor <;> rfl
  · simp only [if_neg hpos]
    split_ifs <;> rfl

/-! ### The simulation -/

/-- The POSIX loop is where the Windows loop is; before a key it may also wait in `poll`. -/
def Matches (w p : St) : Prop :=
  ∃ r₁ r₂ q, p = elsewhere q r₁ r₂ w ∧
    match w.pc with
    | .socket => q = .socket ∧ r₁ = {} ∧ r₂ = w.sockRev
    | .typeahead => q = .poll ∨ q = .typeahead
    | .stdin => False
    | pc => q = pc

/-- If one of the two loops has ended, so has the other. -/
theorem Matches.pc_iff {pc : Pc} (h : Matches w p) (hend : pc = .fault ∨ ∃ rc, pc = .done rc) :
    w.pc = pc ↔ p.pc = pc := by
  obtain ⟨r₁, r₂, q, rfl, hq⟩ := h
  show w.pc = pc ↔ q = pc
  cases hpc : w.pc with
  | socket =>
    rw [hpc] at hq
    rcases hend with rfl | ⟨rc, rfl⟩ <;> simp [hq.1]
  | typeahead =>
    rw [hpc] at hq
    rcases hend with rfl | ⟨rc, rfl⟩ <;> rcases hq with rfl | rfl <;> simp
  | stdin =>
    rw [hpc] at hq
    exact hq.elim
  | poll | done rc | fault =>
    rw [hpc] at hq
    rw [hq]

/-- In the poll block, behind a line and at the end, the two are in the same place. -/
theorem matches_withRevents {t : St} (hpc : t.pc ≠ .socket ∧ t.pc ≠ .stdin) (r₁ r₂ : Revents) :
    Matches t (withRevents r₁ r₂ t) := by
  refine ⟨r₁, r₂, t.pc, rfl, ?_⟩
  cases h : t.pc with
  | poll => rfl
  | socket => exact absurd h hpc.1
  | stdin => exact absurd h hpc.2
  | typeahead => exact .inr rfl
  | done rc => rfl
  | fault => rfl

/-- A block that both run. -/
theorem matches_orFault {r : Option St} {f : St → St} (hp : p = elsewhere q r₁ r₂ w)
    (h : ∀ t, r = some t → Matches t (f t)) : Matches (orFault w r) (orFault p (r.map f)) := by
  cases r with
  | none =>
    rw [hp]
    exact ⟨r₁, r₂, .fault, rfl, rfl⟩
  | some t => exact h t rfl

theorem matches_leave (b : Tty.Answer) (rc : ℤ) (hp : p = elsewhere q r₁ r₂ w) (s : St) (q' : Pc) (r₁' r₂' : Revents) :
    Matches (orFault w (leave b rc s)) (orFault p (leave b rc (elsewhere q' r₁' r₂' s))) := by
  rw [leave_elsewhere]
  refine matches_orFault hp fun t ht => matches_withRevents ?_ _ _
  rw [leave_pc ht]
  exact ⟨Pc.noConfusion, Pc.noConfusion⟩

theorem Matches.pollBlock (hp : p = elsewhere .poll r₁ r₂ w) (sockfd : ℤ) (config : Connection) (a : Answer) :
    Matches (orFault w (pollBlock a w)) (Tty.step sockfd config p (a.posix (posixWait a.poll) false)) := by
  have hleave : ∀ rc, Matches (orFault w (leave a.calls rc w))
      (orFault p (leave (a.posix (posixWait a.poll) false) rc p)) := by
    intro rc
    have hpq := matches_leave a.calls rc hp w .poll r₁ r₂
    rw [← hp] at hpq
    exact hpq
  have hpc : p.pc = .poll := by rw [hp]; rfl
  rw [Tty.step, hpc]
  dsimp only
  unfold WinTty.pollBlock Tty.pollBlock
  by_cases hint : a.interrupted = true
  · rw [if_pos hint, if_pos (show (a.posix (posixWait a.poll) false).interrupted = true from hint)]
    exact hleave 0
  rw [if_neg hint, if_neg (show ¬ (a.posix (posixWait a.poll) false).interrupted = true from hint)]
  have hwait : (a.posix (posixWait a.poll) false).poll = posixWait a.poll := rfl
  rw [hwait]
  cases a.poll with
  | fail err =>
    dsimp only [posixWait]
    by_cases hblock : isSocketWouldblock .windows err = true
    · rw [if_pos hblock, if_pos hblock, hp]
      exact ⟨{}, {}, .socket, rfl, rfl, rfl, rfl⟩
    · have herr : posixError err ≠ .eintr := by
        unfold posixError
        split_ifs with h
        · exact Errno.noConfusion
        · exact fun h' => h (.inr h')
      rw [if_neg hblock, if_neg hblock]
      dsimp only
      rw [if_neg herr]
      exact hleave 5
  | timeout =>
    rw [hp]
    exact ⟨{}, {}, .socket, rfl, rfl, rfl, rfl⟩
  | ready =>
    rw [hp]
    exact ⟨{}, _, .socket, rfl, rfl, rfl, rfl⟩

theorem Matches.socketBlock (hp : p = elsewhere .socket {} w.sockRev w) (sockfd : ℤ) (config : Connection)
    (a : Answer) :
    Matches (orFault w (Tty.socketBlock .windows sockfd a.calls w))
      (run (Tty.step sockfd config) p [a.posix .ready false, a.posix .ready false]) := by
  have hpc : p.pc = .socket := by rw [hp]; rfl
  have hrev : p.sockRev = w.sockRev := by rw [hp]; rfl
  -- after the end nothing happens
  have hleave : ∀ rc s, Matches (orFault w (leave a.calls rc s)) (Tty.step sockfd config
      (orFault p (leave (a.posix .ready false) rc (elsewhere .socket {} w.sockRev s))) (a.posix .ready false)) := by
    intro rc s
    have hend := matches_leave a.calls rc hp s .socket {} w.sockRev
    have hstay : Tty.step sockfd config
        (orFault p (leave (a.posix .ready false) rc (elsewhere .socket {} w.sockRev s))) (a.posix .ready false) =
        orFault p (leave (a.posix .ready false) rc (elsewhere .socket {} w.sockRev s)) := by
      cases hu : leave (a.posix .ready false) rc (elsewhere .socket {} w.sockRev s) with
      | none => rfl
      | some u =>
        have hdone : (orFault p (some u)).pc = .done rc := leave_pc hu
        rw [Tty.step, hdone]
    rw [hstay]
    exact hend
  rw [run_cons, run_cons, run_nil]
  have hstep : Tty.step sockfd config p (a.posix .ready false) =
      orFault p (Tty.socketBlock .posix sockfd (a.posix .ready false) p) := by rw [Tty.step, hpc]
  rw [hstep]
  unfold Tty.socketBlock
  rw [hrev]
  split_ifs with hhup hin
  · have hsame := hleave 0 w
    rw [← hp] at hsame
    exact hsame
  · rw [handleSocketData_posix sockfd a .ready false]
    rw [show handleSocketData .posix sockfd (a.posix .ready false) p =
      handleSocketData .posix sockfd (a.posix .ready false) (elsewhere .socket {} w.sockRev w) by rw [hp]]
    rw [handleSocketData_elsewhere]
    cases handleSocketData .posix sockfd (a.posix .ready false) w with
    | none =>
      rw [hp]
      exact ⟨{}, w.sockRev, .fault, rfl, rfl⟩
    | some r =>
      obtain ⟨rc, s⟩ := r
      simp only [Option.map_some, Option.bind_eq_bind, Option.bind_some]
      split_ifs
      · exact hleave 0 s
      · exact hleave 5 s
      · exact ⟨{}, w.sockRev, .poll, rfl, .inl rfl⟩
  · rw [hp]
    exact ⟨{}, w.sockRev, .poll, rfl, .inl rfl⟩

/-- **A key.** Where the POSIX loop waits in `poll`, it first has to learn that there is one. -/
theorem Matches.keysBlock (hp : p = elsewhere q r₁ r₂ w) (hq : q = .poll ∨ q = .typeahead) (sockfd : ℤ)
    (config : Connection) (a : Answer) :
    ∃ bs, Matches (orFault w (keysBlock sockfd config a w)) (run (Tty.step sockfd config) p bs) := by
  by_cases hkbhit : a.kbhit = true
  · have hclip : (a.posix .ready true).stdin.clip 1 = .data [a.getch] := rfl
    -- the block that reads the key
    have hread : ∀ q r₁ r₂, Matches (orFault w (WinTty.keysBlock sockfd config a w))
        (orFault (elsewhere q r₁ r₂ w) (keyBlock .posix sockfd config (a.posix .ready true) a.getch
          (elsewhere q r₁ r₂ { w with log := w.log ++ [.readStdin [a.getch]] }))) := by
      intro q r₁ r₂
      rw [keysBlock_posix sockfd config .ready true w hkbhit, keyBlock_elsewhere]
      refine matches_orFault rfl fun t ht => matches_withRevents ?_ _ _
      have hmem := keyBlock_pc ht
      constructor <;>
        · intro hpc
          simp [hpc] at hmem
    rcases hq with rfl | rfl
    · refine ⟨[keyReady, keyReady, a.posix .ready true], ?_⟩
      have hwait : run (Tty.step sockfd config) p [keyReady, keyReady] = elsewhere .stdin { pollin := true } {} w := by
        rw [hp]
        rfl
      rw [show [keyReady, keyReady, a.posix .ready true] = [keyReady, keyReady] ++ [a.posix .ready true] from rfl, run,
        List.foldl_append]
      rw [run] at hwait
      rw [hwait]
      exact hread .stdin { pollin := true } {}
    · refine ⟨[a.posix .ready true], ?_⟩
      rw [hp]
      exact hread .typeahead r₁ r₂
  · have hnone : orFault w (WinTty.keysBlock sockfd config a w) = { w with pc := .poll } := by
      rw [WinTty.keysBlock, if_neg hkbhit]
      rfl
    rw [hnone]
    rcases hq with rfl | rfl
    · exact ⟨[], r₁, r₂, .poll, hp, rfl⟩
    · exact ⟨[{ poll := .timeout }], r₁, r₂, .poll, by rw [hp]; rfl, rfl⟩

/-- **Every step of the Windows loop is matched by some of the POSIX loop.** -/
theorem Matches.step (h : Matches w p) (sockfd : ℤ) (config : Connection) (a : Answer) :
    ∃ bs, Matches (step sockfd config w a) (run (Tty.step sockfd config) p bs) := by
  obtain ⟨r₁, r₂, q, hp, hq⟩ := h
  cases hpc : w.pc with
  | poll =>
    rw [hpc] at hq
    have hstep : WinTty.step sockfd config w a = orFault w (WinTty.pollBlock a w) := by rw [WinTty.step, hpc]
    rw [hstep]
    exact ⟨[a.posix (posixWait a.poll) false], Matches.pollBlock (hq ▸ hp) sockfd config a⟩
  | socket =>
    rw [hpc] at hq
    obtain ⟨rfl, rfl, rfl⟩ := hq
    have hstep : WinTty.step sockfd config w a = orFault w (Tty.socketBlock .windows sockfd a.calls w) := by
      rw [WinTty.step, hpc]
    rw [hstep]
    exact ⟨_, Matches.socketBlock hp sockfd config a⟩
  | stdin =>
    rw [hpc] at hq
    exact hq.elim
  | typeahead =>
    rw [hpc] at hq
    have hstep : WinTty.step sockfd config w a = orFault w (WinTty.keysBlock sockfd config a w) := by
      rw [WinTty.step, hpc]
    rw [hstep]
    exact Matches.keysBlock hp hq sockfd config a
  | done rc =>
    have hstep : WinTty.step sockfd config w a = w := by rw [WinTty.step, hpc]
    rw [hstep]
    exact ⟨[], r₁, r₂, q, hp, hq⟩
  | fault =>
    have hstep : WinTty.step sockfd config w a = w := by rw [WinTty.step, hpc]
    rw [hstep]
    exact ⟨[], r₁, r₂, q, hp, hq⟩

end Blocks

/-! ### The law -/

/-- **The Windows loop refines the POSIX loop**: for every run of the one there is a run of the other from the same
state, with the same log, the same lines submitted, the same editor, history and history file, and it has
returned the same if it has returned. -/
theorem windows_refines_posix (sockfd : ℤ) (config : Connection) (s₀ w : St) (h₀ : s₀.pc = .poll)
    (hw : Reach (step sockfd config) Free s₀ w) :
    ∃ p, Reach (Tty.step sockfd config) Free s₀ p ∧ p.log = w.log ∧ p.submitted = w.submitted ∧
      p.session = w.session ∧ p.histFile = w.histFile ∧ (∀ rc, w.pc = .done rc ↔ p.pc = .done rc) ∧
      (w.pc = .fault ↔ p.pc = .fault) := by
  have hstart : Matches s₀ s₀ := ⟨s₀.stdinRev, s₀.sockRev, .poll, by rw [← h₀]; rfl, by rw [h₀]⟩
  have hstep : ∀ s a u, Matches s u → Free s a →
      ∃ u', Reach (Tty.step sockfd config) Free u u' ∧ Matches (step sockfd config s a) u' := by
    intro s a u hs _
    obtain ⟨bs, hmatch⟩ := hs.step sockfd config a
    exact ⟨_, reach_free_run u bs, hmatch⟩
  obtain ⟨p, hreach, hmatch⟩ := hw.simulation hstep hstart
  have hend : ∀ pc, (pc = .fault ∨ ∃ rc, pc = .done rc) → (w.pc = pc ↔ p.pc = pc) := fun pc => hmatch.pc_iff
  obtain ⟨r₁, r₂, q, rfl, -⟩ := hmatch
  exact ⟨_, hreach, rfl, rfl, rfl, rfl, fun rc => hend _ (.inr ⟨rc, rfl⟩), hend _ (.inl rfl)⟩

/-- A line of one character, and Ctrl+C. -/
theorem windows_refines_posix_line :
    let answers : List Answer := [{ poll := .fail .ewouldblock }, {}, { kbhit := true, getch := 104 },
      { kbhit := true, getch := 13, write := [(.fail .einprogress, .accept 0), (.ready, .accept 2)] }, {}, {},
      { kbhit := true, getch := 3 }]
    ∃ s₀ p, start {} none [0, 0, 0, 0] = some s₀ ∧ Reach (Tty.step 3 ⟨[], 1, 1⟩) Free s₀ p ∧
      p.log = (run (step 3 ⟨[], 1, 1⟩) s₀ answers).log ∧ sent p.log = str "h\n" ∧ p.submitted = [str "h"] ∧
      p.pc = .done 0 := by
  intro answers
  obtain ⟨p, hreach, hlog, hsubmitted, -, -, hdone, -⟩ :=
    windows_refines_posix 3 ⟨[], 1, 1⟩ ((start {} none [0, 0, 0, 0]).get (by decide)) _ rfl (reach_free_run _ answers)
  refine ⟨_, p, (Option.some_get _).symm, hreach, hlog, ?_, ?_, (hdone 0).mp (by decide)⟩
  · rw [hlog]
    decide
  · rw [hsubmitted]
    decide

end TcpClient.WinTty
