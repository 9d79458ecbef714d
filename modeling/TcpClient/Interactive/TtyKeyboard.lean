import TcpClient.Interactive.TtyBlocks

/-!
# What a terminal session transmits

`Keyboard` is the editor alone: it is fed the keys and nothing else, and collects the lines
that are submitted. The loop on the terminal is compared with it: whatever the server
sends in between, and in whatever bursts the keys come, the lines submitted are those
of the keyboard, and what is sent is decided by these lines.

## What is proved

* `tty_keyboard_decides` — in every state of every run the lines submitted are those the
  keys read so far submit without a server, and the bytes sent are the transmitted ones
  among them, each with a line end; after an exit line, an end-of-session key or the end
  of standard input nothing more is sent. If neither a signal nor the server nor a failing
  call ends the session before, all that the input submits was handled when it is over.

The invariant (`Follows`) is that the loop and the keyboard hold the same history and
the same editor, as long as the session lasts.
-/

namespace TcpClient.Tty

open Machine CString

/-! ### The keyboard alone -/

/-- The session without a server: the editor, the lines submitted, and whether it has ended. -/
structure Keyboard where
  session : Session
  lines : List (List Byte) := []
  ended : Bool := false

/-- A line was submitted: an exit line ends the session, any other goes into the history. -/
def Keyboard.enter (k : Keyboard) : Option Keyboard :=
  if exits (cstr k.session.editor.buf) then some { k with ended := true }
  else do
    let session ← submitLine prompt k.session
    return { k with session := session }

/-- One key. -/
def typeKey (k : Keyboard) (c : Byte) : Option Keyboard :=
  if k.ended then some k
  else do
    let fed ← linenoiseEditFeed (some interactiveCompletionCallback) k.session.history k.session.editor (some c)
    let k := { k with session := { k.session with editor := fed.editor } }
    if fed.rc = -1 then return { k with ended := true }
    else if fed.rc = 1 then Keyboard.enter { k with lines := k.lines ++ [fed.editor.buf.take fed.editor.len] }
    else return k

/-- The keyboard before the first key. -/
def keyboard (history : History) (buf : List Byte) : Option Keyboard := do
  let (l, _) ← linenoiseEditStart history buf prompt
  return { session := ⟨history, l⟩ }

/-- The bytes that the lines submitted send. -/
def wire (lines : List (List Byte)) : List Byte := (lines.filter transmits).flatMap (· ++ [10])

section Keyboard

variable {n : ℕ} {k k' : Keyboard} {c : Byte} {keys : List Byte}

theorem wire_concat (lines : List (List Byte)) (line : List Byte) :
    wire (lines ++ [line]) = wire lines ++ if transmits line then line ++ [10] else [] := by
  unfold wire
  rw [List.filter_append, List.flatMap_append, List.filter_singleton]
  cases transmits line <;> simp

/-- Once ended, the keyboard stays as it is. -/
theorem typed_of_ended (h : k.ended = true) (keys : List Byte) : keys.foldlM typeKey k = some k := by
  induction keys with
  | nil => rfl
  | cons c keys ih =>
    rw [List.foldlM_cons, typeKey, if_pos h]
    exact ih

theorem Keyboard.enter_spec (hk : k.session.Sound n) :
    ∃ k', k.enter = some k' ∧ k'.session.Sound n ∧ k'.lines = k.lines := by
  unfold Keyboard.enter
  split
  · exact ⟨_, rfl, hk, rfl⟩
  · obtain ⟨t, ht, hsound⟩ := hk.submitLine prompt
    exact ⟨{ k with session := t }, by simp [ht], hsound, rfl⟩

/-- **A key** is defined, and adds to the lines at most. -/
theorem typeKey_spec (hk : k.session.Sound n) (c : Byte) :
    ∃ k', typeKey k c = some k' ∧ k'.session.Sound n ∧ k.lines <+: k'.lines := by
  unfold typeKey
  split
  · exact ⟨k, rfl, hk, List.prefix_refl _⟩
  · obtain ⟨entries, hh⟩ := hk.history
    obtain ⟨fed, hfed, hl⟩ := hk.editor.feed (some interactiveCompletionCallback) hh (some c)
    have hsound : Session.Sound n { k.session with editor := fed.editor } := ⟨⟨entries, hh⟩, hl⟩
    rw [hfed, Option.bind_eq_bind, Option.bind_some]
    dsimp only
    split_ifs
    · exact ⟨_, rfl, hsound, List.prefix_refl _⟩
    · obtain ⟨k', hk', hsound', hlines⟩ := Keyboard.enter_spec
        (k := { k with
          session := { k.session with editor := fed.editor }, lines := k.lines ++ [fed.editor.buf.take fed.editor.len] })
        hsound
      exact ⟨k', hk', hsound', hlines ▸ List.prefix_append _ _⟩
    · exact ⟨_, rfl, hsound, List.prefix_refl _⟩

theorem typed_spec (hk : k.session.Sound n) (keys : List Byte) :
    ∃ k', keys.foldlM typeKey k = some k' ∧ k'.session.Sound n ∧ k.lines <+: k'.lines := by
  refine foldlM_invariant (f := typeKey) (I := fun k' => k'.session.Sound n ∧ k.lines <+: k'.lines) ?_
    ⟨hk, List.prefix_refl _⟩ keys
  rintro k₁ c ⟨hk₁, hpre⟩
  obtain ⟨k₂, hk₂, hsound, hpre'⟩ := typeKey_spec hk₁ c
  exact ⟨k₂, hk₂, hsound, hpre.trans hpre'⟩

end Keyboard

/-! ### The environment -/

/-- Whether the step reads a key. -/
def reads (s : St) (a : Answer) : Bool :=
  match s.pc with
  | .stdin => s.stdinRev.pollin || s.stdinRev.pollerr || s.stdinRev.pollhup
  | .typeahead => a.poll = .ready && a.stdinRev.pollin
  | _ => false

/-- The keys are `input`, in whatever bursts; writes succeed. -/
structure Typed (sockfd : ℤ) (config : Connection) (input : List Byte) (s : St) (a : Answer) : Prop where
  write : ∀ w ∈ writes (step sockfd config s a).log, 0 ≤ w.2
  key : reads s a = true → ∀ bs, a.stdin.clip 1 = .data bs →
    stdinBytes s.log ++ bs <+: input ∧ (bs = [] → stdinBytes s.log = input)

/-- Nothing ends the session before the keyboard does: no signal comes, the server stays open,
and neither `poll` nor standard input fails. -/
structure Steady (sockfd : ℤ) (s : St) (a : Answer) : Prop where
  no_signal : a.interrupted = false ∧ a.interruptedAgain = false
  poll : ∀ err, a.poll = .fail err → err = .eintr
  server : s.pc = .socket →
    (s.sockRev.pollin = true → 0 < (readSocket .posix sockfd a).rc ∨ (readSocket .posix sockfd a).rc = socketErrTimeout) ∧
      (s.sockRev.pollin = false → (s.sockRev.pollhup || s.sockRev.pollerr) = false)
  no_error : reads s a = true → s.pc = .stdin → ∀ err, a.stdin ≠ .fail err

instance (sockfd : ℤ) (config : Connection) (input : List Byte) (s : St) (a : Answer) :
    Decidable (Typed sockfd config input s a) :=
  decidable_of_iff (_ ∧ _) ⟨fun ⟨hwrite, hkey⟩ => ⟨hwrite, hkey⟩, fun h => ⟨h.write, h.key⟩⟩

instance (sockfd : ℤ) (s : St) (a : Answer) : Decidable (Steady sockfd s a) :=
  decidable_of_iff (_ ∧ _ ∧ _ ∧ _) ⟨fun ⟨hsignal, hpoll, hserver, herror⟩ => ⟨hsignal, hpoll, hserver, herror⟩,
    fun h => ⟨h.no_signal, h.poll, h.server, h.no_error⟩⟩

/-! ### The invariant -/

/-- The loop is where the keyboard is. -/
structure Follows (n : ℕ) (k : Keyboard) (s : St) : Prop where
  lines : s.submitted = k.lines
  sent : sent s.log = wire k.lines
  sound : k.session.Sound n
  running : (∀ rc, s.pc ≠ .done rc) → k.ended = false ∧ s.session = k.session
  ended : k.ended = true → s.pc = .done 0
  no_fault : s.pc ≠ .fault

section Invariant

variable {sockfd : ℤ} {config : Connection} {n : ℕ} {k k' : Keyboard} {s t : St} {a : Answer} {c : Byte}

/-- A step beside the keyboard. -/
theorem Follows.aside (h : Follows n k s) (hrun : ∀ rc, s.pc ≠ .done rc) (ht : Aside s t) (hno : t.pc ≠ .fault)
    (hsession : (∀ rc, t.pc ≠ .done rc) → t.session = s.session) : Follows n k t := by
  obtain ⟨hended, hsame⟩ := h.running hrun
  refine ⟨ht.submitted.trans h.lines, ht.log.sent.trans h.sent, h.sound, fun hrun' => ?_, fun he => ?_, hno⟩
  · exact ⟨hended, (hsession hrun').trans hsame⟩
  · simp [hended] at he

/-- A line that ends the session is not sent. -/
theorem transmits_of_exits {line : List Byte} (h : exits line = true) : transmits line = false := by
  have hexit : command line = str "exit" ∨ command line = str "quit" := by simpa [exits] using h
  rcases hexit with hcmd | hcmd <;> simp [transmits, hcmd]

/-- The end of the session, for a keyboard that holds what was submitted. -/
theorem follows_leave {entries : List CStr} (a : Answer) (hh : s.history.Holds entries) (hk : k.session.Sound n)
    (hlines : s.submitted = k.lines) (hsent : sent s.log = wire k.lines) :
    ∃ t, leave a 0 s = some t ∧ t.pc = .done 0 ∧ Follows n k t ∧ stdinBytes t.log = stdinBytes s.log := by
  obtain ⟨t, ht, hpc, haside⟩ := leave_spec a 0 hh
  refine ⟨t, ht, hpc, ⟨?_, ?_, hk, fun hrun => absurd hpc (hrun 0), fun _ => hpc, by simp [hpc]⟩, haside.log.stdinBytes⟩
  · exact haside.submitted.trans hlines
  · exact haside.log.sent.trans hsent

/-- What the answer of the command handler makes of the session. -/
theorem lineBlock_eq {rc : ℤ} (h : handleInteractiveCommand .posix sockfd config a s = some (rc, t)) :
    lineBlock .posix sockfd config a s =
      if rc = 1 then leave a 0 t
      else if rc = -1 then leave a 5 t
      else (linenoiseEditStart t.history t.editor.buf prompt).bind fun r =>
        some { t with editor := r.1, pc := .poll, log := t.log ++ [.stdout r.2] } := by
  rw [lineBlock, h]
  rfl

/-- A failed write shows in the log that the session ends with. -/
theorem leave_writes {entries : List CStr} {w : List Byte × ℤ} (a : Answer) (hh : t.history.Holds entries)
    (hw : w ∈ writes t.log) : ∃ u, leave a 5 t = some u ∧ w ∈ writes u.log := by
  obtain ⟨u, hu, -, haside⟩ := leave_spec a 5 hh
  refine ⟨u, hu, ?_⟩
  rw [haside.log.writes]
  exact hw

section Line

variable {before after : List Byte}

/-- **An exit line** ends the keyboard, and the loop. -/
theorem lineBlock_exit (lines : List (List Byte)) (hs : s.session.Sound n) (hl : s.editor.Shows before after)
    (hk : k.session = s.session) (hlines : s.submitted = lines ++ [before ++ after]) (hklines : k.lines = s.submitted)
    (hsent : sent s.log = wire lines) (hexit : exits (before ++ after) = true)
    (hcommand : handleInteractiveCommand .posix sockfd config a s = some (1, s)) :
    ∃ k' t, k.enter = some k' ∧ lineBlock .posix sockfd config a s = some t ∧ Follows n k' t ∧
      stdinBytes t.log = stdinBytes s.log ∧ k'.ended = true ∧ t.pc = .done 0 := by
  obtain ⟨entries, hh⟩ := hs.history
  have hcstr : cstr k.session.editor.buf = before ++ after := by
    rw [hk]
    exact hl.holds.cstr_eq
  have hwire : sent s.log = wire k.lines := by
    rw [hklines, hlines, wire_concat, transmits_of_exits hexit, hsent]
    simp
  obtain ⟨t, ht, hpc, hfollows, hstdin⟩ :=
    follows_leave (k := { k with ended := true }) a hh (hk ▸ hs) hklines.symm hwire
  refine ⟨{ k with ended := true }, t, ?_, ?_, hfollows, hstdin, rfl, hpc⟩
  · rw [Keyboard.enter, hcstr, if_pos hexit]
  · rw [lineBlock_eq hcommand, if_pos rfl, ht]

/-- **Any other line** that was handled: the history and the editor go on together. -/
theorem lineBlock_line (lines : List (List Byte)) (hs : s.session.Sound n) (hl : s.editor.Shows before after)
    (hk : k.session = s.session) (hended : k.ended = false) (hlines : s.submitted = lines ++ [before ++ after])
    (hklines : k.lines = s.submitted) (hsent : sent s.log = wire lines) (hgoes : exits (before ++ after) = false)
    (hcommand : handleInteractiveCommand .posix sockfd config a s = some (0, t))
    (hhandled : Handled hl.line (if transmits (before ++ after) then before ++ after ++ [10] else []) s t) :
    ∃ k' u, k.enter = some k' ∧ lineBlock .posix sockfd config a s = some u ∧ Follows n k' u ∧
      stdinBytes u.log = stdinBytes s.log ∧ u.pc = .poll := by
  obtain ⟨entries, hh⟩ := hs.history
  have hcstr : cstr k.session.editor.buf = before ++ after := by
    rw [hk]
    exact hl.holds.cstr_eq
  -- both histories have taken the line
  obtain ⟨add, hadd⟩ := hhandled.adds
  obtain ⟨rc, h', hadd', -, hh'⟩ := linenoiseHistoryAdd_holds hh hl.line
  have hhist : t.history = h' := by
    have := hadd.symm.trans hadd'
    simp only [Option.some.injEq, Prod.mk.injEq] at this
    exact this.2
  -- and both editors start again on the same buffer
  have hbuf : 1 ≤ s.editor.buf.length := Nat.one_le_of_lt hl.len_lt
  have hbuflen : s.editor.buf.length = n := hs.editor.buflen
  obtain ⟨l', out, hstart, hsound, -⟩ := linenoiseEditStart_sound t.history hbuf prompt
  have hsubmit : submitLine prompt k.session = some ⟨t.history, l'⟩ := by
    have hadd'' : linenoiseHistoryAdd hl.line s.session.history = some (add, t.history) := hadd
    have hstart' : linenoiseEditStart t.history s.session.editor.buf prompt = some (l', out) := hstart
    rw [hk, submitLine, show linenoiseStrdup s.session.editor.buf = some hl.line from hl.strdup]
    simp only [hadd'', hstart', Option.bind_eq_bind, Option.bind_some]
    rfl
  refine ⟨{ k with session := ⟨t.history, l'⟩ }, { t with editor := l', pc := .poll, log := t.log ++ [.stdout out] },
    ?_, ?_, ⟨?_, ?_, ?_, fun _ => ⟨hended, rfl⟩, fun he => ?_, ?_⟩, ?_, rfl⟩
  · rw [Keyboard.enter, hcstr, if_neg (by simp [hgoes]), hsubmit]
    rfl
  · rw [lineBlock_eq hcommand, if_neg (by decide), if_neg (by decide), hhandled.editor, hstart]
    rfl
  · exact hhandled.submitted.trans hklines.symm
  · simp only [sent_append, sent_cons, Event.sent, sent_nil, List.append_nil]
    rw [hhandled.sent, hsent, hklines, hlines, wire_concat]
  · exact ⟨⟨_, hhist ▸ hh'⟩, hbuflen ▸ hsound⟩
  · simp [hended] at he
  · simp
  · simpa using hhandled.stdin

end Line

/-- **A submitted line** takes the loop where it takes the keyboard; `s` is the loop with the line
just put among those submitted, and `k` the keyboard. -/
theorem lineBlock_follows (lines : List (List Byte)) (hs : s.session.Sound n) (hn : n ≤ bufSize)
    (hk : k.session = s.session) (hended : k.ended = false)
    (hlines : s.submitted = lines ++ [s.editor.buf.take s.editor.len])
    (hklines : k.lines = s.submitted) (hsent : sent s.log = wire lines)
    (hok : ∀ t, lineBlock .posix sockfd config a s = some t → ∀ w ∈ writes t.log, 0 ≤ w.2) :
    ∃ k' t, k.enter = some k' ∧ lineBlock .posix sockfd config a s = some t ∧ Follows n k' t ∧
      stdinBytes t.log = stdinBytes s.log ∧ (k'.ended = true ∧ t.pc = .done 0 ∨ t.pc = .poll) := by
  obtain ⟨before, after, hl⟩ := hs.editor.text
  have hline : s.editor.buf.take s.editor.len = before ++ after := hl.text_eq
  rw [hline] at hlines
  obtain ⟨rc, t, ht, hcases⟩ := handleInteractiveCommand_spec sockfd config a hs hn hl
  rcases hcases with ⟨rfl, hexit, rfl⟩ | ⟨hgoes, ⟨rfl, hsession, w, hw, hneg⟩ | ⟨rfl, hhandled⟩⟩
  · -- an exit line
    obtain ⟨k', u, hk', hu, hfollows, hstdin, hend⟩ := lineBlock_exit lines hs hl hk hlines hklines hsent hexit ht
    exact ⟨k', u, hk', hu, hfollows, hstdin, .inl hend⟩
  · -- a write that failed: excluded
    obtain ⟨entries, hh⟩ := hs.history
    have hhist : t.history = s.history := congrArg Session.history hsession
    obtain ⟨u, hu, hwrites⟩ := leave_writes a (hhist ▸ hh : t.history.Holds entries) hw
    have hblock : lineBlock .posix sockfd config a s = some u := by
      rw [lineBlock_eq ht, if_neg (by decide), if_pos rfl, hu]
    exact absurd (hok u hblock w hwrites) (not_le.mpr hneg)
  · -- any other line
    obtain ⟨k', u, hk', hu, hfollows, hstdin, hpc⟩ :=
      lineBlock_line lines hs hl hk hended hlines hklines hsent hgoes ht hhandled
    exact ⟨k', u, hk', hu, hfollows, hstdin, .inr hpc⟩

/-- A key on the keyboard, once the editor has taken it. -/
theorem typeKey_eq {fed : Fed} (hended : k.ended = false)
    (h : linenoiseEditFeed (some interactiveCompletionCallback) k.session.history k.session.editor (some c) = some fed) :
    typeKey k c =
      if fed.rc = -1 then some { k with session := ⟨k.session.history, fed.editor⟩, ended := true }
      else if fed.rc = 1 then
        Keyboard.enter { k with
          session := ⟨k.session.history, fed.editor⟩, lines := k.lines ++ [fed.editor.buf.take fed.editor.len] }
      else some { k with session := ⟨k.session.history, fed.editor⟩ } := by
  rw [typeKey, if_neg (by simp [hended]), h]
  rfl

/-- A key in the loop, once the editor has taken it. -/
theorem keyBlock_eq {fed : Fed} (sockfd : ℤ) (config : Connection) (a : Answer)
    (h : linenoiseEditFeed (some interactiveCompletionCallback) s.history s.editor (some c) = some fed) :
    keyBlock .posix sockfd config a c s =
      if fed.rc = -1 then leave a 0 { s with editor := fed.editor, log := s.log ++ [.stdout fed.out] }
      else if fed.rc = 1 then
        lineBlock .posix sockfd config a { s with
          editor := fed.editor, log := s.log ++ [.stdout fed.out]
          submitted := s.submitted ++ [fed.editor.buf.take fed.editor.len] }
      else some { s with editor := fed.editor, log := s.log ++ [.stdout fed.out], pc := .typeahead } := by
  rw [keyBlock, h]
  rfl

/-- **A key** takes the loop where it takes the keyboard. -/
theorem Follows.keyBlock (h : Follows n k s) (hn : n ≤ bufSize) (hrun : ∀ rc, s.pc ≠ .done rc) (c : Byte)
    (hok : ∀ t, keyBlock .posix sockfd config a c s = some t → ∀ w ∈ writes t.log, 0 ≤ w.2) :
    ∃ k' t, typeKey k c = some k' ∧ keyBlock .posix sockfd config a c s = some t ∧ Follows n k' t ∧
      stdinBytes t.log = stdinBytes s.log ∧
      (k'.ended = true ∧ t.pc = .done 0 ∨ t.pc ∈ [.poll, .typeahead]) := by
  obtain ⟨hended, hsession⟩ := h.running hrun
  obtain ⟨entries, hh⟩ := h.sound.history
  obtain ⟨fed, hfed, hl⟩ := h.sound.editor.feed (some interactiveCompletionCallback) hh (some c)
  have hhist : s.history = k.session.history := congrArg Session.history hsession
  have heditor : s.editor = k.session.editor := congrArg Session.editor hsession
  rw [← hhist] at hh hl
  have hsound : Session.Sound n ⟨s.history, fed.editor⟩ := ⟨⟨entries, hh⟩, hl⟩
  have hwire : TcpClient.sent (s.log ++ [.stdout fed.out]) = wire k.lines := by simpa using h.sent
  rw [keyBlock_eq sockfd config a (by rw [hhist, heditor, hfed])] at hok ⊢
  rw [typeKey_eq hended hfed, ← hhist]
  by_cases hout : fed.rc = -1
  · -- the end of the session
    obtain ⟨t, ht, hpc, hfollows, hstdin⟩ := follows_leave
      (k := { k with session := ⟨s.history, fed.editor⟩, ended := true })
      (s := { s with editor := fed.editor, log := s.log ++ [.stdout fed.out] }) a hh hsound h.lines hwire
    refine ⟨_, t, if_pos hout, by rw [if_pos hout, ht], hfollows, ?_, .inl ⟨rfl, hpc⟩⟩
    simpa using hstdin
  rw [if_neg hout] at hok ⊢
  rw [if_neg hout]
  by_cases henter : fed.rc = 1
  · -- a line
    rw [if_pos henter] at hok ⊢
    rw [if_pos henter]
    obtain ⟨k', t, hk', ht, hfollows, hstdin, hpc⟩ := lineBlock_follows
      (k := { k with
        session := ⟨s.history, fed.editor⟩, lines := k.lines ++ [fed.editor.buf.take fed.editor.len] })
      (s := { s with
        editor := fed.editor, log := s.log ++ [.stdout fed.out]
        submitted := s.submitted ++ [fed.editor.buf.take fed.editor.len] })
      k.lines hsound hn rfl hended (by rw [h.lines]) (by rw [h.lines]) hwire hok
    refine ⟨k', t, hk', ht, hfollows, by simpa using hstdin, ?_⟩
    cases hpc with
    | inl hpc => exact .inl hpc
    | inr hpc => exact .inr (by simp [hpc])
  · -- more is to come
    rw [if_neg henter, if_neg henter]
    refine ⟨_, _, rfl, rfl, ⟨h.lines, hwire, hsound, fun _ => ⟨hended, rfl⟩, fun he => ?_, by simp⟩, by simp,
      .inr (by simp)⟩
    simp [hended] at he

/-- Where a run is: the keyboard has been fed the keys read, and the loop follows it. A steady
run is over only when the keyboard has ended or the input has. -/
structure Along (steady : Prop) (n : ℕ) (k₀ : Keyboard) (input : List Byte) (s : St) : Prop where
  read : stdinBytes s.log <+: input
  follows : ∃ k, (stdinBytes s.log).foldlM typeKey k₀ = some k ∧ Follows n k s ∧
    (steady → ∀ rc, s.pc = .done rc → rc = 0 ∧ (k.ended = true ∨ stdinBytes s.log = input))

variable {steady : Prop} {k₀ : Keyboard} {input : List Byte}

/-- A step beside the keyboard. -/
theorem Along.aside (h : Along steady n k₀ input s) (ht : Aside s t) (hrun : ∀ rc, s.pc ≠ .done rc)
    (hsession : t.session = s.session) (hpc : t.pc ∈ [.poll, .socket, .stdin]) : Along steady n k₀ input t := by
  obtain ⟨k, hk, hfollows, -⟩ := h.follows
  have hon : t.pc ≠ .fault ∧ ∀ rc, t.pc ≠ .done rc := by
    simp only [List.mem_cons, List.not_mem_nil, or_false] at hpc
    rcases hpc with hpc | hpc | hpc <;> simp [hpc]
  refine ⟨ht.log.stdinBytes ▸ h.read, k, ht.log.stdinBytes ▸ hk, ?_, fun _ rc hdone => absurd hdone (hon.2 rc)⟩
  exact hfollows.aside hrun ht hon.1 fun _ => hsession

/-- The session is left before the keyboard has ended. -/
theorem Along.cut (h : Along steady n k₀ input s) (ht : Aside s t) (hrun : ∀ rc, s.pc ≠ .done rc)
    (hpc : ∃ rc, t.pc = .done rc) (hnot : ¬ steady) : Along steady n k₀ input t := by
  obtain ⟨k, hk, hfollows, -⟩ := h.follows
  obtain ⟨rc, hrc⟩ := hpc
  refine ⟨ht.log.stdinBytes ▸ h.read, k, ht.log.stdinBytes ▸ hk, ?_, fun hsteady => absurd hsteady hnot⟩
  exact hfollows.aside hrun ht (by simp [hrc]) fun hrun' => absurd hrc (hrun' rc)

/-- The session is sound as long as it runs. -/
theorem Along.sound (h : Along steady n k₀ input s) (hrun : ∀ rc, s.pc ≠ .done rc) : s.session.Sound n := by
  obtain ⟨k, -, hfollows, -⟩ := h.follows
  exact (hfollows.running hrun).2 ▸ hfollows.sound

/-- A `read` of one byte. -/
theorem clip_one {r : RecvAns} {rest : List Byte} (h : r.clip 1 = .data (c :: rest)) : rest = [] := by
  cases r with
  | fail err => simp [RecvAns.clip] at h
  | data bs =>
    cases bs with
    | nil => simp [RecvAns.clip] at h
    | cons b bs => simpa [RecvAns.clip] using (by simpa [RecvAns.clip] using h : b = c ∧ [] = rest).2.symm

/-- A key that was read. -/
theorem Along.key (sockfd : ℤ) (config : Connection) (a : Answer) (h : Along steady n k₀ input s) (hn : n ≤ bufSize)
    (hrun : ∀ rc, s.pc ≠ .done rc) (hread : stdinBytes s.log ++ [c] <+: input)
    (hok : ∀ w ∈ writes (orFault s (keyBlock .posix sockfd config a c { s with log := s.log ++ [.readStdin [c]] })).log,
      0 ≤ w.2) :
    Along steady n k₀ input
      (orFault s (keyBlock .posix sockfd config a c { s with log := s.log ++ [.readStdin [c]] })) := by
  have hwrites : ∀ t, keyBlock .posix sockfd config a c { s with log := s.log ++ [.readStdin [c]] } = some t →
      ∀ w ∈ writes t.log, 0 ≤ w.2 := by
    intro t ht
    simpa only [ht, orFault, Option.getD_some] using hok
  obtain ⟨k, hk, hfollows, -⟩ := h.follows
  have hlogged : Follows n k { s with log := s.log ++ [.readStdin [c]] } :=
    ⟨hfollows.lines, by simpa using hfollows.sent, hfollows.sound, hfollows.running, hfollows.ended, hfollows.no_fault⟩
  obtain ⟨k', t, hk', ht, hfollows', hstdin, hpc⟩ := hlogged.keyBlock hn hrun c hwrites
  rw [ht, orFault, Option.getD_some]
  have hkeys : stdinBytes t.log = stdinBytes s.log ++ [c] := by simpa using hstdin
  refine ⟨hkeys ▸ hread, k', ?_, hfollows', fun _ rc hdone => ?_⟩
  · rw [hkeys, List.foldlM_append, hk]
    simpa using hk'
  · rcases hpc with ⟨hended, hpc⟩ | hpc
    · rw [hpc] at hdone
      exact ⟨(Pc.done.inj hdone).symm, .inl hended⟩
    · simp [hdone] at hpc

/-- The end of standard input. -/
theorem Along.eof (h : Along steady n k₀ input s) (hrun : ∀ rc, s.pc ≠ .done rc) (hall : stdinBytes s.log = input)
    (a : Answer) : ∃ t, leave a 0 { s with log := s.log ++ [.stdinEof] } = some t ∧ Along steady n k₀ input t := by
  obtain ⟨k, hk, hfollows, -⟩ := h.follows
  obtain ⟨entries, hh⟩ := (h.sound hrun).history
  obtain ⟨t, ht, hpc, hfollows', hstdin⟩ := follows_leave (s := { s with log := s.log ++ [.stdinEof] }) a hh
    hfollows.sound hfollows.lines (by simpa using hfollows.sent)
  have hkeys : stdinBytes t.log = stdinBytes s.log := by simpa using hstdin
  refine ⟨t, ht, hkeys ▸ h.read, k, hkeys ▸ hk, hfollows', fun _ rc hrc => ?_⟩
  rw [hpc] at hrc
  exact ⟨(Pc.done.inj hrc).symm, .inr (hkeys.trans hall)⟩

/-- The block of standard input. -/
theorem Along.stdinBlock (h : Along steady n k₀ input s) (hn : n ≤ bufSize) (hpc : s.pc = .stdin)
    (ha : Typed sockfd config input s a) (hsteady : steady → Steady sockfd s a) :
    Along steady n k₀ input (step sockfd config s a) := by
  have hrun : ∀ rc, s.pc ≠ .done rc := by simp [hpc]
  have hok := ha.write
  have hstep : step sockfd config s a = orFault s (Tty.stdinBlock sockfd config a s) := by rw [step, hpc]
  have hreads : reads s a = (s.stdinRev.pollin || s.stdinRev.pollerr || s.stdinRev.pollhup) := by rw [reads, hpc]
  rw [hstep, Tty.stdinBlock, ← hreads] at hok ⊢
  by_cases hready : reads s a = true
  · rw [if_pos hready] at hok ⊢
    cases hans : a.stdin.clip 1 with
    | fail err =>
      obtain ⟨entries, hh⟩ := (h.sound hrun).history
      obtain ⟨t, ht, hdone, haside⟩ := leave_spec (s := s) a 0 hh
      simp only [ht, orFault, Option.getD_some]
      refine h.cut haside hrun ⟨0, hdone⟩ fun hs => (hsteady hs).no_error hready hpc err ?_
      cases hstdin : a.stdin with
      | data bs => simp [hstdin, RecvAns.clip] at hans
      | fail err' => simpa [hstdin, RecvAns.clip] using hans
    | data bs =>
      rw [hans] at hok
      cases bs with
      | nil =>
        obtain ⟨t, ht, halong⟩ := h.eof hrun ((ha.key hready [] hans).2 rfl) a
        simpa only [ht, orFault, Option.getD_some] using halong
      | cons c rest =>
        obtain rfl := clip_one hans
        exact h.key sockfd config a hn hrun (ha.key hready _ hans).1 hok
  · rw [if_neg hready]
    exact h.aside (aside_of_eq rfl rfl) hrun rfl (by simp [orFault])

/-- The inner loop. -/
theorem Along.typeaheadBlock (h : Along steady n k₀ input s) (hn : n ≤ bufSize) (hpc : s.pc = .typeahead)
    (ha : Typed sockfd config input s a) : Along steady n k₀ input (step sockfd config s a) := by
  have hrun : ∀ rc, s.pc ≠ .done rc := by simp [hpc]
  have hok := ha.write
  have hstep : step sockfd config s a = orFault s (Tty.typeaheadBlock sockfd config a s) := by rw [step, hpc]
  have hreads : reads s a = (decide (a.poll = .ready) && a.stdinRev.pollin) := by rw [reads, hpc]
  rw [hstep, Tty.typeaheadBlock, ← hreads] at hok ⊢
  by_cases hready : reads s a = true
  · rw [if_pos hready] at hok ⊢
    cases hans : a.stdin.clip 1 with
    | fail err => exact h.aside (aside_of_eq rfl rfl) hrun rfl (by simp [orFault])
    | data bs =>
      rw [hans] at hok
      cases bs with
      | nil => exact h.aside ⟨rfl, _, rfl, rfl, rfl, rfl⟩ hrun rfl (by simp [orFault])
      | cons c rest =>
        obtain rfl := clip_one hans
        exact h.key sockfd config a hn hrun (ha.key hready _ hans).1 hok
  · rw [if_neg hready]
    exact h.aside (aside_of_eq rfl rfl) hrun rfl (by simp [orFault])

/-- **One step of the loop.** -/
theorem along_step (h : Along steady n k₀ input s) (hn : n ≤ bufSize) (ha : Typed sockfd config input s a)
    (hsteady : steady → Steady sockfd s a) : Along steady n k₀ input (step sockfd config s a) := by
  cases hpc : s.pc with
  | poll =>
    have hrun : ∀ rc, s.pc ≠ .done rc := by simp [hpc]
    obtain ⟨t, ht, haside, ⟨hsession, hnext⟩ | ⟨hdone, hwhy⟩⟩ := pollBlock_spec a (h.sound hrun)
    · rw [step, hpc]
      simp only [ht, orFault, Option.getD_some]
      refine h.aside haside hrun hsession ?_
      rw [hpc] at hnext
      simp only [List.mem_cons, List.not_mem_nil, or_false] at hnext ⊢
      rcases hnext with hn | hn <;> simp [hn]
    · rw [step, hpc]
      simp only [ht, orFault, Option.getD_some]
      refine h.cut haside hrun hdone fun hs => ?_
      rcases hwhy with hint | hint | ⟨err, hpoll, herr⟩
      · simp [(hsteady hs).no_signal.1] at hint
      · simp [(hsteady hs).no_signal.2] at hint
      · exact herr ((hsteady hs).poll err hpoll)
  | socket =>
    have hrun : ∀ rc, s.pc ≠ .done rc := by simp [hpc]
    obtain ⟨t, ht, haside, ⟨hsession, hnext⟩ | ⟨hdone, hwhy⟩⟩ := socketBlock_spec sockfd a (h.sound hrun)
    · rw [step, hpc]
      simp only [ht, orFault, Option.getD_some]
      exact h.aside haside hrun hsession (by simp [hnext])
    · rw [step, hpc]
      simp only [ht, orFault, Option.getD_some]
      refine h.cut haside hrun hdone fun hs => ?_
      obtain ⟨hopen, hquiet⟩ := (hsteady hs).server hpc
      rcases hwhy with ⟨hin, hhup⟩ | ⟨hin, hgone⟩
      · simp [hquiet hin] at hhup
      · exact hgone (hopen hin)
  | stdin => exact h.stdinBlock hn hpc ha hsteady
  | typeahead => exact h.typeaheadBlock hn hpc ha
  | done rc =>
    rw [step, hpc]
    exact h
  | fault =>
    obtain ⟨k, -, hfollows, -⟩ := h.follows
    exact absurd hpc hfollows.no_fault

/-- Before the first key. -/
theorem along_start {history : History} {l : Editor} (steady : Prop) (input : List Byte)
    (hsound : Session.Sound n ⟨history, l⟩) (hsession : s.session = ⟨history, l⟩) (hpc : s.pc = .poll)
    (hsubmitted : s.submitted = []) (hsent : sent s.log = []) (hstdin : stdinBytes s.log = []) :
    Along steady n { session := ⟨history, l⟩ } input s := by
  refine ⟨hstdin ▸ List.nil_prefix, { session := ⟨history, l⟩ }, by rw [hstdin]; rfl, ?_, by simp [hpc]⟩
  exact ⟨hsubmitted, hsent, hsound, fun _ => ⟨rfl, hsession⟩, by simp, by simp [hpc]⟩

variable {all : Keyboard}

/-- What the keys read have decided, of what the whole input decides. -/
theorem Along.decided (h : Along steady n k₀ input s) (hall : input.foldlM typeKey k₀ = some all) :
    ∃ k, (stdinBytes s.log).foldlM typeKey k₀ = some k ∧ s.submitted = k.lines ∧ sent s.log = wire k.lines ∧
      k.lines <+: all.lines ∧ (k.ended = true → s.pc = .done 0 ∧ k.lines = all.lines) ∧ s.pc ≠ .fault := by
  obtain ⟨k, hk, hfollows, -⟩ := h.follows
  obtain ⟨rest, hrest⟩ := h.read
  have hmore : rest.foldlM typeKey k = some all := by
    rw [← hrest, List.foldlM_append, hk] at hall
    exact hall
  obtain ⟨all', hall', -, hpre⟩ := typed_spec hfollows.sound rest
  obtain rfl : all' = all := Option.some.inj (hall'.symm.trans hmore)
  refine ⟨k, hk, hfollows.lines, hfollows.sent, hpre, fun hend => ⟨hfollows.ended hend, ?_⟩, hfollows.no_fault⟩
  rw [typed_of_ended hend rest] at hmore
  exact congrArg Keyboard.lines (Option.some.inj hmore)

/-- When a steady run is over, the whole input has decided. -/
theorem Along.over (h : Along steady n k₀ input s) (hall : input.foldlM typeKey k₀ = some all) (hsteady : steady)
    {rc : ℤ} (hrc : s.pc = .done rc) : rc = 0 ∧ s.submitted = all.lines ∧ sent s.log = wire all.lines := by
  obtain ⟨k, hk, hlines, hsent, -, hended, -⟩ := h.decided hall
  obtain ⟨k', hk', -, hdone⟩ := h.follows
  obtain rfl : k' = k := Option.some.inj (hk'.symm.trans hk)
  obtain ⟨hzero, hend⟩ := hdone hsteady rc hrc
  have hwhole : k'.lines = all.lines := by
    cases hend with
    | inl hend => exact (hended hend).2
    | inr heof =>
      rw [heof] at hk
      exact congrArg Keyboard.lines (Option.some.inj (hk.symm.trans hall))
  rw [hwhole] at hlines hsent
  exact ⟨hzero, hlines, hsent⟩

end Invariant

/-! ### The law -/

/-- **What a terminal session transmits is decided by the keyboard alone.** Whatever the server
sends and in whatever bursts the keys come, the lines submitted are those that the keys read
so far submit on the keyboard alone, and the bytes sent are the transmitted lines among
them, each with a line end. Once the keyboard has ended nothing more of the input counts. If
nothing else ends the session, everything that the whole input submits was handled when
it is over. -/
theorem tty_keyboard_decides (sockfd : ℤ) (config : Connection) (history : History) (entries : List CStr)
    (histFile : Option (List Byte)) (buf input : List Byte) (hh : history.Holds entries) (hbuf : 1 ≤ buf.length)
    (hsize : buf.length ≤ bufSize) :
    ∃ s₀ k₀ all, start history histFile buf = some s₀ ∧ keyboard history buf = some k₀ ∧
      input.foldlM typeKey k₀ = some all ∧
      ∀ s,
        (Reach (step sockfd config) (Typed sockfd config input) s₀ s →
          ∃ k, (stdinBytes s.log).foldlM typeKey k₀ = some k ∧ s.submitted = k.lines ∧ sent s.log = wire k.lines ∧
            k.lines <+: all.lines ∧ (k.ended = true → s.pc = .done 0 ∧ k.lines = all.lines) ∧ s.pc ≠ .fault) ∧
        (Reach (step sockfd config) (fun s a => Typed sockfd config input s a ∧ Steady sockfd s a) s₀ s →
          ∀ rc, s.pc = .done rc → rc = 0 ∧ s.submitted = all.lines ∧ sent s.log = wire all.lines) := by
  obtain ⟨l, out, hstart, hl, -⟩ := linenoiseEditStart_sound history hbuf prompt
  have hsound : Session.Sound buf.length ⟨history, l⟩ := ⟨⟨entries, hh⟩, hl⟩
  obtain ⟨all, hall, -, -⟩ := typed_spec (k := { session := ⟨history, l⟩ }) hsound input
  have halong : ∀ (steady : Prop) s, Reach (step sockfd config)
      (fun s a => Typed sockfd config input s a ∧ (steady → Steady sockfd s a))
      { history := history, editor := l, histFile := histFile, log := [.stdout out] } s →
        Along steady buf.length { session := ⟨history, l⟩ } input s := by
    intro steady s hreach
    refine hreach.invariant (I := Along steady buf.length { session := ⟨history, l⟩ } input) ?_ fun s a hs ha => ?_
    · exact along_start steady input hsound rfl rfl rfl rfl rfl
    · exact along_step hs hsize ha.1 ha.2
  refine ⟨{ history := history, editor := l, histFile := histFile, log := [.stdout out] }, { session := ⟨history, l⟩ },
    all, ?_, ?_, hall, fun s => ⟨fun hreach => ?_, fun hreach rc hrc => ?_⟩⟩
  · rw [start, hstart]
    rfl
  · rw [keyboard, hstart]
    rfl
  · exact (halong False s (hreach.mono fun _ _ ha => ⟨ha, False.elim⟩)).decided hall
  · exact (halong True s (hreach.mono fun _ _ ha => ⟨ha.1, fun _ => ha.2⟩)).over hall trivial hrc

/-- A line of one character, with a packet of the server before its end, and the end of
standard input. -/
theorem tty_keyboard_decides_line :
    let answers : List Answer := [{ stdinRev := { pollin := true } }, {}, { stdin := .data (str "h") },
      { poll := .timeout }, { sockRev := { pollin := true } }, { recv := .data (str "x") }, {},
      { stdinRev := { pollin := true } }, {}, { stdin := .data [13], write := [(.ready, .accept 2)] },
      { stdinRev := { pollin := true } }, {}, { stdin := .data [] }]
    ∃ (s₀ : St) (all : Keyboard), start {} none [0, 0, 0, 0] = some s₀ ∧
      (run (step 3 ⟨[], 1, 1⟩) s₀ answers).submitted = all.lines ∧
      sent (run (step 3 ⟨[], 1, 1⟩) s₀ answers).log = str "h\n" ∧
      (run (step 3 ⟨[], 1, 1⟩) s₀ answers).pc ≠ .fault := by
  intro answers
  obtain ⟨s₀, k₀, all, hs₀, -, -, hlaw⟩ :=
    tty_keyboard_decides 3 ⟨[], 1, 1⟩ {} [] none [0, 0, 0, 0] (str "h\x0d") holds_init (by decide) (by decide)
  obtain rfl : (start {} none [0, 0, 0, 0]).get (by decide) = s₀ := Option.get_of_eq_some _ hs₀
  have hkeeps : Keeps (step 3 ⟨[], 1, 1⟩) (fun s a => Typed 3 ⟨[], 1, 1⟩ (str "h\x0d") s a ∧ Steady 3 s a)
      ((start {} none [0, 0, 0, 0]).get (by decide)) answers := by decide +kernel
  obtain ⟨-, -, -, -, -, -, hno⟩ := (hlaw _).1 ((reach_run hkeeps).mono fun _ _ ha => ha.1)
  obtain ⟨-, hall, -⟩ := (hlaw _).2 (reach_run hkeeps) 0 (by decide)
  exact ⟨_, all, hs₀, hall, by decide, hno⟩

end TcpClient.Tty
