import TcpClient.Interactive.TtyHistory
import TcpClient.Interactive.TtyScreen
import TcpClient.Linenoise.Drawing

/-!
# What a terminal session shows

At any time of a session the row of the cursor holds the prompt and the line, with the cursor where the next
character goes: after every key, after what the server sends, after a command and what it prints.

## What is proved

* `tty_displays` — in every state of every run, from the first prompt on, the screen displays the editor.

## Honest scope

No control sequence may come from outside: neither from the server nor in the host's name nor in the history
file; and what is typed, if it goes into the line, takes one column. What is above the line is not looked at:
see `packet_shown_iff`.
-/

namespace TcpClient.Tty

open Machine CString Terminal

section Printed

variable {cs : Charset} {v : Screen cs} {bs : List Byte}

/-! ### No control sequences -/

/-- A number is printed without one. -/
theorem esc_not_mem_int (n : ℤ) : 27 ∉ str (toString n) := by
  have hdigits : ∀ m : ℕ, 27 ∉ str (toString m) := by
    intro m hmem
    have htext : (toString m).toList = Nat.toDigits 10 m := Nat.toList_repr
    rw [str, htext] at hmem
    exact absurd (byte_of_mem_toDigits hmem).1 (by decide)
  cases n with
  | ofNat m => exact hdigits m
  | negSucc m =>
    have htext : str (toString (Int.negSucc m)) = str "-" ++ str (toString (m + 1)) := by
      rw [str, str, str, ← List.map_append, ← String.toList_append]
      rfl
    rw [htext, List.mem_append, not_or]
    exact ⟨by decide, hdigits (m + 1)⟩

theorem esc_not_mem_status {config : Connection} (sockfd : ℤ) (hhost : 27 ∉ config.host) :
    27 ∉ printInteractiveStatus sockfd config := by
  have hname : 27 ∉ (if config.host ≠ [] then config.host else str "(unknown)") := by
    split_ifs
    · exact hhost
    · decide
  have htexts : ∀ s ∈ [str "Connection Status:\n", str "  Host:       ", str "  Port:       ", str "  Timeout:    ",
      str " ms\n", str "  Socket FD:  ", str "  Mode:       Interactive (Linenoise TTY)\n", [10]], (27 : Byte) ∉ s := by
    decide
  simp only [List.forall_mem_cons] at htexts
  simp only [printInteractiveStatus, List.mem_append, hname, htexts, esc_not_mem_int, or_self, not_false_eq_true]

/-- What is read from a file is in the file. -/
theorem mem_of_mem_fgetsAll {size : ℕ} {line text piece : List Byte} {c : Byte}
    (hpiece : piece ∈ fgetsAll size line text) (hc : c ∈ piece) : c ∈ line ++ text := by
  induction text generalizing line with
  | nil =>
    rw [fgetsAll] at hpiece
    split_ifs at hpiece
    · cases hpiece
    · rw [List.mem_singleton.mp hpiece] at hc
      exact List.mem_append_left _ hc
  | cons d text ih =>
    rw [fgetsAll] at hpiece
    split_ifs at hpiece
    · cases List.mem_cons.mp hpiece with
      | inl hfirst =>
        rw [hfirst] at hc
        rw [List.append_cons]
        exact List.mem_append_left _ hc
      | inr hrest => exact List.mem_append_right _ (List.mem_cons_of_mem d (by simpa using ih hrest))
    · have hmem := ih hpiece
      rwa [← List.append_cons] at hmem

theorem esc_not_mem_history {file : Option (List Byte)} (hfile : ∀ text, file = some text → 27 ∉ text) :
    27 ∉ printInteractiveHistory file := by
  cases file with
  | none => decide
  | some text =>
    intro hmem
    obtain ⟨⟨line, count⟩, hline, hmem⟩ := List.mem_flatMap.mp hmem
    have hblank : ∀ m, 27 ∉ List.replicate m (32 : Byte) := fun m h27 =>
      absurd (List.eq_of_mem_replicate h27) (by decide)
    have hcount : 27 ∉ str (toString count) := esc_not_mem_int count
    have hfixed : 27 ∉ str "  " ∧ (27 : Byte) ∉ [10] := by decide
    simp only [historyLine, List.mem_append, hblank, hcount, hfixed, false_or, or_false] at hmem
    -- so it is in a line, and there in the file
    have hlines := (List.mem_filter.mp (List.fst_mem_of_mem_zipIdx hline)).1
    obtain ⟨piece, hpiece, rfl⟩ := List.mem_map.mp hlines
    have hin : 27 ∈ piece := (List.takeWhile_prefix _).subset ((List.rdropWhile_prefix _ _).subset hmem)
    exact hfile text rfl (by simpa using mem_of_mem_fgetsAll hpiece hin)

/-! ### The line -/

/-- The prompt takes columns. -/
def Ascii (cs : Charset) : Prop := ∀ c, 32 ≤ c → c < 127 → cs.prints c = true

variable {h : History} {n : ℕ} {l : Editor} {out : List Byte} {fed : Fed}

/-- Clearing the screen ends no sequence in the middle. -/
theorem feedAll_clearScreen (hv : v.mode = .ground) : v.feedAll linenoiseClearScreen = v := by
  have hescape : v.feed 27 = { v with mode := .escape } := Screen.feed_control hv (by decide)
  have hclear : linenoiseClearScreen = [27, 91, 72] ++ [27, 91, 50, 74] := by decide
  have hhome : v.feedAll [27, 91, 72] = v := by
    rw [Screen.feedAll_cons, hescape]
    obtain ⟨above, row, col, mode⟩ := v
    cases hv
    rfl
  rw [hclear, Screen.feedAll_append, hhome, Screen.feedAll_cons, hescape]
  obtain ⟨above, row, col, mode⟩ := v
  cases hv
  rfl

/-- **The line is displayed as soon as it is drawn.** -/
theorem displays_redraw (hl : l.Sound h n) (hn : n ≤ bufSize) (hw : l.Within (cs.prints · = true))
    (hprompt : ∀ c ∈ l.prompt, cs.prints c = true) (hv : v.mode = .ground) (hout : linenoiseEditRedraw l = some out) :
    Displays (v.feedAll out) l := by
  obtain ⟨before, after, hshows⟩ := hl.text
  obtain ⟨line, hline⟩ : ∃ line : List (Glyph cs), text line = l.prompt ++ l.text := by
    refine exists_text fun c hc => ?_
    exact (List.mem_append.mp hc).elim (hprompt c) (hw.line c)
  have hlen := hshows.len_lt
  have hint : bufSize < 2 ^ 31 := by decide
  have hbuflen := hl.buflen
  rw [feedAll_redraw hshows (by omega) hv hline hout]
  exact ⟨hv, hline, rfl⟩

/-- What was drawn ends no sequence in the middle, and displays the line if it goes on. -/
theorem displays_drawn (hdrawn : Drawn l fed) (hl : fed.editor.Sound h n) (hn : n ≤ bufSize)
    (hw : fed.editor.Within (cs.prints · = true)) (hsame : fed.editor.prompt = l.prompt)
    (hprompt : ∀ c ∈ l.prompt, cs.prints c = true) (hv : Displays v l) :
    (v.feedAll fed.out).mode = .ground ∧ (fed.rc ∉ [1, -1] → Displays (v.feedAll fed.out) fed.editor) := by
  have hredraw : ∀ {out}, linenoiseEditRedraw fed.editor = some out → Displays (v.feedAll out) fed.editor :=
    fun hout => displays_redraw hl hn hw (hsame ▸ hprompt) hv.mode hout
  rcases hdrawn with ⟨-, hout, htext, hpos⟩ | ⟨-, out, hout, hmem⟩ | hend
  · rw [hout]
    refine ⟨hv.mode, fun _ => ⟨hv.mode, ?_, ?_⟩⟩
    · rw [hsame, htext]
      exact hv.row
    · rw [hsame, hpos]
      exact hv.col
  · have hfeed : v.feedAll fed.out = v.feedAll out := by
      simp only [List.mem_cons, List.not_mem_nil, or_false] at hmem
      rcases hmem with h | h
      · rw [h]
      · rw [h, Screen.feedAll_append, feedAll_clearScreen hv.mode]
    rw [hfeed]
    exact ⟨(hredraw hout).mode, fun _ => hredraw hout⟩
  · have hended : fed.rc ∈ [1, -1] ∧ 27 ∉ fed.out := by
      simp only [List.mem_cons, List.not_mem_nil, or_false, Prod.mk.injEq] at hend
      rcases hend with ⟨hrc, hout⟩ | ⟨hrc, hout⟩
      · rw [hrc, hout]
        decide
      · rw [hrc, hout]
        decide
    exact ⟨Screen.feedAll_ground hv.mode hended.2, fun hgoes => absurd hended.1 hgoes⟩

theorem prompt_prints (hcs : Ascii cs) : ∀ c ∈ prompt, cs.prints c = true := by
  intro c hc
  have hplain : (prompt.all fun c => 32 ≤ c && c < 127) = true := by decide
  have hrange := List.all_eq_true.mp hplain c hc
  rw [Bool.and_eq_true, decide_eq_true_eq, decide_eq_true_eq] at hrange
  exact hcs c hrange.1 hrange.2

/-- **The editor starts** on an empty line. -/
theorem displays_start {buf : List Byte} (hstart : linenoiseEditStart h buf prompt = some (l, out)) (hcs : Ascii cs)
    (hl : l.Sound h n) (hn : n ≤ bufSize) (hv : v.mode = .ground) :
    l.Within (cs.prints · = true) ∧ l.prompt = prompt ∧ Displays (v.feedAll out) l := by
  obtain ⟨buf', -, hstart⟩ := Option.bind_eq_some_iff.mp hstart
  obtain ⟨out', hout, hstart⟩ := Option.bind_eq_some_iff.mp hstart
  cases hstart
  have hw : ({ buf := buf', prompt := prompt, historyIndex := h.len } : Editor).Within (cs.prints · = true) :=
    ⟨by simp [Editor.text], by simp, by simp⟩
  exact ⟨hw, rfl, displays_redraw hl hn hw (prompt_prints hcs) hv hout⟩

end Printed

/-! ### The invariant -/

/-- What is typed into the line takes columns, and no packet holds a control sequence. -/
structure Plain (cs : Charset) (sockfd : ℤ) (a : Answer) : Prop where
  typed : ∀ bs, a.stdin.clip 1 = .data bs → ∀ c ∈ bs, 32 ≤ c → c ≠ 127 → cs.prints c = true
  packet : 27 ∉ (readSocket .posix sockfd a).bytes

/-- The screen displays the editor, and nothing that could be printed holds a control sequence. -/
structure Shown {cs : Charset} (n : ℕ) (v₀ : Screen cs) (s : St) : Prop where
  sound : s.session.Sound n
  entries : ∃ entries, s.history.Holds entries ∧ ∀ line ∈ entries, ∀ c ∈ line.chars, cs.prints c = true
  within : s.editor.Within (cs.prints · = true)
  prompt : s.editor.prompt = prompt
  file : ∀ text, s.histFile = some text → 27 ∉ text
  displays : Displays (v₀.feedAll (printed s.log)) s.editor

/-- As long as the session lasts after a block, the editor is displayed. -/
def StaysShown {cs : Charset} (n : ℕ) (v₀ : Screen cs) (r : Option St) : Prop :=
  ∃ t, r = some t ∧ t.pc ≠ .fault ∧ ((∀ rc, t.pc ≠ .done rc) → Shown n v₀ t)

section Blocks

variable {cs : Charset} {v₀ : Screen cs} {n : ℕ} {sockfd : ℤ} {config : Connection} {a : Answer} {s t u : St} {c : Byte}
  {entries : List CStr}

/-- A byte of the character set is no escape character. -/
theorem Glyph.ne_escape (hc : cs.prints c = true) : c ≠ 27 := by
  rintro rfl
  exact absurd hc (Bool.eq_false_iff.mp (cs.control 27 (by decide)))

theorem completions_print (hcs : Ascii cs) : ∀ callback, some interactiveCompletionCallback = some callback →
    ∀ line, ∀ s ∈ callback line, ∀ c ∈ s.chars, cs.prints c = true := by
  rintro callback hcallback line s hs c hc
  cases hcallback
  have hplain : ∀ s ∈ interactiveCompletions, ∀ c ∈ s.chars, 32 ≤ c ∧ c < 127 := by decide +kernel
  have hbounds := hplain s (List.mem_of_mem_filter hs) c hc
  exact hcs c hbounds.1 hbounds.2

/-- The entries in the file hold no control sequence. -/
theorem esc_not_mem_fileText (hentries : ∀ line ∈ entries, ∀ c ∈ line.chars, cs.prints c = true) :
    27 ∉ fileText entries := by
  intro hmem
  obtain ⟨line, hline, hmem⟩ := List.mem_flatMap.mp hmem
  cases List.mem_append.mp hmem with
  | inl hchar => exact Glyph.ne_escape (hentries line hline 27 hchar) rfl
  | inr hend => exact absurd hend (by decide)

/-- The end of the session. -/
theorem staysShown_leave (a : Answer) (rc : ℤ) (hh : s.history.Holds entries) : StaysShown n v₀ (leave a rc s) := by
  obtain ⟨t, ht, hpc, -⟩ := leave_spec a rc hh
  exact ⟨t, ht, by simp [hpc], fun hrun => absurd hpc (hrun rc)⟩

/-- What is not on the screen has changed. -/
theorem Shown.same (hs : Shown n v₀ s) (hsession : t.session = s.session) (hfile : t.histFile = s.histFile)
    (hprinted : printed t.log = printed s.log) : Shown n v₀ t := by
  have heditor : t.editor = s.editor := congrArg Session.editor hsession
  have hhistory : t.history = s.history := congrArg Session.history hsession
  exact ⟨hsession ▸ hs.sound, hhistory ▸ hs.entries, heditor ▸ hs.within, heditor ▸ hs.prompt, hfile ▸ hs.file,
    by rw [hprinted, heditor]; exact hs.displays⟩

theorem Shown.pollBlock (hs : Shown n v₀ s) (hpc : s.pc = .poll) (a : Answer) : StaysShown n v₀ (pollBlock a s) := by
  obtain ⟨entries, hh⟩ := hs.sound.history
  have hleave : ∀ rc, StaysShown n v₀ (leave a rc s) := fun rc => staysShown_leave a rc hh
  unfold Tty.pollBlock
  split
  · exact hleave 0
  · cases a.poll with
    | fail err =>
      dsimp only
      split_ifs
      · exact hleave 0
      · exact ⟨s, rfl, by simp [hpc], fun _ => hs⟩
      · exact hleave 5
    | timeout => exact ⟨_, rfl, by simp, fun _ => hs.same rfl rfl rfl⟩
    | ready => exact ⟨_, rfl, by simp, fun _ => hs.same rfl rfl rfl⟩

/-- **A packet** is shown, and the line again below it. -/
theorem Shown.handleSocketData (hs : Shown n v₀ s) (hn : n ≤ bufSize) (hcs : Ascii cs) (ha : Plain cs sockfd a) :
    ∃ rc t, handleSocketData .posix sockfd a s = some (rc, t) ∧ t.pc = s.pc ∧ Shown n v₀ t := by
  unfold Tty.handleSocketData
  dsimp only
  by_cases hpos : 0 < (readSocket .posix sockfd a).rc
  · obtain ⟨before, after, hshows⟩ := hs.sound.editor.text
    obtain ⟨out, hout⟩ := hshows.redraw
    have hredraw : linenoiseEditRedraw s.editor = some out := hout
    rw [if_pos hpos, hredraw]
    refine ⟨0, _, rfl, rfl, hs.sound, hs.entries, hs.within, hs.prompt, hs.file, ?_⟩
    -- the packet comes on an empty row, and ends no sequence in the middle
    have herase := Screen.feedAll_eraseRow hs.displays.mode
    have hground : ((v₀.feedAll (printed s.log)).feedAll ([13, 27] ++ str "[2K" ++ (readSocket .posix sockfd a).bytes ++
        if (readSocket .posix sockfd a).bytes.getLast? = some 10 then [] else [10])).mode = .ground := by
      have herase' : (v₀.feedAll (printed s.log)).feedAll ([13, 27] ++ str "[2K") = _ := herase
      rw [List.append_assoc, Screen.feedAll_append, herase']
      refine Screen.feedAll_ground (v := { v₀.feedAll (printed s.log) with row := [], col := 0 }) hs.displays.mode ?_
      rw [List.mem_append, not_or]
      refine ⟨ha.packet, ?_⟩
      split_ifs <;> decide
    have hdisplays : Displays _ s.editor :=
      displays_redraw hs.sound.editor hn hs.within (hs.prompt ▸ prompt_prints hcs) hground hredraw
    simpa [Screen.feedAll_append] using hdisplays
  · rw [if_neg hpos]
    split_ifs <;> exact ⟨_, s, rfl, rfl, hs⟩

theorem Shown.socketBlock (hs : Shown n v₀ s) (hn : n ≤ bufSize) (hcs : Ascii cs) (ha : Plain cs sockfd a) :
    StaysShown n v₀ (socketBlock .posix sockfd a s) := by
  obtain ⟨entries, hh⟩ := hs.sound.history
  unfold Tty.socketBlock
  split_ifs
  · exact staysShown_leave a 0 hh
  · obtain ⟨rc, t, hdata, -, ht⟩ := hs.handleSocketData hn hcs ha
    obtain ⟨entries', hh'⟩ := ht.sound.history
    rw [hdata, Option.bind_eq_bind, Option.bind_some]
    dsimp only
    split_ifs
    · exact staysShown_leave a 0 hh'
    · exact staysShown_leave a 5 hh'
    · exact ⟨_, rfl, by simp, fun _ => ht.same rfl rfl rfl⟩
  · exact ⟨_, rfl, by simp, fun _ => hs.same rfl rfl rfl⟩

/-- What a submitted line prints ends no sequence in the middle. -/
theorem ground_of_kept (hkept : Kept sockfd config entries s t) (hhost : 27 ∉ config.host)
    (hfile : ∀ text, t.histFile = some text → 27 ∉ text) (hv : (v₀.feedAll (printed s.log)).mode = .ground) :
    (v₀.feedAll (printed t.log)).mode = .ground := by
  obtain ⟨out, hout, hmem⟩ := hkept.printed
  rw [hout, Screen.feedAll_append]
  have hplain : ∀ {bs}, 27 ∉ bs → ((v₀.feedAll (printed s.log)).feedAll bs).mode = .ground :=
    fun hbs => Screen.feedAll_ground hv hbs
  simp only [List.mem_cons, List.not_mem_nil, or_false] at hmem
  rcases hmem with rfl | rfl | rfl | rfl | rfl | rfl
  · exact hv
  · exact hplain (by decide +kernel)
  · rw [feedAll_clearScreen hv]
    exact hv
  · exact hplain (esc_not_mem_status sockfd hhost)
  · exact hplain (by decide)
  · exact hplain (esc_not_mem_history hfile)

/-- **A submitted line**: `s` is the loop before the key that submits it, `u` after. -/
theorem Shown.lineBlock (hs : Shown n v₀ s) (hn : n ≤ bufSize) (hcs : Ascii cs) (hhost : 27 ∉ config.host)
    (hu : u.session.Sound n) (hhistory : u.history = s.history) (hfile : u.histFile = s.histFile)
    (hw : u.editor.Within (cs.prints · = true)) (hv : (v₀.feedAll (printed u.log)).mode = .ground) :
    StaysShown n v₀ (lineBlock .posix sockfd config a u) := by
  obtain ⟨entries, hh, hentries⟩ := hs.entries
  obtain ⟨before, after, hl⟩ := hu.editor.text
  have hh' : u.history.Holds entries := hhistory ▸ hh
  obtain ⟨rc, t, hcommand, ⟨hrc, hsession, -⟩ | ⟨rfl, hkept⟩⟩ :=
    handleInteractiveCommand_kept sockfd config a hu hn hh' hl
  · have hhistory' : t.history = u.history := congrArg Session.history hsession
    have hleave : ∀ rc, StaysShown n v₀ (leave a rc t) := fun rc => staysShown_leave a rc (hhistory' ▸ hh')
    simp only [List.mem_cons, List.not_mem_nil, or_false] at hrc
    rw [Tty.lineBlock, hcommand]
    rcases hrc with rfl | rfl
    · exact hleave 0
    · exact hleave 5
  · -- the entries are those before, and the line
    have hentries' : ∀ line ∈ remember u.history.maxLen entries hl.line, ∀ c ∈ line.chars, cs.prints c = true := by
      intro line hline
      have hfold : line ∈ [hl.line].foldl (remember u.history.maxLen) entries := hline
      cases mem_foldl_remember hfold with
      | inl hold => exact hentries line hold
      | inr hnew =>
        rw [List.mem_singleton.mp hnew]
        exact hw.shown hl
    have hfile' : ∀ text, t.histFile = some text → 27 ∉ text := by
      intro text htext
      cases hkept.file with
      | inl hold => exact hs.file text (hfile ▸ hold ▸ htext)
      | inr hnew =>
        rw [htext] at hnew
        rw [Option.some.inj hnew]
        exact esc_not_mem_fileText hentries'
    have hbuflen : u.editor.buf.length = n := hu.editor.buflen
    obtain ⟨l', out, hstart, hsound, -⟩ := linenoiseEditStart_sound t.history (Nat.one_le_of_lt hl.len_lt) Tty.prompt
    have hstart' : linenoiseEditStart t.history u.editor.buf Tty.prompt = some (l', out) := hstart
    obtain ⟨hw', hprompt, hdisplays⟩ := displays_start hstart' hcs hsound (hbuflen.trans_le hn)
      (ground_of_kept hkept hhost hfile' hv)
    rw [Tty.lineBlock, hcommand]
    dsimp only [Option.bind_eq_bind, Option.bind_some]
    rw [if_neg (by decide), if_neg (by decide), hkept.editor, hstart']
    refine ⟨_, rfl, Pc.noConfusion, fun _ => ?_⟩
    refine ⟨⟨⟨_, hkept.holds⟩, hbuflen ▸ hsound⟩, ⟨_, hkept.holds, hentries'⟩, hw', hprompt, hfile', ?_⟩
    simpa [Screen.feedAll_append] using hdisplays

theorem Shown.keyBlock (hs : Shown n v₀ s) (hn : n ≤ bufSize) (hcs : Ascii cs) (hhost : 27 ∉ config.host)
    (hc : 32 ≤ c → c ≠ 127 → cs.prints c = true) (a : Answer) {log : List Event} (hlog : printed log = printed s.log) :
    StaysShown n v₀ (keyBlock .posix sockfd config a c { s with log := log }) := by
  obtain ⟨entries, hh, hentries⟩ := hs.entries
  obtain ⟨fed, hfed, hl⟩ := hs.sound.editor.feed (some interactiveCompletionCallback) hh (some c)
  have hfed' : linenoiseEditFeed (some interactiveCompletionCallback) s.history s.editor (some c) = some fed := hfed
  have hfedsound : Session.Sound n ⟨s.history, fed.editor⟩ := ⟨hs.sound.history, hl⟩
  obtain ⟨hkeeps, hdraws⟩ := hs.within.feed hs.sound.editor hh hentries (completions_print hcs) hc
  obtain ⟨hsame, hw⟩ := hkeeps fed hfed
  have hprompt : ∀ c ∈ s.editor.prompt, cs.prints c = true := hs.prompt ▸ prompt_prints hcs
  obtain ⟨hground, hdisplays⟩ := displays_drawn (hdraws fed hfed) hl hn hw hsame hprompt hs.displays
  have hfeed : v₀.feedAll (printed (log ++ [.stdout fed.out])) = (v₀.feedAll (printed s.log)).feedAll fed.out := by
    simp [hlog, Screen.feedAll_append]
  rw [Tty.keyBlock]
  dsimp only
  rw [hfed']
  dsimp only [Option.bind_eq_bind, Option.bind_some]
  split_ifs with hctrlC henter
  · exact staysShown_leave a 0 hh
  · refine hs.lineBlock hn hcs hhost hfedsound rfl rfl hw ?_
    rw [hfeed]
    exact hground
  · refine ⟨_, rfl, Pc.noConfusion, fun _ => ?_⟩
    refine ⟨hfedsound, ⟨entries, hh, hentries⟩, hw, hsame.trans hs.prompt, hs.file, ?_⟩
    rw [hfeed]
    exact hdisplays (by simp [hctrlC, henter])

theorem Shown.stdinBlock (hs : Shown n v₀ s) (hn : n ≤ bufSize) (hcs : Ascii cs) (hhost : 27 ∉ config.host)
    (ha : Plain cs sockfd a) : StaysShown n v₀ (stdinBlock sockfd config a s) := by
  obtain ⟨entries, hh⟩ := hs.sound.history
  unfold Tty.stdinBlock
  split
  · cases hkey : a.stdin.clip 1 with
    | data bytes =>
      cases bytes with
      | nil => exact staysShown_leave a 0 hh
      | cons c rest => exact hs.keyBlock hn hcs hhost (ha.typed _ hkey c List.mem_cons_self) a (by simp)
    | fail err => exact staysShown_leave a 0 hh
  · exact ⟨_, rfl, Pc.noConfusion, fun _ => hs.same rfl rfl rfl⟩

theorem Shown.typeaheadBlock (hs : Shown n v₀ s) (hn : n ≤ bufSize) (hcs : Ascii cs) (hhost : 27 ∉ config.host)
    (ha : Plain cs sockfd a) : StaysShown n v₀ (typeaheadBlock sockfd config a s) := by
  unfold Tty.typeaheadBlock
  split
  · cases hkey : a.stdin.clip 1 with
    | data bytes =>
      cases bytes with
      | nil => exact ⟨_, rfl, Pc.noConfusion, fun _ => hs.same rfl rfl (by simp)⟩
      | cons c rest => exact hs.keyBlock hn hcs hhost (ha.typed _ hkey c List.mem_cons_self) a (by simp)
    | fail err => exact ⟨_, rfl, Pc.noConfusion, fun _ => hs.same rfl rfl rfl⟩
  · exact ⟨_, rfl, Pc.noConfusion, fun _ => hs.same rfl rfl rfl⟩

/-- **A step** of a session that lasts. -/
theorem Shown.step (hs : Shown n v₀ s) (hno : s.pc ≠ .fault) (hrun : ∀ rc, s.pc ≠ .done rc) (hn : n ≤ bufSize)
    (hcs : Ascii cs) (hhost : 27 ∉ config.host) (ha : Plain cs sockfd a) :
    (step sockfd config s a).pc ≠ .fault ∧
      ((∀ rc, (step sockfd config s a).pc ≠ .done rc) → Shown n v₀ (step sockfd config s a)) := by
  have hblock : ∀ {r}, StaysShown n v₀ r →
      (orFault s r).pc ≠ .fault ∧ ((∀ rc, (orFault s r).pc ≠ .done rc) → Shown n v₀ (orFault s r)) := by
    rintro r ⟨t, rfl, ht⟩
    exact ht
  cases hpc : s.pc with
  | poll => simpa only [Tty.step, hpc] using hblock (hs.pollBlock hpc a)
  | socket => simpa only [Tty.step, hpc] using hblock (hs.socketBlock hn hcs ha)
  | stdin => simpa only [Tty.step, hpc] using hblock (hs.stdinBlock hn hcs hhost ha)
  | typeahead => simpa only [Tty.step, hpc] using hblock (hs.typeaheadBlock hn hcs hhost ha)
  | done rc => exact absurd hpc (hrun rc)
  | fault => exact absurd hpc hno

end Blocks

/-! ### The law -/

/-- **The screen displays the editor**, in every state of every run until the session ends: the row of the
cursor holds the prompt and the line, and the cursor is where the next character goes, as long as nothing that
comes from outside holds a control sequence. -/
theorem tty_displays {cs : Charset} (sockfd : ℤ) (config : Connection) (text : Option (List Byte)) (buf : List Byte)
    (v₀ : Screen cs) (hcs : Ascii cs) (hv₀ : v₀.mode = .ground) (hbuf : 1 ≤ buf.length) (hsize : buf.length ≤ bufSize)
    (hhost : 27 ∉ config.host) (htext : ∀ t, text = some t → 27 ∉ t)
    (hloaded : ∀ line ∈ loaded text, ∀ c ∈ line.chars, cs.prints c = true) :
    ∃ h s₀, loadHistory text = some h ∧ start h text buf = some s₀ ∧
      ∀ s, Reach (step sockfd config) (fun _ a => Plain cs sockfd a) s₀ s →
        s.pc ≠ .fault ∧ ((∀ rc, s.pc ≠ .done rc) → Displays (v₀.feedAll (printed s.log)) s.editor) := by
  obtain ⟨h, hload, -, hh⟩ := loadHistory_holds text
  obtain ⟨l, out, hstart, hl, -⟩ := linenoiseEditStart_sound h hbuf prompt
  obtain ⟨hw, hprompt, hdisplays⟩ := displays_start hstart hcs hl hsize hv₀
  refine ⟨h, { history := h, editor := l, histFile := text, log := [.stdout out] }, hload, ?_, fun s hreach => ?_⟩
  · rw [start, hstart]
    rfl
  have hinv : s.pc ≠ .fault ∧ ((∀ rc, s.pc ≠ .done rc) → Shown buf.length v₀ s) := by
    refine hreach.invariant (I := fun s => s.pc ≠ .fault ∧ ((∀ rc, s.pc ≠ .done rc) → Shown buf.length v₀ s)) ?_
      fun s a hs ha => ?_
    · refine ⟨Pc.noConfusion, fun _ => ⟨⟨⟨_, hh⟩, hl⟩, ⟨_, hh, hloaded⟩, hw, hprompt, htext, ?_⟩⟩
      simpa using hdisplays
    by_cases hrun : ∀ rc, s.pc ≠ .done rc
    · exact (hs.2 hrun).step hs.1 hrun hsize hcs hhost ha
    · obtain ⟨rc, hrc⟩ := not_forall_not.mp hrun
      have hstay : step sockfd config s a = s := by rw [step, hrc]
      rw [hstay]
      exact hs
  exact ⟨hinv.1, fun hrun => (hinv.2 hrun).displays⟩

/-- A character is typed, and a packet comes before the line is submitted: `> h` is shown below it. -/
theorem tty_displays_line :
    let answers : List Answer := [{ stdinRev := { pollin := true } }, {}, { stdin := .data (str "h") },
      { poll := .timeout }, { sockRev := { pollin := true } }, { recv := .data (str "x") }]
    ∃ h s₀, loadHistory none = some h ∧ start h none [0, 0, 0, 0] = some s₀ ∧
      (run (step 3 ⟨[], 1, 1⟩) s₀ answers).editor.text = str "h" ∧
      Displays (({} : Screen ascii).feedAll (printed (run (step 3 ⟨[], 1, 1⟩) s₀ answers).log))
        (run (step 3 ⟨[], 1, 1⟩) s₀ answers).editor := by
  intro answers
  obtain ⟨h, s₀, hload, hstart, hlaw⟩ := tty_displays 3 ⟨[], 1, 1⟩ none [0, 0, 0, 0] ({} : Screen ascii)
    (fun c hlow hhigh => by simp [ascii, hlow, hhigh]) rfl (by decide) (by decide) (by decide) (by simp)
    (by simp [loaded])
  refine ⟨h, s₀, hload, hstart, ?_⟩
  obtain rfl : (loadHistory none).get (by decide) = h := Option.get_of_eq_some _ hload
  obtain rfl : (start ((loadHistory none).get (by decide)) none [0, 0, 0, 0]).get (by decide) = s₀ :=
    Option.get_of_eq_some _ hstart
  have hkeeps : Keeps (step 3 ⟨[], 1, 1⟩) (fun _ a => Plain ascii 3 a)
      ((start ((loadHistory none).get (by decide)) none [0, 0, 0, 0]).get (by decide)) answers := by
    refine keeps_of_forall fun a ha _ => ?_
    have hplain : ∀ a ∈ answers, a.stdin.clip 1 ∈ [.data [], .data (str "h")] ∧
        27 ∉ (readSocket .posix 3 a).bytes := by decide
    obtain ⟨hkey, hpacket⟩ := hplain a ha
    refine ⟨fun bs hbs c hc _ _ => ?_, hpacket⟩
    rw [hbs] at hkey
    have hbytes : bs ∈ [[], str "h"] := by simpa using hkey
    have hprints : ([[], str "h"].all (·.all ascii.prints)) = true := by decide
    exact List.all_eq_true.mp (List.all_eq_true.mp hprints bs hbytes) c hc
  obtain ⟨-, hdisplays⟩ := hlaw _ (reach_run hkeeps)
  have hpc : (run (step 3 ⟨[], 1, 1⟩) ((start ((loadHistory none).get (by decide)) none [0, 0, 0, 0]).get (by decide))
      answers).pc = .stdin := by decide
  exact ⟨by decide, hdisplays (by simp [hpc])⟩

end TcpClient.Tty
