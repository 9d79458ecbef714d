import TcpClient.Interactive.PipeForward
import TcpClient.Interactive.TtyKeyboard
import TcpClient.Linenoise.HistoryFile
import TcpClient.Linenoise.Typing
import TcpClient.Lib.Lines

/-!
# The same lines, typed and piped

The two interactive modes are two programs: one puts lines together from keys, in an editor, the other cuts them out
of chunks. Here they are given the same lines, one on the terminal with Enter after each, one through a pipe. Both
stop at the same line, and what they send differs only in what the terminal keeps to itself: commands, the exit line
and empty lines.

## What is proved

* `typed_lines` — the lines that the keyboard submits.
* `forwarded_unlines` — the lines that the pipe forwards.
* `modes_agree` — the bytes that the two modes send, and when they are the same.
-/

namespace TcpClient

open Machine CString TcpClient.Stream TcpClient.Lines

/-! ### Typed -/

section Typed

open Tty

variable {k : Keyboard} {n cap : ℕ} {z : Zipper Byte cap} {bs line : List Byte}

/-- The keyboard is ready for a line: the editor holds none, and no sequence has begun. -/
structure AtPrompt (cap : ℕ) (k : Keyboard) : Prop where
  sound : k.session.Sound (cap + 1)
  line : k.session.editor.Line (Zipper.empty : Zipper Byte cap)
  ready : k.session.editor.escState = .normal
  going : k.ended = false

/-- Keys for which the editor returns `0` go into the line one after another. -/
theorem typed_of_feeds {l' : Editor} (hgoing : k.ended = false)
    (h : linenoiseEditFeeds (some interactiveCompletionCallback) k.session.history k.session.editor (bs.map some) =
      some (List.replicate bs.length 0, l')) :
    bs.foldlM typeKey k = some { k with session := { k.session with editor := l' } } := by
  induction bs generalizing k with
  | nil =>
    cases h
    rfl
  | cons c bs ih =>
    rw [List.map_cons, List.length_cons] at h
    obtain ⟨fed, hfed, hrc, hrest⟩ := feeds_zeros_cons h
    have hkey : typeKey k c = some { k with session := { k.session with editor := fed.editor } } := by
      rw [typeKey, hgoing, if_neg (by decide), hfed, Option.bind_eq_bind, Option.bind_some]
      dsimp only
      rw [hrc, if_neg (by decide), if_neg (by decide)]
      rfl
    rw [List.foldlM_cons, hkey]
    exact ih (k := { k with session := { k.session with editor := fed.editor } }) hgoing hrest

/-- **A line is typed and submitted**: the keyboard has it, and is ready for the next unless it was an exit line. -/
theorem typed_line (hk : AtPrompt cap k) (hline : ∀ c ∈ line, isTyped c = true) (hfits : line.length ≤ cap) :
    ∃ k', (line ++ [13]).foldlM typeKey k = some k' ∧ k'.lines = k.lines ++ [line] ∧
      (exits line = true → k'.ended = true) ∧ (exits line = false → AtPrompt cap k') := by
  have hquiet : ∃ l', Quiet (some interactiveCompletionCallback) k.session.history k.session.editor line l'
      ((Zipper.empty : Zipper Byte cap).run (line.map .insert)) := hk.line.quiet_typed_all hk.ready hline
  obtain ⟨l', hquiet⟩ := hquiet
  obtain ⟨l'', out, henter, hentered⟩ := hquiet.line.submit (some interactiveCompletionCallback) k.session.history
    hquiet.ready
  -- the line that is submitted is the text
  obtain ⟨hbefore, hafter⟩ := Zipper.run_insert (Zipper.empty : Zipper Byte cap) line
  have htext : ((Zipper.empty : Zipper Byte cap).run (line.map .insert)).text = line := by
    have hroom : line.take (Zipper.empty : Zipper Byte cap).room = line := List.take_of_length_le hfits
    rw [Zipper.text, hbefore, hafter, hroom]
    exact List.append_nil line
  have htake : l''.buf.take l''.len = line := hentered.text_eq.trans htext
  have hcstr : cstr l''.buf = line := hentered.shows.holds.cstr_eq.trans htext
  have hkeys : (line ++ [13]).foldlM typeKey k =
      Keyboard.enter { k with session := { k.session with editor := l'' }, lines := k.lines ++ [line] } := by
    rw [List.foldlM_append, typed_of_feeds hk.going hquiet.feeds]
    show (typeKey _ 13 >>= pure) = _
    rw [bind_pure, typeKey, if_neg (by rw [hk.going]; decide), henter, Option.bind_eq_bind, Option.bind_some]
    dsimp only
    rw [if_neg (by decide), if_pos rfl, htake]
  obtain ⟨k', hall, hsound, -⟩ := typed_spec hk.sound (line ++ [13])
  rw [hkeys] at hall ⊢
  rw [Keyboard.enter] at hall ⊢
  dsimp only at hall ⊢
  rw [hcstr] at hall ⊢
  by_cases hexit : exits line = true
  · rw [if_pos hexit]
    exact ⟨_, rfl, rfl, fun _ => rfl, fun hgoes => absurd hexit (by rw [hgoes]; decide)⟩
  · rw [if_neg hexit] at hall ⊢
    obtain ⟨entries, hh⟩ := hk.sound.history
    obtain ⟨rc, h', hadd, -, hh'⟩ := linenoiseHistoryAdd_holds hh hentered.shows.line
    have hbuflen : l''.buf.length = cap + 1 := hentered.buflen
    obtain ⟨l₃, out₃, hstart, hline₃, hready₃⟩ :=
      linenoiseEditStart_line h' (by rw [hbuflen]; exact Nat.le_add_left 1 cap : 1 ≤ l''.buf.length) prompt
    rw [hbuflen, Nat.add_sub_cancel] at hline₃
    have hsubmit : submitLine prompt { k.session with editor := l'' } = some ⟨h', l₃⟩ := by
      simp only [submitLine, hentered.shows.strdup, hadd, hstart, Option.bind_eq_bind, Option.bind_some]
      rfl
    rw [hsubmit] at hall ⊢
    cases hall
    exact ⟨_, rfl, rfl, fun h => absurd h hexit, fun _ => ⟨hsound, hline₃, hready₃, hk.going⟩⟩

/-- **The lines that the keyboard submits**: up to the first exit line. -/
theorem typed_lines {lines : List (List Byte)} (hk : AtPrompt cap k)
    (hlines : ∀ line ∈ lines, line.length ≤ cap ∧ ∀ c ∈ line, isTyped c = true) :
    ∃ k', (unlines 13 lines).foldlM typeKey k = some k' ∧ k'.lines = k.lines ++ cutAfter exits lines := by
  induction lines generalizing k with
  | nil => exact ⟨k, rfl, (List.append_nil _).symm⟩
  | cons line lines ih =>
    obtain ⟨hfits, hline⟩ := hlines line List.mem_cons_self
    obtain ⟨k₁, hk₁, hlines₁, hexit, hgoes⟩ := typed_line hk hline hfits
    have hsplit : unlines 13 (line :: lines) = line ++ [13] ++ unlines 13 lines := by simp
    rw [hsplit, List.foldlM_append, hk₁, cutAfter]
    cases hcase : exits line with
    | true =>
      refine ⟨k₁, typed_of_ended (hexit hcase) _, ?_⟩
      rw [hlines₁, if_pos rfl]
    | false =>
      obtain ⟨k', hk', hlines'⟩ := ih (hgoes hcase) fun l hl => hlines l (List.mem_cons_of_mem _ hl)
      refine ⟨k', hk', ?_⟩
      rw [hlines', hlines₁, if_neg (by decide), List.append_assoc]
      rfl

end Typed

/-! ### Piped -/

section Piped

open Pipe

variable {line : List Byte} {lines : List (List Byte)}

/-- The records of lines, each with its end. -/
theorem records_unlines (hlines : ∀ line ∈ lines, 10 ∉ line) :
    records 10 (unlines 10 lines) = (lines.map (· ++ [10]), []) := by
  induction lines using List.reverseRecOn with
  | nil => rfl
  | append_singleton lines line ih =>
    have hfirst := ih fun l hl => hlines l (List.mem_append_left _ hl)
    have hsplit : unlines 10 (lines ++ [line]) = unlines 10 lines ++ line ++ [10] := by simp
    rw [hsplit, records_concat, if_pos rfl, records_append_of_not_mem 10 (hlines line (by simp)), hfirst]
    simp

/-- A line end is white space around the line. -/
theorem strip_concat (line : List Byte) : strip (line ++ [10]) = strip line := by
  rw [strip, strip, List.dropWhile_append]
  split_ifs with hblank
  · rw [List.isEmpty_iff.mp hblank]
    rfl
  · exact List.rdropWhile_concat_pos _ _ _ (by decide)

theorem isExitLine_concat (hnul : 0 ∉ line) : isExitLine (line ++ [10]) = Tty.exits line := by
  have hcstr : cstr (line ++ [10]) = line ++ [10] := cstr_eq_self (by simp [hnul])
  rw [Bool.eq_iff_iff, isExitLine, hcstr, strip_concat]
  simp [Tty.exits, Tty.command]

/-- **The lines that the pipe forwards**: up to the first exit line, that line included. -/
theorem forwarded_unlines (hlines : ∀ line ∈ lines, 10 ∉ line ∧ 0 ∉ line) :
    forwarded (unlines 10 lines) = unlines 10 (cutAfter Tty.exits lines) := by
  have hcut : (cutAfter isExitLine (lines.map (· ++ [10]))).flatten = unlines 10 (cutAfter Tty.exits lines) := by
    induction lines with
    | nil => rfl
    | cons line lines ih =>
      have hrest := ih fun l hl => hlines l (List.mem_cons_of_mem _ hl)
      rw [List.map_cons, cutAfter, cutAfter, isExitLine_concat (hlines line List.mem_cons_self).2]
      split_ifs
      · simp
      · rw [List.flatten_cons, hrest]
        simp
  rw [forwarded, records_unlines fun l hl => (hlines l hl).1]
  dsimp only
  split_ifs with hany htail
  · exact hcut
  · exact absurd htail (by decide)
  · rw [Bool.not_eq_true, List.any_eq_false] at hany
    rw [List.append_nil, ← hcut, cutAfter_of_all isExitLine fun l hl => Bool.eq_false_iff.mpr (hany l hl)]

end Piped

/-! ### The law -/

/-- A printable byte is neither a line end nor a NUL. -/
theorem isTyped_ne {c : Byte} (hc : isTyped c = true) : c ≠ 10 ∧ c ≠ 0 := by
  refine ⟨?_, ?_⟩ <;>
    · rintro rfl
      exact absurd hc (by decide)

/-- **The two modes agree.** Of the same lines, typed and piped, both handle those up to the first exit line; the pipe
sends them all, and the terminal those that are neither empty nor a command nor the exit line. This is so at any
time as far as the lines were read, and when both sessions are over, of which neither a signal nor the server was the
cause, both have sent it all: the same bytes exactly if there was nothing for the terminal to keep to itself. -/
theorem modes_agree (pf : Platform) (sockfd sockfd' : ℤ) (config : Connection) (history : History)
    (entries : List CStr) (histFile : Option (List Byte)) (buf : List Byte) (lines : List (List Byte))
    (hh : history.Holds entries) (hbuf : 1 ≤ buf.length) (hsize : buf.length ≤ Tty.bufSize) (hfd : 0 ≤ sockfd')
    (hlines : ∀ line ∈ lines, line.length < buf.length ∧ ∀ c ∈ line, isTyped c = true) :
    ∃ s₀, Tty.start history histFile buf = some s₀ ∧
      (∀ s, Reach (Tty.step sockfd config) (Tty.Typed sockfd config (unlines 13 lines)) s₀ s →
        s.submitted <+: cutAfter Tty.exits lines ∧ sent s.log = unlines 10 (s.submitted.filter Tty.transmits)) ∧
      (∀ t, Reach (Pipe.step pf sockfd') (Pipe.Piped pf sockfd' (unlines 10 lines)) (Pipe.start sockfd') t →
        sent t.log <+: unlines 10 (cutAfter Tty.exits lines)) ∧
      ∀ s t rc,
        Reach (Tty.step sockfd config)
          (fun s a => Tty.Typed sockfd config (unlines 13 lines) s a ∧ Tty.Steady sockfd s a) s₀ s →
        s.pc = .done rc →
        Reach (Pipe.step pf sockfd')
          (fun t a => Pipe.Piped pf sockfd' (unlines 10 lines) t a ∧ Pipe.Steady pf sockfd' t a) (Pipe.start sockfd') t →
        t.pc = .done 0 →
        sent s.log = unlines 10 ((cutAfter Tty.exits lines).filter Tty.transmits) ∧
          sent t.log = unlines 10 (cutAfter Tty.exits lines) ∧
          (sent s.log = sent t.log ↔ ∀ line ∈ cutAfter Tty.exits lines, Tty.transmits line = true) := by
  obtain ⟨l, out, hstart, hsound, -⟩ := linenoiseEditStart_sound history hbuf Tty.prompt
  obtain ⟨l', out', hstart', hline, hready⟩ := linenoiseEditStart_line history hbuf Tty.prompt
  rw [hstart] at hstart'
  cases hstart'
  have hcap : buf.length - 1 + 1 = buf.length := Nat.sub_add_cancel hbuf
  have hsession : Session.Sound buf.length ⟨history, l⟩ := ⟨⟨entries, hh⟩, hsound⟩
  have hprompt : AtPrompt (buf.length - 1) { session := ⟨history, l⟩ } :=
    ⟨by rw [hcap]; exact hsession, hline, hready, rfl⟩
  have hfit : ∀ line ∈ lines, line.length ≤ buf.length - 1 ∧ ∀ c ∈ line, isTyped c = true :=
    fun line hmem => ⟨Nat.le_sub_one_of_lt (hlines line hmem).1, (hlines line hmem).2⟩
  obtain ⟨all, hall, hwhole⟩ := typed_lines hprompt hfit
  rw [List.nil_append] at hwhole
  have hforwarded : Pipe.forwarded (unlines 10 lines) = unlines 10 (cutAfter Tty.exits lines) :=
    forwarded_unlines fun line hmem => ⟨fun h10 => (isTyped_ne ((hlines line hmem).2 10 h10)).1 rfl,
      fun h0 => (isTyped_ne ((hlines line hmem).2 0 h0)).2 rfl⟩
  have halong : ∀ (steady : Prop) s, Reach (Tty.step sockfd config)
      (fun s a => Tty.Typed sockfd config (unlines 13 lines) s a ∧ (steady → Tty.Steady sockfd s a))
      { history := history, editor := l, histFile := histFile, log := [.stdout out] } s →
        Tty.Along steady buf.length { session := ⟨history, l⟩ } (unlines 13 lines) s := by
    intro steady s hreach
    refine hreach.invariant (I := Tty.Along steady buf.length { session := ⟨history, l⟩ } (unlines 13 lines)) ?_
      fun s a hs ha => Tty.along_step hs hsize ha.1 ha.2
    exact Tty.along_start steady _ hsession rfl rfl rfl rfl rfl
  refine ⟨{ history := history, editor := l, histFile := histFile, log := [.stdout out] }, ?_, fun s hreach => ?_,
    fun t hreach => ?_, fun s t rc hreach hdone hreach' hdone' => ?_⟩
  · rw [Tty.start, hstart]
    rfl
  · obtain ⟨k, -, hsubmitted, hsent, hpre, -⟩ :=
      (halong False s (hreach.mono fun _ _ ha => ⟨ha, False.elim⟩)).decided hall
    rw [hsubmitted, ← hwhole]
    exact ⟨hpre, hsent⟩
  · obtain ⟨hr | hr, -⟩ := Pipe.reach_piped False hfd (hreach.mono fun _ _ ha => ⟨ha, False.elim⟩)
    · obtain ⟨read, -, hpre, hno, hsent, -⟩ := hr.account
      rw [hsent, ← hforwarded]
      exact Pipe.records_flatten_prefix hno ((List.prefix_append _ _).trans hpre)
    · exact ⟨[], by rw [List.append_nil, hr.sent, hforwarded]⟩
  · obtain ⟨-, -, hsent⟩ :=
      (halong True s (hreach.mono fun _ _ ha => ⟨ha.1, fun _ => ha.2⟩)).over hall trivial hdone
    have hsent' : sent t.log = unlines 10 (cutAfter Tty.exits lines) := by
      obtain ⟨hr | hr, -⟩ := Pipe.reach_piped True hfd (hreach'.mono fun _ _ ha => ⟨ha.1, fun _ => ha.2⟩)
      · exact absurd hdone' (hr.stays trivial)
      · rw [hr.sent, hforwarded]
    rw [hwhole] at hsent
    have hwire : sent s.log = unlines 10 ((cutAfter Tty.exits lines).filter Tty.transmits) := hsent
    refine ⟨hwire, hsent', ?_⟩
    rw [hwire, hsent']
    exact unlines_filter_eq_iff 10 Tty.transmits

/-- The line `h`, typed with a packet before its end, and piped. -/
theorem modes_agree_line :
    let typed : List Tty.Answer := [{ stdinRev := { pollin := true } }, {}, { stdin := .data (str "h") },
      { poll := .timeout }, { sockRev := { pollin := true } }, { recv := .data (str "x") }, {},
      { stdinRev := { pollin := true } }, {}, { stdin := .data [13], write := [(.ready, .accept 2)] },
      { stdinRev := { pollin := true } }, {}, { stdin := .data [] }]
    let piped : List Pipe.Answer := [{ stdinRev := { pollin := true } }, {}, { stdin := .data (str "h\n") }, {}, {}, {},
      { stdinRev := { pollhup := true } }, {}, { stdin := .data [] }, { poll := .timeout }]
    ∃ s₀, Tty.start {} none [0, 0, 0, 0] = some s₀ ∧
      sent (run (Tty.step 3 ⟨[], 1, 1⟩) s₀ typed).log = sent (run (Pipe.step .posix 4) (Pipe.start 4) piped).log := by
  intro typed piped
  have hlines : ∀ line ∈ [str "h"], line.length < ([0, 0, 0, 0] : List Byte).length ∧
      ∀ c ∈ line, isTyped c = true := by
    intro line hline
    rw [List.mem_singleton.mp hline]
    have htyped : (str "h").all isTyped = true := by decide
    exact ⟨by decide, List.all_eq_true.mp htyped⟩
  obtain ⟨s₀, hs₀, -, -, hlaw⟩ :=
    modes_agree .posix 3 4 ⟨[], 1, 1⟩ {} [] none [0, 0, 0, 0] [str "h"] holds_init (by decide) (by decide) (by decide)
      hlines
  obtain rfl : (Tty.start {} none [0, 0, 0, 0]).get (by decide) = s₀ := Option.get_of_eq_some _ hs₀
  have htyped : Keeps (Tty.step 3 ⟨[], 1, 1⟩)
      (fun s a => Tty.Typed 3 ⟨[], 1, 1⟩ (unlines 13 [str "h"]) s a ∧ Tty.Steady 3 s a)
      ((Tty.start {} none [0, 0, 0, 0]).get (by decide)) typed := by decide +kernel
  have hpiped : Keeps (Pipe.step .posix 4)
      (fun t a => Pipe.Piped .posix 4 (unlines 10 [str "h"]) t a ∧ Pipe.Steady .posix 4 t a) (Pipe.start 4) piped := by
    decide +kernel
  obtain ⟨-, -, hsame⟩ := hlaw _ _ 0 (reach_run htyped) (by decide) (reach_run hpiped) (by decide)
  exact ⟨_, hs₀, hsame.mpr (by decide)⟩

end TcpClient
