import TcpClient.Interactive.Agreement
import TcpClient.Interactive.TtyListing
import TcpClient.TerminalMode

/-!
# Reading one line

`linenoise`, the call that waits for a line: the terminal is put into raw mode, keys go to the editor until one ends
the line, and the terminal is put back. Without raw mode the line is what `fgets` reads. The terminal session does
the same with a loop of its own; here the two are compared.

## What is proved

* `readKeys_spec`, `readKeys_typed` — the keys that are read, and the line they give.
* `linenoise_reads` — the call returns, puts the terminal back whatever happens, takes no more than its line of
  the input, and gives back the line, whether or not there is raw mode.

## Honest scope

What `TCSAFLUSH` discards, on the way into raw mode and out of it, is as many bytes as the calls answer. A `read`
that fails is the end of the input, and what `fgets` has buffered behind its line counts as left. On Windows a key is
waited for as long as it takes, and the input has no end. A count in a key sequence that overflows wraps around here.
-/

namespace TcpClient

open CString Machine

/-! ### The call -/

/-- The line that was read, if any, what was printed, and what is left of the input. -/
structure LineRead where
  line : Option CStr
  out : List Byte
  rest : List Byte

/-- What the calls of `linenoise` answer. -/
structure ReadlineAns where
  enable : ConsoleAns := {}
  disable : ConsoleAns := {}
  /-- The bytes that have come, but were not read, when raw mode is entered. -/
  flushedIn : ℕ := 0
  /-- Those that have come when it is left. -/
  flushedOut : ℕ := 0
  /-- There is memory for the line. -/
  malloc : Bool := true

/-- `tcsetattr` with `TCSAFLUSH`, as far as it is about the input: the `n` bytes that have come are discarded.
`SetConsoleMode` discards nothing. -/
def flushInput (pf : Platform) (n : ℕ) (input : List Byte) : List Byte :=
  match pf with
  | .posix => input.drop n
  | .windows => input

/-- What `linenoiseEnableRawMode` leaves of the input, also where `tcsetattr` fails. -/
def enableInput {τ : Type} (pf : Platform) (a : ReadlineAns) (c : Console τ) (input : List Byte) : List Byte :=
  if c.rawmode || !a.enable.isatty || !a.enable.getInput then input else flushInput pf a.flushedIn input

/-- What `linenoiseDisableRawMode` leaves of it. -/
def disableInput {τ : Type} (pf : Platform) (a : ReadlineAns) (c : Console τ) (input : List Byte) : List Byte :=
  if !c.rawmode then input else flushInput pf a.flushedOut input

/-- `return linenoise_strdup(buf)`. -/
def returnLine (a : ReadlineAns) (line : CStr) : Option CStr := if a.malloc then some line else none

/-- The loop of `linenoise`. -/
def readKeys (a : ReadlineAns) (completion : Option CompletionCallback) (h : History) :
    Editor → List Byte → Option LineRead
  | _, [] => some ⟨none, [], []⟩
  | l, c :: keys => do
    let fed ← linenoiseEditFeed completion h l (some c)
    if fed.rc = 1 then
      let line ← linenoiseStrdup (linenoiseEditStop fed.editor).buf
      return ⟨returnLine a line, fed.out, keys⟩
    else if fed.rc = -1 then return ⟨none, fed.out, keys⟩
    else
      let read ← readKeys a completion h fed.editor keys
      return { read with out := fed.out ++ read.out }

/-- The way without raw mode: one line by `fgets`, without its end. -/
def readPlain (a : ReadlineAns) (size : ℕ) (input : List Byte) : LineRead :=
  match fgetsAll size [] input with
  | [] => ⟨none, [], []⟩
  | piece :: _ => ⟨returnLine a (historyPiece piece), [], input.drop piece.length⟩

/-- `linenoise(prompt)`, with `input` on standard input; `buf` is the array on the stack. -/
def linenoise {τ : Type} (pf : Platform) (raw : RawMode τ) (a : ReadlineAns) (completion : Option CompletionCallback)
    (h : History) (buf prompt input : List Byte) (c : Console τ) : Option (LineRead × Console τ) := do
  let input := enableInput pf a c input
  let (rc, c) := linenoiseEnableRawMode pf raw a.enable c
  if rc = -1 then return ({ readPlain a buf.length input with out := prompt }, c)
  else
    let (l, out) ← linenoiseEditStart h buf prompt
    let read ← readKeys a completion h l input
    return ({ read with out := out ++ read.out, rest := disableInput pf a c read.rest },
      linenoiseDisableRawMode pf a.disable c)

/-! ### The keys -/

section Keys

variable (a : ReadlineAns) (completion : Option CompletionCallback) {h : History} {entries : List CStr} {n cap : ℕ}
  {l l' : Editor} {bs : List Byte}

/-- No key of `keys` ends the line. -/
def Going (completion : Option CompletionCallback) (h : History) (l : Editor) (keys : List Byte) : Prop :=
  ∃ rcs l', linenoiseEditFeeds completion h l (keys.map some) = some (rcs, l') ∧ ∀ rc ∈ rcs, rc ≠ 1 ∧ rc ≠ -1

/-- `taken` is one line: its last key ends it, and none before; or the keys have run out. -/
structure TakesLine (completion : Option CompletionCallback) (h : History) (l : Editor) (taken left : List Byte) :
    Prop where
  going : ∀ keys key, keys ++ [key] <+: taken → Going completion h l keys
  ended : left ≠ [] → ¬ Going completion h l taken

theorem going_nil : Going completion h l [] := ⟨[], l, rfl, fun _ hrc => absurd hrc List.not_mem_nil⟩

/-- The line goes on with a key if it goes on behind it. -/
theorem going_cons {key : Byte} {keys : List Byte} {fed : Fed}
    (hfed : linenoiseEditFeed completion h l (some key) = some fed) :
    Going completion h l (key :: keys) ↔ (fed.rc ≠ 1 ∧ fed.rc ≠ -1) ∧ Going completion h fed.editor keys := by
  obtain ⟨rc, l', out⟩ := fed
  have hcons : linenoiseEditFeeds completion h l (some key :: keys.map some) =
      (linenoiseEditFeeds completion h l' (keys.map some)).map fun r => (rc :: r.1, r.2) := feeds_cons hfed
  constructor
  · rintro ⟨rcs, l'', hfeeds, hgoing⟩
    rw [List.map_cons, hcons] at hfeeds
    obtain ⟨⟨rcs', l'''⟩, hrest, hpair⟩ := Option.map_eq_some_iff.mp hfeeds
    cases hpair
    exact ⟨hgoing rc List.mem_cons_self, rcs', l''', hrest, fun r hr => hgoing r (List.mem_cons_of_mem rc hr)⟩
  · rintro ⟨hrc, rcs, l'', hrest, hgoing⟩
    refine ⟨rc :: rcs, l'', ?_, List.forall_mem_cons.mpr ⟨hrc, hgoing⟩⟩
    rw [List.map_cons, hcons, hrest]
    rfl

/-- A key that ends the line is all that is taken. -/
theorem takesLine_end {key : Byte} {fed : Fed} (left : List Byte)
    (hfed : linenoiseEditFeed completion h l (some key) = some fed) (hend : fed.rc = 1 ∨ fed.rc = -1) :
    TakesLine completion h l [key] left := by
  constructor
  · intro keys key' hprefix
    have hnil : keys = [] := by
      have hlen := hprefix.length_le
      rw [List.length_append, List.length_singleton, List.length_singleton] at hlen
      exact List.length_eq_zero_iff.mp (by omega)
    rw [hnil]
    exact going_nil completion
  · rintro - hgoing
    obtain ⟨hne, -⟩ := (going_cons completion hfed).mp hgoing
    exact hend.elim hne.1 hne.2

/-- One that does not is taken with the rest of the line. -/
theorem TakesLine.cons {key : Byte} {fed : Fed} {taken left : List Byte}
    (hfed : linenoiseEditFeed completion h l (some key) = some fed) (hgo : fed.rc ≠ 1 ∧ fed.rc ≠ -1)
    (htakes : TakesLine completion h fed.editor taken left) : TakesLine completion h l (key :: taken) left := by
  constructor
  · intro keys key' hprefix
    cases keys with
    | nil => exact going_nil completion
    | cons c keys =>
      rw [List.cons_append, List.cons_prefix_cons] at hprefix
      obtain ⟨rfl, hprefix⟩ := hprefix
      exact (going_cons completion hfed).mpr ⟨hgo, htakes.going keys key' hprefix⟩
  · exact fun hleft hgoing => htakes.ended hleft ((going_cons completion hfed).mp hgoing).2

variable {a} in
theorem returnLine_eq_some {line line' : CStr} (h : returnLine a line = some line') : line' = line := by
  rw [returnLine] at h
  split_ifs at h
  exact (Option.some.inj h).symm

/-- **The loop ends**, with a line that fits, and takes the keys of the line. -/
theorem readKeys_spec (hh : h.Holds entries) (hl : l.Sound h n) (keys : List Byte) :
    ∃ r taken, readKeys a completion h l keys = some r ∧ keys = taken ++ r.rest ∧
      TakesLine completion h l taken r.rest ∧ ∀ line, r.line = some line → line.chars.length < n := by
  induction keys generalizing l with
  | nil =>
    refine ⟨_, [], rfl, rfl, ⟨fun keys key hprefix => ?_, fun hne => absurd rfl hne⟩, fun line hline => by cases hline⟩
    exact absurd (List.prefix_nil.mp hprefix) (by simp)
  | cons c keys ih =>
    obtain ⟨fed, hfed, hl'⟩ := hl.feed completion hh (some c)
    rw [readKeys, hfed, Option.bind_eq_bind, Option.bind_some]
    split_ifs with henter hend
    · obtain ⟨before, after, hshows⟩ := hl'.text
      have hdup : linenoiseStrdup (linenoiseEditStop fed.editor).buf = some hshows.line := hshows.strdup
      rw [hdup]
      refine ⟨_, [c], rfl, rfl, takesLine_end completion keys hfed (.inl henter), fun line hline => ?_⟩
      have hlen : (before ++ after).length < n := by
        rw [List.length_append, ← hshows.len, ← hl'.buflen]
        exact hshows.len_lt
      rwa [returnLine_eq_some hline]
    · exact ⟨_, [c], rfl, rfl, takesLine_end completion keys hfed (.inr hend), fun line hline => by cases hline⟩
    · obtain ⟨r, taken, hr, hkeys, htakes, hfits⟩ := ih hl'
      rw [hr]
      refine ⟨_, c :: taken, rfl, ?_, htakes.cons completion hfed ⟨henter, hend⟩, hfits⟩
      rw [hkeys]
      rfl

/-- Keys for which the editor returns `0` are read over. -/
theorem readKeys_feeds (keys : List Byte)
    (hfeeds : linenoiseEditFeeds completion h l (bs.map some) = some (List.replicate bs.length 0, l')) :
    ∃ out, readKeys a completion h l (bs ++ keys) =
      (readKeys a completion h l' keys).map fun r => { r with out := out ++ r.out } := by
  induction bs generalizing l with
  | nil =>
    cases hfeeds
    refine ⟨[], ?_⟩
    rw [List.nil_append]
    cases readKeys a completion h l' keys <;> rfl
  | cons c bs ih =>
    rw [List.map_cons, List.length_cons] at hfeeds
    obtain ⟨fed, hfed, hrc, hrest⟩ := feeds_zeros_cons hfeeds
    obtain ⟨out, hread⟩ := ih hrest
    refine ⟨fed.out ++ out, ?_⟩
    rw [List.cons_append, readKeys, hfed, Option.bind_eq_bind, Option.bind_some, hrc, if_neg (by decide),
      if_neg (by decide), hread]
    cases readKeys a completion h l' keys with
    | none => rfl
    | some r => simp

/-- **Typed text is the line**, and what comes behind its end is left. -/
theorem readKeys_text {text : List Byte} {lineEnd : Byte} (keys : List Byte)
    (hl : l.Line (Zipper.empty : Zipper Byte cap)) (hready : l.escState = .normal)
    (htext : ∀ c ∈ text, isTyped c = true) (hfits : text.length ≤ cap)
    (hend : lineEnd = 13 ∨ lineEnd = 10) :
    ∃ line out, readKeys a completion h l (text ++ lineEnd :: keys) = some ⟨returnLine a line, out, keys⟩ ∧
      line.chars = text := by
  have hquiet : ∃ l', Quiet completion h l text l' ((Zipper.empty : Zipper Byte cap).run (text.map .insert)) :=
    hl.quiet_typed_all hready htext
  obtain ⟨l', hquiet⟩ := hquiet
  obtain ⟨out, hread⟩ := readKeys_feeds a completion (lineEnd :: keys) hquiet.feeds
  obtain ⟨l'', out', henter, hentered⟩ := hquiet.line.enter completion h hquiet.ready hend
  obtain ⟨hbefore, hafter⟩ := Zipper.run_insert (Zipper.empty : Zipper Byte cap) text
  have hroom : text.take (Zipper.empty : Zipper Byte cap).room = text := List.take_of_length_le hfits
  have hdup : linenoiseStrdup (linenoiseEditStop l'').buf = some hentered.shows.line := hentered.shows.strdup
  refine ⟨hentered.shows.line, out ++ out', ?_, ?_⟩
  · rw [hread, readKeys, henter, Option.bind_eq_bind, Option.bind_some, if_pos rfl, hdup]
    rfl
  · show _ ++ _ = text
    rw [hbefore, hafter, hroom]
    exact List.append_nil text

end Keys

/-! ### The line that the terminal session submits -/

/-- **The loop and the keyboard agree**: what is read is the first line that the keys submit, if they submit one. -/
theorem readKeys_typed {a : ReadlineAns} {n : ℕ} {k k' : Tty.Keyboard} {keys : List Byte} {r : LineRead}
    (hk : k.session.Sound n) (hgoing : k.ended = false) (hnone : k.lines = [])
    (hkeys : keys.foldlM Tty.typeKey k = some k')
    (hread : readKeys a (some interactiveCompletionCallback) k.session.history k.session.editor keys = some r)
    (hmalloc : a.malloc = true) : r.line.map CStr.chars = k'.lines.head? := by
  induction keys generalizing k r with
  | nil =>
    cases hkeys
    cases hread
    rw [hnone]
    rfl
  | cons c keys ih =>
    obtain ⟨entries, hh⟩ := hk.history
    obtain ⟨fed, hfed, hl⟩ := hk.editor.feed (some interactiveCompletionCallback) hh (some c)
    obtain ⟨k₁, hk₁, hsound₁, -⟩ := Tty.typeKey_spec hk c
    rw [List.foldlM_cons, hk₁, Option.bind_eq_bind, Option.bind_some] at hkeys
    rw [Tty.typeKey_eq hgoing hfed] at hk₁
    rw [readKeys, hfed, Option.bind_eq_bind, Option.bind_some] at hread
    by_cases hend : fed.rc = -1
    · -- the session ends, and so does the call
      have hnot : ¬ fed.rc = 1 := by rw [hend]; decide
      rw [if_pos hend] at hk₁
      rw [if_neg hnot, if_pos hend] at hread
      cases hk₁
      cases hread
      rw [Tty.typed_of_ended rfl] at hkeys
      cases hkeys
      rw [hnone]
      rfl
    · rw [if_neg hend] at hk₁ hread
      by_cases henter : fed.rc = 1
      · -- the line is the first one, whatever is typed after it
        rw [if_pos henter] at hk₁ hread
        obtain ⟨before, after, hshows⟩ := hl.text
        have hdup : linenoiseStrdup (linenoiseEditStop fed.editor).buf = some hshows.line := hshows.strdup
        rw [hdup] at hread
        cases hread
        have hlines : k₁.lines = [before ++ after] := by
          obtain ⟨k₂, hk₂, -, hlines⟩ := Tty.Keyboard.enter_spec (n := n)
            (k := { k with
              session := ⟨k.session.history, fed.editor⟩, lines := k.lines ++ [fed.editor.buf.take fed.editor.len] })
            ⟨⟨entries, hh⟩, hl⟩
          rw [hk₁] at hk₂
          cases hk₂
          rw [hlines, hnone, hshows.text_eq]
          rfl
        obtain ⟨k₂, hk₂, -, more, hmore⟩ := Tty.typed_spec hsound₁ keys
        rw [hkeys] at hk₂
        cases hk₂
        rw [← hmore, hlines, returnLine, if_pos hmalloc]
        rfl
      · rw [if_neg henter] at hk₁ hread
        cases hk₁
        obtain ⟨r', hr', hread⟩ := Option.bind_eq_some_iff.mp hread
        cases hread
        have hline := ih hsound₁ hgoing hnone hkeys hr'
        exact hline

/-! ### Without raw mode -/

section Plain

variable {n : ℕ} {text : List Byte}

/-- A printable byte is no line end. -/
theorem inline_of_isTyped {c : Byte} (hc : isTyped c = true) : Tty.Inline c := by
  refine ⟨?_, (isTyped_ne hc).1⟩
  rintro rfl
  exact absurd hc (by decide)

/-- A line that fits is read at once. -/
theorem fgets_text (rest : List Byte) (htext : ∀ c ∈ text, isTyped c = true) (hfits : text.length + 2 ≤ n) :
    fgetsAll n [] (text ++ 10 :: rest) = (text ++ [10]) :: fgetsAll n [] rest ∧
      (historyPiece (text ++ [10])).chars = text := by
  have hnul : 0 ∉ text := fun h0 => (isTyped_ne (htext 0 h0)).2 rfl
  have h10 : 10 ∉ text := fun h10 => (isTyped_ne (htext 10 h10)).1 rfl
  refine ⟨fgetsAll_line h10 (by simpa using hfits), ?_⟩
  have hline : OneLine ⟨text, hnul⟩ := ⟨h10, Tty.stripLineEnd_eq fun c hc => inline_of_isTyped (htext c hc)⟩
  exact congrArg CStr.chars (historyPiece_line hline).2

/-- What is read fits, and holds a line end at its end only. -/
theorem readPlain_sound (a : ReadlineAns) (hn : 2 ≤ n) (input : List Byte) :
    ∃ taken, input = taken ++ (readPlain a n input).rest ∧ 10 ∉ taken.dropLast ∧
      ∀ line, (readPlain a n input).line = some line → line.chars.length < n := by
  unfold readPlain
  split
  · next hnone =>
    have hinput : input = [] := by
      have hflat := flatten_fgetsAll n [] input
      rw [hnone] at hflat
      exact hflat.symm
    rw [hinput]
    exact ⟨[], rfl, List.not_mem_nil, fun line hline => by cases hline⟩
  · next piece pieces hpieces =>
    have hmem : piece ∈ fgetsAll n [] input := by
      rw [hpieces]
      exact List.mem_cons_self
    obtain ⟨hlen, hend⟩ := fgetsAll_pieces hn List.not_mem_nil hn input piece hmem
    have hflat : piece ++ pieces.flatten = input := by
      have hflat := flatten_fgetsAll n [] input
      rwa [hpieces] at hflat
    refine ⟨piece, ?_, hend, fun line hline => ?_⟩
    · rw [← hflat]
      simp
    · rw [returnLine_eq_some hline]
      exact (historyPiece_starts piece).length_le.trans_lt hlen

/-- **Text with a line end is the line.** -/
theorem readPlain_text (a : ReadlineAns) (rest : List Byte) (htext : ∀ c ∈ text, isTyped c = true)
    (hfits : text.length + 2 ≤ n) :
    ∃ line, readPlain a n (text ++ 10 :: rest) = ⟨returnLine a line, [], rest⟩ ∧ line.chars = text := by
  obtain ⟨hread, hchars⟩ := fgets_text rest htext hfits
  refine ⟨historyPiece (text ++ [10]), ?_, hchars⟩
  rw [readPlain, hread]
  simp

end Plain

/-! ### The law -/

section Law

variable {τ : Type} {pf : Platform} {raw : RawMode τ} {a : ReadlineAns} {h : History} {entries : List CStr}
  {buf : List Byte} {c : Console τ}

/-- On the way into raw mode `tcsetattr` is called if standard input is a terminal with attributes. -/
theorem enableInput_eq (hoff : c.rawmode = false) (input : List Byte) :
    enableInput pf a c input =
      if pf = .posix ∧ a.enable.isatty = true ∧ a.enable.getInput = true then input.drop a.flushedIn else input := by
  rw [enableInput, hoff]
  cases pf <;> cases a.enable.isatty <;> cases a.enable.getInput <;> rfl

/-- On the way out it is called if raw mode is on. -/
theorem disableInput_eq (hon : c.rawmode = true) (rest : List Byte) :
    disableInput pf a c rest = if pf = .posix then rest.drop a.flushedOut else rest := by
  rw [disableInput, hon]
  cases pf <;> rfl

/-- In raw mode the editor reads the keys, from an empty line on. -/
theorem linenoise_raw {c' : Console τ} (completion : Option CompletionCallback) (prompt input : List Byte)
    (hh : h.Holds entries) (hbuf : 1 ≤ buf.length) (hraw : linenoiseEnableRawMode pf raw a.enable c = (0, c')) :
    ∃ l out read taken, linenoiseEditStart h buf prompt = some (l, out) ∧ l.Sound h buf.length ∧
      l.Line (Zipper.empty : Zipper Byte (buf.length - 1)) ∧ l.escState = .normal ∧
      readKeys a completion h l (enableInput pf a c input) = some read ∧
      enableInput pf a c input = taken ++ read.rest ∧ TakesLine completion h l taken read.rest ∧
      (∀ line, read.line = some line → line.chars.length < buf.length) ∧
      linenoise pf raw a completion h buf prompt input c =
        some ({ read with out := out ++ read.out, rest := disableInput pf a c' read.rest },
          linenoiseDisableRawMode pf a.disable c') := by
  obtain ⟨l, out, hstart, hsound, -⟩ := linenoiseEditStart_sound h hbuf prompt
  obtain ⟨l', out', hstart', hline, hready⟩ := linenoiseEditStart_line h hbuf prompt
  rw [hstart] at hstart'
  cases hstart'
  obtain ⟨read, taken, hread, hkeys, htakes, hfits⟩ :=
    readKeys_spec a completion hh hsound (enableInput pf a c input)
  refine ⟨l, out, read, taken, hstart, hsound, hline, hready, hread, hkeys, htakes, hfits, ?_⟩
  rw [linenoise, hraw]
  dsimp only
  rw [if_neg (by decide), hstart, Option.bind_eq_bind, Option.bind_some]
  dsimp only
  rw [hread]
  rfl

/-- Without it the line is read as it comes. -/
theorem linenoise_plain {c' : Console τ} (completion : Option CompletionCallback) (prompt input : List Byte)
    (hraw : linenoiseEnableRawMode pf raw a.enable c = (-1, c')) :
    linenoise pf raw a completion h buf prompt input c =
      some ({ readPlain a buf.length (enableInput pf a c input) with out := prompt }, c') := by
  rw [linenoise, hraw]
  dsimp only
  rw [if_pos rfl]
  rfl

/-- **`linenoise` reads a line.** Whatever comes on standard input the call returns, with the terminal as it was; of
the input that is left on the way in it takes one line and no more, and a line fits the array. Printable text with a
line end behind it comes back as it is, in raw mode or not, and what is behind it is left to the next call, without
what had come on the way out of raw mode; and in raw mode the line is the first one that the terminal session would
submit. -/
theorem linenoise_reads (pf : Platform) (raw : RawMode τ) (a : ReadlineAns) (completion : Option CompletionCallback)
    (prompt input : List Byte) (c : Console τ) (attrs attrs' : τ) (hh : h.Holds entries) (hbuf : 2 ≤ buf.length)
    (htame : Tame pf attrs attrs' c) (hoff : c.rawmode = false)
    (hset : a.disable.setInput = true ∧ a.disable.setOutput = true) :
    let came := if pf = .posix ∧ a.enable.isatty = true ∧ a.enable.getInput = true then input.drop a.flushedIn else input
    ∃ r c' taken left, linenoise pf raw a completion h buf prompt input c = some (r, c') ∧
      (c'.rawmode = false ∧ c'.input = attrs ∧ c'.output = attrs') ∧
      (∀ line, r.line = some line → line.chars.length < buf.length) ∧ came = taken ++ left ∧
      ((linenoiseEnableRawMode pf raw a.enable c).1 = 0 →
        r.rest = (if pf = .posix then left.drop a.flushedOut else left) ∧
        ∀ l out, linenoiseEditStart h buf prompt = some (l, out) → TakesLine completion h l taken left) ∧
      ((linenoiseEnableRawMode pf raw a.enable c).1 ≠ 0 → r.rest = left ∧ 10 ∉ taken.dropLast) ∧
      (a.malloc = true →
        (∀ text lineEnd rest, came = text ++ lineEnd :: rest → (∀ c ∈ text, isTyped c = true) →
          text.length + 2 ≤ buf.length →
          lineEnd = 10 ∨ (lineEnd = 13 ∧ (linenoiseEnableRawMode pf raw a.enable c).1 = 0) →
          r.line.map CStr.chars = some text ∧ left = rest) ∧
        ∀ k k', (linenoiseEnableRawMode pf raw a.enable c).1 = 0 → completion = some interactiveCompletionCallback →
          prompt = Tty.prompt → Tty.keyboard h buf = some k → came.foldlM Tty.typeKey k = some k' →
          r.line.map CStr.chars = k'.lines.head?) := by
  intro came
  have hcame : enableInput pf a c input = came := enableInput_eq hoff input
  obtain ⟨htame', hmode⟩ := htame.enable hoff raw a.enable
  generalize hraw : linenoiseEnableRawMode pf raw a.enable c = entered at htame' hmode ⊢
  obtain ⟨rc, c'⟩ := entered
  dsimp only at htame' hmode ⊢
  rcases hmode with ⟨rfl, hon, -⟩ | ⟨rfl, hoff'⟩
  · -- the editor
    have hbuf' : 1 ≤ buf.length := Nat.le_of_succ_le hbuf
    obtain ⟨l, out, read, taken, hstart, hsound, hline, hready, hread, hkeys, htakes, hfits, heq⟩ :=
      linenoise_raw completion prompt input hh hbuf' hraw
    obtain ⟨htame'', hoff''⟩ := htame'.disable hset
    rw [hcame] at hread hkeys
    refine ⟨_, _, taken, read.rest, heq, ⟨hoff'', htame''.cooked hoff''⟩, hfits, hkeys,
      fun _ => ⟨disableInput_eq hon read.rest, fun l' out' hstart' => ?_⟩, fun hne => absurd rfl hne,
      fun hmalloc => ⟨?_, ?_⟩⟩
    · rw [hstart] at hstart'
      cases hstart'
      exact htakes
    · intro text lineEnd rest hinput htext hlen hend
      obtain ⟨line, out', htyped, hchars⟩ := readKeys_text a completion rest hline hready htext (by omega)
        (hend.elim .inr fun h13 => .inl h13.1)
      rw [hinput, htyped] at hread
      cases hread
      dsimp only
      rw [returnLine, if_pos hmalloc, ← hchars]
      exact ⟨rfl, rfl⟩
    · rintro k k' - rfl rfl hk hkeys
      have hkeyboard : Tty.keyboard h buf = some { session := ⟨h, l⟩ } := by
        rw [Tty.keyboard, hstart]
        rfl
      rw [hkeyboard] at hk
      cases hk
      have hfirst := readKeys_typed ⟨⟨entries, hh⟩, hsound⟩ rfl rfl hkeys hread hmalloc
      exact hfirst
  · -- `fgets`
    obtain ⟨taken, hinput, hend, hfits⟩ := readPlain_sound a hbuf came
    have hplain : linenoise pf raw a completion h buf prompt input c =
        some ({ readPlain a buf.length (enableInput pf a c input) with out := prompt }, c') :=
      linenoise_plain completion prompt input hraw
    rw [hcame] at hplain
    refine ⟨_, _, taken, _, hplain, ⟨hoff', htame'.cooked hoff'⟩, hfits, hinput,
      fun hzero => absurd hzero (by decide), fun _ => ⟨rfl, hend⟩, fun hmalloc => ⟨?_, ?_⟩⟩
    · intro text lineEnd rest hcome htext hlen hend
      have h10 : lineEnd = 10 := hend.resolve_right fun h13 => absurd h13.2 (by decide)
      subst h10
      obtain ⟨line, hread, hchars⟩ := readPlain_text a rest htext hlen
      rw [hcome, hread]
      dsimp only
      rw [returnLine, if_pos hmalloc, ← hchars]
      exact ⟨rfl, rfl⟩
    · rintro k k' hzero
      exact absurd hzero (by decide)

/-- A line is typed, and more: `no` had come before raw mode was entered, and `x` when it is left. -/
theorem linenoise_reads_hi :
    ∃ r c', linenoise .posix ⟨fun _ => true, id⟩ { flushedIn := 2, flushedOut := 1 } none {} (List.replicate 4096 0)
        (str "> ") (str "nohi" ++ 13 :: str "xy") (.boot false false false) = some (r, c') ∧
      c'.input = false ∧ r.line.map CStr.chars = some (str "hi") ∧ r.rest = str "y" := by
  have hbuf : 2 ≤ (List.replicate 4096 (0 : Byte)).length := by rw [List.length_replicate]; decide
  obtain ⟨r, c', taken, left, heq, ⟨-, hinput, -⟩, -, -, hraw, -, hline⟩ :=
    linenoise_reads .posix ⟨fun _ => true, id⟩ { flushedIn := 2, flushedOut := 1 } none (str "> ")
      (str "nohi" ++ 13 :: str "xy") (.boot false false false) false false holds_init hbuf
      (tame_boot .posix false false false) rfl ⟨rfl, rfl⟩
  obtain ⟨htext, -⟩ := hline rfl
  have hlen : (str "hi").length + 2 ≤ (List.replicate 4096 (0 : Byte)).length := by rw [List.length_replicate]; decide
  have htyped : (str "hi").all isTyped = true := by decide
  obtain ⟨hchars, hleft⟩ :=
    htext (str "hi") 13 (str "xy") (by decide) (List.all_eq_true.mp htyped) hlen (.inr ⟨rfl, rfl⟩)
  refine ⟨r, c', heq, hinput, hchars, ?_⟩
  rw [(hraw rfl).1, hleft]
  rfl

end Law

end TcpClient
