import TcpClient.Linenoise.EditKeys

/-!
# Text and control sequences

What a terminal sends is text, which should go into the line as it is, and control
sequences, of which nothing should. `linenoiseEditFeed` gives some bytes a meaning that
depends on what it is connected to, and gives up on a control sequence at the first
byte it does not expect:

* text is typed unchanged exactly when no character of it begins with the byte `0xE0`,
  the first of a key of the Windows console (`text_typed`);
* nothing of a control sequence is typed exactly when its parameters are digits and it
  has no intermediate bytes, or when the line is full (`csi_swallowed`).
-/

namespace TcpClient

open Machine CString

/-! ### A row of printable bytes -/

/-- Feeding the bytes is quiet: every call returns `0`, and the editor is ready for the next key;
the line is `z`, and the place in the history is as before. -/
structure Quiet {cap : ℕ} (completion : Option CompletionCallback) (h : History) (l : Editor) (bs : List Byte)
    (l' : Editor) (z : Zipper Byte cap) : Prop where
  feeds : linenoiseEditFeeds completion h l (bs.map some) = some (List.replicate bs.length 0, l')
  line : l'.Line z
  ready : l'.escState = .normal
  history : l'.historyIndex = l.historyIndex

section Typing

variable {completion : Option CompletionCallback} {h : History} {cap : ℕ} {l l' l'' : Editor} {z z' : Zipper Byte cap}
  {bs bs' : List Byte}

theorem historyIndex_endCompletion (l : Editor) : (endCompletion l).historyIndex = l.historyIndex := by
  unfold endCompletion
  split_ifs <;> rfl

theorem Quiet.refl (hl : l.Line z) (hready : l.escState = .normal) : Quiet completion h l [] l z :=
  ⟨rfl, hl, hready, rfl⟩

theorem Quiet.trans (h₁ : Quiet completion h l bs l' z) (h₂ : Quiet completion h l' bs' l'' z') :
    Quiet completion h l (bs ++ bs') l'' z' := by
  refine ⟨?_, h₂.line, h₂.ready, h₂.history.trans h₁.history⟩
  rw [List.map_append, feeds_append h₁.feeds, h₂.feeds, Option.map_some, List.length_append, List.replicate_add]

/-- A printable byte is put in. -/
theorem Editor.Line.quiet_typed (hl : l.Line z) (hready : l.escState = .normal) {c : Byte} (hc : isTyped c = true) :
    ∃ l', Quiet completion h l [c] l' (z.exec (.insert c)) := by
  have hcmd : Zipper.Command.insert c ≠ .insert 0 := by
    intro h0
    cases h0
    cases hc
  obtain ⟨l', out, hfed, hline, hframe⟩ := hl.endCompletion.edits (hl.endCompletion.label _ hcmd)
  refine ⟨l', feeds_single ((feed_typed hl hready hc).trans hfed), hline, ?_, ?_⟩
  · exact hframe.escState.trans ((escState_endCompletion l).trans hready)
  · exact hframe.historyIndex.trans (historyIndex_endCompletion l)

/-- **A row of printable bytes is put in one after another.** -/
theorem Editor.Line.quiet_typed_all (hl : l.Line z) (hready : l.escState = .normal)
    (hbs : ∀ c ∈ bs, isTyped c = true) : ∃ l', Quiet completion h l bs l' (z.run (bs.map .insert)) := by
  induction bs generalizing l z with
  | nil => exact ⟨l, .refl hl hready⟩
  | cons c bs ih =>
    have hfirst : ∃ l', Quiet completion h l [c] l' (z.exec (.insert c)) :=
      hl.quiet_typed hready (hbs c List.mem_cons_self)
    obtain ⟨l', hc⟩ := hfirst
    obtain ⟨l'', hrest⟩ := ih hc.line hc.ready fun b hb => hbs b (List.mem_cons_of_mem _ hb)
    exact ⟨l'', hc.trans hrest⟩

/-- After `0xE0` a byte that is no key of the Windows console is passed over. -/
theorem Editor.Line.quiet_winExt (hl : l.Line z) (hready : l.escState = .normal) {b : Byte} (hb : 0x80 ≤ b) :
    ∃ l', Quiet completion h l [0xE0, b] l' z := by
  have hbuf := hl.buf_ne
  have hlead : linenoiseEditFeed completion h l (some 0xE0) =
      some ⟨0, { TcpClient.endCompletion l with escState := .winExt }, []⟩ := by
    rw [feed_some hbuf, hready]
    rfl
  have hne : ∀ k : Byte, k < 0x80 → b ≠ k := by
    rintro k hk rfl
    exact UInt8.not_lt.mpr hb hk
  have hpassed : linenoiseEditFeed completion h { TcpClient.endCompletion l with escState := .winExt } (some b) =
      some ⟨0, { TcpClient.endCompletion l with escState := .normal }, []⟩ := by
    rw [feed_some (escape_buflen hbuf .winExt _)]
    simp only [feedWinExt, hne 72 (by decide), hne 80 (by decide), hne 75 (by decide), hne 77 (by decide),
      hne 71 (by decide), hne 79 (by decide), hne 83 (by decide), if_false]
    rfl
  refine ⟨{ TcpClient.endCompletion l with escState := .normal }, ?_, hl.endCompletion.escape .normal _, rfl,
    historyIndex_endCompletion l⟩
  rw [List.map_cons, feeds_cons hlead, List.map_singleton, feeds_single hpassed]
  rfl

end Typing

/-! ### Text -/

/-- A continuation byte. -/
theorem continuation_bounds (n : ℕ) :
    (0x80 : Byte) ≤ UInt8.ofNat (n % 0x40 + 0x80) ∧ UInt8.ofNat (n % 0x40 + 0x80) < (0xC0 : Byte) := by
  rw [UInt8.le_iff_toNat_le, UInt8.lt_iff_toNat_lt, UInt8.toNat_ofNat']
  have h80 : (0x80 : Byte).toNat = 128 := rfl
  have hC0 : (0xC0 : Byte).toNat = 192 := rfl
  omega

theorem ne_lead {n : ℕ} (hn : n < 256) (h : n ≠ 0xE0) : (0xE0 : Byte) ≠ UInt8.ofNat n := by
  intro heq
  have htoNat := congrArg UInt8.toNat heq
  rw [UInt8.toNat_ofNat', Nat.mod_eq_of_lt hn] at htoNat
  exact h htoNat.symm

theorem ne_continuation (n : ℕ) : (0xE0 : Byte) ≠ UInt8.ofNat (n % 0x40 + 0x80) := ne_lead (by omega) (by omega)

/-- The characters that begin with the byte `0xE0` have two more bytes; no other has a byte
`0xE0`. -/
theorem utf8EncodeChar_lead (c : Char) :
    0xE0 ∉ String.utf8EncodeChar c ∨
      ∃ b₁ b₂ : Byte, String.utf8EncodeChar c = [0xE0, b₁, b₂] ∧ 0x80 ≤ b₁ ∧ 0x80 ≤ b₂ ∧ b₂ < 0xC0 := by
  unfold String.utf8EncodeChar
  simp only
  split_ifs with h₁ h₂ h₃
  · left
    rw [List.mem_singleton]
    exact ne_lead (by omega) (by omega)
  · left
    simp only [List.mem_cons, List.not_mem_nil, or_false, not_or]
    exact ⟨ne_lead (by omega) (by omega), ne_continuation _⟩
  · by_cases hzero : c.val.toNat / 4096 % 0x10 = 0
    · right
      rw [hzero]
      exact ⟨_, _, rfl, (continuation_bounds _).1, continuation_bounds _⟩
    · left
      simp only [List.mem_cons, List.not_mem_nil, or_false, not_or]
      exact ⟨ne_lead (by omega) (by omega), ne_continuation _, ne_continuation _⟩
  · left
    simp only [List.mem_cons, List.not_mem_nil, or_false, not_or]
    exact ⟨ne_lead (by omega) (by omega), ne_continuation _, ne_continuation _, ne_continuation _⟩

/-- What is left of a character: a first byte `0xE0` is taken for the beginning of a key, and the
byte behind it for the key. -/
def typedPart (c : Char) : List Byte :=
  if 0xE0 ∈ String.utf8EncodeChar c then (String.utf8EncodeChar c).drop 2 else String.utf8EncodeChar c

/-- No byte `0xE0` is left. -/
theorem lead_not_mem_typedPart (c : Char) : 0xE0 ∉ typedPart c := by
  unfold typedPart
  split_ifs with hlead
  · obtain ⟨b₁, b₂, heq, -, -, h₂⟩ := (utf8EncodeChar_lead c).resolve_left (not_not.mpr hlead)
    rw [heq]
    simp only [List.drop_succ_cons, List.drop_zero, List.mem_singleton]
    rintro rfl
    exact absurd h₂ (by decide)
  · exact hlead

/-- All of the text is left exactly when it has no byte `0xE0`. -/
theorem typedPart_eq_iff (chars : List Char) :
    chars.flatMap typedPart = chars.flatMap String.utf8EncodeChar ↔ 0xE0 ∉ chars.flatMap String.utf8EncodeChar := by
  constructor
  · intro heq
    rw [← heq, List.mem_flatMap]
    rintro ⟨c, -, hlead⟩
    exact lead_not_mem_typedPart c hlead
  · intro hfree
    refine List.flatMap_congr fun c hc => if_neg fun hlead => hfree ?_
    exact List.mem_flatMap.mpr ⟨c, hc, hlead⟩

theorem typedPart_sublist (chars : List Char) :
    (chars.flatMap typedPart).Sublist (chars.flatMap String.utf8EncodeChar) := by
  induction chars with
  | nil => exact List.Sublist.refl _
  | cons c chars ih =>
    rw [List.flatMap_cons, List.flatMap_cons]
    refine List.Sublist.append ?_ ih
    unfold typedPart
    split_ifs
    · exact List.drop_sublist 2 _
    · exact List.Sublist.refl _

section Text

variable {completion : Option CompletionCallback} {h : History} {cap : ℕ} {l : Editor} {z : Zipper Byte cap}

/-- A character puts in what is left of it. -/
theorem Editor.Line.quiet_char (hl : l.Line z) (hready : l.escState = .normal) {c : Char}
    (hplain : ∀ b ∈ String.utf8EncodeChar c, 32 ≤ b ∧ b ≠ 127) :
    ∃ l', Quiet completion h l (String.utf8EncodeChar c) l' (z.run ((typedPart c).map .insert)) := by
  have htyped : ∀ b ∈ String.utf8EncodeChar c, b ≠ 0xE0 → isTyped b = true := by
    intro b hb hne
    obtain ⟨hprint, h127⟩ := hplain b hb
    simp [isTyped, hprint, h127, hne]
  cases utf8EncodeChar_lead c with
  | inl hfree =>
    rw [typedPart, if_neg hfree]
    exact hl.quiet_typed_all hready fun b hb => htyped b hb fun heq => hfree (heq ▸ hb)
  | inr hlead =>
    obtain ⟨b₁, b₂, heq, h₁, -, h₂⟩ := hlead
    have hb₂ : isTyped b₂ = true := by
      refine htyped b₂ (by simp [heq]) ?_
      rintro rfl
      exact absurd h₂ (by decide)
    rw [typedPart, heq, if_pos List.mem_cons_self]
    have hpassed : ∃ l', Quiet completion h l [0xE0, b₁] l' z := hl.quiet_winExt hready h₁
    obtain ⟨l₁, hquiet₁⟩ := hpassed
    have hlast : ∃ l', Quiet completion h l₁ [b₂] l' (z.exec (.insert b₂)) :=
      hquiet₁.line.quiet_typed hquiet₁.ready hb₂
    obtain ⟨l₂, hquiet₂⟩ := hlast
    exact ⟨l₂, hquiet₁.trans hquiet₂⟩

/-- A text puts in what is left of its characters. -/
theorem Editor.Line.quiet_text (hl : l.Line z) (hready : l.escState = .normal) {chars : List Char}
    (hplain : ∀ b ∈ chars.flatMap String.utf8EncodeChar, 32 ≤ b ∧ b ≠ 127) :
    ∃ l', Quiet completion h l (chars.flatMap String.utf8EncodeChar) l'
      (z.run ((chars.flatMap typedPart).map .insert)) := by
  induction chars generalizing l z with
  | nil => exact ⟨l, .refl hl hready⟩
  | cons c chars ih =>
    rw [List.flatMap_cons] at hplain
    have hfirst : ∃ l', Quiet completion h l (String.utf8EncodeChar c) l' (z.run ((typedPart c).map .insert)) :=
      hl.quiet_char hready fun b hb => hplain b (List.mem_append_left _ hb)
    obtain ⟨l', hc⟩ := hfirst
    obtain ⟨l'', hrest⟩ := ih hc.line hc.ready fun b hb => hplain b (List.mem_append_right _ hb)
    refine ⟨l'', ?_⟩
    rw [List.flatMap_cons, List.flatMap_cons, List.map_append, Zipper.run_append]
    exact hc.trans hrest

end Text

/-- Fed to an editor that was just started, every byte of `w` returns `0`; the line is `w`, with
the cursor at its end, and is what Enter submits. -/
def TypesText (completion : Option CompletionCallback) (h : History) (buf prompt w : List Byte) : Prop :=
  ∃ l out l', linenoiseEditStart h buf prompt = some (l, out) ∧
    linenoiseEditFeeds completion h l (w.map some) = some (List.replicate w.length 0, l') ∧
    cstr l'.buf = w ∧ l'.len = w.length ∧ l'.pos = w.length ∧
    ∃ l'' out', linenoiseEditFeed completion h l' (some 13) = some ⟨1, l'', out'⟩ ∧ cstr l''.buf = w

/-- Enter, or a line feed, submits what the line shows. -/
theorem Editor.Line.enter {cap : ℕ} {l : Editor} {z : Zipper Byte cap} {c : Byte}
    (completion : Option CompletionCallback) (h : History) (hl : l.Line z) (hready : l.escState = .normal)
    (hc : c = 13 ∨ c = 10) : ∃ l' out, linenoiseEditFeed completion h l (some c) = some ⟨1, l', out⟩ ∧ l'.Line z := by
  have hbuf := hl.buf_ne
  have hplain : c ≠ 27 ∧ c ≠ 0 ∧ c ≠ 0xE0 ∧ c ≠ 9 := by rcases hc with rfl | rfl <;> decide
  have hfeed : linenoiseEditFeed completion h l (some c) = feedEnter (TcpClient.endCompletion l) := by
    rw [feed_byte hbuf hready hplain, feedEditing, if_pos hc]
  obtain ⟨l', out, hfed, hline, -⟩ := hl.endCompletion.edits hl.endCompletion.shows.feedEnter
  exact ⟨l', out, hfeed.trans hfed, hline⟩

theorem Editor.Line.submit {cap : ℕ} {l : Editor} {z : Zipper Byte cap} (completion : Option CompletionCallback)
    (h : History) (hl : l.Line z) (hready : l.escState = .normal) :
    ∃ l' out, linenoiseEditFeed completion h l (some 13) = some ⟨1, l', out⟩ ∧ l'.Line z :=
  hl.enter completion h hready (.inl rfl)

/-- Text is typed unchanged exactly when all of it is left. -/
theorem typesText_iff (completion : Option CompletionCallback) (h : History) (buf prompt : List Byte)
    (chars : List Char) (hbuf : 1 ≤ buf.length)
    (hplain : ∀ b ∈ chars.flatMap String.utf8EncodeChar, 32 ≤ b ∧ b ≠ 127)
    (hfits : (chars.flatMap String.utf8EncodeChar).length ≤ buf.length - 1) :
    TypesText completion h buf prompt (chars.flatMap String.utf8EncodeChar) ↔
      chars.flatMap typedPart = chars.flatMap String.utf8EncodeChar := by
  obtain ⟨l, out, hstart, hline, hready⟩ := linenoiseEditStart_line h hbuf prompt
  have hquiet : ∃ l', Quiet completion h l (chars.flatMap String.utf8EncodeChar) l'
      (Zipper.empty.run ((chars.flatMap typedPart).map .insert)) := hline.quiet_text hready hplain
  obtain ⟨l', hfed, hline', hready', -⟩ := hquiet
  -- there is room for all that is left of the text
  obtain ⟨hbefore, hafter⟩ := Zipper.run_insert (Zipper.empty : Zipper Byte (buf.length - 1)) (chars.flatMap typedPart)
  have hroom : (chars.flatMap typedPart).length ≤ (Zipper.empty : Zipper Byte (buf.length - 1)).room :=
    ((typedPart_sublist chars).length_le.trans hfits).trans_eq (Nat.sub_zero _).symm
  have hshows := hline'.shows
  rw [hbefore, hafter, List.take_of_length_le hroom] at hshows
  change l'.Shows (chars.flatMap typedPart) [] at hshows
  have hcstr := hshows.holds.cstr_eq
  rw [List.append_nil] at hcstr
  constructor
  · intro htyped
    obtain ⟨l₀, out₀, l₁, hstart₀, hfed₀, hbuf₀, -⟩ := htyped
    rw [hstart] at hstart₀
    cases hstart₀
    rw [hfed] at hfed₀
    cases hfed₀
    exact hcstr.symm.trans hbuf₀
  · intro heq
    obtain ⟨l'', out'', hsubmit, hline''⟩ := hline'.submit completion h hready'
    have hshows'' := hline''.shows.holds.cstr_eq
    rw [hbefore, hafter, List.take_of_length_le hroom] at hshows''
    refine ⟨l, out, l', hstart, hfed, hcstr.trans heq, ?_, ?_, l'', out'', hsubmit, ?_⟩
    · rw [hshows.len, heq]
      rfl
    · rw [hshows.pos, heq]
    · rw [hshows'', ← heq]
      exact List.append_nil _

/-- **Text is typed unchanged exactly when no character of it begins with the byte `0xE0`.** -/
theorem text_typed (completion : Option CompletionCallback) (h : History) (buf prompt : List Byte)
    (chars : List Char) (hbuf : 1 ≤ buf.length)
    (hplain : ∀ b ∈ chars.flatMap String.utf8EncodeChar, 32 ≤ b ∧ b ≠ 127)
    (hfits : (chars.flatMap String.utf8EncodeChar).length ≤ buf.length - 1) :
    TypesText completion h buf prompt (chars.flatMap String.utf8EncodeChar) ↔
      0xE0 ∉ chars.flatMap String.utf8EncodeChar :=
  (typesText_iff completion h buf prompt chars hbuf hplain hfits).trans (typedPart_eq_iff chars)

/-- `é`, of the bytes `C3 A9`, is typed unchanged. -/
theorem text_typed_eacute : TypesText none {} (List.replicate 8 7) [] [0xC3, 0xA9] :=
  (text_typed none {} (List.replicate 8 7) [] [Char.ofNat 0xE9] (by decide) (by decide +kernel) (by decide)).mpr (by decide)

/-- Of the Thai letter of the bytes `E0 B8 81` only the last byte is typed. -/
theorem text_not_typed : ¬ TypesText none {} (List.replicate 8 7) [] [0xE0, 0xB8, 0x81] := by
  have hiff := typesText_iff none {} (List.replicate 8 7) [] [Char.ofNat 0xE01] (by decide) (by decide +kernel)
    (by decide)
  exact fun htyped => absurd (hiff.mp htyped) (by decide)

/-! ### Control sequences -/

/-- The line that belongs to the place in the history: an entry, or the saved line. -/
def lineAt (h : History) (l : Editor) : Option CStr :=
  if l.historyIndex = h.len then some (l.savedLine.getD CStr.empty) else h.get l.historyIndex

/-- From `l` to `l'` nothing was typed: the text is the same, or lost the character at the cursor, or
is, as far as there is room, the line of another place in the history. -/
def NotTyped (h : History) (l l' : Editor) : Prop :=
  l'.text = l.text ∨ l'.text = l.parts.1 ++ l.parts.2.tail ∨
    l'.historyIndex ≠ l.historyIndex ∧ ∃ line, lineAt h l' = some line ∧ l'.text = line.chars.take (l.buf.length - 1)

/-- Every byte returns `0`, the editor is ready for the next key, and nothing was typed. -/
def Swallowed (completion : Option CompletionCallback) (h : History) (l : Editor) (bs : List Byte) : Prop :=
  ∃ l', linenoiseEditFeeds completion h l (bs.map some) = some (List.replicate bs.length 0, l') ∧
    l'.escState = .normal ∧ NotTyped h l l'

/-- A call that returns `0` and types nothing. -/
def Passed (h : History) (l : Editor) (r : Option Fed) : Prop :=
  ∃ l' out, r = some ⟨0, l', out⟩ ∧ l'.escState = l.escState ∧ NotTyped h l l'

section Swallowed

variable {completion : Option CompletionCallback} {h : History} {entries : List CStr} {cap n : ℕ} {l l' : Editor}
  {z : Zipper Byte cap} {c : Byte}

/-- A command that keeps the text, or deletes. -/
theorem Editor.Line.passed (hl : l.Line z) (cmd : Zipper.Command Byte)
    (hcmd : (z.exec cmd).text = z.text ∧ cmd ≠ .insert 0 ∨ cmd = .delete) : Passed h l (TcpClient.label cmd l) := by
  have hne : cmd ≠ .insert 0 := by
    cases hcmd with
    | inl hkeeps => exact hkeeps.2
    | inr hdelete => rw [hdelete]; simp
  obtain ⟨l', out, hfed, hline, hframe⟩ := hl.edits (hl.label cmd hne)
  refine ⟨l', out, hfed, hframe.escState, ?_⟩
  cases hcmd with
  | inl hkeeps => exact .inl (by rw [hline.text_eq, hl.text_eq, hkeeps.1])
  | inr hdelete =>
    subst hdelete
    refine .inr (.inl ?_)
    rw [hline.text_eq, hl.shows.parts]
    rfl

theorem passed_ignored (l : Editor) : Passed h l (ignored l) := ⟨l, [], rfl, rfl, .inl rfl⟩

/-- An edit that leaves the text alone. -/
theorem Edits.passed {r : Option Fed} {before after : List Byte} (hshows : l.Shows before after)
    (he : Edits l r 0 before after) : Passed h l r := by
  obtain ⟨l', out, hfed, hshows', hframe⟩ := he
  exact ⟨l', out, hfed, hframe.escState, .inl (hshows'.text_eq.trans hshows.text_eq.symm)⟩

theorem passed_handleUp (hl : l.Sound h n) (hh : h.Holds entries) : Passed h l (handleUp h l) := by
  obtain ⟨before, after, hshows⟩ := hl.text
  cases hshows.handleUp hh hl.history with
  | inl hstays => exact hstays.2.passed hshows
  | inr hmoves =>
    obtain ⟨entry, hpos, hentry, l', out, hfed, hshows', hframe⟩ := hmoves
    have hidx : l'.historyIndex = l.historyIndex - 1 := hframe.historyIndex
    have hhistory := hl.history
    refine ⟨l', out, hfed, hframe.escState, .inr (.inr ⟨by omega, entry, ?_, ?_⟩)⟩
    · obtain ⟨hlt, hget⟩ := List.getElem?_eq_some_iff.mp hentry
      rw [lineAt, if_neg (by omega), hidx, hh.get_lt hlt, hget]
    · rw [Editor.text, hshows'.text_eq, List.append_nil]

theorem passed_handleDown (hl : l.Sound h n) (hh : h.Holds entries) : Passed h l (handleDown h l) := by
  obtain ⟨before, after, hshows⟩ := hl.text
  cases hshows.handleDown hh with
  | inl hstays => exact hstays.2.passed hshows
  | inr hmoves =>
    obtain ⟨line, -, hline, l', out, hfed, hshows', hframe⟩ := hmoves
    have hidx : l'.historyIndex = l.historyIndex + 1 := hframe.historyIndex
    have hsaved : l'.savedLine = l.savedLine := hframe.savedLine
    refine ⟨l', out, hfed, hframe.escState, .inr (.inr ⟨by omega, line, ?_, ?_⟩)⟩
    · rw [lineAt, hidx, hsaved]
      exact hline
    · rw [Editor.text, hshows'.text_eq, List.append_nil]

/-- The letters type nothing. -/
theorem passed_letter (hl : l.Sound h n) (hh : h.Holds entries) (c : Byte) :
    Passed h l (feedLetter h c l) := by
  obtain ⟨z, hline⟩ := hl.line
  unfold feedLetter
  split_ifs
  · exact passed_handleUp hl hh
  · exact passed_handleDown hl hh
  · exact hline.passed .right (.inl ⟨z.text_right, by simp⟩)
  · exact hline.passed .left (.inl ⟨z.text_left, by simp⟩)
  · exact hline.passed .home (.inl ⟨z.text_home, by simp⟩)
  · exact hline.passed .toEnd (.inl ⟨z.text_toEnd, by simp⟩)
  · exact passed_ignored l

/-- A byte that ends a number types nothing. -/
theorem passed_csiNum (hl : l.Sound h n) (hc : isDigit c = false) :
    Passed h { l with escState := .normal } (feedCsiNum c l) := by
  obtain ⟨z, hline⟩ := (hl.escape .normal l.csiNum).line
  by_cases htilde : c = 126
  · rw [htilde, feedCsiNum_tilde rfl]
    split_ifs
    · exact hline.passed .delete (.inr rfl)
    · exact hline.passed .home (.inl ⟨z.text_home, by simp⟩)
    · exact hline.passed .toEnd (.inl ⟨z.text_toEnd, by simp⟩)
    · exact passed_ignored _
  · rw [feedCsiNum, if_neg htilde, if_neg (by rw [hc]; exact Bool.false_ne_true)]
    exact passed_ignored _

/-- In a control sequence, after its digits. -/
def Editor.InCsi (l : Editor) : Prop := l.escState = .csi ∨ l.escState = .csiNum

/-- Digits are read in a control sequence, and nothing else happens. -/
theorem feeds_digits {ds : List Byte} (hbuf : l.buf.length ≠ 0) (hcsi : l.InCsi) (hds : ∀ d ∈ ds, isDigit d = true) :
    ∃ state num, linenoiseEditFeeds completion h l (ds.map some) =
        some (List.replicate ds.length 0, { l with escState := state, csiNum := num }) ∧
      ({ l with escState := state, csiNum := num } : Editor).InCsi := by
  induction ds generalizing l with
  | nil => exact ⟨l.escState, l.csiNum, rfl, hcsi⟩
  | cons d ds ih =>
    have hd := hds d List.mem_cons_self
    have hrest : ∀ d ∈ ds, isDigit d = true := fun d' h' => hds d' (List.mem_cons_of_mem _ h')
    obtain ⟨num, hfeed⟩ : ∃ num, linenoiseEditFeed completion h l (some d) =
        some ⟨0, { l with csiNum := num, escState := .csiNum }, []⟩ := by
      rw [feed_some hbuf]
      cases hcsi with
      | inl hstate =>
        refine ⟨digit d, ?_⟩
        rw [hstate]
        exact if_pos hd
      | inr hstate =>
        have htilde : d ≠ 126 := by
          rintro rfl
          cases hd
        refine ⟨(l.csiNum * 10 + digit d).bmod (2 ^ 32), ?_⟩
        simp only [hstate, feedCsiNum, if_neg htilde, if_pos hd]
        rfl
    obtain ⟨state, num', hfeeds, hcsi'⟩ := ih (l := { l with csiNum := num, escState := .csiNum }) hbuf (.inr rfl) hrest
    refine ⟨state, num', ?_, hcsi'⟩
    rw [List.map_cons, feeds_cons hfeed, hfeeds]
    rfl

/-- Any other byte ends the control sequence, and types nothing. -/
theorem passed_final (hl : l.Sound h n) (hh : h.Holds entries) (hcsi : l.InCsi) (hc : isDigit c = false) :
    Passed h { l with escState := .normal } (linenoiseEditFeed completion h l (some c)) := by
  obtain ⟨z, hline⟩ := hl.line
  have hbuf : l.buf.length ≠ 0 := by rw [hline.buflen]; exact Nat.succ_ne_zero _
  rw [feed_some hbuf]
  cases hcsi with
  | inl hstate =>
    simp only [hstate, feedCsi, hc, Bool.false_eq_true, if_false]
    exact passed_letter (hl.escape .normal l.csiNum) hh c
  | inr hstate =>
    simp only [hstate]
    exact passed_csiNum hl hc

/-- A byte that is neither a letter nor a digit nor `~` drops the control sequence. -/
theorem feed_dropped (hbuf : l.buf.length ≠ 0) (hcsi : l.InCsi) (hc : isDigit c = false) (hlow : c ≤ 0x3F) :
    linenoiseEditFeed completion h l (some c) = some ⟨0, { l with escState := .normal }, []⟩ := by
  have hne : ∀ k : Byte, 0x3F < k → c ≠ k := by
    rintro k hk rfl
    exact UInt8.not_lt.mpr hlow hk
  rw [feed_some hbuf]
  cases hcsi with
  | inl hstate =>
    simp only [hstate, feedCsi, hc, Bool.false_eq_true, if_false, feedLetter, hne 65 (by decide), hne 66 (by decide),
      hne 67 (by decide), hne 68 (by decide), hne 72 (by decide), hne 70 (by decide)]
    rfl
  | inr hstate =>
    simp only [hstate, feedCsiNum, hc, Bool.false_eq_true, if_false, hne 126 (by decide)]
    rfl

/-- `ESC [` and digits. -/
theorem feeds_csi_digits (completion : Option CompletionCallback) (h : History) {ds : List Byte}
    (hbuf : l.buf.length ≠ 0) (hready : l.escState = .normal) (hds : ∀ d ∈ ds, isDigit d = true) :
    ∃ state num, linenoiseEditFeeds completion h l ((27 :: 91 :: ds).map some) =
        some (List.replicate (27 :: 91 :: ds).length 0, { endCompletion l with escState := state, csiNum := num }) ∧
      ({ endCompletion l with escState := state, csiNum := num } : Editor).InCsi := by
  have hdigits : ∃ state num, linenoiseEditFeeds completion h { endCompletion l with escState := .csi } (ds.map some) =
        some (List.replicate ds.length 0, { endCompletion l with escState := state, csiNum := num }) ∧
      ({ endCompletion l with escState := state, csiNum := num } : Editor).InCsi :=
    feeds_digits (escape_buflen hbuf .csi (endCompletion l).csiNum) (.inl rfl) hds
  obtain ⟨state, num, hfeeds, hcsi⟩ := hdigits
  refine ⟨state, num, ?_, hcsi⟩
  rw [show (27 :: 91 :: ds).map some = [some 27, some 91] ++ ds.map some from rfl,
    feeds_append (feeds_csi hbuf hready), hfeeds]
  rfl

/-- Neither the completion nor the place in a sequence is part of the line. -/
theorem NotTyped.of_endCompletion {state : EscState} {num : ℤ}
    (hkept : NotTyped h { endCompletion l with escState := state, csiNum := num } l') : NotTyped h l l' := by
  unfold endCompletion at hkept
  split_ifs at hkept
  · exact hkept
  · exact hkept

/-- **A control sequence with digits for parameters types nothing.** -/
theorem swallowed_digits {ds : List Byte} (hl : l.Sound h n) (hh : h.Holds entries) (hready : l.escState = .normal)
    (hds : ∀ d ∈ ds, isDigit d = true) (hc : isDigit c = false) :
    Swallowed completion h l (27 :: 91 :: (ds ++ [c])) := by
  obtain ⟨z, hline⟩ := hl.line
  have hbuf : l.buf.length ≠ 0 := by rw [hline.buflen]; exact Nat.succ_ne_zero _
  obtain ⟨state, num, hfeeds, hcsi⟩ := feeds_csi_digits completion h hbuf hready hds
  have hfinal : Passed h _ (linenoiseEditFeed completion h _ (some c)) :=
    passed_final (hl.endCompletion.escape state num) hh hcsi hc
  obtain ⟨l', out, hfed, hstate, hkept⟩ := hfinal
  refine ⟨l', ?_, hstate, hkept.of_endCompletion⟩
  rw [show 27 :: 91 :: (ds ++ [c]) = (27 :: 91 :: ds) ++ [c] from rfl, List.map_append, feeds_append hfeeds,
    List.map_singleton, feeds_single hfed, Option.map_some, List.length_append, List.replicate_add]
  rfl

/-- **What follows a byte that drops a control sequence is typed.** -/
theorem quiet_dropped {ds rest : List Byte} (hl : l.Line z) (hready : l.escState = .normal)
    (hds : ∀ d ∈ ds, isDigit d = true) (hc : isDigit c = false) (hlow : c ≤ 0x3F)
    (hrest : ∀ b ∈ rest, isTyped b = true) :
    ∃ l', Quiet completion h l (27 :: 91 :: (ds ++ c :: rest)) l' (z.run (rest.map .insert)) := by
  have hbuf : l.buf.length ≠ 0 := by rw [hl.buflen]; exact Nat.succ_ne_zero _
  obtain ⟨state, num, hfeeds, hcsi⟩ := feeds_csi_digits completion h hbuf hready hds
  have hdropped : linenoiseEditFeed completion h { endCompletion l with escState := state, csiNum := num } (some c) =
      some ⟨0, { endCompletion l with escState := .normal, csiNum := num }, []⟩ :=
    feed_dropped (escape_buflen hbuf state num) hcsi hc hlow
  have hquiet : Quiet completion h l ((27 :: 91 :: ds) ++ [c])
      { endCompletion l with escState := .normal, csiNum := num } z := by
    refine ⟨?_, hl.endCompletion.escape .normal num, rfl, historyIndex_endCompletion l⟩
    rw [List.map_append, feeds_append hfeeds, List.map_singleton, feeds_single hdropped, Option.map_some,
      List.length_append, List.replicate_add]
    rfl
  have htyped : ∃ l', Quiet completion h _ rest l' (z.run (rest.map .insert)) :=
    hquiet.line.quiet_typed_all hquiet.ready hrest
  obtain ⟨l', hlast⟩ := htyped
  refine ⟨l', ?_⟩
  rw [show 27 :: 91 :: (ds ++ c :: rest) = ((27 :: 91 :: ds) ++ [c]) ++ rest by simp]
  exact hquiet.trans hlast

end Swallowed

/-! ### The sequences that are swallowed -/

/-- A control sequence: `ESC [`, parameter bytes, intermediate bytes and a final byte. -/
structure Csi where
  params : List Byte
  inter : List Byte
  final : Byte
  params_range : ∀ b ∈ params, 0x30 ≤ b ∧ b ≤ 0x3F
  inter_range : ∀ b ∈ inter, 0x20 ≤ b ∧ b ≤ 0x2F
  final_range : 0x40 ≤ final ∧ final ≤ 0x7E

/-- The bytes of the sequence. -/
def Csi.bytes (s : Csi) : List Byte := 27 :: 91 :: (s.params ++ (s.inter ++ [s.final]))

/-- Only digits come before the final byte. -/
def Csi.Plain (s : Csi) : Prop := (∀ b ∈ s.params, isDigit b = true) ∧ s.inter = []

theorem isDigit_eq_false {b : Byte} (hb : b < 0x30 ∨ 0x39 < b) : isDigit b = false := by
  simp only [isDigit, Bool.and_eq_false_iff, decide_eq_false_iff_not, UInt8.not_le]
  exact hb

theorem isTyped_of_range {b : Byte} (hlow : 0x20 ≤ b) (hhigh : b ≤ 0x7E) : isTyped b = true := by
  have h127 : b ≠ 127 := by
    rintro rfl
    exact absurd hhigh (by decide)
  have hE0 : b ≠ 0xE0 := by
    rintro rfl
    exact absurd hhigh (by decide)
  simp [isTyped, hlow, h127, hE0]

/-- Any byte behind the first of a sequence's parameters could be typed. -/
theorem Csi.typed (s : Csi) : ∀ b ∈ s.params ++ (s.inter ++ [s.final]), isTyped b = true := by
  intro b hb
  simp only [List.mem_append, List.mem_singleton] at hb
  rcases hb with hp | hi | rfl
  · obtain ⟨hlow, hhigh⟩ := s.params_range b hp
    exact isTyped_of_range (UInt8.le_trans (by decide) hlow) (UInt8.le_trans hhigh (by decide))
  · obtain ⟨hlow, hhigh⟩ := s.inter_range b hi
    exact isTyped_of_range hlow (UInt8.le_trans hhigh (by decide))
  · exact isTyped_of_range (UInt8.le_trans (by decide) s.final_range.1) s.final_range.2

/-- In a sequence that is not plain there is, before the final byte, a first byte that is no
digit. -/
theorem Csi.exists_dropped (s : Csi) (hs : ¬ s.Plain) :
    ∃ ds c rest, s.params ++ (s.inter ++ [s.final]) = ds ++ c :: rest ∧ (∀ d ∈ ds, isDigit d = true) ∧
      isDigit c = false ∧ c ≤ 0x3F ∧ rest ≠ [] := by
  by_cases hdigits : ∀ b ∈ s.params, isDigit b = true
  · cases hinter : s.inter with
    | nil => exact absurd ⟨hdigits, hinter⟩ hs
    | cons c inter =>
      have hrange := s.inter_range c (by simp [hinter])
      refine ⟨s.params, c, inter ++ [s.final], rfl, hdigits, isDigit_eq_false (.inl ?_), ?_, by simp⟩
      · exact UInt8.lt_of_le_of_lt hrange.2 (by decide)
      · exact UInt8.le_trans hrange.2 (by decide)
  · simp only [not_forall] at hdigits
    obtain ⟨b, hb, hnot⟩ := hdigits
    have hsome : (s.params.find? fun b => !isDigit b).isSome = true :=
      List.find?_isSome.mpr ⟨b, hb, by simpa using hnot⟩
    obtain ⟨c, hfind⟩ := Option.isSome_iff_exists.mp hsome
    obtain ⟨hc, ds, params, hsplit, hds⟩ := List.find?_eq_some_iff_append.mp hfind
    refine ⟨ds, c, params ++ (s.inter ++ [s.final]), by simp [hsplit], fun d hd => ?_, by simpa using hc,
      (s.params_range c (by simp [hsplit])).2, by simp⟩
    simpa using hds d hd

section Reachable

variable {completion : Option CompletionCallback} {h : History} {entries : List CStr} {n : ℕ} {l : Editor}

/-- A sequence that is cut off types what is behind the cut, as far as there is room. -/
theorem swallowed_cut_iff (hl : l.Sound h n) (hready : l.escState = .normal) {ds rest : List Byte} {c : Byte}
    (hds : ∀ d ∈ ds, isDigit d = true) (hc : isDigit c = false) (hlow : c ≤ 0x3F)
    (htyped : ∀ b ∈ rest, isTyped b = true) (hne : rest ≠ []) :
    Swallowed completion h l (27 :: 91 :: (ds ++ c :: rest)) ↔ l.len + 1 = l.buf.length := by
  obtain ⟨z, hline⟩ := hl.line
  have hquiet : ∃ l', Quiet completion h l (27 :: 91 :: (ds ++ c :: rest)) l' (z.run (rest.map .insert)) :=
    quiet_dropped hline hready hds hc hlow htyped
  obtain ⟨l', hfeeds, hline', hready', hhistory⟩ := hquiet
  obtain ⟨hbefore, hafter⟩ := z.run_insert rest
  have hrest : 0 < rest.length := List.length_pos_iff.mpr hne
  have htext : l'.text = z.before ++ rest.take z.room ++ z.after := by
    rw [hline'.text_eq, Zipper.text, hbefore, hafter]
  have hlen : l'.text.length = z.text.length + min z.room rest.length := by
    rw [htext, Zipper.text]
    simp only [List.length_append, List.length_take]
    omega
  have hfull : l.len + 1 = l.buf.length ↔ z.room = 0 := by
    have hle := z.length_text_le
    rw [hline.buflen, hline.shows.len, ← List.length_append, ← Zipper.text, Zipper.room]
    omega
  rw [hfull]
  constructor
  · intro hswallowed
    obtain ⟨l₁, hfeeds₁, -, hkept⟩ := hswallowed
    rw [hfeeds] at hfeeds₁
    cases hfeeds₁
    -- the text grew by what there was room for, which no key that types nothing does
    rcases hkept with hsame | hdelete | ⟨hmoved, -⟩
    · rw [hsame, hline.text_eq] at hlen
      omega
    · rw [hdelete, hline.shows.parts, Zipper.text] at hlen
      simp only [List.length_append, List.length_tail] at hlen
      omega
    · exact absurd hhistory hmoved
  · intro hroom
    refine ⟨l', hfeeds, hready', .inl ?_⟩
    rw [htext, hroom, List.take_zero, List.append_nil, hline.text_eq, Zipper.text]

/-- **A control sequence is swallowed exactly when it is plain or the line is full.** -/
theorem swallowed_iff (hl : l.Sound h n) (hh : h.Holds entries) (hready : l.escState = .normal) (seq : Csi) :
    Swallowed completion h l seq.bytes ↔ seq.Plain ∨ l.len + 1 = l.buf.length := by
  by_cases hplain : seq.Plain
  · refine iff_of_true ?_ (.inl hplain)
    obtain ⟨hdigits, hinter⟩ := hplain
    have hfinal : isDigit seq.final = false :=
      isDigit_eq_false (.inr (UInt8.lt_of_lt_of_le (by decide) seq.final_range.1))
    rw [Csi.bytes, hinter]
    exact swallowed_digits hl hh hready hdigits hfinal
  · obtain ⟨ds, c, rest, hbytes, hds, hc, hlow, hne⟩ := seq.exists_dropped hplain
    have htyped : ∀ b ∈ rest, isTyped b = true := fun b hb => seq.typed b (by simp [hbytes, hb])
    rw [Csi.bytes, hbytes, swallowed_cut_iff hl hready hds hc hlow htyped hne]
    exact (or_iff_right hplain).symm

end Reachable

/-- **Nothing of a control sequence is typed, in any state of a session, exactly when only digits
come before its final byte, or the line is full.** -/
theorem csi_swallowed {completion : Option CompletionCallback} {h : History} {entries : List CStr}
    {buf prompt out : List Byte} {ops : List Op} {l : Editor} {s : Session} (hh : h.Holds entries)
    (hbuf : 1 ≤ buf.length) (hstart : linenoiseEditStart h buf prompt = some (l, out))
    (hrun : ops.foldlM (sessionStep completion) ⟨h, l⟩ = some s) (hready : s.editor.escState = .normal) (seq : Csi) :
    Swallowed completion s.history s.editor seq.bytes ↔ seq.Plain ∨ s.editor.len + 1 = s.editor.buf.length := by
  have hs := Session.sound_of_run hh hbuf hstart hrun
  obtain ⟨entries', hh'⟩ := hs.history
  exact swallowed_iff hs.editor hh' hready seq

/-- The Up arrow, when the editor was just started. -/
theorem csi_swallowed_up :
    ∃ l out, linenoiseEditStart {} (List.replicate 8 7) [] = some (l, out) ∧ Swallowed none {} l [27, 91, 65] := by
  obtain ⟨l, out, hstart, -, hready⟩ := linenoiseEditStart_line {} (show 1 ≤ (List.replicate 8 7).length by decide) []
  have hrun : ([] : List Op).foldlM (sessionStep none) ⟨{}, l⟩ = some ⟨{}, l⟩ := rfl
  refine ⟨l, out, hstart, (csi_swallowed holds_init (by decide) hstart hrun hready
    ⟨[], [], 65, by simp, by simp, by decide⟩).mpr (.inl ⟨by simp, rfl⟩)⟩

/-- Ctrl+Right is `ESC [ 1 ; 5 C`, and types. -/
theorem csi_typed :
    ∃ l out, linenoiseEditStart {} (List.replicate 8 7) [] = some (l, out) ∧ l.escState = .normal ∧
      ¬ Swallowed none {} l [27, 91, 49, 59, 53, 67] := by
  obtain ⟨l, out, hstart, hline, hready⟩ := linenoiseEditStart_line {} (show 1 ≤ (List.replicate 8 7).length by decide) []
  obtain ⟨l₀, out₀, hstart₀, hsound, -⟩ :=
    linenoiseEditStart_sound {} (show 1 ≤ (List.replicate 8 7).length by decide) []
  rw [hstart] at hstart₀
  cases hstart₀
  refine ⟨l, out, hstart, hready, ?_⟩
  intro hswallowed
  have hseq := (swallowed_iff hsound holds_init hready
    ⟨[49, 59, 53], [], 67, by decide +kernel, by simp, by decide⟩).mp hswallowed
  cases hseq with
  | inl hplain => exact absurd (hplain.1 59 (by decide)) (by decide)
  | inr hfull =>
    rw [hline.shows.len, hline.buflen] at hfull
    exact absurd hfull (by decide)

end TcpClient
