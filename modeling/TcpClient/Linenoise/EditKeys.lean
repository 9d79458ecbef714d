import TcpClient.Linenoise.Safety
import TcpClient.Lib.Zipper

/-!
# The editing keys are a line with a cursor

The labels of `linenoiseEditFeed` edit an array in place; a `Zipper` is a line that is
two lists. `Editor.Line` relates the two, and every label does to the array what its
command does to the lists (`Editor.Line.label`).

A key reaches its label as one byte, or as an escape sequence in one of several forms
(`codes`). However it is typed, the editor goes where the command goes
(`Editor.Line.press`), and so does a session of such keys (`edit_keys`).
-/

namespace TcpClient

open CString

/-! ### Several keys -/

/-- `linenoiseEditFeed` for one key after another: what the calls return, and the editor in the
end. -/
def linenoiseEditFeeds (completion : Option CompletionCallback) (h : History) :
    Editor → List Key → Option (List ℤ × Editor)
  | l, [] => some ([], l)
  | l, key :: keys => do
    let fed ← linenoiseEditFeed completion h l key
    let (rcs, l') ← linenoiseEditFeeds completion h fed.editor keys
    return (fed.rc :: rcs, l')

section Feeds

variable {completion : Option CompletionCallback} {h : History} {l l' : Editor} {key : Key} {keys keys' : List Key}
  {rc : ℤ} {rcs : List ℤ} {out : List Byte}

theorem feeds_cons (hkey : linenoiseEditFeed completion h l key = some ⟨rc, l', out⟩) :
    linenoiseEditFeeds completion h l (key :: keys) =
      (linenoiseEditFeeds completion h l' keys).map fun r => (rc :: r.1, r.2) := by
  rw [linenoiseEditFeeds, hkey]
  simp only [Option.bind_eq_bind, Option.bind_some]
  cases linenoiseEditFeeds completion h l' keys <;> rfl

theorem feeds_single (hkey : linenoiseEditFeed completion h l key = some ⟨rc, l', out⟩) :
    linenoiseEditFeeds completion h l [key] = some ([rc], l') := feeds_cons hkey

/-- Where every call returns `0`, so does the first. -/
theorem feeds_zeros_cons {n : ℕ}
    (h₀ : linenoiseEditFeeds completion h l (key :: keys) = some (List.replicate (n + 1) 0, l')) :
    ∃ fed, linenoiseEditFeed completion h l key = some fed ∧ fed.rc = 0 ∧
      linenoiseEditFeeds completion h fed.editor keys = some (List.replicate n 0, l') := by
  rw [linenoiseEditFeeds] at h₀
  obtain ⟨fed, hfed, h₀⟩ := Option.bind_eq_some_iff.mp h₀
  obtain ⟨⟨rcs, l''⟩, hrest, h₀⟩ := Option.bind_eq_some_iff.mp h₀
  have hpair : fed.rc :: rcs = 0 :: List.replicate n 0 ∧ l'' = l' := by
    have hsome : some (fed.rc :: rcs, l'') = some (List.replicate (n + 1) 0, l') := h₀
    rw [List.replicate_succ] at hsome
    simpa using hsome
  obtain ⟨hrcs, rfl⟩ := hpair
  obtain ⟨hrc, rfl⟩ := List.cons.inj hrcs
  exact ⟨fed, hfed, hrc, hrest⟩

theorem feeds_append (hkeys : linenoiseEditFeeds completion h l keys = some (rcs, l')) :
    linenoiseEditFeeds completion h l (keys ++ keys') =
      (linenoiseEditFeeds completion h l' keys').map fun r => (rcs ++ r.1, r.2) := by
  induction keys generalizing l rcs with
  | nil =>
    cases hkeys
    simp
  | cons key keys ih =>
    rw [linenoiseEditFeeds] at hkeys
    cases hfed : linenoiseEditFeed completion h l key with
    | none => simp [hfed] at hkeys
    | some fed =>
      cases hrest : linenoiseEditFeeds completion h fed.editor keys with
      | none => simp [hfed, hrest] at hkeys
      | some r =>
        obtain ⟨rcs', l''⟩ := r
        simp only [hfed, hrest, Option.bind_eq_bind, Option.bind_some, Option.pure_def, Option.some.injEq,
          Prod.mk.injEq] at hkeys
        obtain ⟨rfl, rfl⟩ := hkeys
        rw [List.cons_append, feeds_cons hfed, ih hrest, Option.map_map]
        rfl

end Feeds

/-! ### The labels -/

/-- The array of the editor holds the line `z`, with the cursor in its place. -/
structure Editor.Line {cap : ℕ} (l : Editor) (z : Zipper Byte cap) : Prop where
  shows : l.Shows z.before z.after
  buflen : l.buf.length = cap + 1

/-- There is an array, if only for the terminator. -/
theorem Editor.Line.buf_ne {cap : ℕ} {l : Editor} {z : Zipper Byte cap} (hl : l.Line z) : l.buf.length ≠ 0 := by
  rw [hl.buflen]
  exact Nat.succ_ne_zero cap

/-- Where the source goes for a command. -/
def label : Zipper.Command Byte → Editor → Option Fed
  | .insert c => insertChar c
  | .backspace => feedBackspace
  | .delete => handleDelete
  | .left => handleLeft
  | .right => handleRight
  | .home => handleHome
  | .toEnd => handleEnd
  | .clear => feedCtrlU
  | .kill => feedCtrlK

section Labels

variable {cap : ℕ} {l l' : Editor} {z z' : Zipper Byte cap}

theorem Editor.Line.edits {r : Option Fed} {rc : ℤ} (hl : l.Line z) (he : Edits l r rc z'.before z'.after) :
    ∃ l' out, r = some ⟨rc, l', out⟩ ∧ l'.Line z' ∧ l.Frame l' := by
  obtain ⟨l', out, hr, hshows, hframe⟩ := he
  exact ⟨l', out, hr, ⟨hshows, hframe.buflen.trans hl.buflen⟩, hframe⟩

/-- The room in the array is the room in the line. -/
theorem Editor.Line.room (hl : l.Line z) : l.len + 1 < l.buf.length ↔ z.before.length + z.after.length < cap := by
  rw [hl.buflen, hl.shows.len]
  omega

/-- **A label does to the array what its command does to the line.** -/
theorem Editor.Line.label (hl : l.Line z) (cmd : Zipper.Command Byte) (hc : cmd ≠ .insert 0) :
    Edits l (label cmd l) 0 (z.exec cmd).before (z.exec cmd).after := by
  have hroom := hl.room
  obtain ⟨hshows, -⟩ := hl
  obtain ⟨before, after, hbounded⟩ := z
  cases cmd with
  | insert c =>
    have hc' : c ≠ 0 := fun h0 => hc (by rw [h0])
    by_cases hfits : before.length + after.length < cap
    · rw [show (Zipper.mk before after hbounded).exec (.insert c) = ⟨before ++ [c], after, _⟩ from dif_pos hfits]
      exact hshows.insertChar hc' (hroom.mpr hfits)
    · rw [show (Zipper.mk before after hbounded).exec (.insert c) = ⟨before, after, hbounded⟩ from dif_neg hfits]
      exact hshows.insertChar_full (not_lt.mp fun hlt => hfits (hroom.mp hlt))
  | backspace =>
    cases before using List.reverseRecOn with
    | nil => exact hshows.feedBackspace_nil
    | append_singleton before c =>
      simp only [Zipper.exec, Zipper.backspace, List.dropLast_concat]
      exact hshows.feedBackspace
  | delete => exact hshows.handleDelete
  | left =>
    cases before using List.reverseRecOn with
    | nil => exact hshows.handleLeft_nil
    | append_singleton before c =>
      simp only [Zipper.exec, Zipper.left, List.dropLast_concat, List.getLast?_concat]
      exact hshows.handleLeft
  | right =>
    cases after with
    | nil =>
      simp only [Zipper.exec, Zipper.right, List.head?_nil, Option.toList_none, List.append_nil, List.tail_nil]
      exact hshows.handleRight_nil
    | cons c after => exact hshows.handleRight
  | home => exact hshows.handleHome
  | toEnd => exact hshows.handleEnd
  | clear => exact hshows.feedCtrlU
  | kill => exact hshows.feedCtrlK

/-- The text of the line. -/
def Editor.text (l : Editor) : List Byte := l.buf.take l.len

theorem Editor.Line.text_eq (hl : l.Line z) : l.text = z.text := hl.shows.text_eq

/-- A sound editor shows a line. -/
theorem Editor.Sound.line {h : History} {n : ℕ} (hl : l.Sound h n) : ∃ z : Zipper Byte (n - 1), l.Line z := by
  obtain ⟨before, after, hshows⟩ := hl.text
  have hlt := hshows.len_lt
  have hbuflen := hl.buflen
  exact ⟨⟨before, after, by rw [← hshows.len]; omega⟩, hshows, by omega⟩

/-- The place in an escape sequence is not part of the line. -/
theorem Editor.Line.escape (hl : l.Line z) (state : EscState) (num : ℤ) :
    ({ l with escState := state, csiNum := num } : Editor).Line z :=
  ⟨⟨hl.shows.holds, hl.shows.pos, hl.shows.len⟩, hl.buflen⟩

theorem buf_endCompletion (l : Editor) : (endCompletion l).buf = l.buf := by
  unfold endCompletion
  split_ifs <;> rfl

theorem escState_endCompletion (l : Editor) : (endCompletion l).escState = l.escState := by
  unfold endCompletion
  split_ifs <;> rfl

theorem Editor.Line.endCompletion (hl : l.Line z) : (endCompletion l).Line z :=
  ⟨hl.shows.endCompletion, by rw [buf_endCompletion, hl.buflen]⟩

end Labels

/-! ### How a key is typed -/

/-- A byte that is put into the line: printable, and not the first of a key of the Windows
console. -/
def isTyped (c : Byte) : Bool := 32 ≤ c && c != 127 && c != 0xE0

/-- The ways to type a command: as one byte, as `ESC [` or `ESC O` and a letter, and as `ESC [`, a
digit and `~`. -/
def codes : Zipper.Command Byte → List (List Byte)
  | .insert c => if isTyped c then [[c]] else []
  | .backspace => [[8], [127]]
  | .delete => [[27, 91, 51, 126], [4]]
  | .left => [[27, 91, 68], [27, 79, 68]]
  | .right => [[27, 91, 67], [27, 79, 67]]
  | .home => [[27, 91, 72], [27, 79, 72], [27, 91, 49, 126], [27, 91, 55, 126], [1]]
  | .toEnd => [[27, 91, 70], [27, 79, 70], [27, 91, 52, 126], [27, 91, 56, 126], [5]]
  | .clear => [[21]]
  | .kill => [[11]]

section Codes

variable {completion : Option CompletionCallback} {h : History} {l l' : Editor} {c : Byte} {rc : ℤ} {out : List Byte}

/-- A byte is read in the state the bytes before it have led to. -/
theorem feed_some (hbuf : l.buf.length ≠ 0) (c : Byte) :
    linenoiseEditFeed completion h l (some c) =
      match l.escState with
      | .esc => feedEsc c l
      | .csi => feedCsi h c l
      | .csiNum => feedCsiNum c l
      | .ss3 => feedLetter h c { l with escState := .normal }
      | .winExt => feedWinExt h c l
      | .normal => feedNormal completion c l := if_neg hbuf

/-- A byte that neither begins a longer key nor asks for completions. -/
theorem feed_byte (hbuf : l.buf.length ≠ 0) (hready : l.escState = .normal)
    (hc : c ≠ 27 ∧ c ≠ 0 ∧ c ≠ 0xE0 ∧ c ≠ 9) :
    linenoiseEditFeed completion h l (some c) = feedEditing c (endCompletion l) := by
  obtain ⟨h27, h0, hE0, h9⟩ := hc
  rw [feed_some hbuf, hready]
  simp only [feedNormal, if_neg h27, if_neg (not_or.mpr ⟨h0, hE0⟩), if_neg h9]

theorem feed_escape (hbuf : l.buf.length ≠ 0) (hready : l.escState = .normal) :
    linenoiseEditFeed completion h l (some 27) = some ⟨0, { endCompletion l with escState := .esc }, []⟩ := by
  rw [feed_some hbuf, hready]
  rfl

/-- The array is the same in every state of an escape sequence. -/
theorem escape_buflen (hbuf : l.buf.length ≠ 0) (state : EscState) (num : ℤ) :
    ({ endCompletion l with csiNum := num, escState := state } : Editor).buf.length ≠ 0 := by
  simp only [buf_endCompletion]
  exact hbuf

/-- `ESC [`. -/
theorem feeds_csi (hbuf : l.buf.length ≠ 0) (hready : l.escState = .normal) :
    linenoiseEditFeeds completion h l [some 27, some 91] =
      some ([0, 0], { endCompletion l with escState := .csi }) := by
  have hbracket : linenoiseEditFeed completion h { endCompletion l with escState := .esc } (some 91) =
      some ⟨0, { endCompletion l with escState := .csi }, []⟩ :=
    feed_some (escape_buflen hbuf .esc (endCompletion l).csiNum) 91
  rw [feeds_cons (feed_escape hbuf hready), feeds_single hbracket]
  rfl

/-- `ESC [` and a letter. -/
theorem feeds_csi_letter (hbuf : l.buf.length ≠ 0) (hready : l.escState = .normal) (hc : isDigit c = false)
    (hfed : feedLetter h c { endCompletion l with escState := .normal } = some ⟨rc, l', out⟩) :
    linenoiseEditFeeds completion h l [some 27, some 91, some c] = some ([0, 0, rc], l') := by
  have hletter : linenoiseEditFeed completion h { endCompletion l with escState := .csi } (some c) =
      some ⟨rc, l', out⟩ := by
    rw [feed_some (escape_buflen hbuf .csi _)]
    simp only [feedCsi, hc, Bool.false_eq_true, if_false]
    exact hfed
  rw [show [some 27, some 91, some c] = [some 27, some 91] ++ [some c] from rfl, feeds_append (feeds_csi hbuf hready),
    feeds_single hletter]
  rfl

/-- `ESC O` and a letter. -/
theorem feeds_ss3_letter (hbuf : l.buf.length ≠ 0) (hready : l.escState = .normal)
    (hfed : feedLetter h c { endCompletion l with escState := .normal } = some ⟨rc, l', out⟩) :
    linenoiseEditFeeds completion h l [some 27, some 79, some c] = some ([0, 0, rc], l') := by
  have hletterO : linenoiseEditFeed completion h { endCompletion l with escState := .esc } (some 79) =
      some ⟨0, { endCompletion l with escState := .ss3 }, []⟩ :=
    feed_some (escape_buflen hbuf .esc (endCompletion l).csiNum) 79
  have hletter : linenoiseEditFeed completion h { endCompletion l with escState := .ss3 } (some c) =
      some ⟨rc, l', out⟩ := by
    rw [feed_some (escape_buflen hbuf .ss3 _)]
    exact hfed
  rw [feeds_cons (feed_escape hbuf hready), feeds_cons hletterO, feeds_single hletter]
  rfl

/-- `ESC [`, a digit and `~`. -/
theorem feeds_csi_tilde (hbuf : l.buf.length ≠ 0) (hready : l.escState = .normal) (hc : isDigit c = true)
    (hfed : feedCsiNum 126 { endCompletion l with csiNum := digit c, escState := .csiNum } = some ⟨rc, l', out⟩) :
    linenoiseEditFeeds completion h l [some 27, some 91, some c, some 126] = some ([0, 0, 0, rc], l') := by
  have hdigit : linenoiseEditFeed completion h { endCompletion l with escState := .csi } (some c) =
      some ⟨0, { endCompletion l with csiNum := digit c, escState := .csiNum }, []⟩ := by
    rw [feed_some (escape_buflen hbuf .csi _)]
    simp only [feedCsi, hc, if_true]
    rfl
  have htilde : linenoiseEditFeed completion h { endCompletion l with csiNum := digit c, escState := .csiNum } (some 126) =
      some ⟨rc, l', out⟩ := (feed_some (escape_buflen hbuf .csiNum (digit c)) 126).trans hfed
  rw [show [some 27, some 91, some c, some 126] = [some 27, some 91] ++ [some c, some 126] from rfl,
    feeds_append (feeds_csi hbuf hready), feeds_cons hdigit, feeds_single htilde]
  rfl

end Codes

/-! ### Editing -/

theorem ne_of_printable {c k : Byte} (hc : 32 ≤ c) (hk : k < 32) : c ≠ k := by
  rintro rfl
  exact UInt8.not_lt.mpr hc hk

/-- A printable byte goes into the line. -/
theorem feedEditing_typed {c : Byte} (hc : isTyped c = true) (l : Editor) : feedEditing c l = insertChar c l := by
  simp only [isTyped, Bool.and_eq_true, decide_eq_true_eq, bne_iff_ne] at hc
  obtain ⟨⟨hprint, h127⟩, -⟩ := hc
  have hne : ∀ k : Byte, k < 32 → c ≠ k := fun k hk => ne_of_printable hprint hk
  simp only [feedEditing, hne 13 (by decide), hne 10 (by decide), hne 8 (by decide), hne 3 (by decide),
    hne 4 (by decide), hne 21 (by decide), hne 11 (by decide), hne 1 (by decide), hne 5 (by decide),
    hne 12 (by decide), h127, hprint, or_self, if_false, ne_eq, not_false_iff, and_self, if_true]

section Press

variable {completion : Option CompletionCallback} {h : History} {cap : ℕ} {l : Editor} {z : Zipper Byte cap}

/-- A printable byte is fed to its label. -/
theorem feed_typed (hl : l.Line z) (hready : l.escState = .normal) {c : Byte} (hc : isTyped c = true) :
    linenoiseEditFeed completion h l (some c) = insertChar c (endCompletion l) := by
  have hbuf := hl.buf_ne
  rw [← feedEditing_typed hc]
  simp only [isTyped, Bool.and_eq_true, decide_eq_true_eq, bne_iff_ne] at hc
  obtain ⟨⟨hprint, -⟩, hE0⟩ := hc
  exact feed_byte hbuf hready
    ⟨ne_of_printable hprint (by decide), ne_of_printable hprint (by decide), hE0, ne_of_printable hprint (by decide)⟩

/-- Feeding `bs` to `l` leads to the line `z`, and the editor is ready for the next key. -/
def Leads (completion : Option CompletionCallback) (h : History) (l : Editor) (bs : List Byte) (z : Zipper Byte cap) :
    Prop :=
  ∃ rcs l', linenoiseEditFeeds completion h l (bs.map some) = some (rcs, l') ∧ l'.Line z ∧ l'.escState = .normal

/-- The label of a command is run in the normal state, with whatever number was read on the way. -/
theorem Editor.Line.run_label (hl : l.Line z) {cmd : Zipper.Command Byte} (hcmd : cmd ≠ .insert 0) (num : ℤ) :
    ∃ l' out,
      TcpClient.label cmd { TcpClient.endCompletion l with csiNum := num, escState := .normal } = some ⟨0, l', out⟩ ∧
        l'.Line (z.exec cmd) ∧ l'.escState = .normal := by
  have hline := hl.endCompletion.escape .normal num
  obtain ⟨l', out, hfed, hline', hframe⟩ := hline.edits (hline.label cmd hcmd)
  exact ⟨l', out, hfed, hline', hframe.escState⟩

section Forms

variable {cmd : Zipper.Command Byte} {c : Byte}

/-- A command that is one byte. -/
theorem Editor.Line.press_byte (hl : l.Line z) (hready : l.escState = .normal) (hcmd : cmd ≠ .insert 0)
    (hfeed : linenoiseEditFeed completion h l (some c) = TcpClient.label cmd (TcpClient.endCompletion l)) :
    Leads completion h l [c] (z.exec cmd) := by
  have hplain : ({ TcpClient.endCompletion l with escState := .normal } : Editor) = TcpClient.endCompletion l := by
    rw [← (escState_endCompletion l).trans hready]
  obtain ⟨l', out, hfed, hline, hready'⟩ := hl.run_label hcmd (TcpClient.endCompletion l).csiNum
  rw [hplain] at hfed
  exact ⟨_, l', feeds_single (hfeed.trans hfed), hline, hready'⟩

/-- A command that is a control character. -/
theorem Editor.Line.press_control (hl : l.Line z) (hready : l.escState = .normal) (hcmd : cmd ≠ .insert 0)
    (hc : c ≠ 27 ∧ c ≠ 0 ∧ c ≠ 0xE0 ∧ c ≠ 9) (hkey : feedEditing c = TcpClient.label cmd) :
    Leads completion h l [c] (z.exec cmd) := by
  have hbuf := hl.buf_ne
  exact hl.press_byte hready hcmd ((feed_byte hbuf hready hc).trans (congrFun hkey _))

/-- A command that is a letter after `ESC [`, or after `ESC O`. -/
theorem Editor.Line.press_letter (hl : l.Line z) (hready : l.escState = .normal) (cmd : Zipper.Command Byte)
    (hcmd : cmd ≠ .insert 0) (hc : isDigit c = false) (hletter : feedLetter h c = TcpClient.label cmd) :
    Leads completion h l [27, 91, c] (z.exec cmd) ∧ Leads completion h l [27, 79, c] (z.exec cmd) := by
  have hbuf := hl.buf_ne
  obtain ⟨l', out, hfed, hline, hready'⟩ := hl.run_label hcmd (TcpClient.endCompletion l).csiNum
  rw [← hletter] at hfed
  exact ⟨⟨_, l', feeds_csi_letter hbuf hready hc hfed, hline, hready'⟩,
    ⟨_, l', feeds_ss3_letter hbuf hready hfed, hline, hready'⟩⟩

/-- A command that is a digit and `~` after `ESC [`. -/
theorem Editor.Line.press_tilde (hl : l.Line z) (hready : l.escState = .normal) (hcmd : cmd ≠ .insert 0)
    (hc : isDigit c = true)
    (htilde : ∀ l : Editor, l.csiNum = digit c → feedCsiNum 126 l = TcpClient.label cmd { l with escState := .normal }) :
    Leads completion h l [27, 91, c, 126] (z.exec cmd) := by
  have hbuf := hl.buf_ne
  obtain ⟨l', out, hfed, hline, hready'⟩ := hl.run_label hcmd (digit c)
  exact ⟨_, l', feeds_csi_tilde hbuf hready hc ((htilde _ rfl).trans hfed), hline, hready'⟩

end Forms

/-- Ctrl+D deletes; on an empty line it ends the session, and leaves the line as it is. -/
theorem Editor.Line.press_ctrlD (hl : l.Line z) (hready : l.escState = .normal) :
    Leads completion h l [4] (z.exec .delete) := by
  have hbuf := hl.buf_ne
  have hfeed : linenoiseEditFeed completion h l (some 4) = feedEditing 4 (TcpClient.endCompletion l) :=
    feed_byte hbuf hready (by decide)
  by_cases hempty : (TcpClient.endCompletion l).len = 0
  · have hstop : linenoiseEditFeed completion h l (some 4) = some ⟨-1, TcpClient.endCompletion l, []⟩ :=
      hfeed.trans (if_pos hempty)
    have hafter : z.after = [] := by
      have hlen := hl.endCompletion.shows.len
      exact List.length_eq_zero_iff.mp (by omega)
    have hdelete : z.exec .delete = z := Zipper.ext rfl (by simp [Zipper.exec, Zipper.delete, hafter])
    rw [hdelete]
    exact ⟨_, _, feeds_single hstop, hl.endCompletion, (escState_endCompletion l).trans hready⟩
  · exact hl.press_byte hready (by simp) (hfeed.trans (if_neg hempty))

/-- What `~` stands for after a number. -/
theorem feedCsiNum_tilde {l : Editor} {n : ℤ} (hn : l.csiNum = n) :
    feedCsiNum 126 l =
      if n = 3 then handleDelete { l with escState := .normal }
      else if n = 1 ∨ n = 7 then handleHome { l with escState := .normal }
      else if n = 4 ∨ n = 8 then handleEnd { l with escState := .normal }
      else ignored { l with escState := .normal } := by
  subst hn
  rfl

/-- **A key, however it is typed, does to the array what its command does to the line.** -/
theorem Editor.Line.press (hl : l.Line z) (hready : l.escState = .normal) {cmd : Zipper.Command Byte} {bs : List Byte}
    (hbs : bs ∈ codes cmd) : Leads completion h l bs (z.exec cmd) := by
  cases cmd with
  | insert c =>
    rw [codes] at hbs
    split_ifs at hbs with htyped
    · rw [List.mem_singleton] at hbs
      subst hbs
      refine hl.press_byte hready ?_ (feed_typed hl hready htyped)
      intro h0
      cases h0
      cases htyped
    · cases hbs
  | backspace =>
    simp only [codes, List.mem_cons, List.not_mem_nil, or_false] at hbs
    rcases hbs with rfl | rfl
    · exact hl.press_control hready (by simp) (by decide) rfl
    · exact hl.press_control hready (by simp) (by decide) rfl
  | delete =>
    simp only [codes, List.mem_cons, List.not_mem_nil, or_false] at hbs
    rcases hbs with rfl | rfl
    · exact hl.press_tilde hready (by simp) rfl fun l hn => feedCsiNum_tilde hn
    · exact hl.press_ctrlD hready
  | left =>
    simp only [codes, List.mem_cons, List.not_mem_nil, or_false] at hbs
    obtain ⟨hcsi, hss3⟩ := hl.press_letter hready .left (by simp) (c := 68) rfl rfl
    rcases hbs with rfl | rfl
    · exact hcsi
    · exact hss3
  | right =>
    simp only [codes, List.mem_cons, List.not_mem_nil, or_false] at hbs
    obtain ⟨hcsi, hss3⟩ := hl.press_letter hready .right (by simp) (c := 67) rfl rfl
    rcases hbs with rfl | rfl
    · exact hcsi
    · exact hss3
  | home =>
    simp only [codes, List.mem_cons, List.not_mem_nil, or_false] at hbs
    obtain ⟨hcsi, hss3⟩ := hl.press_letter hready .home (by simp) (c := 72) rfl rfl
    rcases hbs with rfl | rfl | rfl | rfl | rfl
    · exact hcsi
    · exact hss3
    · exact hl.press_tilde hready (by simp) rfl fun l hn => feedCsiNum_tilde hn
    · exact hl.press_tilde hready (by simp) rfl fun l hn => feedCsiNum_tilde hn
    · exact hl.press_control hready (by simp) (by decide) rfl
  | toEnd =>
    simp only [codes, List.mem_cons, List.not_mem_nil, or_false] at hbs
    obtain ⟨hcsi, hss3⟩ := hl.press_letter hready .toEnd (by simp) (c := 70) rfl rfl
    rcases hbs with rfl | rfl | rfl | rfl | rfl
    · exact hcsi
    · exact hss3
    · exact hl.press_tilde hready (by simp) rfl fun l hn => feedCsiNum_tilde hn
    · exact hl.press_tilde hready (by simp) rfl fun l hn => feedCsiNum_tilde hn
    · exact hl.press_control hready (by simp) (by decide) rfl
  | clear =>
    rw [List.mem_singleton.mp hbs]
    exact hl.press_control hready (by simp) (by decide) rfl
  | kill =>
    rw [List.mem_singleton.mp hbs]
    exact hl.press_control hready (by simp) (by decide) rfl

/-- Keys one after another. -/
theorem Editor.Line.presses {cmds : List (Zipper.Command Byte × List Byte)} (hl : l.Line z)
    (hready : l.escState = .normal) (hcmds : ∀ cmd ∈ cmds, cmd.2 ∈ codes cmd.1) :
    Leads completion h l (cmds.flatMap (·.2)) (z.run (cmds.map (·.1))) := by
  induction cmds generalizing l z with
  | nil => exact ⟨[], l, rfl, hl, hready⟩
  | cons cmd cmds ih =>
    have hfirst : Leads completion h l cmd.2 (z.exec cmd.1) := hl.press hready (hcmds cmd List.mem_cons_self)
    obtain ⟨rcs, l', hfeeds, hline, hready'⟩ := hfirst
    obtain ⟨rcs', l'', hfeeds', hline', hready''⟩ := ih hline hready' fun cmd' h' => hcmds cmd' (List.mem_cons_of_mem _ h')
    refine ⟨rcs ++ rcs', l'', ?_, hline', hready''⟩
    rw [List.flatMap_cons, List.map_append, feeds_append hfeeds, hfeeds']
    rfl

end Press

/-- The line left and right of the cursor: `buf[0 .. pos)` and `buf[pos .. len)`. -/
def Editor.parts (l : Editor) : List Byte × List Byte := (l.buf.take l.pos, (l.buf.drop l.pos).take (l.len - l.pos))

theorem Editor.Shows.parts {l : Editor} {before after : List Byte} (h : l.Shows before after) :
    l.parts = (before, after) := by
  obtain ⟨⟨junk, hlayout⟩, -⟩ := h.holds
  rw [Editor.parts, h.len, h.pos, hlayout, Nat.add_sub_cancel_left, List.append_assoc, List.take_left, List.drop_left,
    List.take_left]

/-- Starting leaves everything but the array and the place in the history at its first value. -/
theorem linenoiseEditStart_eq {h : History} {buf prompt : List Byte} {l : Editor} {out : List Byte}
    (hstart : linenoiseEditStart h buf prompt = some (l, out)) :
    ∃ buf', l = { buf := buf', prompt := prompt, historyIndex := h.len } := by
  unfold linenoiseEditStart at hstart
  cases hstore : store buf 0 0 with
  | none => simp [hstore] at hstart
  | some buf' =>
    refine ⟨buf', ?_⟩
    cases hout : linenoiseEditRedraw { buf := buf', prompt := prompt, historyIndex := h.len } with
    | none => simp [hstore, hout] at hstart
    | some out' =>
      simp only [hstore, hout, Option.bind_eq_bind, Option.bind_some, Option.pure_def, Option.some.injEq,
        Prod.mk.injEq] at hstart
      exact hstart.1.symm

/-- A started editor shows the empty line. -/
theorem linenoiseEditStart_line (h : History) {buf : List Byte} (hbuf : 1 ≤ buf.length) (prompt : List Byte) :
    ∃ l out, linenoiseEditStart h buf prompt = some (l, out) ∧
      l.Line (Zipper.empty : Zipper Byte (buf.length - 1)) ∧ l.escState = .normal := by
  obtain ⟨l, out, hstart, hsound, hshows⟩ := linenoiseEditStart_sound h hbuf prompt
  refine ⟨l, out, hstart, ⟨hshows, by rw [hsound.buflen]; omega⟩, ?_⟩
  obtain ⟨buf', rfl⟩ := linenoiseEditStart_eq hstart
  rfl

/-- **The editing keys implement a bounded line with a cursor.** After `linenoiseEditStart` with a
buffer of any size, and after any sequence of editing keys, each typed in any of its forms,
the editor shows the line that the commands make of an empty one. -/
theorem edit_keys (completion : Option CompletionCallback) (h : History) (buf prompt : List Byte)
    (cmds : List (Zipper.Command Byte × List Byte)) (hbuf : 1 ≤ buf.length)
    (hcmds : ∀ cmd ∈ cmds, cmd.2 ∈ codes cmd.1) :
    ∃ l out rcs l', linenoiseEditStart h buf prompt = some (l, out) ∧
      linenoiseEditFeeds completion h l ((cmds.flatMap (·.2)).map some) = some (rcs, l') ∧
      let z : Zipper Byte (buf.length - 1) := Zipper.empty.run (cmds.map (·.1))
      l'.parts = (z.before, z.after) := by
  obtain ⟨l, out, hstart, hline, hready⟩ := linenoiseEditStart_line h hbuf prompt
  have hpresses : Leads completion h l (cmds.flatMap (·.2)) (Zipper.empty.run (cmds.map (·.1))) :=
    hline.presses hready hcmds
  obtain ⟨rcs, l', hfeeds, hline', -⟩ := hpresses
  exact ⟨l, out, rcs, l', hstart, hfeeds, hline'.shows.parts⟩

/-- `ab`, the cursor left of the `b`, and Delete: the line is `a`. -/
theorem edit_keys_delete :
    ∃ l out rcs l', linenoiseEditStart {} [7, 7, 7] [] = some (l, out) ∧
      linenoiseEditFeeds none {} l ([97, 98, 27, 79, 68, 27, 91, 51, 126].map some) = some (rcs, l') ∧
      l'.parts = ([97], []) :=
  edit_keys none {} [7, 7, 7] [] [(.insert 97, [97]), (.insert 98, [98]), (.left, [27, 79, 68]), (.delete, [27, 91, 51, 126])]
    (by decide) (by decide)

end TcpClient
