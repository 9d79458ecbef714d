import TcpClient.Linenoise.Keys
import TcpClient.Lib.Machine

/-!
# The line editor is memory safe

A session of the editor: keys in any order, and lines submitted, each of which goes into
the history before the editor is started again.

## What is proved

* `editor_safe` — from `linenoiseEditStart` with any buffer and any history, every
  sequence of keys and submissions is defined: no access is outside an array and no
  division is by zero. In every state reached the line is terminated at `len`, the
  cursor is in it, and the places in the history and in the completions exist.

The invariant is `Editor.Sound`. That a key keeps it is proved key by key from what the
keys do to the line (`TcpClient.Linenoise.Keys`).
-/

namespace TcpClient

open Machine CString

/-! ### The invariant -/

/-- The array has `n` bytes, the line is a text with a cursor in it, and the places in the history
and in the completions exist. -/
structure Editor.Sound (h : History) (n : ℕ) (l : Editor) : Prop where
  buflen : l.buf.length = n
  text : ∃ before after, l.Shows before after
  history : l.historyIndex ≤ h.len
  active : l.inCompletion = true ↔ l.cachedCompletions ≠ []
  index : l.inCompletion = true → l.completionIdx < l.cachedCompletions.length

/-- The call is defined, and leaves a sound editor. -/
def Safe (h : History) (n : ℕ) (r : Option Fed) : Prop := ∃ fed, r = some fed ∧ fed.editor.Sound h n

section Sound

variable {completion : Option CompletionCallback} {h : History} {n : ℕ} {entries : List CStr} {l l' : Editor} {c : Byte}
  {r : Option Fed} {rc : ℤ} {before after : List Byte}

/-- An edit leaves the places alone. -/
theorem Editor.Sound.edits (hl : l.Sound h n) (he : Edits l r rc before after) : Safe h n r := by
  obtain ⟨l', out, hr, hshows, hframe⟩ := he
  refine ⟨⟨rc, l', out⟩, hr, hframe.buflen.trans hl.buflen, ⟨before, after, hshows⟩, ?_, ?_, ?_⟩
  · rw [hframe.historyIndex]
    exact hl.history
  · rw [hframe.inCompletion, hframe.cachedCompletions]
    exact hl.active
  · rw [hframe.inCompletion, hframe.completionIdx, hframe.cachedCompletions]
    exact hl.index

theorem Editor.Sound.ignored (hl : l.Sound h n) : Safe h n (ignored l) := ⟨_, rfl, hl⟩

/-- A key is looked for. -/
theorem Safe.ite {p : Prop} [Decidable p] {r' : Option Fed} (hr : p → Safe h n r) (hr' : ¬ p → Safe h n r') :
    Safe h n (if p then r else r') := iteInduction (motive := Safe h n) hr hr'

/-- The place in an escape sequence is free. -/
theorem Editor.Sound.escape (hl : l.Sound h n) (state : EscState) (num : ℤ) :
    ({ l with escState := state, csiNum := num } : Editor).Sound h n := by
  obtain ⟨before, after, hshows⟩ := hl.text
  exact ⟨hl.buflen, ⟨before, after, hshows.holds, hshows.pos, hshows.len⟩, hl.history, hl.active, hl.index⟩

theorem Editor.Sound.endCompletion (hl : l.Sound h n) : (endCompletion l).Sound h n := by
  obtain ⟨before, after, hshows⟩ := hl.text
  cases hactive : l.inCompletion with
  | true =>
    rw [TcpClient.endCompletion, if_pos hactive]
    exact ⟨hl.buflen, ⟨before, after, hshows.holds, hshows.pos, hshows.len⟩, hl.history, by simp, by simp⟩
  | false =>
    rw [TcpClient.endCompletion, if_neg (by simp [hactive])]
    exact hl

/-! ### The labels -/

theorem Editor.Sound.handleUp (hl : l.Sound h n) (hh : h.Holds entries) : Safe h n (handleUp h l) := by
  obtain ⟨before, after, hshows⟩ := hl.text
  rcases hshows.handleUp hh hl.history with ⟨-, hedits⟩ | ⟨entry, hpos, -, hedits⟩
  · exact hl.edits hedits
  · refine Editor.Sound.edits ?_ hedits
    exact ⟨hl.buflen, ⟨before, after, hshows.holds, hshows.pos, hshows.len⟩, (Nat.sub_le _ _).trans hl.history,
      hl.active, hl.index⟩

theorem Editor.Sound.handleDown (hl : l.Sound h n) (hh : h.Holds entries) : Safe h n (handleDown h l) := by
  obtain ⟨before, after, hshows⟩ := hl.text
  rcases hshows.handleDown hh with ⟨-, hedits⟩ | ⟨line, hlt, -, hedits⟩
  · exact hl.edits hedits
  · refine Editor.Sound.edits ?_ hedits
    exact ⟨hl.buflen, ⟨before, after, hshows.holds, hshows.pos, hshows.len⟩, hlt, hl.active, hl.index⟩

theorem Editor.Sound.handleLeft (hl : l.Sound h n) : Safe h n (handleLeft l) := by
  obtain ⟨before, after, hshows⟩ := hl.text
  cases before using List.reverseRecOn with
  | nil => exact hl.edits hshows.handleLeft_nil
  | append_singleton before c => exact hl.edits hshows.handleLeft

theorem Editor.Sound.handleRight (hl : l.Sound h n) : Safe h n (handleRight l) := by
  obtain ⟨before, after, hshows⟩ := hl.text
  cases after with
  | nil => exact hl.edits hshows.handleRight_nil
  | cons c after => exact hl.edits hshows.handleRight

theorem Editor.Sound.handleHome (hl : l.Sound h n) : Safe h n (handleHome l) := by
  obtain ⟨before, after, hshows⟩ := hl.text
  exact hl.edits hshows.handleHome

theorem Editor.Sound.handleEnd (hl : l.Sound h n) : Safe h n (handleEnd l) := by
  obtain ⟨before, after, hshows⟩ := hl.text
  exact hl.edits hshows.handleEnd

theorem Editor.Sound.handleDelete (hl : l.Sound h n) : Safe h n (handleDelete l) := by
  obtain ⟨before, after, hshows⟩ := hl.text
  exact hl.edits hshows.handleDelete

/-! ### The keys -/

theorem Editor.Sound.feedTab (hl : l.Sound h n) : Safe h n (feedTab completion l) := by
  obtain ⟨before, after, hshows⟩ := hl.text
  have hsame : ∀ comps idx active, (active = true ↔ comps ≠ []) → (active = true → idx < comps.length) →
      ({ l with cachedCompletions := comps, completionIdx := idx, inCompletion := active } : Editor).Sound h n := by
    intro comps idx active hactive hidx
    exact ⟨hl.buflen, ⟨before, after, hshows.holds, hshows.pos, hshows.len⟩, hl.history, hactive, hidx⟩
  cases completion with
  | none => exact hl.ignored
  | some callback =>
    cases hactive : l.inCompletion with
    | true =>
      have hsome := hl.active.mp hactive
      obtain ⟨comp, -, hedits⟩ := hshows.feedTab_next callback hactive hsome
      refine Editor.Sound.edits (hsame l.cachedCompletions _ l.inCompletion hl.active fun _ => ?_) hedits
      exact Nat.mod_lt _ (List.length_pos_iff.mpr hsome)
    | false =>
      rcases hshows.feedTab_first callback hactive with ⟨-, hedits⟩ | ⟨comp, hcomp, hedits⟩
      · refine Editor.Sound.edits (hsame [] l.completionIdx l.inCompletion ?_ ?_) hedits <;> simp [hactive]
      · obtain ⟨hlt, -⟩ := List.getElem?_eq_some_iff.mp hcomp
        exact Editor.Sound.edits (hsame _ 0 true (by simp [← List.length_pos_iff, hlt]) fun _ => hlt) hedits

theorem Editor.Sound.feedBackspace (hl : l.Sound h n) : Safe h n (feedBackspace l) := by
  obtain ⟨before, after, hshows⟩ := hl.text
  cases before using List.reverseRecOn with
  | nil => exact hl.edits hshows.feedBackspace_nil
  | append_singleton before c => exact hl.edits hshows.feedBackspace

theorem Editor.Sound.insertChar (hl : l.Sound h n) (hc : c ≠ 0) : Safe h n (insertChar c l) := by
  obtain ⟨before, after, hshows⟩ := hl.text
  by_cases hroom : l.len + 1 < l.buf.length
  · exact hl.edits (hshows.insertChar hc hroom)
  · exact hl.edits (hshows.insertChar_full (not_lt.mp hroom))

theorem Editor.Sound.feedEditing (hl : l.Sound h n) : Safe h n (feedEditing c l) := by
  obtain ⟨before, after, hshows⟩ := hl.text
  unfold TcpClient.feedEditing
  apply Safe.ite (fun _ => hl.edits hshows.feedEnter)
  intro _
  apply Safe.ite (fun _ => hl.feedBackspace)
  intro _
  apply Safe.ite (fun _ => hl.edits hshows.feedCtrlC)
  intro _
  apply Safe.ite (fun _ => .ite (fun _ => ⟨_, rfl, hl⟩) fun _ => hl.handleDelete)
  intro _
  apply Safe.ite (fun _ => hl.edits hshows.feedCtrlU)
  intro _
  apply Safe.ite (fun _ => hl.edits hshows.feedCtrlK)
  intro _
  apply Safe.ite (fun _ => hl.handleHome)
  intro _
  apply Safe.ite (fun _ => hl.handleEnd)
  intro _
  apply Safe.ite (fun _ => hl.edits hshows.feedCtrlL)
  intro _
  refine Safe.ite (fun hchar => hl.insertChar ?_) fun _ => hl.ignored
  rintro rfl
  exact absurd hchar.1 (by decide)

theorem Editor.Sound.feedNormal (hl : l.Sound h n) : Safe h n (feedNormal completion c l) := by
  unfold TcpClient.feedNormal
  split_ifs
  · exact Editor.Sound.ignored (hl.endCompletion.escape .esc _)
  · exact Editor.Sound.ignored (hl.endCompletion.escape .winExt _)
  · exact hl.feedTab
  · exact hl.endCompletion.feedEditing

/-! ### Escape sequences -/

theorem Editor.Sound.feedLetter (hl : l.Sound h n) (hh : h.Holds entries) : Safe h n (feedLetter h c l) := by
  unfold TcpClient.feedLetter
  apply Safe.ite (fun _ => hl.handleUp hh)
  intro _
  apply Safe.ite (fun _ => hl.handleDown hh)
  intro _
  apply Safe.ite (fun _ => hl.handleRight)
  intro _
  apply Safe.ite (fun _ => hl.handleLeft)
  intro _
  apply Safe.ite (fun _ => hl.handleHome)
  intro _
  exact Safe.ite (fun _ => hl.handleEnd) fun _ => hl.ignored

theorem Editor.Sound.feedEsc (hl : l.Sound h n) : Safe h n (feedEsc c l) := by
  unfold TcpClient.feedEsc
  split_ifs
  · exact (hl.escape .csi _).ignored
  · exact (hl.escape .ss3 _).ignored
  · exact (hl.escape .normal _).ignored

theorem Editor.Sound.feedCsi (hl : l.Sound h n) (hh : h.Holds entries) : Safe h n (feedCsi h c l) := by
  unfold TcpClient.feedCsi
  split_ifs
  · exact (hl.escape .csiNum _).ignored
  · exact (hl.escape .normal _).feedLetter hh

theorem Editor.Sound.feedCsiNum (hl : l.Sound h n) : Safe h n (feedCsiNum c l) := by
  have hnormal := hl.escape .normal l.csiNum
  unfold TcpClient.feedCsiNum
  apply Safe.ite
  · intro _
    apply Safe.ite (fun _ => hnormal.handleDelete)
    intro _
    apply Safe.ite (fun _ => hnormal.handleHome)
    intro _
    exact Safe.ite (fun _ => hnormal.handleEnd) fun _ => hnormal.ignored
  · intro _
    exact Safe.ite (fun _ => (hl.escape l.escState _).ignored) fun _ => hnormal.ignored

theorem Editor.Sound.feedWinExt (hl : l.Sound h n) (hh : h.Holds entries) : Safe h n (feedWinExt h c l) := by
  have hnormal := hl.escape .normal l.csiNum
  unfold TcpClient.feedWinExt
  apply Safe.ite (fun _ => hnormal.handleUp hh)
  intro _
  apply Safe.ite (fun _ => hnormal.handleDown hh)
  intro _
  apply Safe.ite (fun _ => hnormal.handleLeft)
  intro _
  apply Safe.ite (fun _ => hnormal.handleRight)
  intro _
  apply Safe.ite (fun _ => hnormal.handleHome)
  intro _
  apply Safe.ite (fun _ => hnormal.handleEnd)
  intro _
  exact Safe.ite (fun _ => hnormal.handleDelete) fun _ => hnormal.ignored

/-- **Every key is defined, and keeps the invariant.** -/
theorem Editor.Sound.feed (completion : Option CompletionCallback) (hl : l.Sound h n) (hh : h.Holds entries)
    (key : Key) : Safe h n (linenoiseEditFeed completion h l key) := by
  unfold linenoiseEditFeed
  split_ifs with hnone
  · exact hl.ignored
  · cases key with
    | none => exact ⟨_, rfl, hl⟩
    | some c =>
      cases hstate : l.escState with
      | normal => exact hl.feedNormal
      | esc => exact hl.feedEsc
      | csi => exact hl.feedCsi hh
      | csiNum => exact hl.feedCsiNum
      | ss3 => exact (hl.escape .normal _).feedLetter hh
      | winExt => exact hl.feedWinExt hh

/-- **Starting.** -/
theorem linenoiseEditStart_sound (h : History) {buf : List Byte} (hbuf : 1 ≤ buf.length) (prompt : List Byte) :
    ∃ l out, linenoiseEditStart h buf prompt = some (l, out) ∧ l.Sound h buf.length ∧ l.Shows [] [] := by
  have hstore : store buf 0 0 = some (buf.set 0 0) := if_pos hbuf
  have hholds : Holds (buf.set 0 0) ([] ++ []) := by
    cases buf with
    | nil => simp at hbuf
    | cons b buf => exact ⟨⟨buf, rfl⟩, by simp⟩
  have hshows : ({ buf := buf.set 0 0, prompt := prompt, historyIndex := h.len } : Editor).Shows [] [] := ⟨hholds, rfl, rfl⟩
  obtain ⟨out, hout⟩ := hshows.redraw
  refine ⟨_, out, ?_, ⟨by simp, ⟨[], [], hshows⟩, le_rfl, by simp, by simp⟩, hshows⟩
  simp [linenoiseEditStart, hstore, hout]

end Sound

/-! ### Sessions -/

/-- A key is fed, or the line is submitted and the editor started again. -/
inductive Op where
  | feed (key : Key)
  | submit

/-- The history and the editor. -/
structure Session where
  history : History
  editor : Editor

/-- `linenoiseHistoryAdd(l->buf)` and `linenoiseEditStart(l, l->buf, l->buflen, prompt)`. -/
def submitLine (prompt : List Byte) (s : Session) : Option Session := do
  let line ← linenoiseStrdup s.editor.buf
  let (_, h) ← linenoiseHistoryAdd line s.history
  let (l, _) ← linenoiseEditStart h s.editor.buf prompt
  return ⟨h, l⟩

/-- One key or submission. -/
def sessionStep (completion : Option CompletionCallback) (s : Session) : Op → Option Session
  | .feed key => do
    let fed ← linenoiseEditFeed completion s.history s.editor key
    return { s with editor := fed.editor }
  | .submit => submitLine s.editor.prompt s

/-- The history holds some entries, and the editor is sound. -/
structure Session.Sound (n : ℕ) (s : Session) : Prop where
  history : ∃ entries, s.history.Holds entries
  editor : s.editor.Sound s.history n

section Session

variable {completion : Option CompletionCallback} {n : ℕ} {s : Session}

theorem Session.Sound.submitLine (hs : s.Sound n) (prompt : List Byte) :
    ∃ t, submitLine prompt s = some t ∧ t.Sound n := by
  obtain ⟨entries, hh⟩ := hs.history
  obtain ⟨before, after, hshows⟩ := hs.editor.text
  have hbuf : 1 ≤ s.editor.buf.length := Nat.one_le_of_lt hshows.len_lt
  obtain ⟨rc, h', hadd, -, hh'⟩ := linenoiseHistoryAdd_holds hh hshows.line
  obtain ⟨l', out, hstart, hl', -⟩ := linenoiseEditStart_sound h' hbuf prompt
  refine ⟨⟨h', l'⟩, ?_, ⟨_, hh'⟩, ?_⟩
  · simp [TcpClient.submitLine, hshows.strdup, hadd, hstart]
  · rw [← hs.editor.buflen]
    exact hl'

/-- **Every step of a session is defined, and keeps the invariant.** -/
theorem Session.Sound.step (hs : s.Sound n) (op : Op) : ∃ t, sessionStep completion s op = some t ∧ t.Sound n := by
  cases op with
  | feed key =>
    obtain ⟨entries, hh⟩ := hs.history
    obtain ⟨fed, hfed, hl⟩ := hs.editor.feed completion hh key
    exact ⟨{ s with editor := fed.editor }, by simp [sessionStep, hfed], ⟨entries, hh⟩, hl⟩
  | submit => exact hs.submitLine _

/-- **A session that was started is sound**, wherever keys and submissions have led it. -/
theorem Session.sound_of_run {h : History} {entries : List CStr} {buf prompt out : List Byte} {ops : List Op}
    {l : Editor} (hh : h.Holds entries) (hbuf : 1 ≤ buf.length)
    (hstart : linenoiseEditStart h buf prompt = some (l, out))
    (hrun : ops.foldlM (sessionStep completion) ⟨h, l⟩ = some s) : s.Sound buf.length := by
  obtain ⟨l₀, out₀, hstart₀, hsound₀, -⟩ := linenoiseEditStart_sound h hbuf prompt
  rw [hstart] at hstart₀
  cases hstart₀
  have hsound : Session.Sound buf.length ⟨h, l⟩ := ⟨⟨entries, hh⟩, hsound₀⟩
  obtain ⟨t, hrun', ht⟩ := foldlM_invariant (f := sessionStep completion) (fun s op hs => hs.step op) hsound ops
  rw [hrun] at hrun'
  cases hrun'
  exact ht

end Session

/-- **The line editor is memory safe.** From `linenoiseEditStart` with any buffer and any
history, every sequence of keys and submissions is defined. In every state reached the
next key is defined, the line is the string in the buffer, the cursor is in it, and the
places in the history and in the completions exist. -/
theorem editor_safe (completion : Option CompletionCallback) (h : History) (entries : List CStr)
    (buf prompt : List Byte) (ops : List Op) (hh : h.Holds entries) (hbuf : 1 ≤ buf.length) :
    ∃ l out s, linenoiseEditStart h buf prompt = some (l, out) ∧
      ops.foldlM (sessionStep completion) ⟨h, l⟩ = some s ∧
      (∀ key, ∃ fed, linenoiseEditFeed completion s.history s.editor key = some fed) ∧
      s.editor.buf.length = buf.length ∧ s.editor.pos ≤ s.editor.len ∧ s.editor.len ≤ buf.length - 1 ∧
      s.editor.buf[s.editor.len]? = some 0 ∧ (∀ i < s.editor.len, s.editor.buf[i]? ≠ some 0) ∧
      strlen s.editor.buf = some s.editor.len ∧
      s.editor.historyIndex ≤ s.history.len ∧
      (s.editor.inCompletion = true ↔ s.editor.cachedCompletions ≠ []) ∧
      (s.editor.inCompletion = true → s.editor.completionIdx < s.editor.cachedCompletions.length) := by
  obtain ⟨l, out, hstart, hl, -⟩ := linenoiseEditStart_sound h hbuf prompt
  have hsound : Session.Sound buf.length ⟨h, l⟩ := ⟨⟨entries, hh⟩, hl⟩
  obtain ⟨s, hrun, hs⟩ := foldlM_invariant (f := sessionStep completion) (fun s op hs => hs.step op) hsound ops
  obtain ⟨entries', hh'⟩ := hs.history
  obtain ⟨before, after, hshows⟩ := hs.editor.text
  have hlen : s.editor.len = (before ++ after).length := by rw [hshows.len, List.length_append]
  have hlt := hshows.len_lt
  have hbuflen := hs.editor.buflen
  refine ⟨l, out, s, hstart, hrun, fun key => ?_, hbuflen, hshows.pos_le, by omega, ?_, ?_, ?_, hs.editor.history,
    hs.editor.active, hs.editor.index⟩
  · obtain ⟨fed, hfed, -⟩ := hs.editor.feed completion hh' key
    exact ⟨fed, hfed⟩
  · rw [hlen]
    exact hshows.holds.getElem?_length
  · intro i hi
    rw [hlen] at hi
    rw [hshows.holds.getElem?_lt hi]
    intro hzero
    exact hshows.holds.nul_free (List.mem_of_getElem? hzero)
  · rw [hlen]
    exact hshows.holds.strlen_eq

/-- Two characters, the cursor left of the second, and Up into a history of one entry. -/
theorem editor_safe_up :
    ∃ l out s, linenoiseEditStart ⟨[some ⟨[99], by decide⟩], 1, 500⟩ [7, 7, 7] [] = some (l, out) ∧
      [Op.feed (some 97), .feed (some 98), .feed (some 27), .feed (some 91), .feed (some 65)].foldlM (sessionStep none)
        ⟨⟨[some ⟨[99], by decide⟩], 1, 500⟩, l⟩ = some s ∧ s.editor.pos ≤ s.editor.len := by
  have hh : (⟨[some ⟨[99], by decide⟩], 1, 500⟩ : History).Holds [⟨[99], by decide⟩] :=
    ⟨⟨[], rfl⟩, rfl, by decide, by decide⟩
  obtain ⟨l, out, s, hstart, hrun, -, -, hpos, -⟩ :=
    editor_safe none ⟨[some ⟨[99], by decide⟩], 1, 500⟩ [⟨[99], by decide⟩] [7, 7, 7] []
      [.feed (some 97), .feed (some 98), .feed (some 27), .feed (some 91), .feed (some 65)] hh (by decide)
  exact ⟨l, out, s, hstart, hrun, hpos⟩

end TcpClient
