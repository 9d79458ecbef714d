import TcpClient.Linenoise.EditKeys

/-!
# Going through the history

`history_index`, and `saved_line` beside it, are changed by Up and Down only; every
other key leaves them alone (`feed_moves`). A run of keys therefore keeps the draft: as
long as an entry of the history is shown, `saved_line` is the text of the line when the
history was entered (`Draft`).

`history_navigation` is what the user sees: every entry as it was entered, as far as
there is room, and at the end the draft again.
-/

namespace TcpClient

open Machine CString

/-- What a key does to the place in the history: `l` is before it, and `l'` after. -/
inductive Moves (h : History) (entries : List CStr) (l l' : Editor) : Prop where
  | stays (hindex : l'.historyIndex = l.historyIndex) (hsaved : l'.savedLine = l.savedLine)
  /-- The entry before is shown, and the line is saved when the history is entered. -/
  | up (entry : CStr) (hindex : l'.historyIndex + 1 = l.historyIndex)
      (hsaved : l'.savedLine.map (·.chars) =
        if l.historyIndex = h.len then some l.text else l.savedLine.map (·.chars))
      (hentry : entries[l'.historyIndex]? = some entry)
      (htext : l'.text = entry.chars.take (l.buf.length - 1)) (hpos : l'.pos = l'.len)
  /-- The entry after is shown, or the saved line behind the last. -/
  | down (line : CStr) (hlt : l.historyIndex < h.len) (hindex : l'.historyIndex = l.historyIndex + 1)
      (hsaved : l'.savedLine = l.savedLine) (hline : nextLine h l = some line)
      (htext : l'.text = line.chars.take (l.buf.length - 1)) (hpos : l'.pos = l'.len)

/-- What a call does to the place in the history, if it is defined. -/
def Navigates (h : History) (entries : List CStr) (l : Editor) (r : Option Fed) : Prop :=
  ∀ fed, r = some fed → Moves h entries l fed.editor

section Navigates

variable {completion : Option CompletionCallback} {h : History} {entries : List CStr} {n cap : ℕ} {l l₀ : Editor}
  {z : Zipper Byte cap} {c : Byte} {r r' : Option Fed} {rc : ℤ} {before after : List Byte}

/-- An edit of an editor with the same place in the history. -/
theorem Edits.navigates (he : Edits l₀ r rc before after) (hindex : l₀.historyIndex = l.historyIndex)
    (hsaved : l₀.savedLine = l.savedLine) : Navigates h entries l r := by
  intro fed hfed
  obtain ⟨l', out, hr, -, hframe⟩ := he
  rw [hfed] at hr
  cases hr
  exact .stays (hframe.historyIndex.trans hindex) (hframe.savedLine.trans hsaved)

theorem navigates_ignored (hindex : l₀.historyIndex = l.historyIndex) (hsaved : l₀.savedLine = l.savedLine) :
    Navigates h entries l (ignored l₀) := by
  intro fed hfed
  cases hfed
  exact .stays hindex hsaved

/-- A key is looked for. -/
theorem Navigates.ite {p : Prop} [Decidable p] (hr : p → Navigates h entries l r)
    (hr' : ¬ p → Navigates h entries l r') : Navigates h entries l (if p then r else r') :=
  iteInduction (motive := Navigates h entries l) hr hr'

theorem navigates_handleUp (hl : l.Sound h n) (hh : h.Holds entries) : Navigates h entries l (handleUp h l) := by
  obtain ⟨before, after, hshows⟩ := hl.text
  cases hshows.handleUp hh hl.history with
  | inl hstays => exact hstays.2.navigates rfl rfl
  | inr hmoves =>
    obtain ⟨entry, hpos, hentry, l', out, hr, hshows', hframe⟩ := hmoves
    intro fed hfed
    rw [hfed] at hr
    cases hr
    have hindex : l'.historyIndex = l.historyIndex - 1 := hframe.historyIndex
    have hsaved : l'.savedLine = if l.historyIndex = h.len then some hshows.line else l.savedLine :=
      hframe.savedLine
    refine .up entry ?_ ?_ (by rw [hindex]; exact hentry) ?_ ?_
    · change l'.historyIndex + 1 = l.historyIndex
      omega
    · rw [hsaved, Editor.text, hshows.text_eq]
      split_ifs <;> rfl
    · rw [Editor.text, hshows'.text_eq, List.append_nil]
    · rw [hshows'.pos, hshows'.len, List.length_nil, Nat.add_zero]

theorem navigates_handleDown (hl : l.Sound h n) (hh : h.Holds entries) : Navigates h entries l (handleDown h l) := by
  obtain ⟨before, after, hshows⟩ := hl.text
  cases hshows.handleDown hh with
  | inl hstays => exact hstays.2.navigates rfl rfl
  | inr hmoves =>
    obtain ⟨line, hlt, hline, l', out, hr, hshows', hframe⟩ := hmoves
    intro fed hfed
    rw [hfed] at hr
    cases hr
    refine .down line hlt hframe.historyIndex hframe.savedLine hline ?_ ?_
    · rw [Editor.text, hshows'.text_eq, List.append_nil]
    · rw [hshows'.pos, hshows'.len, List.length_nil, Nat.add_zero]

/-- A command of the line editor does not move in the history. -/
theorem Editor.Line.navigates (hl₀ : l₀.Line z) (cmd : Zipper.Command Byte) (hcmd : cmd ≠ .insert 0)
    (hindex : l₀.historyIndex = l.historyIndex) (hsaved : l₀.savedLine = l.savedLine) :
    Navigates h entries l (TcpClient.label cmd l₀) := (hl₀.label cmd hcmd).navigates hindex hsaved

/-- The text, and the place in the history, are the same. -/
structure Editor.SamePlace (l₀ l : Editor) : Prop where
  index : l₀.historyIndex = l.historyIndex
  saved : l₀.savedLine = l.savedLine
  text : l₀.text = l.text
  buflen : l₀.buf.length = l.buf.length

theorem Navigates.of_same (hsame : l₀.SamePlace l) (hn : Navigates h entries l₀ r) : Navigates h entries l r := by
  intro fed hfed
  cases hn fed hfed with
  | stays hindex hsaved => exact .stays (hindex.trans hsame.index) (hsaved.trans hsame.saved)
  | up entry hindex hsaved hentry htext hpos =>
    rw [hsame.index, hsame.saved, hsame.text] at hsaved
    exact .up entry (hindex.trans hsame.index) hsaved hentry (by rw [htext, hsame.buflen]) hpos
  | down line hlt hindex hsaved hline htext hpos =>
    have hnext : nextLine h l₀ = nextLine h l := by rw [nextLine, nextLine, hsame.index, hsame.saved]
    exact .down line (hsame.index ▸ hlt) (by rw [hindex, hsame.index]) (hsaved.trans hsame.saved)
      (hnext ▸ hline) (by rw [htext, hsame.buflen]) hpos

theorem samePlace_normal (l : Editor) : ({ l with escState := .normal } : Editor).SamePlace l := ⟨rfl, rfl, rfl, rfl⟩

theorem samePlace_endCompletion (l : Editor) : (endCompletion l).SamePlace l := by
  unfold endCompletion
  split_ifs
  · exact ⟨rfl, rfl, rfl, rfl⟩
  · exact ⟨rfl, rfl, rfl, rfl⟩

/-! ### The keys -/

/-- What the letters do. -/
theorem navigates_feedLetter (hl : l.Sound h n) (hh : h.Holds entries) (c : Byte) :
    Navigates h entries l (feedLetter h c l) := by
  obtain ⟨z, hline⟩ := hl.line
  unfold feedLetter
  apply Navigates.ite (fun _ => navigates_handleUp hl hh)
  intro _
  apply Navigates.ite (fun _ => navigates_handleDown hl hh)
  intro _
  apply Navigates.ite (fun _ => hline.navigates .right (by simp) rfl rfl)
  intro _
  apply Navigates.ite (fun _ => hline.navigates .left (by simp) rfl rfl)
  intro _
  apply Navigates.ite (fun _ => hline.navigates .home (by simp) rfl rfl)
  intro _
  exact Navigates.ite (fun _ => hline.navigates .toEnd (by simp) rfl rfl) fun _ => navigates_ignored rfl rfl

/-- What the keys of the Windows console do, in the normal state. -/
theorem navigates_feedWinExt (hl : l.Sound h n) (hh : h.Holds entries) (c : Byte) :
    Navigates h entries l (feedWinExt h c l) := by
  have hnormal := hl.escape .normal l.csiNum
  obtain ⟨z, hline⟩ := hnormal.line
  simp only [feedWinExt]
  refine Navigates.of_same (samePlace_normal l) ?_
  apply Navigates.ite (fun _ => navigates_handleUp hnormal hh)
  intro _
  apply Navigates.ite (fun _ => navigates_handleDown hnormal hh)
  intro _
  apply Navigates.ite (fun _ => hline.navigates .left (by simp) rfl rfl)
  intro _
  apply Navigates.ite (fun _ => hline.navigates .right (by simp) rfl rfl)
  intro _
  apply Navigates.ite (fun _ => hline.navigates .home (by simp) rfl rfl)
  intro _
  apply Navigates.ite (fun _ => hline.navigates .toEnd (by simp) rfl rfl)
  intro _
  exact Navigates.ite (fun _ => hline.navigates .delete (by simp) rfl rfl) fun _ => navigates_ignored rfl rfl

theorem navigates_feedCsiNum (hl : l.Sound h n) (c : Byte) : Navigates h entries l (feedCsiNum c l) := by
  obtain ⟨z, hline⟩ := (hl.escape .normal l.csiNum).line
  simp only [feedCsiNum]
  split_ifs
  · exact hline.navigates .delete (by simp) rfl rfl
  · exact hline.navigates .home (by simp) rfl rfl
  · exact hline.navigates .toEnd (by simp) rfl rfl
  · exact navigates_ignored rfl rfl
  · exact navigates_ignored rfl rfl
  · exact navigates_ignored rfl rfl

theorem navigates_feedTab (hl : l.Sound h n) : Navigates h entries l (feedTab completion l) := by
  obtain ⟨before, after, hshows⟩ := hl.text
  cases completion with
  | none => exact navigates_ignored rfl rfl
  | some callback =>
    cases hactive : l.inCompletion with
    | true =>
      obtain ⟨comp, -, hedits⟩ := hshows.feedTab_next callback hactive (hl.active.mp hactive)
      exact hedits.navigates rfl rfl
    | false =>
      cases hshows.feedTab_first callback hactive with
      | inl hnone => exact hnone.2.navigates rfl rfl
      | inr hsome =>
        obtain ⟨comp, -, hedits⟩ := hsome
        exact hedits.navigates rfl rfl

theorem navigates_feedEditing (hl : l.Sound h n) (c : Byte) : Navigates h entries l (feedEditing c l) := by
  obtain ⟨z, hline⟩ := hl.line
  unfold feedEditing
  apply Navigates.ite (fun _ => hline.shows.feedEnter.navigates rfl rfl)
  intro _
  apply Navigates.ite (fun _ => hline.navigates .backspace (by simp) rfl rfl)
  intro _
  apply Navigates.ite (fun _ => hline.shows.feedCtrlC.navigates rfl rfl)
  intro _
  apply Navigates.ite
  · intro _
    refine Navigates.ite (fun _ => ?_) fun _ => hline.navigates .delete (by simp) rfl rfl
    rintro fed ⟨⟩
    exact .stays rfl rfl
  intro _
  apply Navigates.ite (fun _ => hline.navigates .clear (by simp) rfl rfl)
  intro _
  apply Navigates.ite (fun _ => hline.navigates .kill (by simp) rfl rfl)
  intro _
  apply Navigates.ite (fun _ => hline.navigates .home (by simp) rfl rfl)
  intro _
  apply Navigates.ite (fun _ => hline.navigates .toEnd (by simp) rfl rfl)
  intro _
  apply Navigates.ite (fun _ => hline.shows.feedCtrlL.navigates rfl rfl)
  intro _
  refine Navigates.ite (fun hchar => hline.navigates (.insert c) ?_ rfl rfl) fun _ => navigates_ignored rfl rfl
  rintro ⟨⟩
  exact absurd hchar.1 (by decide)

theorem navigates_feedNormal (hl : l.Sound h n) (c : Byte) : Navigates h entries l (feedNormal completion c l) := by
  have hsame := samePlace_endCompletion l
  unfold feedNormal
  split_ifs
  · exact navigates_ignored hsame.index hsame.saved
  · exact navigates_ignored hsame.index hsame.saved
  · exact navigates_feedTab hl
  · exact (navigates_feedEditing hl.endCompletion c).of_same hsame

theorem navigates_feedEsc (c : Byte) : Navigates h entries l (feedEsc c l) := by
  unfold feedEsc
  split_ifs
  · exact navigates_ignored rfl rfl
  · exact navigates_ignored rfl rfl
  · exact navigates_ignored rfl rfl

/-- The letters are looked for in the normal state. -/
theorem navigates_letter (hl : l.Sound h n) (hh : h.Holds entries) (c : Byte) :
    Navigates h entries l (feedLetter h c { l with escState := .normal }) :=
  (navigates_feedLetter (hl.escape .normal l.csiNum) hh c).of_same (samePlace_normal l)

theorem navigates_feedCsi (hl : l.Sound h n) (hh : h.Holds entries) (c : Byte) :
    Navigates h entries l (feedCsi h c l) := by
  unfold feedCsi
  split_ifs
  · exact navigates_ignored rfl rfl
  · exact navigates_letter hl hh c

/-- **Only Up and Down move in the history.** -/
theorem feed_moves (completion : Option CompletionCallback) (hl : l.Sound h n) (hh : h.Holds entries) (key : Key) :
    Navigates h entries l (linenoiseEditFeed completion h l key) := by
  unfold linenoiseEditFeed
  split_ifs with hnone
  · exact navigates_ignored rfl rfl
  · cases key with
    | none =>
      intro fed hfed
      cases hfed
      exact .stays rfl rfl
    | some c =>
      cases hstate : l.escState with
      | normal => exact navigates_feedNormal hl c
      | esc => exact navigates_feedEsc c
      | csi => exact navigates_feedCsi hl hh c
      | csiNum => exact navigates_feedCsiNum hl c
      | ss3 => exact navigates_letter hl hh c
      | winExt => exact navigates_feedWinExt hl hh c

end Navigates

/-! ### The draft -/

/-- One key. -/
def feedKey (completion : Option CompletionCallback) (h : History) (l : Editor) (key : Key) : Option Editor :=
  (linenoiseEditFeed completion h l key).map (·.editor)

/-- After the keys the history was entered last from `l₁`, whose line was the draft. -/
abbrev EnteredFrom (completion : Option CompletionCallback) (h : History) (l₀ : Editor) (keys : List Key) (l₁ : Editor) :
    Prop :=
  LastLeft (feedKey completion h) (fun l => l.historyIndex = h.len) l₀ keys l₁

/-- After the keys the editor is `l`, and while an entry is shown the draft is kept. -/
structure Draft (completion : Option CompletionCallback) (h : History) (n : ℕ) (l₀ : Editor) (keys : List Key)
    (l : Editor) : Prop where
  run : keys.foldlM (feedKey completion h) l₀ = some l
  sound : l.Sound h n
  kept : l.historyIndex ≠ h.len → ∃ l₁, EnteredFrom completion h l₀ keys l₁ ∧
    l.savedLine.map (·.chars) = some l₁.text ∧ l₁.text.length ≤ n - 1

section Draft

variable {completion : Option CompletionCallback} {h : History} {entries : List CStr} {n : ℕ} {l₀ l : Editor}
  {keys : List Key}

theorem Draft.step (hd : Draft completion h n l₀ keys l) (hh : h.Holds entries) (key : Key) :
    ∃ fed, linenoiseEditFeed completion h l key = some fed ∧ Moves h entries l fed.editor ∧
      Draft completion h n l₀ (keys ++ [key]) fed.editor := by
  obtain ⟨fed, hfed, hsound⟩ := hd.sound.feed completion hh key
  have hkey : feedKey completion h l key = some fed.editor := by rw [feedKey, hfed, Option.map_some]
  have hmoves := feed_moves completion hd.sound hh key fed hfed
  refine ⟨fed, hfed, hmoves, (foldlM_concat hd.run).trans hkey, hsound, ?_⟩
  intro hentry
  -- the draft is what it was, unless the history is just entered
  have hextend : l.historyIndex ≠ h.len → fed.editor.savedLine.map (·.chars) = l.savedLine.map (·.chars) →
      ∃ l₁, EnteredFrom completion h l₀ (keys ++ [key]) l₁ ∧
        fed.editor.savedLine.map (·.chars) = some l₁.text ∧ l₁.text.length ≤ n - 1 := by
    intro hbefore hsaved
    obtain ⟨l₁, hentered, hdraft, hlen⟩ := hd.kept hbefore
    exact ⟨l₁, hentered.extend hd.run hkey hentry, hsaved.trans hdraft, hlen⟩
  cases hmoves with
  | stays hindex hsaved => exact hextend (hindex ▸ hentry) (by rw [hsaved])
  | down line hlt hindex hsaved => exact hextend hlt.ne (by rw [hsaved])
  | up entry hindex hsaved =>
    by_cases hbehind : l.historyIndex = h.len
    · rw [if_pos hbehind] at hsaved
      obtain ⟨z, hline⟩ := hd.sound.line
      exact ⟨l, .leave hd.run hbehind hkey hentry, hsaved, hline.text_eq ▸ z.length_text_le⟩
    · rw [if_neg hbehind] at hsaved
      exact hextend hbehind hsaved

theorem Draft.run_keys (completion : Option CompletionCallback) (hh : h.Holds entries) (hstart : l₀.Sound h n)
    (hindex : l₀.historyIndex = h.len) (keys : List Key) : ∃ l, Draft completion h n l₀ keys l := by
  induction keys using List.reverseRecOn with
  | nil => exact ⟨l₀, rfl, hstart, fun hentry => absurd hindex hentry⟩
  | append_singleton keys key ih =>
    obtain ⟨l, hd⟩ := ih
    obtain ⟨fed, -, -, hd'⟩ := hd.step hh key
    exact ⟨fed.editor, hd'⟩

end Draft

/-- **Going through the history shows the right entries, and the draft is not lost.** After
`linenoiseEditStart` and any keys at all, a key that goes to an entry shows as much of it as
there is room for, with the cursor at its end; and one that comes back behind the history
shows the line from which the history was entered last. -/
theorem history_navigation (completion : Option CompletionCallback) (h : History) (entries : List CStr)
    (buf prompt : List Byte) (keys : List Key) (key : Key) (hh : h.Holds entries) (hbuf : 1 ≤ buf.length) :
    ∃ l₀ out l fed, linenoiseEditStart h buf prompt = some (l₀, out) ∧
      keys.foldlM (feedKey completion h) l₀ = some l ∧ linenoiseEditFeed completion h l key = some fed ∧
      (fed.editor.historyIndex ≠ l.historyIndex → fed.editor.historyIndex < h.len →
        ∃ entry, entries[fed.editor.historyIndex]? = some entry ∧
          fed.editor.text = entry.chars.take (buf.length - 1) ∧ fed.editor.pos = fed.editor.len) ∧
      (l.historyIndex ≠ h.len → fed.editor.historyIndex = h.len →
        ∃ l₁, EnteredFrom completion h l₀ keys l₁ ∧ fed.editor.text = l₁.text) := by
  obtain ⟨l₀, out, hstart, hsound, -⟩ := linenoiseEditStart_sound h hbuf prompt
  have hindex : l₀.historyIndex = h.len := by
    obtain ⟨buf', rfl⟩ := linenoiseEditStart_eq hstart
    rfl
  obtain ⟨l, hd⟩ := Draft.run_keys completion hh hsound hindex keys
  obtain ⟨fed, hfed, hmoves, -⟩ := hd.step hh key
  refine ⟨l₀, out, l, fed, hstart, hd.run, hfed, ?_, ?_⟩
  · intro hmoved hentry
    cases hmoves with
    | stays hindex => exact absurd hindex hmoved
    | up entry hindex hsaved hget htext hpos => exact ⟨entry, hget, by rw [htext, hd.sound.buflen], hpos⟩
    | down line hlt hindex hsaved hline htext hpos =>
      have hlt' : l.historyIndex + 1 < entries.length := by rw [← hh.len]; omega
      rw [nextLine, if_neg (by omega), hh.get_lt hlt'] at hline
      refine ⟨line, ?_, by rw [htext, hd.sound.buflen], hpos⟩
      rw [hindex, List.getElem?_eq_getElem hlt', hline]
  · intro hbefore hbehind
    cases hmoves with
    | stays hindex => exact absurd (hindex.symm.trans hbehind) hbefore
    | up entry hindex =>
      have hhistory := hd.sound.history
      omega
    | down line hlt hindex hsaved hline htext hpos =>
      obtain ⟨l₁, hentered, hdraft, hlen⟩ := hd.kept hbefore
      obtain ⟨draft, hsaved₁, hchars⟩ := Option.map_eq_some_iff.mp hdraft
      rw [nextLine, if_pos (hindex.symm.trans hbehind), hsaved₁] at hline
      cases hline
      refine ⟨l₁, hentered, ?_⟩
      rw [htext, hd.sound.buflen, Option.getD_some, hchars, List.take_of_length_le hlen]

/-- With the history `c`: an `a`, Up, an `x`, and Down, which brings back the `a`. -/
theorem history_navigation_down :
    let h : History := ⟨[some ⟨[99], by decide⟩], 1, 500⟩
    let keys : List Key := [some 97, some 27, some 91, some 65, some 120, some 27, some 91]
    ∃ l₀ out l fed l₁, linenoiseEditStart h [7, 7, 7, 7] [] = some (l₀, out) ∧
      keys.foldlM (feedKey none h) l₀ = some l ∧ linenoiseEditFeed none h l (some 66) = some fed ∧
      EnteredFrom none h l₀ keys l₁ ∧ fed.editor.text = l₁.text := by
  intro h keys
  have hh : h.Holds [⟨[99], by decide⟩] := ⟨⟨[], rfl⟩, rfl, by decide, by decide⟩
  obtain ⟨l₀, out, l, fed, hstart, hrun, hfed, -, hdraft⟩ :=
    history_navigation none h [⟨[99], by decide⟩] [7, 7, 7, 7] [] keys (some 66) hh (by decide)
  let start : Editor := { buf := [0, 7, 7, 7], prompt := [], historyIndex := 1 }
  have hstart' : (linenoiseEditStart h [7, 7, 7, 7] []).map (·.1) = some start := rfl
  rw [hstart, Option.map_some, Option.some.injEq] at hstart'
  subst hstart'
  have hbefore : (keys.foldlM (feedKey none h) start).map Editor.historyIndex = some 0 := by decide +kernel
  rw [hrun, Option.map_some, Option.some.injEq] at hbefore
  have hbehind : ((keys ++ [some 66]).foldlM (feedKey none h) start).map Editor.historyIndex = some 1 := by
    decide +kernel
  rw [foldlM_concat hrun, feedKey, hfed, Option.map_some, Option.map_some, Option.some.injEq] at hbehind
  obtain ⟨l₁, hentered, htext⟩ := hdraft (by rw [hbefore]; decide) hbehind
  exact ⟨_, out, l, fed, l₁, hstart, hrun, hfed, hentered, htext⟩

end TcpClient
