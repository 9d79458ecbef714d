import TcpClient.Linenoise.EditKeys

/-!
# What a key draws

The editor prints the line anew after every key that changes it. `Editor.Within.feed` says what is left after a
key: either nothing was printed, and the line and the cursor are as they were, or the last that was printed
is the line as it is now. In no case is there a byte in the editor that was not typed and is in no entry and no
completion.
-/

namespace TcpClient

open CString

/-- Every byte in the line, in the line put aside and in the completions has `P`. -/
structure Editor.Within (P : Byte → Prop) (l : Editor) : Prop where
  line : ∀ c ∈ l.text, P c
  saved : ∀ s, l.savedLine = some s → ∀ c ∈ s.chars, P c
  completions : ∀ s ∈ l.cachedCompletions, ∀ c ∈ s.chars, P c

/-- Nothing was printed and the line is as it was, or it was drawn as it is, or it has ended; a line that is
submitted ends with a line end. -/
def Drawn (l : Editor) (fed : Fed) : Prop :=
  (fed.rc ≠ 1 ∧ fed.out = [] ∧ fed.editor.text = l.text ∧ fed.editor.pos = l.pos) ∨
    (fed.rc ≠ 1 ∧ ∃ out, linenoiseEditRedraw fed.editor = some out ∧ fed.out ∈ [out, linenoiseClearScreen ++ out]) ∨
    (fed.rc, fed.out) ∈ [(1, [13, 10]), (-1, str "^C" ++ [13, 10])]

/-- Whatever the call leaves was drawn. -/
def Prints (l : Editor) (r : Option Fed) : Prop := ∀ fed, r = some fed → Drawn l fed

/-- From `l` on, all that is in the editor has `P`, and what it leaves was drawn. -/
def Draws (P : Byte → Prop) (l : Editor) (r : Option Fed) : Prop :=
  (∀ fed, r = some fed → fed.editor.prompt = l.prompt ∧ fed.editor.Within P) ∧ Prints l r

section Draws

variable {P : Byte → Prop} {completion : Option CompletionCallback} {h : History} {n : ℕ} {entries : List CStr}
  {l l' : Editor} {c : Byte} {r r' : Option Fed} {rc : ℤ} {before after : List Byte}

theorem Editor.Frame.prompt (h : l.Frame l') : l'.prompt = l.prompt := by rw [h.rest]

/-! ### Printing -/

theorem prints_ignored (htext : l'.text = l.text) (hpos : l'.pos = l.pos) : Prints l (ignored l') := by
  intro fed hfed
  cases hfed
  exact .inl ⟨by simp, rfl, htext, hpos⟩

theorem prints_redrawn (l l' : Editor) : Prints l (redrawn l') := by
  intro fed hfed
  obtain ⟨out, hout, hfed⟩ := Option.bind_eq_some_iff.mp hfed
  cases hfed
  exact .inr (.inl ⟨by simp, out, hout, by simp⟩)

theorem Prints.bind {α : Type} {o : Option α} {f : α → Option Fed} (hf : ∀ x, Prints l (f x)) : Prints l (o >>= f) := by
  intro fed hfed
  obtain ⟨x, -, hfed⟩ := Option.bind_eq_some_iff.mp hfed
  exact hf x fed hfed

theorem Prints.ite {p : Prop} [Decidable p] (hr : Prints l r) (hr' : Prints l r') : Prints l (if p then r else r') := by
  split_ifs
  · exact hr
  · exact hr'

/-- A call that ends the line. -/
theorem prints_end {out : List Byte} (hend : ∀ fed, r = some fed → fed.rc = rc ∧ fed.out = out)
    (hout : (rc, out) ∈ [(1, [13, 10]), (-1, str "^C" ++ [13, 10])]) : Prints l r := by
  intro fed hfed
  obtain ⟨rfl, rfl⟩ := hend fed hfed
  exact .inr (.inr hout)

theorem prints_showText (s : CStr) (l l' : Editor) : Prints l (showText s l') :=
  .bind fun _ => .bind fun _ => prints_redrawn _ _

theorem prints_handleUp (h : History) (l : Editor) : Prints l (handleUp h l) :=
  .ite (.bind fun _ => .bind fun _ => prints_showText _ _ _) (prints_ignored rfl rfl)

theorem prints_handleDown (h : History) (l : Editor) : Prints l (handleDown h l) :=
  .ite (.bind fun _ => prints_showText _ _ _) (prints_ignored rfl rfl)

theorem prints_handleLeft (l : Editor) : Prints l (handleLeft l) := .ite (prints_redrawn _ _) (prints_ignored rfl rfl)

theorem prints_handleRight (l : Editor) : Prints l (handleRight l) := .ite (prints_redrawn _ _) (prints_ignored rfl rfl)

theorem prints_handleDelete (l : Editor) : Prints l (handleDelete l) :=
  .ite (.bind fun _ => prints_redrawn _ _) (prints_ignored rfl rfl)

theorem prints_feedBackspace (l : Editor) : Prints l (feedBackspace l) :=
  .ite (.bind fun _ => prints_redrawn _ _) (prints_ignored rfl rfl)

theorem prints_insertChar (c : Byte) (l : Editor) : Prints l (insertChar c l) :=
  .ite (.bind fun _ => .bind fun _ => .bind fun _ => prints_redrawn _ _) (prints_ignored rfl rfl)

/-- The screen is cleared before the line is drawn. -/
theorem prints_feedCtrlL (l : Editor) : Prints l (feedCtrlL l) := by
  intro fed hfed
  obtain ⟨out, hout, hfed⟩ := Option.bind_eq_some_iff.mp hfed
  cases hfed
  exact .inr (.inl ⟨by simp, out, hout, by simp⟩)

theorem prints_feedTab (completion : Option CompletionCallback) (l : Editor) : Prints l (feedTab completion l) := by
  cases completion with
  | none => exact prints_ignored rfl rfl
  | some callback =>
    unfold feedTab
    split_ifs
    · exact fun fed hfed => by cases hfed
    · exact .bind fun _ => prints_showText _ _ _
    · exact .bind fun _ => .ite (prints_ignored rfl rfl) (.bind fun _ => prints_showText _ _ _)

/-! ### What is in the editor -/

/-- An edit adds nothing but the bytes of the line; `l'` is `l` with another place in the history or in the
completions. -/
theorem Edits.draws (he : Edits l' r rc before after) (hw : l'.Within P) (hline : ∀ c ∈ before ++ after, P c)
    (hprompt : l'.prompt = l.prompt) (hp : Prints l r) : Draws P l r := by
  obtain ⟨l₁, out, rfl, hshows, hframe⟩ := he
  refine ⟨fun fed hfed => ?_, hp⟩
  cases hfed
  refine ⟨hframe.prompt.trans hprompt, ?_, ?_, ?_⟩
  · rw [Editor.text, hshows.text_eq]
    exact hline
  · rw [hframe.savedLine]
    exact hw.saved
  · rw [hframe.cachedCompletions]
    exact hw.completions

/-- An entry or a completion has bytes with `P`, so has as much of it as there is room for. -/
theorem within_take {s : CStr} (hs : ∀ c ∈ s.chars, P c) (m : ℕ) : ∀ c ∈ s.chars.take m ++ [], P c := by
  intro c hc
  rw [List.append_nil] at hc
  exact hs c (List.mem_of_mem_take hc)

/-- The line stays as it is. -/
theorem Editor.Within.stays (hw : l.Within P) (hrc : rc ≠ 1) : Draws P l (some ⟨rc, l, []⟩) := by
  refine ⟨fun fed hfed => ?_, fun fed hfed => ?_⟩
  · cases hfed
    exact ⟨rfl, hw⟩
  · cases hfed
    exact .inl ⟨hrc, rfl, rfl, rfl⟩

theorem Editor.Within.ignored (hw : l.Within P) : Draws P l (ignored l) := hw.stays (by decide)

/-- Nothing but what is beside the line was changed before. -/
theorem Draws.of_same (hr : Draws P l' r) (hprompt : l'.prompt = l.prompt) (htext : l'.text = l.text)
    (hpos : l'.pos = l.pos) : Draws P l r := by
  refine ⟨fun fed hfed => ?_, fun fed hfed => ?_⟩
  · rw [← hprompt]
    exact hr.1 fed hfed
  · have hdrawn := hr.2 fed hfed
    rw [Drawn, htext, hpos] at hdrawn
    exact hdrawn

theorem Draws.ite {p : Prop} [Decidable p] (hr : p → Draws P l r) (hr' : ¬ p → Draws P l r') :
    Draws P l (if p then r else r') := iteInduction (motive := Draws P l) hr hr'

/-- The place in an escape sequence is not part of the line. -/
theorem Editor.Within.escape (hw : l.Within P) (state : EscState) (num : ℤ) :
    ({ l with escState := state, csiNum := num } : Editor).Within P := ⟨hw.line, hw.saved, hw.completions⟩

theorem Editor.Within.endCompletion (hw : l.Within P) : (endCompletion l).Within P := by
  unfold TcpClient.endCompletion
  split_ifs
  · exact ⟨hw.line, hw.saved, by simp⟩
  · exact hw

theorem endCompletion_same (l : Editor) :
    (endCompletion l).prompt = l.prompt ∧ (endCompletion l).text = l.text ∧ (endCompletion l).pos = l.pos := by
  unfold endCompletion
  split_ifs <;> exact ⟨rfl, rfl, rfl⟩

/-! ### The labels -/

section Labels

variable (hw : l.Within P) (hl : l.Shows before after)

include hw hl

/-- All that is in the line has `P`. -/
theorem Editor.Within.shown : ∀ c ∈ before ++ after, P c := by
  rw [← hl.text_eq]
  exact hw.line

theorem Editor.Within.handleLeft : Draws P l (handleLeft l) := by
  have hline := hw.shown hl
  cases before using List.reverseRecOn with
  | nil => exact hl.handleLeft_nil.draws hw hline rfl (prints_handleLeft l)
  | append_singleton before c => exact hl.handleLeft.draws hw (by simpa using hline) rfl (prints_handleLeft l)

theorem Editor.Within.handleRight : Draws P l (handleRight l) := by
  have hline := hw.shown hl
  cases after with
  | nil => exact hl.handleRight_nil.draws hw hline rfl (prints_handleRight l)
  | cons c after => exact hl.handleRight.draws hw (by simpa using hline) rfl (prints_handleRight l)

theorem Editor.Within.handleHome : Draws P l (handleHome l) :=
  hl.handleHome.draws hw (by simpa using hw.shown hl) rfl (prints_redrawn _ _)

theorem Editor.Within.handleEnd : Draws P l (handleEnd l) :=
  hl.handleEnd.draws hw (by simpa using hw.shown hl) rfl (prints_redrawn _ _)

theorem Editor.Within.handleDelete : Draws P l (handleDelete l) := by
  refine hl.handleDelete.draws hw (fun c hc => hw.shown hl c ?_) rfl (prints_handleDelete l)
  exact List.append_subset.mpr ⟨List.subset_append_left _ _,
    List.Subset.trans (List.tail_sublist after).subset (List.subset_append_right _ _)⟩ hc

theorem Editor.Within.feedBackspace : Draws P l (feedBackspace l) := by
  have hline := hw.shown hl
  cases before using List.reverseRecOn with
  | nil => exact hl.feedBackspace_nil.draws hw hline rfl (prints_feedBackspace l)
  | append_singleton before c =>
    refine hl.feedBackspace.draws hw (fun d hd => hline d ?_) rfl (prints_feedBackspace l)
    rw [List.append_assoc, List.mem_append]
    exact (List.mem_append.mp hd).imp_right (List.mem_cons_of_mem c)

theorem Editor.Within.feedCtrlU : Draws P l (feedCtrlU l) :=
  hl.feedCtrlU.draws hw (by simp) rfl (.bind fun _ => prints_redrawn _ _)

theorem Editor.Within.feedCtrlK : Draws P l (feedCtrlK l) := by
  refine hl.feedCtrlK.draws hw (fun c hc => hw.shown hl c ?_) rfl (.bind fun _ => prints_redrawn _ _)
  rw [List.append_nil] at hc
  exact List.mem_append_left _ hc

theorem Editor.Within.feedCtrlL : Draws P l (feedCtrlL l) :=
  hl.feedCtrlL.draws hw (hw.shown hl) rfl (prints_feedCtrlL l)

/-- A line that is submitted is as it was. -/
theorem Editor.Within.feedEnter : Draws P l (feedEnter l) := by
  refine hl.feedEnter.draws hw (hw.shown hl) rfl (prints_end (fun fed hfed => ?_) (.head _))
  obtain ⟨buf, -, hfed⟩ := Option.bind_eq_some_iff.mp hfed
  cases hfed
  exact ⟨rfl, rfl⟩

theorem Editor.Within.feedCtrlC : Draws P l (feedCtrlC l) := by
  refine hl.feedCtrlC.draws hw (by simp) rfl (prints_end (fun fed hfed => ?_) (.tail _ (.head _)))
  obtain ⟨buf, -, hfed⟩ := Option.bind_eq_some_iff.mp hfed
  cases hfed
  exact ⟨rfl, rfl⟩

/-- What was typed comes into the line. -/
theorem Editor.Within.insertChar (hc : P c) (hne : c ≠ 0) : Draws P l (insertChar c l) := by
  have hline := hw.shown hl
  by_cases hroom : l.len + 1 < l.buf.length
  · refine (hl.insertChar hne hroom).draws hw (fun d hd => ?_) rfl (prints_insertChar c l)
    rw [List.append_assoc, List.mem_append, List.singleton_append, List.mem_cons] at hd
    rcases hd with hd | rfl | hd
    · exact hline d (List.mem_append_left _ hd)
    · exact hc
    · exact hline d (List.mem_append_right _ hd)
  · exact (hl.insertChar_full (not_lt.mp hroom)).draws hw hline rfl (prints_insertChar c l)

/-! ### Entries and completions -/

theorem Editor.Within.handleUp (hh : h.Holds entries) (hidx : l.historyIndex ≤ h.len)
    (hentries : ∀ s ∈ entries, ∀ c ∈ s.chars, P c) : Draws P l (handleUp h l) := by
  rcases hl.handleUp hh hidx with ⟨-, hedits⟩ | ⟨entry, -, hentry, hedits⟩
  · exact hedits.draws hw (hw.shown hl) rfl (prints_handleUp h l)
  · refine hedits.draws ?_ (within_take (hentries entry (List.mem_of_getElem? hentry)) _) rfl
      (prints_handleUp h l)
    refine ⟨hw.line, fun s hs => ?_, hw.completions⟩
    dsimp only at hs
    split_ifs at hs
    · cases hs
      exact hw.shown hl
    · exact hw.saved s hs

theorem Editor.Within.handleDown (hh : h.Holds entries) (hentries : ∀ s ∈ entries, ∀ c ∈ s.chars, P c) :
    Draws P l (handleDown h l) := by
  rcases hl.handleDown hh with ⟨-, hedits⟩ | ⟨line, hlt, hline, hedits⟩
  · exact hedits.draws hw (hw.shown hl) rfl (prints_handleDown h l)
  · refine hedits.draws ⟨hw.line, hw.saved, hw.completions⟩ (within_take ?_ _) rfl (prints_handleDown h l)
    rw [nextLine] at hline
    split_ifs at hline with hlast
    · cases hline
      cases hsaved : l.savedLine with
      | none => exact List.forall_mem_nil _
      | some s => exact hw.saved s hsaved
    · have hnext : l.historyIndex + 1 < entries.length := by
        have hlen := hh.len
        omega
      rw [hh.get_lt hnext] at hline
      cases hline
      exact hentries _ (List.getElem_mem hnext)

theorem Editor.Within.feedTab (hcomps : ∀ callback, completion = some callback → ∀ line, ∀ s ∈ callback line,
    ∀ c ∈ s.chars, P c) (hactive : l.inCompletion = true ↔ l.cachedCompletions ≠ []) :
    Draws P l (feedTab completion l) := by
  cases completion with
  | none => exact hw.ignored
  | some callback =>
    have hp := prints_feedTab (some callback) l
    have hnew := hcomps callback rfl hl.line
    cases hin : l.inCompletion with
    | true =>
      obtain ⟨comp, hcomp, hedits⟩ := hl.feedTab_next callback hin (hactive.mp hin)
      exact hedits.draws ⟨hw.line, hw.saved, hw.completions⟩
        (within_take (hw.completions comp (List.mem_of_getElem? hcomp)) _) rfl hp
    | false =>
      rcases hl.feedTab_first callback hin with ⟨-, hedits⟩ | ⟨comp, hcomp, hedits⟩
      · exact hedits.draws ⟨hw.line, hw.saved, by simp⟩ (hw.shown hl) rfl hp
      · exact hedits.draws ⟨hw.line, hw.saved, hnew⟩
          (within_take (hnew comp (List.mem_of_getElem? hcomp)) _) rfl hp

end Labels

/-! ### The keys -/

section Keys

variable (hw : l.Within P) (hl : l.Sound h n)

include hw hl

theorem Editor.Within.feedEditing (hc : 32 ≤ c → c ≠ 127 → P c) : Draws P l (feedEditing c l) := by
  obtain ⟨before, after, hshows⟩ := hl.text
  unfold TcpClient.feedEditing
  apply Draws.ite (fun _ => hw.feedEnter hshows)
  intro _
  apply Draws.ite (fun _ => hw.feedBackspace hshows)
  intro _
  apply Draws.ite (fun _ => hw.feedCtrlC hshows)
  intro _
  apply Draws.ite
  · intro _
    exact Draws.ite (fun _ => hw.stays (by decide)) fun _ => hw.handleDelete hshows
  intro _
  apply Draws.ite (fun _ => hw.feedCtrlU hshows)
  intro _
  apply Draws.ite (fun _ => hw.feedCtrlK hshows)
  intro _
  apply Draws.ite (fun _ => hw.handleHome hshows)
  intro _
  apply Draws.ite (fun _ => hw.handleEnd hshows)
  intro _
  apply Draws.ite (fun _ => hw.feedCtrlL hshows)
  intro _
  refine Draws.ite (fun hprintable => hw.insertChar hshows (hc hprintable.1 hprintable.2) ?_) fun _ => hw.ignored
  rintro rfl
  exact absurd hprintable.1 (by decide)

theorem Editor.Within.feedNormal (hc : 32 ≤ c → c ≠ 127 → P c)
    (hcomps : ∀ callback, completion = some callback → ∀ line, ∀ s ∈ callback line, ∀ c ∈ s.chars, P c) :
    Draws P l (feedNormal completion c l) := by
  obtain ⟨before, after, hshows⟩ := hl.text
  obtain ⟨hprompt, htext, hpos⟩ := endCompletion_same l
  unfold TcpClient.feedNormal
  split_ifs
  · exact (hw.endCompletion.escape .esc _).ignored.of_same hprompt htext hpos
  · exact (hw.endCompletion.escape .winExt _).ignored.of_same hprompt htext hpos
  · exact hw.feedTab hshows hcomps hl.active
  · exact (hw.endCompletion.feedEditing hl.endCompletion hc).of_same hprompt htext hpos

theorem Editor.Within.feedLetter (hh : h.Holds entries) (hentries : ∀ s ∈ entries, ∀ c ∈ s.chars, P c) :
    Draws P l (feedLetter h c l) := by
  obtain ⟨before, after, hshows⟩ := hl.text
  unfold TcpClient.feedLetter
  apply Draws.ite (fun _ => hw.handleUp hshows hh hl.history hentries)
  intro _
  apply Draws.ite (fun _ => hw.handleDown hshows hh hentries)
  intro _
  apply Draws.ite (fun _ => hw.handleRight hshows)
  intro _
  apply Draws.ite (fun _ => hw.handleLeft hshows)
  intro _
  apply Draws.ite (fun _ => hw.handleHome hshows)
  intro _
  exact Draws.ite (fun _ => hw.handleEnd hshows) fun _ => hw.ignored

theorem Editor.Within.feedCsiNum : Draws P l (feedCsiNum c l) := by
  have hw' := hw.escape .normal l.csiNum
  obtain ⟨before, after, hshows⟩ := (hl.escape .normal l.csiNum).text
  unfold TcpClient.feedCsiNum
  apply Draws.ite
  · intro _
    apply Draws.ite (fun _ => (hw'.handleDelete hshows).of_same rfl rfl rfl)
    intro _
    apply Draws.ite (fun _ => (hw'.handleHome hshows).of_same rfl rfl rfl)
    intro _
    exact Draws.ite (fun _ => (hw'.handleEnd hshows).of_same rfl rfl rfl) fun _ => hw'.ignored.of_same rfl rfl rfl
  · intro _
    refine Draws.ite (fun _ => ?_) fun _ => hw'.ignored.of_same rfl rfl rfl
    exact (hw.escape l.escState _).ignored.of_same rfl rfl rfl

theorem Editor.Within.feedWinExt (hh : h.Holds entries) (hentries : ∀ s ∈ entries, ∀ c ∈ s.chars, P c) :
    Draws P l (feedWinExt h c l) := by
  have hl' := hl.escape .normal l.csiNum
  have hw' := hw.escape .normal l.csiNum
  obtain ⟨before, after, hshows⟩ := hl'.text
  unfold TcpClient.feedWinExt
  have hsame : ∀ {r}, Draws P { l with escState := .normal } r → Draws P l r := fun hr => hr.of_same rfl rfl rfl
  refine hsame ?_
  apply Draws.ite (fun _ => hw'.handleUp hshows hh hl'.history hentries)
  intro _
  apply Draws.ite (fun _ => hw'.handleDown hshows hh hentries)
  intro _
  apply Draws.ite (fun _ => hw'.handleLeft hshows)
  intro _
  apply Draws.ite (fun _ => hw'.handleRight hshows)
  intro _
  apply Draws.ite (fun _ => hw'.handleHome hshows)
  intro _
  apply Draws.ite (fun _ => hw'.handleEnd hshows)
  intro _
  exact Draws.ite (fun _ => hw'.handleDelete hshows) fun _ => hw'.ignored

/-- **What a key draws.** The prompt stays, and so does what is true of every byte typed, of the entries
and of the completions; a key that does not end the line prints nothing and changes nothing that is shown, or
the line as it is now is the last it prints. -/
theorem Editor.Within.feed (hh : h.Holds entries) (hentries : ∀ s ∈ entries, ∀ c ∈ s.chars, P c)
    (hcomps : ∀ callback, completion = some callback → ∀ line, ∀ s ∈ callback line, ∀ c ∈ s.chars, P c)
    (hc : 32 ≤ c → c ≠ 127 → P c) : Draws P l (linenoiseEditFeed completion h l (some c)) := by
  unfold linenoiseEditFeed
  refine Draws.ite (fun _ => hw.ignored) fun _ => ?_
  have hl' := hl.escape .normal l.csiNum
  have hw' := hw.escape .normal l.csiNum
  have hsame : ∀ {state num}, Draws P l (TcpClient.ignored { l with escState := state, csiNum := num }) :=
    fun {state num} => (hw.escape state num).ignored.of_same rfl rfl rfl
  cases hstate : l.escState with
  | normal => exact hw.feedNormal hl hc hcomps
  | esc => exact Draws.ite (fun _ => hsame) fun _ => Draws.ite (fun _ => hsame) fun _ => hsame
  | csi =>
    exact Draws.ite (fun _ => hsame) fun _ => (hw'.feedLetter hl' hh hentries).of_same rfl rfl rfl
  | csiNum => exact hw.feedCsiNum hl
  | ss3 => exact (hw'.feedLetter hl' hh hentries).of_same rfl rfl rfl
  | winExt => exact hw.feedWinExt hl hh hentries

end Keys

end Draws

end TcpClient
