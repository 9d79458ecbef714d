import TcpClient.Linenoise.Ownership

/-!
# The line editor frees what it allocates

What becomes of the allocated memory in any run of calls that are in order (`inOrder`: a key comes
behind `linenoiseEditStart`, and the history is neither cut nor freed in between), whichever
allocations are denied, and what the model in which strings are values has to do with it.

## What is proved

* `memory_safe` — no call goes through a pointer to nothing, in every state reached what is
  allocated is what is pointed to, and after `linenoiseEditStop` and `linenoiseHistoryFree`
  nothing is;
* `memory_refines` — where every allocation is granted, the pointers do what the values do;
* `memory_denied` — where some are denied, the history is what is left when the lines whose own
  allocations were denied are never added.

Each key does to the pointers what it does to the values (`Mem.Owns.feed`), but that a completion may be
missing and a saved line lost. Between the keys lines may be added: the place in the history stays one.
-/

namespace TcpClient.Memory

open CString Machine

/-! ### The line alone -/

/-- The strings beside the line become others. -/
def keeping (saved : Option CStr) (comps : List CStr) (l : Editor) : Editor :=
  { l with savedLine := saved, cachedCompletions := comps }

/-- The call looks at the line alone, and leaves the strings beside it as they are. -/
def Lineal (f : Editor → Option Fed) : Prop :=
  ∀ saved comps l,
    f (keeping saved comps l) = (f l).map fun fed => { fed with editor := keeping saved comps fed.editor }

section Lineal

variable {f g : Editor → Option Fed}

theorem lineal_ignored : Lineal ignored := fun _ _ _ => rfl

theorem lineal_redrawn : Lineal redrawn := by
  intro saved comps l
  have hredraw : linenoiseEditRedraw (keeping saved comps l) = linenoiseEditRedraw l := rfl
  rw [redrawn, redrawn, hredraw]
  cases linenoiseEditRedraw l <;> rfl

theorem Lineal.ite {p : Editor → Prop} [DecidablePred p] (hp : ∀ saved comps l, p (keeping saved comps l) ↔ p l)
    (hf : Lineal f) (hg : Lineal g) : Lineal fun l => if p l then f l else g l := by
  intro saved comps l
  dsimp only
  simp only [hp]
  split_ifs
  · exact hf saved comps l
  · exact hg saved comps l

theorem Lineal.bind {α : Type} {a : Editor → Option α} {f : α → Editor → Option Fed}
    (ha : ∀ saved comps l, a (keeping saved comps l) = a l) (hf : ∀ x, Lineal (f x)) :
    Lineal fun l => (a l).bind fun x => f x l := by
  intro saved comps l
  dsimp only
  rw [ha]
  cases a l with
  | none => rfl
  | some x => exact hf x saved comps l

/-- The line is changed first, in a way that does not depend on the strings beside it. -/
theorem Lineal.comp {u : Editor → Editor} (hf : Lineal f)
    (hu : ∀ saved comps l, u (keeping saved comps l) = keeping saved comps (u l)) : Lineal fun l => f (u l) := by
  intro saved comps l
  dsimp only
  rw [hu]
  exact hf saved comps (u l)

theorem lineal_handleLeft : Lineal handleLeft :=
  .ite (fun _ _ _ => Iff.rfl) (lineal_redrawn.comp fun _ _ _ => rfl) lineal_ignored

theorem lineal_handleRight : Lineal handleRight :=
  .ite (fun _ _ _ => Iff.rfl) (lineal_redrawn.comp fun _ _ _ => rfl) lineal_ignored

theorem lineal_handleHome : Lineal handleHome := lineal_redrawn.comp fun _ _ _ => rfl

theorem lineal_handleEnd : Lineal handleEnd := lineal_redrawn.comp fun _ _ _ => rfl

theorem lineal_handleDelete : Lineal handleDelete :=
  .ite (fun _ _ _ => Iff.rfl) (.bind (fun _ _ _ => rfl) fun _ => lineal_redrawn.comp fun _ _ _ => rfl) lineal_ignored

theorem lineal_showText (s : CStr) : Lineal (showText s) :=
  .bind (fun _ _ _ => rfl) fun _ => .bind (fun _ _ _ => rfl) fun _ => lineal_redrawn.comp fun _ _ _ => rfl

theorem lineal_feedBackspace : Lineal feedBackspace :=
  .ite (fun _ _ _ => Iff.rfl) (.bind (fun _ _ _ => rfl) fun _ => lineal_redrawn.comp fun _ _ _ => rfl) lineal_ignored

theorem lineal_insertChar (c : Byte) : Lineal (insertChar c) :=
  .ite (fun _ _ _ => Iff.rfl)
    (.bind (fun _ _ _ => rfl) fun _ => .bind (fun _ _ _ => rfl) fun _ => .bind (fun _ _ _ => rfl) fun _ =>
      lineal_redrawn.comp fun _ _ _ => rfl) lineal_ignored

theorem lineal_feedEnter : Lineal feedEnter := .bind (fun _ _ _ => rfl) fun _ _ _ _ => rfl

theorem lineal_feedCtrlC : Lineal feedCtrlC := .bind (fun _ _ _ => rfl) fun _ _ _ _ => rfl

theorem lineal_feedCtrlU : Lineal feedCtrlU := .bind (fun _ _ _ => rfl) fun _ => lineal_redrawn.comp fun _ _ _ => rfl

theorem lineal_feedCtrlK : Lineal feedCtrlK := .bind (fun _ _ _ => rfl) fun _ => lineal_redrawn.comp fun _ _ _ => rfl

theorem lineal_feedCtrlL : Lineal feedCtrlL := .bind (fun _ _ _ => rfl) fun _ _ _ _ => rfl

theorem lineal_feedEditing (c : Byte) : Lineal (feedEditing c) := by
  unfold feedEditing
  refine .ite (fun _ _ _ => Iff.rfl) lineal_feedEnter ?_
  refine .ite (fun _ _ _ => Iff.rfl) lineal_feedBackspace ?_
  refine .ite (fun _ _ _ => Iff.rfl) lineal_feedCtrlC ?_
  refine .ite (fun _ _ _ => Iff.rfl) (.ite (fun _ _ _ => Iff.rfl) (fun _ _ _ => rfl) lineal_handleDelete) ?_
  refine .ite (fun _ _ _ => Iff.rfl) lineal_feedCtrlU ?_
  refine .ite (fun _ _ _ => Iff.rfl) lineal_feedCtrlK ?_
  refine .ite (fun _ _ _ => Iff.rfl) lineal_handleHome ?_
  refine .ite (fun _ _ _ => Iff.rfl) lineal_handleEnd ?_
  refine .ite (fun _ _ _ => Iff.rfl) lineal_feedCtrlL ?_
  exact .ite (fun _ _ _ => Iff.rfl) (lineal_insertChar c) lineal_ignored

theorem lineal_feedEsc (c : Byte) : Lineal (feedEsc c) := by
  unfold feedEsc
  refine .ite (fun _ _ _ => Iff.rfl) (fun _ _ _ => rfl) ?_
  exact .ite (fun _ _ _ => Iff.rfl) (fun _ _ _ => rfl) fun _ _ _ => rfl

theorem lineal_feedCsiNum (c : Byte) : Lineal (feedCsiNum c) := by
  have hu : ∀ saved comps l, ({ keeping saved comps l with escState := .normal } : Editor) =
      keeping saved comps { l with escState := .normal } := fun _ _ _ => rfl
  unfold feedCsiNum
  refine .ite (fun _ _ _ => Iff.rfl) ?_ (.ite (fun _ _ _ => Iff.rfl) (fun _ _ _ => rfl) fun _ _ _ => rfl)
  refine .ite (fun _ _ _ => Iff.rfl) (lineal_handleDelete.comp hu) ?_
  refine .ite (fun _ _ _ => Iff.rfl) (lineal_handleHome.comp hu) ?_
  exact .ite (fun _ _ _ => Iff.rfl) (lineal_handleEnd.comp hu) (lineal_ignored.comp hu)

end Lineal

/-! ### Pointers and values -/

/-- The editor in which the strings are values. -/
def Contents.view (c : Contents) (l : Editor) : Editor := keeping (c.saved.map Prod.snd) c.comps.lines l

/-- Where the call on the values is defined, the call on the pointers is, keeps the history, and leaves
the same editor, but that the saved line may be lost. -/
def Agrees (grant : ℕ → Bool) (c : Contents) (r : Option (Mem × Fed)) (v : Option Fed) : Prop :=
  ∀ vfed, v = some vfed → ∃ (m' : Mem) (fed : Fed) (comps : StringVec) (saved : Option (ℕ × CStr)),
    r = some (m', fed) ∧ m'.Owns { c with comps := comps, saved := saved } ∧ fed.rc = vfed.rc ∧ fed.out = vfed.out ∧
      ({ c with comps := comps, saved := saved }.view fed.editor = vfed.editor ∨
        (¬ Generous grant ∧
          { c with comps := comps, saved := saved }.view fed.editor = { vfed.editor with savedLine := none }))

section Agree

variable {grant : ℕ → Bool} {completion : Option CompletionCallback} {m : Mem} {c : Contents} {l : Editor}
  {h : History} {f : Editor → Option Fed} {i : ℕ} {s : CStr}

theorem Mem.Owns.beside (hm : m.Owns c) (hf : Lineal f) : Agrees grant c (beside m (f l)) (f (c.view l)) := by
  intro vfed hv
  rw [Contents.view, hf] at hv
  obtain ⟨fed, hfed, rfl⟩ := Option.map_eq_some_iff.mp hv
  exact ⟨m, fed, c.comps, c.saved, by rw [hfed]; rfl, hm, rfl, rfl, .inl rfl⟩

/-- An entry of the history. -/
theorem Mem.Owns.entry (hm : m.Owns c) (hh : h.Holds c.hist.lines) (hi : i < h.len) : entry m i = h.get i := by
  have hlt : i < c.hist.strings.length := by
    rw [hh.len, StringVec.length_lines] at hi
    exact hi
  obtain ⟨hload, htext⟩ := StringVec.load_eq hm.heap_hist hlt
  rw [Memory.entry, hm.history, hload, hh.get_lt (by rw [StringVec.length_lines]; exact hlt)]
  simp [StringVec.lines, htext]

theorem Mem.Owns.len_eq (hm : m.Owns c) (hh : h.Holds c.hist.lines) : m.historyLen = h.len := by
  rw [hm.historyLen, hh.len, StringVec.length_lines]

theorem Mem.Owns.savedText (hm : m.Owns c) :
    savedText m = some ((c.saved.map Prod.snd).getD CStr.empty) := by
  unfold Memory.savedText
  rw [hm.savedLine]
  cases hsaved : c.saved with
  | none => rfl
  | some ps =>
    refine StringVec.text_of_mem (s := ps.2) hm.heap ?_
    rw [Contents.footprint, hsaved]
    exact List.mem_append_left _ List.mem_cons_self

/-- What is saved when the history is entered: the line, if it can be copied. -/
theorem Mem.Owns.saveLine (hm : m.Owns c) (grant : ℕ → Bool) (hh : h.Holds c.hist.lines) {saved : Option CStr}
    (hsave : TcpClient.saveLine h (c.view l) = some saved) :
    ∃ (m' : Mem) (q : Option (ℕ × CStr)), Memory.saveLine grant l m = some m' ∧ m'.Owns { c with saved := q } ∧
      (q.map Prod.snd = saved ∨ (q = none ∧ ¬ Generous grant)) := by
  have hlen := hm.len_eq hh
  unfold TcpClient.saveLine at hsave
  unfold Memory.saveLine
  by_cases hlast : l.historyIndex = h.len
  · rw [if_pos (show (c.view l).historyIndex = h.len from hlast)] at hsave
    obtain ⟨line, hline, rfl⟩ := Option.map_eq_some_iff.mp hsave
    have hbuf : TcpClient.linenoiseStrdup l.buf = some line := hline
    obtain ⟨m₁, hfree, hm₁⟩ := hm.freeSavedLine
    obtain ⟨p, heap, hdup, hheap, -, hdenied⟩ := hm₁.strdup grant line
    rw [if_pos (hlast.trans hlen.symm), hfree, hbuf]
    simp only [Option.bind_eq_bind, Option.bind_some, hdup]
    refine ⟨_, p.map fun p => (p, line), rfl, { hm₁ with heap := ?_, savedLine := ?_ }, ?_⟩
    · cases p <;> exact hheap
    · cases p <;> rfl
    · cases p with
      | none => exact .inr ⟨rfl, (hdenied rfl).not_all⟩
      | some p => exact .inl rfl
  · rw [if_neg (show ¬ (c.view l).historyIndex = h.len from hlast)] at hsave
    rw [if_neg fun heq => hlast (heq.trans hlen)]
    exact ⟨m, c.saved, rfl, hm, .inl (Option.some.inj hsave)⟩

theorem Mem.Owns.handleUp (hm : m.Owns c) (hh : h.Holds c.hist.lines) (hidx : l.historyIndex ≤ h.len) :
    Agrees grant c (handleUp grant l m) (TcpClient.handleUp h (c.view l)) := by
  have hlen := hm.len_eq hh
  unfold Memory.handleUp TcpClient.handleUp
  by_cases hback : 0 < h.len ∧ 0 < l.historyIndex
  · intro vfed hv
    rw [if_pos (show 0 < h.len ∧ 0 < (c.view l).historyIndex from hback)] at hv
    obtain ⟨saved, hsave, hv⟩ := Option.bind_eq_some_iff.mp hv
    obtain ⟨line, hline, hv⟩ := Option.bind_eq_some_iff.mp hv
    obtain ⟨m₁, q, hsave₁, hm₁, hq⟩ := hm.saveLine grant hh hsave
    have hentry : Memory.entry m₁ (l.historyIndex - 1) = some line := (hm₁.entry hh (by omega)).trans hline
    -- the entry is shown beside other strings
    have hshow := lineal_showText line saved c.comps.lines { l with historyIndex := l.historyIndex - 1 }
    obtain ⟨fed, hfed, rfl⟩ := Option.map_eq_some_iff.mp (hshow.symm.trans hv)
    rw [if_pos (hlen ▸ hback), hsave₁]
    simp only [Option.bind_eq_bind, Option.bind_some, hentry, hfed]
    refine ⟨m₁, fed, c.comps, q, rfl, hm₁, rfl, rfl, ?_⟩
    rcases hq with hq | ⟨rfl, hdenied⟩
    · exact .inl (by rw [Contents.view, hq])
    · exact .inr ⟨hdenied, rfl⟩
  · rw [if_neg (hlen ▸ hback), if_neg (show ¬ (0 < h.len ∧ 0 < (c.view l).historyIndex) from hback)]
    exact hm.beside lineal_ignored

theorem Mem.Owns.handleDown (hm : m.Owns c) (hh : h.Holds c.hist.lines) :
    Agrees grant c (handleDown l m) (TcpClient.handleDown h (c.view l)) := by
  have hlen := hm.len_eq hh
  unfold Memory.handleDown TcpClient.handleDown
  by_cases hon : 0 < h.len ∧ l.historyIndex < h.len
  · intro vfed hv
    rw [if_pos (show 0 < h.len ∧ (c.view l).historyIndex < h.len from hon)] at hv
    obtain ⟨line, hline, hv⟩ := Option.bind_eq_some_iff.mp hv
    have hnext : Memory.nextLine l m = some line := by
      rw [← hline]
      unfold Memory.nextLine TcpClient.nextLine
      by_cases hlast : l.historyIndex + 1 = h.len
      · rw [if_pos (hlast.trans hlen.symm), if_pos (show (c.view l).historyIndex + 1 = h.len from hlast), hm.savedText]
        rfl
      · rw [if_neg fun heq => hlast (heq.trans hlen), if_neg (show ¬ (c.view l).historyIndex + 1 = h.len from hlast)]
        exact hm.entry hh (by omega)
    have hshow :=
      lineal_showText line (c.saved.map Prod.snd) c.comps.lines { l with historyIndex := l.historyIndex + 1 }
    obtain ⟨fed, hfed, rfl⟩ := Option.map_eq_some_iff.mp (hshow.symm.trans hv)
    rw [if_pos (hlen ▸ hon), hnext]
    simp only [Option.bind_eq_bind, Option.bind_some, hfed]
    exact ⟨m, fed, c.comps, c.saved, rfl, hm, rfl, rfl, .inl rfl⟩
  · rw [if_neg (hlen ▸ hon), if_neg (show ¬ (0 < h.len ∧ (c.view l).historyIndex < h.len) from hon)]
    exact hm.beside lineal_ignored

/-! ### Completions -/

theorem Mem.Owns.showCompletion (hm : m.Owns c) (hi : c.comps.lines[l.completionIdx]? = some s) :
    Agrees grant c (showCompletion l m) (showText s (c.view l)) := by
  obtain ⟨hlt, hget⟩ := List.getElem?_eq_some_iff.mp hi
  rw [StringVec.length_lines] at hlt
  obtain ⟨hload, htext⟩ := StringVec.load_eq hm.heap_comps hlt
  have hs : c.comps.strings[l.completionIdx].2 = s := by
    rw [← hget]
    simp [StringVec.lines]
  have heq : Memory.showCompletion l m = Memory.beside m (showText s l) := by
    rw [Memory.showCompletion, hm.cvec, hload]
    simp [htext, hs]
  rw [heq]
  exact hm.beside (lineal_showText s)

/-- The callback that offers `added` for the line. -/
def offering (callback : CompletionCallback) (line : CStr) (added : List CStr) : CompletionCallback :=
  fun s => if s = line then added else callback s

/-- **Tab** in a completion. -/
theorem Mem.Owns.feedTab_next (hm : m.Owns c) (callback : CompletionCallback) (hactive : l.inCompletion = true) :
    Agrees grant c (feedTab grant (some callback) l m) (TcpClient.feedTab (some callback) (c.view l)) := by
  intro vfed hv
  have hclen : m.clen = c.comps.lines.length := hm.clen.trans (StringVec.length_lines _).symm
  rw [TcpClient.feedTab, if_pos (show (c.view l).inCompletion = true from hactive)] at hv
  rw [feedTab, if_pos hactive, hclen]
  by_cases hnone : c.comps.lines.length = 0
  · rw [if_pos (show (c.view l).cachedCompletions.length = 0 from hnone)] at hv
    cases hv
  · rw [if_neg (show ¬ (c.view l).cachedCompletions.length = 0 from hnone)] at hv
    obtain ⟨comp, hcomp, hv⟩ := Option.bind_eq_some_iff.mp hv
    rw [if_neg hnone]
    exact hm.showCompletion (l := { l with completionIdx := _ }) hcomp vfed hv

/-- **Tab** outside a completion offers what could be copied of what there is to offer. -/
theorem Mem.Owns.feedTab_first (hm : m.Owns c) (grant : ℕ → Bool) (callback : CompletionCallback)
    (hidle : l.inCompletion = false) {before after : List Byte} (hl : (c.view l).Shows before after) :
    ∃ added, (Generous grant → added = callback hl.line) ∧
      Agrees grant c (feedTab grant (some callback) l m)
        (TcpClient.feedTab (some (offering callback hl.line added)) (c.view l)) := by
  have hline : TcpClient.linenoiseStrdup l.buf = some hl.line := hl.strdup
  obtain ⟨m₁, hfree, hm₁⟩ := hm.linenoiseFreeCompletions
  obtain ⟨m₂, comps, added, hadd, hm₂, hlines, -, hall⟩ := hm₁.addCompletions grant (callback hl.line)
  refine ⟨added, hall, ?_⟩
  intro vfed hv
  have hlines' : comps.lines = added := hlines
  have hoffer : offering callback hl.line added hl.line = added := if_pos rfl
  have hclen : m₂.clen = added.length := by rw [hm₂.clen, ← hlines', StringVec.length_lines]
  rw [TcpClient.feedTab, if_neg (by simp [show (c.view l).inCompletion = false from hidle]), hl.strdup,
    Option.bind_eq_bind, Option.bind_some, hoffer] at hv
  dsimp only at hv
  rw [feedTab, if_neg (by simp [hidle]), hfree]
  simp only [Option.bind_eq_bind, Option.bind_some, hline, hadd, hclen]
  by_cases hnone : added.length = 0
  · rw [if_pos hnone] at hv ⊢
    cases hv
    exact ⟨m₂, _, comps, c.saved, rfl, hm₂, rfl, rfl, .inl (by rw [Contents.view, hlines']; rfl)⟩
  · rw [if_neg hnone] at hv ⊢
    obtain ⟨comp, hcomp, hv⟩ := Option.bind_eq_some_iff.mp hv
    rw [← hlines'] at hcomp hv
    exact hm₂.showCompletion (l := { l with inCompletion := true, completionIdx := 0 }) hcomp vfed hv

theorem Mem.Owns.feedTab (hm : m.Owns c) (grant : ℕ → Bool) (completion : Option CompletionCallback)
    {before after : List Byte} (hl : (c.view l).Shows before after) :
    ∃ completion', (Generous grant → completion' = completion) ∧
      Agrees grant c (feedTab grant completion l m) (TcpClient.feedTab completion' (c.view l)) := by
  cases completion with
  | none => exact ⟨none, fun _ => rfl, hm.beside lineal_ignored⟩
  | some callback =>
    cases hactive : l.inCompletion with
    | true => exact ⟨some callback, fun _ => rfl, hm.feedTab_next callback hactive⟩
    | false =>
      obtain ⟨added, hall, hagrees⟩ := hm.feedTab_first grant callback hactive hl
      refine ⟨_, ?_, hagrees⟩
      intro hgenerous
      refine congrArg some (funext fun s => ?_)
      rw [offering, hall hgenerous]
      split_ifs with hs
      · rw [hs]
      · rfl

/-- A completion that is given up is freed. -/
theorem Mem.Owns.endCompletion (hm : m.Owns c) :
    ∃ (m' : Mem) (l' : Editor) (comps : StringVec), Memory.endCompletion l m = some (m', l') ∧
      m'.Owns { c with comps := comps } ∧ { c with comps := comps }.view l' = TcpClient.endCompletion (c.view l) := by
  unfold Memory.endCompletion TcpClient.endCompletion
  cases hactive : l.inCompletion with
  | true =>
    obtain ⟨m', hfree, hm'⟩ := hm.linenoiseFreeCompletions
    rw [if_pos rfl, if_pos (show (c.view l).inCompletion = true from hactive), hfree]
    exact ⟨m', _, {}, rfl, hm', rfl⟩
  | false =>
    rw [if_neg (by simp), if_neg (by simp [show (c.view l).inCompletion = false from hactive])]
    exact ⟨m, l, c.comps, rfl, hm, rfl⟩

/-! ### The keys -/

theorem Mem.Owns.feedNormal (hm : m.Owns c) (completion : Option CompletionCallback) (k : Byte)
    {before after : List Byte} (hl : (c.view l).Shows before after) :
    ∃ completion', (Generous grant → completion' = completion) ∧
      Agrees grant c (feedNormal grant completion k l m) (TcpClient.feedNormal completion' k (c.view l)) := by
  unfold Memory.feedNormal TcpClient.feedNormal
  by_cases htab : k = 9
  · subst htab
    simpa using hm.feedTab grant completion hl
  refine ⟨completion, fun _ => rfl, ?_⟩
  obtain ⟨m', l', comps, hend, hm', hview⟩ := hm.endCompletion (l := l)
  rw [if_neg htab, hend, if_neg htab, ← hview]
  simp only [Option.bind_eq_bind, Option.bind_some]
  split_ifs
  · exact hm'.beside (f := fun l => ignored { l with escState := .esc }) fun _ _ _ => rfl
  · exact hm'.beside (f := fun l => ignored { l with escState := .winExt }) fun _ _ _ => rfl
  · exact hm'.beside (lineal_feedEditing k)

theorem Agrees.ite {p : Prop} [Decidable p] {r r' : Option (Mem × Fed)} {v v' : Option Fed} (hr : Agrees grant c r v)
    (hr' : Agrees grant c r' v') : Agrees grant c (if p then r else r') (if p then v else v') := by
  split_ifs
  · exact hr
  · exact hr'

theorem Mem.Owns.feedLetter (hm : m.Owns c) (hh : h.Holds c.hist.lines) (hidx : l.historyIndex ≤ h.len) (k : Byte) :
    Agrees grant c (feedLetter grant k l m) (TcpClient.feedLetter h k (c.view l)) := by
  unfold Memory.feedLetter TcpClient.feedLetter
  refine .ite (hm.handleUp hh hidx) (.ite (hm.handleDown hh) ?_)
  refine .ite (hm.beside lineal_handleRight) (.ite (hm.beside lineal_handleLeft) ?_)
  exact .ite (hm.beside lineal_handleHome) (.ite (hm.beside lineal_handleEnd) (hm.beside lineal_ignored))

theorem Mem.Owns.feedWinExt (hm : m.Owns c) (hh : h.Holds c.hist.lines) (hidx : l.historyIndex ≤ h.len) (k : Byte) :
    Agrees grant c (feedWinExt grant k l m) (TcpClient.feedWinExt h k (c.view l)) := by
  unfold Memory.feedWinExt TcpClient.feedWinExt
  refine .ite (hm.handleUp (l := { l with escState := .normal }) hh hidx) ?_
  refine .ite (hm.handleDown (l := { l with escState := .normal }) hh) ?_
  refine .ite (hm.beside (l := { l with escState := .normal }) lineal_handleLeft) ?_
  refine .ite (hm.beside (l := { l with escState := .normal }) lineal_handleRight) ?_
  refine .ite (hm.beside (l := { l with escState := .normal }) lineal_handleHome) ?_
  refine .ite (hm.beside (l := { l with escState := .normal }) lineal_handleEnd) ?_
  exact .ite (hm.beside (l := { l with escState := .normal }) lineal_handleDelete)
    (hm.beside (l := { l with escState := .normal }) lineal_ignored)

/-- **Each key does to the pointers what it does to the values**, but that a completion may not be offered and
a saved line lost. -/
theorem Mem.Owns.feed (hm : m.Owns c) (grant : ℕ → Bool) (hh : h.Holds c.hist.lines) {n : ℕ} (hl : (c.view l).Sound h n)
    (completion : Option CompletionCallback) (k : Key) :
    ∃ completion', (Generous grant → completion' = completion) ∧
      Agrees grant c (linenoiseEditFeed grant completion l m k)
        (TcpClient.linenoiseEditFeed completion' h (c.view l) k) := by
  obtain ⟨before, after, hshows⟩ := hl.text
  have hidx : l.historyIndex ≤ h.len := hl.history
  unfold Memory.linenoiseEditFeed TcpClient.linenoiseEditFeed
  by_cases hnone : l.buf.length = 0
  · refine ⟨completion, fun _ => rfl, ?_⟩
    rw [if_pos hnone, if_pos (show (c.view l).buf.length = 0 from hnone)]
    exact hm.beside lineal_ignored
  simp only [if_neg hnone, if_neg (show ¬ (c.view l).buf.length = 0 from hnone)]
  cases k with
  | none => exact ⟨completion, fun _ => rfl, hm.beside (f := fun l => some ⟨-1, l, []⟩) fun _ _ _ => rfl⟩
  | some k =>
    have hstate : (c.view l).escState = l.escState := rfl
    simp only [hstate]
    cases l.escState with
    | normal => exact hm.feedNormal completion k hshows
    | esc => exact ⟨completion, fun _ => rfl, hm.beside (lineal_feedEsc k)⟩
    | csi =>
      refine ⟨completion, fun _ => rfl, .ite ?_ (hm.feedLetter (l := { l with escState := .normal }) hh hidx k)⟩
      exact hm.beside (f := fun l => ignored { l with csiNum := digit k, escState := .csiNum }) fun _ _ _ => rfl
    | csiNum => exact ⟨completion, fun _ => rfl, hm.beside (lineal_feedCsiNum k)⟩
    | ss3 => exact ⟨completion, fun _ => rfl, hm.feedLetter (l := { l with escState := .normal }) hh hidx k⟩
    | winExt => exact ⟨completion, fun _ => rfl, hm.feedWinExt hh hidx k⟩

end Agree

/-! ### The operations -/

/-- The history and the editor with their strings as values, and what the calls returned and printed. -/
structure Values where
  history : History := {}
  editor : Editor := { buf := [], prompt := [] }
  results : List (ℤ × List Byte) := []

/-- A call that changes the history alone. -/
def Values.call (v : Values) (r : Option (ℤ × History)) : Option Values := do
  let (rc, h) ← r
  return { v with history := h, results := v.results ++ [(rc, [])] }

/-- A key comes. -/
def valueKey (completion : Option CompletionCallback) (v : Values) (k : Key) : Option Values := do
  let fed ← TcpClient.linenoiseEditFeed completion v.history v.editor k
  return { v with editor := fed.editor, results := v.results ++ [(fed.rc, fed.out)] }

/-- One operation, on values. -/
def valueStep (completion : Option CompletionCallback) (v : Values) : Op → Option Values
  | .setMaxLen len => v.call (TcpClient.linenoiseHistorySetMaxLen len v.history)
  | .add line => v.call (TcpClient.linenoiseHistoryAdd line v.history)
  | .save => do
    let text ← TcpClient.linenoiseHistorySave v.history
    return { v with results := v.results ++ [(0, text)] }
  | .start buf prompt => do
    let (l, out) ← TcpClient.linenoiseEditStart v.history buf.1 prompt
    return { v with editor := l, results := v.results ++ [(0, out)] }
  | .key k => valueKey completion v k
  | .stop => some { v with editor := TcpClient.linenoiseEditStop v.editor }
  | .free => do
    let h ← TcpClient.linenoiseHistoryFree v.history
    return { v with history := h, editor := { v.editor with savedLine := none } }

/-- What an operation does to the history. -/
def Op.history : Op → Option HistoryOp
  | .setMaxLen len => some (.setMaxLen len)
  | .add line => some (.add line)
  | .free => some .free
  | _ => none

/-- `Loses grant completion s ops kept`: of what `ops` do to the history from `s` on, `kept` is done. Left out
are additions, each one for which an allocation was denied that it asked for. -/
inductive Loses (grant : ℕ → Bool) (completion : Option CompletionCallback) : St → List Op → List HistoryOp → Prop where
  | nil (s : St) : Loses grant completion s [] []
  | keep {s t : St} {op : Op} {ops : List Op} {kept : List HistoryOp} : step grant completion s op = some t →
      Loses grant completion t ops kept → Loses grant completion s (op :: ops) (op.history.toList ++ kept)
  | lose {s t : St} {line : CStr} {ops : List Op} {kept : List HistoryOp} :
      step grant completion s (.add line) = some t → s.mem.heap.Denied grant t.mem.heap →
      Loses grant completion t ops kept → Loses grant completion s (.add line :: ops) kept

section Runs

variable {grant : ℕ → Bool} {completion : Option CompletionCallback} {m : Mem} {c : Contents} {l : Editor} {h h' : History}
  {s : St} {v : Values} {n : ℕ} {entries : List CStr} {line : CStr} {editing : Bool} {op : Op} {ops : List Op}

/-- A key is there only where one may come. -/
theorem inOrder_cons (h : inOrder editing (op :: ops) = true) :
    (∀ k, op = .key k → editing = true) ∧ inOrder (op.editing editing) ops = true := by
  cases op with
  | key k =>
    rw [inOrder, Bool.and_eq_true] at h
    exact ⟨fun _ _ => h.1, h.2⟩
  | _ => exact ⟨fun _ heq => (by cases heq), h⟩

/-- The history may be longer. -/
theorem sound_longer (hl : l.Sound h n) (hlen : h.len ≤ h'.len) : l.Sound h' n :=
  { hl with history := hl.history.trans hlen }

/-- An editor that was stopped is sound. -/
theorem sound_stop (hl : l.Sound h n) : (TcpClient.linenoiseEditStop l).Sound h n := by
  obtain ⟨before, after, hshows⟩ := hl.text
  exact ⟨hl.buflen, ⟨before, after, hshows.holds, hshows.pos, hshows.len⟩, hl.history,
    by simp [TcpClient.linenoiseEditStop], by simp [TcpClient.linenoiseEditStop]⟩

/-- Adding a line does not make the history shorter. -/
theorem length_le_remember {max : ℕ} (hroom : entries.length ≤ max) (line : CStr) :
    entries.length ≤ (remember max entries line).length := by
  rw [remember_eq]
  split_ifs
  · exact le_rfl
  · rw [length_keepLast, List.length_append]
    omega

/-- A saved line that is lost leaves the editor sound. -/
theorem sound_dropSaved (hl : l.Sound h n) : ({ l with savedLine := none } : Editor).Sound h n := by
  obtain ⟨before, after, hshows⟩ := hl.text
  exact ⟨hl.buflen, ⟨before, after, hshows.holds, hshows.pos, hshows.len⟩, hl.history, hl.active, hl.index⟩

/-- The history as a value. -/
def Contents.past (c : Contents) : History := ⟨c.hist.lines.map some, c.hist.strings.length, c.max⟩

theorem Mem.Owns.past_holds (hm : m.Owns c) : c.past.Holds c.hist.lines :=
  ⟨⟨[], (List.append_nil _).symm⟩, (StringVec.length_lines _).symm, hm.room, hm.pos⟩

/-- All that is allocated is owned, and where a key may come the editor is sound. -/
def Editing (editing : Bool) (c : Contents) (s : St) : Prop :=
  s.mem.Owns c ∧ (editing = true → ∃ n, (c.view s.editor).Sound c.past n)

/-- A key, whatever is denied. -/
theorem Editing.key (hs : Editing true c s) (grant : ℕ → Bool) (completion : Option CompletionCallback) (k : Key) :
    ∃ t comps saved, key grant completion s k = some t ∧ Editing true { c with comps := comps, saved := saved } t := by
  obtain ⟨hm, hediting⟩ := hs
  obtain ⟨n, hl⟩ := hediting rfl
  have hh := hm.past_holds
  obtain ⟨completion', -, hagrees⟩ := hm.feed grant hh hl completion k
  obtain ⟨vfed, hvfed, hsound⟩ := hl.feed completion' hh k
  obtain ⟨m', fed, comps, saved, hfed, hm', -, -, hview⟩ := hagrees vfed hvfed
  refine ⟨⟨m', fed.editor, s.results ++ [(fed.rc, fed.out)]⟩, comps, saved, by rw [Memory.key, hfed]; rfl, hm',
    fun _ => ⟨n, ?_⟩⟩
  rcases hview with hview | ⟨-, hview⟩
  · exact hview ▸ hsound
  · exact hview ▸ sound_dropSaved hsound

/-- Editing is begun. -/
theorem Mem.Owns.linenoiseEditStart (hm : m.Owns c) (hlen : h.len = c.hist.strings.length) {buf : List Byte}
    (hbuf : 1 ≤ buf.length) (prompt : List Byte) :
    ∃ (m' : Mem) (l : Editor) (out : List Byte), linenoiseEditStart buf prompt m = some (m', l, out) ∧
      TcpClient.linenoiseEditStart h buf prompt = some (l, out) ∧ m'.Owns { c with comps := {}, saved := none } ∧
      { c with comps := {}, saved := none }.view l = l ∧ l.Sound h buf.length := by
  obtain ⟨m₁, hsaved, hm₁⟩ := hm.freeSavedLine
  obtain ⟨m₂, hcomps, hm₂⟩ := hm₁.linenoiseFreeCompletions
  obtain ⟨l, out, hstart, hl, -⟩ := linenoiseEditStart_sound h hbuf prompt
  have hsame : TcpClient.linenoiseEditStart { len := m₂.historyLen } buf prompt = some (l, out) := by
    have hlen₂ : m₂.historyLen = h.len := hm₂.historyLen.trans hlen.symm
    rw [← hstart, TcpClient.linenoiseEditStart, TcpClient.linenoiseEditStart, hlen₂]
  refine ⟨m₂, l, out, ?_, hstart, hm₂, ?_, hl⟩
  · rw [Memory.linenoiseEditStart, hsaved, Option.bind_eq_bind, Option.bind_some, hcomps, Option.bind_some, hsame]
    rfl
  · -- nothing is saved, and no completion in progress
    have hstore : store buf 0 0 = some (buf.set 0 0) := if_pos hbuf
    rw [TcpClient.linenoiseEditStart, hstore, Option.bind_eq_bind, Option.bind_some] at hstart
    obtain ⟨out', -, hl'⟩ := Option.bind_eq_some_iff.mp hstart
    cases hl'
    rfl

/-- Editing is over. -/
theorem Mem.Owns.linenoiseEditStop (hm : m.Owns c) (l : Editor) :
    ∃ m', linenoiseEditStop l m = some (m', TcpClient.linenoiseEditStop l) ∧
      m'.Owns { c with comps := {}, saved := none } := by
  obtain ⟨m₁, hcomps, hm₁⟩ := hm.linenoiseFreeCompletions
  obtain ⟨m₂, hsaved, hm₂⟩ := hm₁.freeSavedLine
  refine ⟨m₂, ?_, hm₂⟩
  rw [Memory.linenoiseEditStop, hcomps, Option.bind_eq_bind, Option.bind_some, hsaved]
  rfl

/-- **Every operation keeps what is owned**, and does to the history what it does to the log, but that a line
may not be added for which an allocation was denied. -/
theorem Editing.step (hs : Editing editing c s) (grant : ℕ → Bool) (completion : Option CompletionCallback) (op : Op)
    (hop : ∀ k, op = .key k → editing = true) :
    ∃ t c', step grant completion s op = some t ∧ Editing (op.editing editing) c' t ∧
      ((∃ line, op = .add line ∧ c'.hist.lines = c.hist.lines ∧ c'.max = c.max ∧
          s.mem.heap.Denied grant t.mem.heap) ∨
        (⟨c'.hist.lines, c'.max⟩ : Log) = HistoryOp.logAll op.history.toList ⟨c.hist.lines, c.max⟩) := by
  obtain ⟨hm, hediting⟩ := id hs
  cases op with
  | setMaxLen len =>
    by_cases hlen : len < 1
    · have hcall : Memory.linenoiseHistorySetMaxLen grant len s.mem = some (0, s.mem) := if_pos hlen
      refine ⟨{ s with results := s.results ++ [(0, [])] }, c, ?_, ⟨hm, fun hno => by cases hno⟩, .inr ?_⟩
      · rw [Memory.step, hcall]
        rfl
      · exact (if_pos hlen).symm
    · obtain ⟨m', hist, hset, hm', hlines⟩ := hm.linenoiseHistorySetMaxLen grant (Int.not_lt.mp hlen)
      refine ⟨⟨m', s.editor, s.results ++ [(1, [])]⟩, _, ?_, ⟨hm', fun hno => by cases hno⟩, .inr ?_⟩
      · rw [Memory.step, hset]
        rfl
      · exact (congrArg (Log.mk · len.toNat) hlines).trans (if_neg hlen).symm
  | add line =>
    obtain ⟨rc, m', hist, hadd, hm', heffect⟩ := hm.linenoiseHistoryAdd grant line
    -- the place in the history stays one
    have hlonger : c.past.len ≤ hist.strings.length := by
      have hroom : c.hist.lines.length ≤ c.max := by
        rw [StringVec.length_lines]
        exact hm.room
      have hlines : c.hist.lines.length ≤ hist.lines.length := by
        rcases heffect with ⟨-, hlines⟩ | ⟨-, hlines, -⟩
        · rw [hlines]
          exact length_le_remember hroom line
        · rw [hlines]
      rwa [StringVec.length_lines, StringVec.length_lines] at hlines
    refine ⟨⟨m', s.editor, s.results ++ [(rc, [])]⟩, _, by rw [Memory.step, hadd]; rfl, ⟨hm', fun hyes => ?_⟩, ?_⟩
    · obtain ⟨n, hl⟩ := hediting hyes
      exact ⟨n, sound_longer hl hlonger⟩
    · rcases heffect with ⟨-, hlines⟩ | ⟨-, hlines, hdenied⟩
      · refine .inr ?_
        rw [remember_eq] at hlines
        change _ = HistoryOp.log (.add line) ⟨c.hist.lines, c.max⟩
        rw [HistoryOp.log]
        dsimp only
        rw [hlines]
        split_ifs <;> rfl
      · exact .inl ⟨line, rfl, hlines, rfl, hdenied⟩
  | save =>
    have hsave : Memory.linenoiseHistorySave s.mem = some (c.hist.lines.flatMap fun line => line.chars ++ [10]) := by
      rw [Memory.linenoiseHistorySave, hm.history, hm.historyLen, StringVec.texts_eq hm.heap_hist]
      rfl
    exact ⟨⟨s.mem, s.editor, s.results ++ [(0, _)]⟩, c, by rw [Memory.step, hsave]; rfl, hs, .inr rfl⟩
  | start buf prompt =>
    obtain ⟨m', l, out, hstart, -, hm', hview, hl⟩ := hm.linenoiseEditStart (h := c.past) rfl buf.2 prompt
    exact ⟨⟨m', l, s.results ++ [(0, out)]⟩, _, by rw [Memory.step, hstart]; rfl,
      ⟨hm', fun _ => ⟨buf.1.length, hview.symm ▸ hl⟩⟩, .inr rfl⟩
  | key k =>
    obtain rfl := hop k rfl
    obtain ⟨t, comps, saved, hkey, ht⟩ := hs.key grant completion k
    exact ⟨t, _, hkey, ht, .inr rfl⟩
  | stop =>
    obtain ⟨m', hstop, hm'⟩ := hm.linenoiseEditStop s.editor
    refine ⟨⟨m', TcpClient.linenoiseEditStop s.editor, s.results⟩, _, by rw [Memory.step, hstop]; rfl,
      ⟨hm', fun hyes => ?_⟩, .inr rfl⟩
    obtain ⟨n, hl⟩ := hediting hyes
    have hstopped := sound_stop hl
    exact ⟨n, hstopped⟩
  | free =>
    obtain ⟨m', hfree, hm'⟩ := hm.linenoiseHistoryFree
    exact ⟨⟨m', s.editor, s.results⟩, _, by rw [Memory.step, hfree]; rfl, ⟨hm', fun hno => by cases hno⟩, .inr rfl⟩

/-- A run of operations, whatever is denied. -/
theorem Editing.run (hs : Editing editing c s) (grant : ℕ → Bool) (completion : Option CompletionCallback)
    (hops : inOrder editing ops = true) :
    ∃ t c' kept, ops.foldlM (Memory.step grant completion) s = some t ∧ t.mem.Owns c' ∧
      Loses grant completion s ops kept ∧
      (⟨c'.hist.lines, c'.max⟩ : Log) = HistoryOp.logAll kept ⟨c.hist.lines, c.max⟩ := by
  induction ops generalizing s c editing with
  | nil => exact ⟨s, c, [], rfl, hs.1, .nil s, rfl⟩
  | cons op ops ih =>
    obtain ⟨hop, hops⟩ := inOrder_cons hops
    obtain ⟨s₁, c₁, hstep, hs₁, heffect⟩ := hs.step grant completion op hop
    obtain ⟨t, c', kept, hrun, hm', hloses, hlog⟩ := ih hs₁ hops
    rw [List.foldlM_cons, hstep]
    rcases heffect with ⟨line, rfl, hlines, hmax, hdenied⟩ | heffect
    · refine ⟨t, c', kept, hrun, hm', .lose hstep hdenied hloses, ?_⟩
      rw [hlog, hlines, hmax]
    · refine ⟨t, c', op.history.toList ++ kept, hrun, hm', .keep hstep hloses, ?_⟩
      rw [hlog, heffect, HistoryOp.logAll, HistoryOp.logAll, HistoryOp.logAll, List.foldl_append]

theorem editing_init : Editing false {} {} := ⟨owns_init, fun hno => by cases hno⟩

/-- What is pointed to are the blocks of the contents. -/
theorem Mem.Owns.owned (hm : m.Owns c) : m.owned = some (c.footprint.map Prod.fst) := by
  have hload : ∀ (v : StringVec) (rest : List (ℕ × Block)), m.heap.Has (v.blocks ++ rest) →
      (List.range v.strings.length).mapM (m.heap.load v.array) = some (v.strings.map Prod.fst) := by
    intro v rest hh
    have hentry : ∀ i (hi : i < (v.strings.map Prod.fst).length),
        m.heap.load v.array i = some (v.strings.map Prod.fst)[i] := by
      intro i hi
      rw [List.length_map] at hi
      rw [(StringVec.load_eq hh hi).1, List.getElem_map]
    have hall := mapM_range_eq hentry
    rwa [List.length_map] at hall
  have hblocks : ∀ v : StringVec, v.blocks.map Prod.fst = v.array.toList ++ v.strings.map Prod.fst := by
    intro v
    rw [StringVec.blocks, List.map_append, StringVec.texts, List.map_map]
    cases v.array <;> rfl
  have hsaved : (StringVec.texts c.saved.toList).map Prod.fst = m.savedLine.toList := by
    rw [hm.savedLine]
    cases c.saved <;> rfl
  rw [Mem.owned, hm.history, hm.historyLen, hm.cvec, hm.clen, hload _ _ hm.heap_hist, hload _ _ hm.heap_comps,
    Contents.footprint, List.map_append, List.map_append, hblocks, hblocks, hsaved]
  rfl

/-! ### Every allocation granted -/

/-- The pointers lead to the values, and where a key may come the editor is sound. -/
def Mirrors (editing : Bool) (s : St) (v : Values) : Prop :=
  (∃ c, s.mem.Owns c ∧ v.history.Holds c.hist.lines ∧ v.history.maxLen = c.max ∧ c.view s.editor = v.editor ∧
    s.results = v.results) ∧
  (editing = true → ∃ n, v.editor.Sound v.history n)

/-- What `linenoiseHistoryAdd` returns. -/
theorem linenoiseHistoryAdd_rc (hh : h.Holds entries) (line : CStr) :
    ∃ h', TcpClient.linenoiseHistoryAdd line h =
        some (if line = CStr.empty ∨ entries.getLast? = some line then 0 else 1, h') ∧
      h'.maxLen = h.maxLen ∧ h'.Holds (remember h.maxLen entries line) := by
  have hpos := hh.pos
  obtain ⟨rc, h', hadd, hmax, hh'⟩ := linenoiseHistoryAdd_holds hh line
  refine ⟨h', ?_, hmax, hh'⟩
  have hrc := hadd
  rw [TcpClient.linenoiseHistoryAdd, hh.repeats line] at hrc
  rw [hadd]
  by_cases hempty : line = CStr.empty
  · rw [if_pos (.inl hempty)] at hrc
    rw [if_pos (.inl hempty)]
    cases hrc
    rfl
  rw [if_neg (not_or.mpr ⟨hempty, hpos.ne'⟩), Option.bind_eq_bind, Option.bind_some] at hrc
  by_cases hlast : entries.getLast? = some line
  · rw [if_pos (.inr hlast)]
    simp only [hlast, decide_true, if_true] at hrc
    cases hrc
    rfl
  · rw [if_neg (not_or.mpr ⟨hempty, hlast⟩)]
    simp only [decide_eq_false hlast, Bool.false_eq_true, if_false] at hrc
    split_ifs at hrc <;> obtain ⟨h₁, -, heq⟩ := Option.bind_eq_some_iff.mp hrc <;> cases heq <;> rfl

/-- A key, while every allocation is granted. -/
theorem mirrors_key (hgrant : Generous grant) (completion : Option CompletionCallback) (hs : Mirrors true s v) (k : Key) :
    ∃ s' v', key grant completion s k = some s' ∧ valueKey completion v k = some v' ∧ Mirrors true s' v' := by
  obtain ⟨⟨c, hm, hh, hmax, hview, hresults⟩, hediting⟩ := hs
  obtain ⟨n, hl⟩ := hediting rfl
  rw [← hview] at hl
  obtain ⟨completion', hall, hagrees⟩ := hm.feed grant hh hl completion k
  rw [hall hgrant] at hagrees
  obtain ⟨vfed, hvfed, hsound⟩ := hl.feed completion hh k
  obtain ⟨m', fed, comps, saved, hfed, hm', hrc, hout, hview'⟩ := hagrees vfed hvfed
  rcases hview' with hview' | ⟨hdenied, -⟩
  · refine ⟨⟨m', fed.editor, s.results ++ [(fed.rc, fed.out)]⟩,
      ⟨v.history, vfed.editor, v.results ++ [(vfed.rc, vfed.out)]⟩, by rw [key, hfed]; rfl, ?_,
      ⟨_, hm', hh, hmax, hview', ?_⟩, fun _ => ⟨n, hsound⟩⟩
    · rw [valueKey, ← hview, hvfed]
      rfl
    · rw [hresults, hrc, hout]
  · exact absurd hgrant hdenied

/-- **An operation, while every allocation is granted.** -/
theorem mirrors_step (hgrant : Generous grant) (completion : Option CompletionCallback) (hs : Mirrors editing s v)
    (op : Op) (hop : ∀ k, op = .key k → editing = true) :
    ∃ s' v', Memory.step grant completion s op = some s' ∧ valueStep completion v op = some v' ∧
      Mirrors (op.editing editing) s' v' := by
  obtain ⟨⟨c, hm, hh, hmax, hview, hresults⟩, hediting⟩ := id hs
  cases op with
  | setMaxLen len =>
    by_cases hlen : len < 1
    · have hset : Memory.linenoiseHistorySetMaxLen grant len s.mem = some (0, s.mem) := if_pos hlen
      have hset' : TcpClient.linenoiseHistorySetMaxLen len v.history = some (0, v.history) := if_pos hlen
      refine ⟨{ s with results := s.results ++ [(0, [])] }, { v with results := v.results ++ [(0, [])] }, ?_, ?_,
        ⟨c, hm, hh, hmax, hview, by rw [hresults]⟩, fun hno => by cases hno⟩
      · rw [Memory.step, hset]
        rfl
      · rw [valueStep, hset']
        rfl
    · obtain ⟨m', hist, hset, hm', hlines⟩ := hm.linenoiseHistorySetMaxLen grant (Int.not_lt.mp hlen)
      obtain ⟨h', hset', hmax', hh'⟩ := linenoiseHistorySetMaxLen_holds hh (Int.not_lt.mp hlen)
      rw [← hlines] at hh'
      refine ⟨⟨m', s.editor, s.results ++ [(1, [])]⟩, ⟨h', v.editor, v.results ++ [(1, [])]⟩, ?_, ?_,
        ⟨_, hm', hh', hmax', hview, by rw [hresults]⟩, fun hno => by cases hno⟩
      · rw [Memory.step, hset]
        rfl
      · rw [valueStep, hset']
        rfl
  | add line =>
    obtain ⟨rc, m', hist, hadd, hm', ⟨hrc, hlines⟩ | ⟨-, -, hdenied⟩⟩ := hm.linenoiseHistoryAdd grant line
    · obtain ⟨h', hadd', hmax', hh'⟩ := linenoiseHistoryAdd_rc hh line
      rw [← hrc] at hadd'
      have hlonger : v.history.len ≤ h'.len := by
        rw [hh.len, hh'.len]
        exact length_le_remember (hh.len ▸ hh.room) line
      rw [hmax, ← hlines] at hh'
      refine ⟨⟨m', s.editor, s.results ++ [(rc, [])]⟩, ⟨h', v.editor, v.results ++ [(rc, [])]⟩, ?_, ?_,
        ⟨_, hm', hh', hmax'.trans hmax, hview, by rw [hresults]⟩, fun hyes => ?_⟩
      · rw [Memory.step, hadd]
        rfl
      · rw [valueStep, hadd']
        rfl
      · obtain ⟨n, hl⟩ := hediting hyes
        exact ⟨n, sound_longer hl hlonger⟩
    · exact absurd hgrant hdenied.not_all
  | save =>
    have hsave : Memory.linenoiseHistorySave s.mem = TcpClient.linenoiseHistorySave v.history := by
      rw [linenoiseHistorySave_holds hh, Memory.linenoiseHistorySave, hm.history, hm.historyLen,
        StringVec.texts_eq hm.heap_hist]
      rfl
    rw [Memory.step, valueStep, hsave, linenoiseHistorySave_holds hh]
    exact ⟨_, _, rfl, rfl, ⟨c, hm, hh, hmax, hview, by rw [hresults]⟩, hediting⟩
  | start buf prompt =>
    have hlen : v.history.len = c.hist.strings.length := hh.len.trans (StringVec.length_lines _)
    obtain ⟨m', l, out, hstart, hstart', hm', hview', hl⟩ := hm.linenoiseEditStart hlen buf.2 prompt
    refine ⟨⟨m', l, s.results ++ [(0, out)]⟩, { v with editor := l, results := v.results ++ [(0, out)] }, ?_, ?_,
      ⟨_, hm', hh, hmax, hview', by rw [hresults]⟩, fun _ => ⟨buf.1.length, hl⟩⟩
    · rw [Memory.step, hstart]
      rfl
    · rw [valueStep, hstart']
      rfl
  | key k =>
    obtain rfl := hop k rfl
    exact mirrors_key hgrant completion hs k
  | stop =>
    obtain ⟨m', hstop, hm'⟩ := hm.linenoiseEditStop s.editor
    refine ⟨⟨m', TcpClient.linenoiseEditStop s.editor, s.results⟩, _, ?_, rfl, ⟨_, hm', hh, hmax, ?_, hresults⟩,
      fun hyes => ?_⟩
    · rw [Memory.step, hstop]
      rfl
    · rw [← hview]
      rfl
    · obtain ⟨n, hl⟩ := hediting hyes
      exact ⟨n, sound_stop hl⟩
  | free =>
    obtain ⟨m', hfree, hm'⟩ := hm.linenoiseHistoryFree
    obtain ⟨h', hfree', hmax', hh'⟩ := linenoiseHistoryFree_holds hh
    refine ⟨⟨m', s.editor, s.results⟩, ⟨h', { v.editor with savedLine := none }, v.results⟩, ?_, ?_,
      ⟨_, hm', hh', hmax'.trans hmax, ?_, hresults⟩, fun hno => by cases hno⟩
    · rw [Memory.step, hfree]
      rfl
    · rw [valueStep, hfree']
      rfl
    · rw [← hview]
      rfl

/-- A run of operations, while every allocation is granted. -/
theorem mirrors_run (hgrant : Generous grant) (completion : Option CompletionCallback) (hs : Mirrors editing s v)
    (hops : inOrder editing ops = true) :
    ∃ s' v' editing', ops.foldlM (Memory.step grant completion) s = some s' ∧
      ops.foldlM (valueStep completion) v = some v' ∧ Mirrors editing' s' v' := by
  induction ops generalizing s v editing with
  | nil => exact ⟨s, v, editing, rfl, rfl, hs⟩
  | cons op ops ih =>
    obtain ⟨hop, hops⟩ := inOrder_cons hops
    obtain ⟨s₁, v₁, hstep, hstep', hs₁⟩ := mirrors_step hgrant completion hs op hop
    obtain ⟨s', v', editing', hrun, hrun', hs'⟩ := ih hs₁ hops
    refine ⟨s', v', editing', ?_, ?_, hs'⟩
    · rw [List.foldlM_cons, hstep]
      exact hrun
    · rw [List.foldlM_cons, hstep']
      exact hrun'

/-- What is read through the pointers. -/
theorem Mem.Owns.savedLine_eq (hm : m.Owns c) :
    m.savedLine.mapM m.heap.text = some (c.saved.map Prod.snd) := by
  rw [hm.savedLine]
  cases hsaved : c.saved with
  | none => rfl
  | some ps =>
    have htext : m.heap.text ps.1 = some ps.2 := by
      refine StringVec.text_of_mem (s := ps.2) hm.heap ?_
      rw [Contents.footprint, hsaved]
      exact List.mem_append_left _ List.mem_cons_self
    simp [htext]

end Runs

/-! ### Any run -/

/-- **The line editor is safe with what it allocates.** Whichever allocations are denied, every run of
calls in order is defined: nothing is read, written or freed through a pointer to a block
that is not allocated. In every state reached the blocks that are allocated are those there are
pointers to, each pointed to from one place. When the editor is stopped and the history freed,
nothing is allocated. -/
theorem memory_safe (grant : ℕ → Bool) (completion : Option CompletionCallback) (ops : List Op)
    (hops : inOrder false ops = true) :
    ∃ s t ps, ops.foldlM (step grant completion) {} = some s ∧ s.mem.owned = some ps ∧
      s.mem.heap.addresses.Perm ps ∧ ps.Nodup ∧ [Op.stop, .free].foldlM (step grant completion) s = some t ∧
      t.mem.heap.addresses = [] := by
  obtain ⟨s, c, -, hrun, hm, -, -⟩ := Editing.run (s := {}) editing_init grant completion hops
  obtain ⟨m₁, hstop, hm₁⟩ := hm.linenoiseEditStop s.editor
  obtain ⟨m₂, hfree, hm₂⟩ := hm₁.linenoiseHistoryFree
  refine ⟨s, ⟨m₂, TcpClient.linenoiseEditStop s.editor, s.results⟩, _, hrun, hm.owned, hm.heap.addresses, hm.heap.nodup,
    ?_, ?_⟩
  · rw [List.foldlM_cons, step, hstop]
    simp [step, hfree]
  · exact List.Perm.eq_nil hm₂.heap.addresses

/-- A line is added while another is edited, between two keys that recall one, and the fourth allocation is
denied. -/
theorem memory_safe_up :
    ∃ s, [Op.add ⟨[97], by decide⟩, .start ⟨[7, 7, 7], by decide⟩ [], .key (some 27), .key (some 91), .key (some 65),
        .add ⟨[98], by decide⟩, .key (some 27), .key (some 91), .key (some 66)].foldlM
        (step (fun n => n ≠ 3) none) {} = some s := by
  obtain ⟨s, -, -, hrun, -⟩ := memory_safe (fun n => n ≠ 3) none
    [Op.add ⟨[97], by decide⟩, .start ⟨[7, 7, 7], by decide⟩ [], .key (some 27), .key (some 91), .key (some 65),
      .add ⟨[98], by decide⟩, .key (some 27), .key (some 91), .key (some 66)] rfl
  exact ⟨s, hrun⟩

/-- Five lines are added, and the history is cut to two while a line is edited: the Up key reads an entry that is
gone. -/
example :
    let lines := [[97], [98], [99], [100], [101]].map fun text : List Byte => Op.add (CStr.ofMem text)
    let ops := lines ++ [.start ⟨[0, 0], by decide⟩ [], .setMaxLen 2, .key (some 27), .key (some 91), .key (some 65)]
    inOrder false ops = false ∧ (ops.foldlM (step (fun _ => true) none) {}).isNone := by
  decide +kernel

/-- **Where every allocation is granted, the pointers do what the values do**: the calls return and print the
same, and what is read through the pointers at the end are the values. -/
theorem memory_refines (grant : ℕ → Bool) (completion : Option CompletionCallback) (ops : List Op)
    (hops : inOrder false ops = true) (hgrant : ∀ n, grant n = true) :
    ∃ s v, ops.foldlM (step grant completion) {} = some s ∧ ops.foldlM (valueStep completion) {} = some v ∧
      s.results = v.results ∧
      s.mem.heap.texts s.mem.history s.mem.historyLen = (List.range v.history.len).mapM v.history.get ∧
      s.mem.historyMaxLen = v.history.maxLen ∧ s.mem.savedLine.mapM s.mem.heap.text = some v.editor.savedLine ∧
      s.mem.heap.texts s.mem.cvec s.mem.clen = some v.editor.cachedCompletions ∧
      keeping v.editor.savedLine v.editor.cachedCompletions s.editor = v.editor := by
  have hstart : Mirrors false {} {} := ⟨⟨{}, owns_init, holds_init, rfl, rfl, rfl⟩, fun hno => by cases hno⟩
  obtain ⟨s, v, -, hrun, hrun', ⟨c, hm, hh, hmax, hview, hresults⟩, -⟩ := mirrors_run hgrant completion hstart hops
  refine ⟨s, v, hrun, hrun', hresults, ?_, hm.historyMaxLen.trans hmax.symm, ?_, ?_, ?_⟩
  · rw [hm.history, hm.historyLen, StringVec.texts_eq hm.heap_hist, hh.read_all]
  · rw [hm.savedLine_eq, ← hview]
    rfl
  · rw [hm.cvec, hm.clen, StringVec.texts_eq hm.heap_comps, ← hview]
    rfl
  · rw [← hview]
    rfl

/-- Into a history of one entry, and a key that saves the line. -/
theorem memory_refines_up :
    ∃ s v, [Op.add ⟨[97, 98], by decide⟩, .start ⟨[7, 7, 7], by decide⟩ [], .key (some 27), .key (some 91),
        .key (some 65)].foldlM (step (fun _ => true) none) {} = some s ∧
      [Op.add ⟨[97, 98], by decide⟩, .start ⟨[7, 7, 7], by decide⟩ [], .key (some 27), .key (some 91),
        .key (some 65)].foldlM (valueStep none) {} = some v ∧ s.results = v.results := by
  obtain ⟨s, v, hrun, hrun', hresults, -⟩ := memory_refines (fun _ => true) none
    [Op.add ⟨[97, 98], by decide⟩, .start ⟨[7, 7, 7], by decide⟩ [], .key (some 27), .key (some 91), .key (some 65)]
    rfl fun _ => rfl
  exact ⟨s, v, hrun, hrun', hresults⟩

/-- **Where an allocation is denied, at most the line it was for is lost**: the history is the log of what
was done to it, without some of the lines that were added, and each of those asked for an allocation that was
denied. -/
theorem memory_denied (grant : ℕ → Bool) (completion : Option CompletionCallback) (ops : List Op)
    (hops : inOrder false ops = true) :
    ∃ s kept, ops.foldlM (step grant completion) {} = some s ∧ Loses grant completion {} ops kept ∧
      s.mem.heap.texts s.mem.history s.mem.historyLen = some (HistoryOp.logAll kept {}).lines ∧
      s.mem.historyMaxLen = (HistoryOp.logAll kept {}).max := by
  obtain ⟨s, c, kept, hrun, hm, hloses, hlog⟩ := Editing.run (s := {}) editing_init grant completion hops
  have hlog' : (⟨c.hist.lines, c.max⟩ : Log) = HistoryOp.logAll kept {} := hlog
  refine ⟨s, kept, hrun, hloses, ?_, ?_⟩
  · rw [hm.history, hm.historyLen, StringVec.texts_eq hm.heap_hist, ← hlog']
  · rw [hm.historyMaxLen, ← hlog']

/-- The array cannot be grown for the second of two lines. -/
theorem memory_denied_second :
    ∃ s kept, [Op.add ⟨[97], by decide⟩, .add ⟨[98], by decide⟩].foldlM (step (fun n => n ≠ 3) none) {} = some s ∧
      Loses (fun n => n ≠ 3) none {} [Op.add ⟨[97], by decide⟩, .add ⟨[98], by decide⟩] kept ∧
      s.mem.heap.texts s.mem.history s.mem.historyLen = some (HistoryOp.logAll kept {}).lines := by
  obtain ⟨s, kept, hrun, hloses, htexts, -⟩ :=
    memory_denied (fun n => n ≠ 3) none [Op.add ⟨[97], by decide⟩, .add ⟨[98], by decide⟩] rfl
  exact ⟨s, kept, hrun, hloses, htexts⟩

end TcpClient.Memory
