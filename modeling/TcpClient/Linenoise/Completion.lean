import TcpClient.Interactive.Commands
import TcpClient.Linenoise.EditKeys

/-!
# Tab goes through the matches

The matches of a completion are kept while Tabs follow one another, and the line they were looked up
for is overwritten by the first of them. So the matches must be given up by whatever else is typed:
`completing` is only set in the normal state of an escape sequence (`Settled`), and every key but Tab
clears it (`feed_ends_completion`). Then any number of Tabs shows the matches of the line there was
before the first, one after the other and round again (`tab_cycles`).
-/

namespace TcpClient

open Machine CString

/-! ### What a key leaves alone -/

/-- The call leaves the completion and the place in an escape sequence as they are in `l`. -/
def KeepsPlace (l : Editor) (r : Option Fed) : Prop :=
  ∀ fed, r = some fed → fed.editor.inCompletion = l.inCompletion ∧ fed.editor.escState = l.escState

section KeepsPlace

variable {l l' : Editor} {h : History} {c : Byte}

theorem KeepsPlace.redrawn (hactive : l'.inCompletion = l.inCompletion) (hstate : l'.escState = l.escState) :
    KeepsPlace l (redrawn l') := by
  intro fed hfed
  rw [TcpClient.redrawn] at hfed
  cases hout : linenoiseEditRedraw l' with
  | none => simp [hout] at hfed
  | some out =>
    simp only [hout, Option.bind_eq_bind, Option.bind_some, Option.pure_def, Option.some.injEq] at hfed
    rw [← hfed]
    exact ⟨hactive, hstate⟩

theorem KeepsPlace.ignored (hactive : l'.inCompletion = l.inCompletion) (hstate : l'.escState = l.escState) :
    KeepsPlace l (ignored l') := by
  rintro fed ⟨⟩
  exact ⟨hactive, hstate⟩

/-- What is done first does not matter. -/
theorem KeepsPlace.bind {α : Type} {o : Option α} {f : α → Option Fed} (hf : ∀ a, KeepsPlace l (f a)) :
    KeepsPlace l (o >>= f) := by
  intro fed hfed
  cases o with
  | none => cases hfed
  | some a => exact hf a fed hfed

theorem KeepsPlace.ite {p : Prop} [Decidable p] {r r' : Option Fed} (hr : KeepsPlace l r) (hr' : KeepsPlace l r') :
    KeepsPlace l (if p then r else r') := iteInduction (motive := KeepsPlace l) (fun _ => hr) fun _ => hr'

theorem keeps_showText (s : CStr) (hactive : l'.inCompletion = l.inCompletion) (hstate : l'.escState = l.escState) :
    KeepsPlace l (showText s l') := by
  unfold showText
  exact .bind fun _ => .bind fun _ => .redrawn hactive hstate

theorem keeps_handleUp (h : History) (l : Editor) : KeepsPlace l (handleUp h l) := by
  unfold handleUp
  exact .ite (.bind fun _ => .bind fun _ => keeps_showText _ rfl rfl) (.ignored rfl rfl)

theorem keeps_handleDown (h : History) (l : Editor) : KeepsPlace l (handleDown h l) := by
  unfold handleDown
  exact .ite (.bind fun _ => keeps_showText _ rfl rfl) (.ignored rfl rfl)

/-- The labels of the editing keys. -/
theorem keeps_label (cmd : Zipper.Command Byte) (l : Editor) : KeepsPlace l (label cmd l) := by
  cases cmd with
  | insert c => exact .ite (.bind fun _ => .bind fun _ => .bind fun _ => .redrawn rfl rfl) (.ignored rfl rfl)
  | backspace => exact .ite (.bind fun _ => .redrawn rfl rfl) (.ignored rfl rfl)
  | delete => exact .ite (.bind fun _ => .redrawn rfl rfl) (.ignored rfl rfl)
  | left => exact .ite (.redrawn rfl rfl) (.ignored rfl rfl)
  | right => exact .ite (.redrawn rfl rfl) (.ignored rfl rfl)
  | home => exact .redrawn rfl rfl
  | toEnd => exact .redrawn rfl rfl
  | clear => exact .bind fun _ => .redrawn rfl rfl
  | kill => exact .bind fun _ => .redrawn rfl rfl

theorem keeps_feedLetter (h : History) (c : Byte) (l : Editor) : KeepsPlace l (feedLetter h c l) := by
  unfold feedLetter
  refine .ite (keeps_handleUp h l) (.ite (keeps_handleDown h l) (.ite (keeps_label .right l) ?_))
  exact .ite (keeps_label .left l) (.ite (keeps_label .home l) (.ite (keeps_label .toEnd l) (.ignored rfl rfl)))

theorem keeps_feedEditing (c : Byte) (l : Editor) : KeepsPlace l (feedEditing c l) := by
  have hreturn : ∀ (o : Option (List Byte)) (rc : ℤ) (next : List Byte → Editor) (out : List Byte → List Byte),
      (∀ buf, (next buf).inCompletion = l.inCompletion ∧ (next buf).escState = l.escState) →
      KeepsPlace l (o >>= fun buf => some ⟨rc, next buf, out buf⟩) := by
    intro o rc next out hnext
    refine .bind fun buf => ?_
    rintro fed ⟨⟩
    exact hnext buf
  unfold feedEditing
  refine .ite (hreturn _ _ _ _ fun _ => ⟨rfl, rfl⟩) (.ite (keeps_label .backspace l) ?_)
  refine .ite (hreturn _ _ _ _ fun _ => ⟨rfl, rfl⟩) (.ite (.ite ?_ (keeps_label .delete l)) ?_)
  · rintro fed ⟨⟩
    exact ⟨rfl, rfl⟩
  · refine .ite (keeps_label .clear l) (.ite (keeps_label .kill l) (.ite (keeps_label .home l) ?_))
    refine .ite (keeps_label .toEnd l) (.ite (hreturn _ _ _ _ fun _ => ⟨rfl, rfl⟩) ?_)
    exact .ite (keeps_label (.insert c) l) (.ignored rfl rfl)

end KeepsPlace

/-! ### Every other key gives the matches up -/

/-- A completion is only in progress in the normal state of an escape sequence. -/
def Settled (l : Editor) : Prop := l.inCompletion = true → l.escState = .normal

section Settled

variable {completion : Option CompletionCallback} {h : History} {l : Editor} {c : Byte} {fed : Fed}

theorem inCompletion_endCompletion (l : Editor) : (endCompletion l).inCompletion = false := by
  unfold endCompletion
  split_ifs with hactive
  · rfl
  · exact Bool.eq_false_iff.mpr hactive

/-- No completion is in progress behind the call. -/
def Idle (r : Option Fed) : Prop := ∀ fed, r = some fed → fed.editor.inCompletion = false

theorem KeepsPlace.idle {r : Option Fed} (hr : KeepsPlace l r) (hidle : l.inCompletion = false) : Idle r :=
  fun fed hfed => (hr fed hfed).1.trans hidle

theorem Idle.ite {p : Prop} [Decidable p] {r r' : Option Fed} (hr : Idle r) (hr' : Idle r') :
    Idle (if p then r else r') := iteInduction (motive := Idle) (fun _ => hr) fun _ => hr'

theorem idle_ignored (hidle : l.inCompletion = false) : Idle (ignored l) := (KeepsPlace.ignored rfl rfl).idle hidle

theorem idle_label (cmd : Zipper.Command Byte) (hidle : l.inCompletion = false) : Idle (label cmd l) :=
  (keeps_label cmd l).idle hidle

theorem idle_feedCsiNum (c : Byte) (hidle : l.inCompletion = false) : Idle (feedCsiNum c l) := by
  unfold feedCsiNum
  refine .ite (.ite (idle_label .delete hidle) (.ite (idle_label .home hidle) ?_)) ?_
  · exact .ite (idle_label .toEnd hidle) (idle_ignored hidle)
  · exact .ite (idle_ignored hidle) (idle_ignored hidle)

theorem idle_feedWinExt (h : History) (c : Byte) (hidle : l.inCompletion = false) : Idle (feedWinExt h c l) := by
  unfold feedWinExt
  refine .ite ((keeps_handleUp h _).idle hidle) (.ite ((keeps_handleDown h _).idle hidle) ?_)
  refine .ite (idle_label .left hidle) (.ite (idle_label .right hidle) (.ite (idle_label .home hidle) ?_))
  exact .ite (idle_label .toEnd hidle) (.ite (idle_label .delete hidle) (idle_ignored hidle))

/-- In an escape sequence nothing is completed. -/
theorem idle_in_escape (hbuf : l.buf.length ≠ 0) (hidle : l.inCompletion = false) (hstate : l.escState ≠ .normal)
    (c : Byte) : Idle (linenoiseEditFeed completion h l (some c)) := by
  rw [feed_some hbuf]
  cases hesc : l.escState with
  | normal => exact absurd hesc hstate
  | esc => exact .ite (idle_ignored hidle) (.ite (idle_ignored hidle) (idle_ignored hidle))
  | csi => exact .ite (idle_ignored hidle) ((keeps_feedLetter h c _).idle hidle)
  | csiNum => exact idle_feedCsiNum c hidle
  | ss3 => exact (keeps_feedLetter h c _).idle hidle
  | winExt => exact idle_feedWinExt h c hidle

/-- **Any key but Tab ends a completion**, and so does a Tab that is part of an escape sequence. -/
theorem feed_ends_completion (hbuf : l.buf.length ≠ 0) (hsettled : Settled l) (hother : c ≠ 9 ∨ l.escState ≠ .normal) :
    Idle (linenoiseEditFeed completion h l (some c)) := by
  have hend := inCompletion_endCompletion l
  by_cases hstate : l.escState = .normal
  · have hc : c ≠ 9 := hother.resolve_right (not_not_intro hstate)
    rw [feed_some hbuf, hstate]
    refine .ite (idle_ignored hend) (.ite (idle_ignored hend) ?_)
    rw [if_neg hc]
    exact (keeps_feedEditing c _).idle hend
  · have hidle : l.inCompletion = false := Bool.eq_false_iff.mpr fun hactive => hstate (hsettled hactive)
    exact idle_in_escape hbuf hidle hstate c

theorem feed_tab (hbuf : l.buf.length ≠ 0) (hready : l.escState = .normal) :
    linenoiseEditFeed completion h l (some 9) = feedTab completion l := by
  rw [feed_some hbuf, hready]
  rfl

theorem Edits.escState {r : Option Fed} {rc : ℤ} {before after : List Byte} (he : Edits l r rc before after)
    (hr : r = some fed) : fed.editor.escState = l.escState := by
  obtain ⟨l', out, hr', -, hframe⟩ := he
  rw [hr] at hr'
  cases hr'
  exact hframe.escState

/-- A Tab leaves the place in an escape sequence alone. -/
theorem Editor.Sound.escState_feedTab {n : ℕ} (hl : l.Sound h n) (hfed : TcpClient.feedTab completion l = some fed) :
    fed.editor.escState = l.escState := by
  obtain ⟨before, after, hshows⟩ := hl.text
  cases completion with
  | none =>
    cases hfed
    rfl
  | some callback =>
    cases hactive : l.inCompletion with
    | true =>
      obtain ⟨comp, -, hedits⟩ := hshows.feedTab_next callback hactive (hl.active.mp hactive)
      exact hedits.escState hfed
    | false =>
      cases hshows.feedTab_first callback hactive with
      | inl hnone => exact hnone.2.escState hfed
      | inr hsome =>
        obtain ⟨comp, -, hedits⟩ := hsome
        exact hedits.escState hfed

/-- **Every key keeps completions to the normal state.** -/
theorem Editor.Sound.settled_feed {n : ℕ} (hl : l.Sound h n) (hbuf : l.buf.length ≠ 0) (hsettled : Settled l)
    {key : Key} (hfed : linenoiseEditFeed completion h l key = some fed) : Settled fed.editor := by
  cases key with
  | none =>
    rw [linenoiseEditFeed, if_neg hbuf] at hfed
    cases hfed
    exact hsettled
  | some c =>
    by_cases htab : c = 9 ∧ l.escState = .normal
    · obtain ⟨rfl, hstate⟩ := htab
      rw [feed_tab hbuf hstate] at hfed
      exact fun _ => (hl.escState_feedTab hfed).trans hstate
    · have hother : c ≠ 9 ∨ l.escState ≠ .normal := not_and_or.mp htab
      intro hactive
      rw [feed_ends_completion hbuf hsettled hother fed hfed] at hactive
      cases hactive

end Settled

/-! ### The cycle -/

/-- `k` Tabs show the matches of the line in turn. -/
def CompletesFrom (callback : CompletionCallback) (h : History) (l : Editor) (k : ℕ) : Prop :=
  let comps := callback (CStr.ofMem l.buf)
  ∃ l', linenoiseEditFeeds (some callback) h l (List.replicate k (some 9)) = some (List.replicate k 0, l') ∧
    (comps = [] → l'.Shows l.parts.1 l.parts.2) ∧
    (comps ≠ [] → ∃ comp, comps[(k - 1) % comps.length]? = some comp ∧
      l'.Shows (comp.chars.take (l.buf.length - 1)) [])

/-- The match `i` is shown, in an array of `n` bytes. -/
structure Cycling (comps : List CStr) (n i : ℕ) (l : Editor) : Prop where
  buflen : l.buf.length = n
  ready : l.escState = .normal
  active : l.inCompletion = true
  cached : l.cachedCompletions = comps
  index : l.completionIdx = i % comps.length
  shown : ∃ comp, comps[i % comps.length]? = some comp ∧ l.Shows (comp.chars.take (n - 1)) []

section Cycle

variable {callback : CompletionCallback} {h : History} {l : Editor} {comps : List CStr} {n i : ℕ}
  {before after : List Byte}

/-- There are matches. -/
theorem Cycling.ne_nil (hl : Cycling comps n i l) : comps ≠ [] := by
  obtain ⟨comp, hcomp, -⟩ := hl.shown
  rintro rfl
  cases hcomp

/-- **One Tab more**: the next match, and after the last the first. -/
theorem Cycling.next (hl : Cycling comps n i l) (callback : CompletionCallback) (h : History) :
    ∃ l' out, linenoiseEditFeed (some callback) h l (some 9) = some ⟨0, l', out⟩ ∧ Cycling comps n (i + 1) l' := by
  obtain ⟨comp, -, hshows⟩ := hl.shown
  have hcached : l.cachedCompletions ≠ [] := by
    rw [hl.cached]
    exact hl.ne_nil
  obtain ⟨comp', hcomp', l', out, hfed, hshows', hframe⟩ := hshows.feedTab_next callback hl.active hcached
  have hbuf : l.buf.length ≠ 0 := Nat.ne_zero_of_lt hshows.len_lt
  have hidx : (l.completionIdx + 1) % l.cachedCompletions.length = (i + 1) % comps.length := by
    rw [hl.cached, hl.index, Nat.mod_add_mod]
  rw [hidx, hl.cached] at hcomp'
  rw [hl.buflen] at hshows'
  refine ⟨l', out, (feed_tab hbuf hl.ready).trans hfed, hframe.buflen.trans hl.buflen, ?_, ?_, ?_, ?_, comp', hcomp',
    hshows'⟩
  · exact hframe.escState.trans hl.ready
  · exact hframe.inCompletion.trans hl.active
  · exact hframe.cachedCompletions.trans hl.cached
  · exact hframe.completionIdx.trans hidx

/-- **Any number of Tabs.** -/
theorem Cycling.tabs (hl : Cycling comps n i l) (callback : CompletionCallback) (h : History) (k : ℕ) :
    ∃ l', linenoiseEditFeeds (some callback) h l (List.replicate k (some 9)) = some (List.replicate k 0, l') ∧
      Cycling comps n (i + k) l' := by
  induction k generalizing l i with
  | zero => exact ⟨l, rfl, hl⟩
  | succ k ih =>
    obtain ⟨l', out, hfed, hl'⟩ := hl.next callback h
    obtain ⟨l'', hfeeds, hl''⟩ := ih hl'
    refine ⟨l'', ?_, ?_⟩
    · rw [List.replicate_succ, feeds_cons hfed, hfeeds]
      rfl
    · rw [Nat.add_comm k, ← Nat.add_assoc]
      exact hl''

/-- Without a match Tabs do nothing. -/
theorem Editor.Shows.tabs_nil (hl : l.Shows before after) (hready : l.escState = .normal)
    (hidle : l.inCompletion = false) (hnone : callback hl.line = []) (k : ℕ) :
    ∃ l', linenoiseEditFeeds (some callback) h l (List.replicate k (some 9)) = some (List.replicate k 0, l') ∧
      l'.Shows before after := by
  induction k generalizing l with
  | zero => exact ⟨l, rfl, hl⟩
  | succ k ih =>
    have hbuf : l.buf.length ≠ 0 := Nat.ne_zero_of_lt hl.len_lt
    cases hl.feedTab_first callback hidle with
    | inl hfirst =>
      obtain ⟨-, l', out, hfed, hl', hframe⟩ := hfirst
      have hready' : l'.escState = .normal := hframe.escState.trans hready
      have hidle' : l'.inCompletion = false := hframe.inCompletion.trans hidle
      obtain ⟨l'', hfeeds, hl''⟩ := ih hl' hready' hidle' hnone
      refine ⟨l'', ?_, hl''⟩
      rw [List.replicate_succ, feeds_cons ((feed_tab hbuf hready).trans hfed), hfeeds]
      rfl
    | inr hfirst =>
      obtain ⟨comp, hcomp, -⟩ := hfirst
      rw [hnone] at hcomp
      cases hcomp

/-- The first Tab looks the matches up. -/
theorem Editor.Shows.tab_first (hl : l.Shows before after) (hready : l.escState = .normal)
    (hidle : l.inCompletion = false) (hsome : callback hl.line ≠ []) :
    ∃ l' out, linenoiseEditFeed (some callback) h l (some 9) = some ⟨0, l', out⟩ ∧
      Cycling (callback hl.line) l.buf.length 0 l' := by
  have hbuf : l.buf.length ≠ 0 := Nat.ne_zero_of_lt hl.len_lt
  cases hl.feedTab_first callback hidle with
  | inl hfirst => exact absurd hfirst.1 hsome
  | inr hfirst =>
    obtain ⟨comp, hcomp, l', out, hfed, hshows, hframe⟩ := hfirst
    refine ⟨l', out, (feed_tab hbuf hready).trans hfed, hframe.buflen, ?_, ?_, ?_, ?_, comp, ?_, hshows⟩
    · exact hframe.escState.trans hready
    · exact hframe.inCompletion
    · exact hframe.cachedCompletions
    · rw [hframe.completionIdx, Nat.zero_mod]
    · rw [Nat.zero_mod]
      exact hcomp

/-- **Tabs go round the matches of the line.** -/
theorem Editor.Shows.completes (hl : l.Shows before after) (callback : CompletionCallback) (h : History)
    (hready : l.escState = .normal) (hidle : l.inCompletion = false) {k : ℕ} (hk : 1 ≤ k) :
    CompletesFrom callback h l k := by
  have hline : CStr.ofMem l.buf = hl.line := CStr.ext hl.holds.cstr_eq
  unfold CompletesFrom
  rw [hline, hl.parts]
  by_cases hnone : callback hl.line = []
  · obtain ⟨l', hfeeds, hl'⟩ := hl.tabs_nil hready hidle hnone k
    exact ⟨l', hfeeds, fun _ => hl', fun hsome => absurd hnone hsome⟩
  · obtain ⟨l', out, hfed, hfirst⟩ := hl.tab_first (h := h) hready hidle hnone
    obtain ⟨l'', hfeeds, hlast⟩ := hfirst.tabs callback h (k - 1)
    rw [Nat.zero_add] at hlast
    have hsplit : k = k - 1 + 1 := (Nat.sub_add_cancel hk).symm
    refine ⟨l'', ?_, fun hnone' => absurd hnone' hnone, fun _ => hlast.shown⟩
    rw [hsplit, List.replicate_succ, feeds_cons hfed, hfeeds]
    rfl

end Cycle

/-! ### Sessions -/

/-- A session started anew has no completion in progress. -/
theorem submitLine_settled {prompt : List Byte} {s t : Session} (hsubmit : submitLine prompt s = some t) :
    Settled t.editor := by
  rw [submitLine] at hsubmit
  obtain ⟨line, -, hsubmit⟩ := Option.bind_eq_some_iff.mp hsubmit
  obtain ⟨⟨rc, h⟩, -, hsubmit⟩ := Option.bind_eq_some_iff.mp hsubmit
  obtain ⟨⟨l, out⟩, hstart, hsubmit⟩ := Option.bind_eq_some_iff.mp hsubmit
  obtain ⟨buf, rfl⟩ := linenoiseEditStart_eq hstart
  cases hsubmit
  intro h
  cases h

/-- **A session only completes in the normal state.** -/
theorem Session.settled_of_run {completion : Option CompletionCallback} {h : History} {entries : List CStr}
    {buf prompt out : List Byte} {ops : List Op} {l : Editor} {s : Session} (hh : h.Holds entries)
    (hbuf : 1 ≤ buf.length) (hstart : linenoiseEditStart h buf prompt = some (l, out))
    (hrun : ops.foldlM (sessionStep completion) ⟨h, l⟩ = some s) : s.Sound buf.length ∧ Settled s.editor := by
  have hstep : ∀ (s : Session) (op : Op), s.Sound buf.length ∧ Settled s.editor →
      ∃ t, sessionStep completion s op = some t ∧ t.Sound buf.length ∧ Settled t.editor := by
    rintro s op ⟨hs, hsettled⟩
    have hnext : ∃ t, sessionStep completion s op = some t ∧ t.Sound buf.length := hs.step op
    obtain ⟨t, hstep, ht⟩ := hnext
    refine ⟨t, hstep, ht, ?_⟩
    cases op with
    | feed key =>
      obtain ⟨fed, hfed, hdone⟩ := Option.bind_eq_some_iff.mp hstep
      cases hdone
      exact hs.editor.settled_feed (hs.editor.buflen ▸ Nat.ne_zero_of_lt hbuf) hsettled hfed
    | submit => exact submitLine_settled hstep
  have hnone : ([] : List Op).foldlM (sessionStep completion) ⟨h, l⟩ = some ⟨h, l⟩ := rfl
  have hsound := Session.sound_of_run hh hbuf hstart hnone
  obtain ⟨buf', rfl⟩ := linenoiseEditStart_eq hstart
  obtain ⟨t, hrun', ht⟩ := foldlM_invariant hstep ⟨hsound, by simp [Settled]⟩ ops
  rw [hrun] at hrun'
  cases hrun'
  exact ht

/-- **Tab goes through the matches of the line.** In every state of a session in which neither an
escape sequence nor a completion is in progress, any number of Tabs shows the matches of the line in
turn; any other key, and any byte of an escape sequence, ends the completion, so that the next Tabs
show those of the line there is then. The matches of the program are the commands that begin with the
line. -/
theorem tab_cycles {callback : CompletionCallback} {h : History} {entries : List CStr} {buf prompt out : List Byte}
    {ops : List Op} {l : Editor} {s : Session} (hh : h.Holds entries) (hbuf : 1 ≤ buf.length)
    (hstart : linenoiseEditStart h buf prompt = some (l, out))
    (hrun : ops.foldlM (sessionStep (some callback)) ⟨h, l⟩ = some s) :
    (s.editor.escState = .normal → s.editor.inCompletion = false →
      ∀ k, 1 ≤ k → CompletesFrom callback s.history s.editor k) ∧
    (∀ c, c ≠ 9 ∨ s.editor.escState ≠ .normal →
      ∃ fed, linenoiseEditFeed (some callback) s.history s.editor (some c) = some fed ∧
        fed.editor.inCompletion = false ∧
        (fed.editor.escState = .normal → ∀ k, 1 ≤ k → CompletesFrom callback s.history fed.editor k)) ∧
    ∀ line, interactiveCompletionCallback line = interactiveCompletions.filter fun cmd => line.chars <+: cmd.chars := by
  obtain ⟨hs, hsettled⟩ := Session.settled_of_run hh hbuf hstart hrun
  obtain ⟨entries', hh'⟩ := hs.history
  refine ⟨?_, ?_, ?_⟩
  · intro hready hidle k hk
    obtain ⟨before, after, hshows⟩ := hs.editor.text
    exact hshows.completes callback s.history hready hidle hk
  · intro c hother
    have hbuf' : s.editor.buf.length ≠ 0 := by
      rw [hs.editor.buflen]
      exact Nat.ne_zero_of_lt hbuf
    obtain ⟨fed, hfed, hl⟩ := hs.editor.feed (some callback) hh' (some c)
    have hidle : fed.editor.inCompletion = false := feed_ends_completion hbuf' hsettled hother fed hfed
    obtain ⟨before, after, hshows⟩ := hl.text
    exact ⟨fed, hfed, hidle, fun hready k hk => hshows.completes callback s.history hready hidle hk⟩
  · intro line
    unfold interactiveCompletionCallback
    congr 1
    funext cmd
    rw [decide_eq_decide, List.prefix_iff_eq_take, eq_comm]

/-- `h` is completed to `help`, and then to `history`. -/
theorem tab_cycles_help :
    ∃ l out s, linenoiseEditStart {} (List.replicate 32 7) [] = some (l, out) ∧
      [Op.feed (some 104)].foldlM (sessionStep (some interactiveCompletionCallback)) ⟨{}, l⟩ = some s ∧
      CompletesFrom interactiveCompletionCallback s.history s.editor 2 := by
  refine ⟨_, _, _, rfl, rfl, ?_⟩
  obtain ⟨hcycle, -⟩ := tab_cycles holds_init (show 1 ≤ (List.replicate 32 (7 : Byte)).length by decide) rfl
    (show [Op.feed (some 104)].foldlM (sessionStep (some interactiveCompletionCallback)) ⟨{}, _⟩ = some _ from rfl)
  exact hcycle rfl rfl 2 (by decide)

end TcpClient
