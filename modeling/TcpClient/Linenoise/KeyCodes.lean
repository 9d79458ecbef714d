import TcpClient.Linenoise.Typing

/-!
# Ctrl+C, Ctrl+D and the numbered keys

Three keys in any state a session can be in, cursor, history and completion included.

Ctrl+D leaves the session on an empty line only, as it should; Ctrl+C leaves it on any line, and
takes the line with it (`leaves_empty_iff`). A key that is sent as `ESC [`, a number and `~` acts
by the value of that number as long as the number fits the 32 bits it is kept in
(`numbered_key_iff`).
-/

namespace TcpClient

open CString

section Reachable

variable {completion : Option CompletionCallback} {h : History} {n : ℕ} {l l' : Editor}

/-! ### Ctrl+C and Ctrl+D -/

/-- Ctrl+C leaves the session on an empty line; on any other it clears the line, and editing goes
on. -/
def CtrlCClears (completion : Option CompletionCallback) (h : History) (l : Editor) : Prop :=
  ∃ fed, linenoiseEditFeed completion h l (some 3) = some fed ∧ (fed.rc = -1 ↔ l.len = 0) ∧
    (l.len ≠ 0 → fed.rc = 0 ∧ fed.editor.len = 0 ∧ fed.editor.pos = 0)

/-- Ctrl+D leaves the session on an empty line; on any other it deletes the byte under the cursor,
if there is one, and nothing else. -/
def CtrlDDeletes (completion : Option CompletionCallback) (h : History) (l : Editor) : Prop :=
  ∃ fed, linenoiseEditFeed completion h l (some 4) = some fed ∧ (fed.rc = -1 ↔ l.len = 0) ∧
    (l.len ≠ 0 → fed.rc = 0 ∧ fed.editor.parts = (l.parts.1, l.parts.2.tail) ∧ fed.editor.pos = l.pos)

theorem len_endCompletion (l : Editor) : (endCompletion l).len = l.len := by
  unfold endCompletion
  split_ifs <;> rfl

variable (completion) in
/-- Whatever the line, Ctrl+C is answered with `-1`, and the line is gone. -/
theorem Editor.Sound.feed_ctrlC (hl : l.Sound h n) (hready : l.escState = .normal) :
    ∃ l' out, linenoiseEditFeed completion h l (some 3) = some ⟨-1, l', out⟩ ∧ l'.len = 0 ∧ l'.pos = 0 := by
  obtain ⟨z, hline⟩ := hl.line
  obtain ⟨l', out, hfed, hshows, -⟩ := hline.endCompletion.shows.feedCtrlC
  exact ⟨l', out, (feed_byte hline.buf_ne hready (by decide)).trans hfed, hshows.len, hshows.pos⟩

/-- Ctrl+D is as it should be on every line. -/
theorem Editor.Sound.ctrlD_deletes (hl : l.Sound h n) (hready : l.escState = .normal) :
    CtrlDDeletes completion h l := by
  obtain ⟨z, hline⟩ := hl.line
  have hshows := hline.endCompletion.shows
  have hfeed : linenoiseEditFeed completion h l (some 4) = TcpClient.feedEditing 4 (TcpClient.endCompletion l) :=
    feed_byte hline.buf_ne hready (by decide)
  have hlen := len_endCompletion l
  by_cases hempty : l.len = 0
  · refine ⟨_, hfeed.trans (if_pos (hlen.trans hempty)), iff_of_true rfl hempty, ?_⟩
    exact fun hne => absurd hempty hne
  · obtain ⟨l', out, hfed, hshows', -⟩ := hshows.handleDelete
    have hrest : TcpClient.feedEditing 4 (TcpClient.endCompletion l) = some ⟨0, l', out⟩ :=
      (if_neg fun hzero => hempty (hlen.symm.trans hzero)).trans hfed
    refine ⟨_, hfeed.trans hrest, iff_of_false (by simp) hempty, fun _ => ⟨rfl, ?_, ?_⟩⟩
    · rw [hshows'.parts, hline.shows.parts]
    · rw [hshows'.pos, hline.shows.pos]

theorem Editor.Sound.ctrl_keys_iff (hl : l.Sound h n) (hready : l.escState = .normal) :
    CtrlCClears completion h l ∧ CtrlDDeletes completion h l ↔ l.len = 0 := by
  obtain ⟨l', out, hfed, hlen, hpos⟩ := hl.feed_ctrlC completion hready
  rw [and_iff_left (hl.ctrlD_deletes hready)]
  constructor
  · rintro ⟨fed, hfed', hleaves, -⟩
    rw [hfed] at hfed'
    cases hfed'
    exact hleaves.mp rfl
  · intro hempty
    exact ⟨_, hfed, iff_of_true rfl hempty, fun hne => absurd hempty hne⟩

/-! ### Numbered keys -/

/-- What a key with the number `value` does. -/
def numberedCommand (value : ℕ) : Option (Zipper.Command Byte) :=
  if value = 3 then some .delete
  else if value = 1 ∨ value = 7 then some .home
  else if value = 4 ∨ value = 8 then some .toEnd
  else none

/-- The bytes of a numbered key. -/
def numberedKey (digits : List Byte) : List Key := (27 :: 91 :: digits).map some ++ [some 126]

/-- A line as a command leaves it. -/
def execParts (cmd : Option (Zipper.Command Byte)) (parts : List Byte × List Byte) : List Byte × List Byte :=
  match cmd with
  | some .delete => (parts.1, parts.2.tail)
  | some .home => ([], parts.1 ++ parts.2)
  | some .toEnd => (parts.1 ++ parts.2, [])
  | _ => parts

/-- The key does what the value of its number says, to the line and to nothing else. -/
def ActsByValue (completion : Option CompletionCallback) (h : History) (l : Editor) (digits : List Byte) : Prop :=
  ∃ rcs l', linenoiseEditFeeds completion h l (numberedKey digits) = some (rcs, l') ∧
    l'.parts = execParts (numberedCommand (decimalValue digits)) l.parts ∧ l'.historyIndex = l.historyIndex ∧
    (∀ rc ∈ rcs, rc = 0)

/-- An `int`. -/
def FitsInt (k : ℤ) : Prop := -2 ^ 31 ≤ k ∧ k < 2 ^ 31

/-- At every digit after the first, `csi_num * 10 + (c - '0')` is an `int`. -/
def NeverOverflows (completion : Option CompletionCallback) (h : History) (l : Editor) (digits : List Byte) : Prop :=
  ∀ front c rest, digits = front ++ c :: rest → front ≠ [] → ∀ rcs l',
    linenoiseEditFeeds completion h l ((27 :: 91 :: front).map some) = some (rcs, l') →
    FitsInt (l'.csiNum * 10 + digit c)

/-- The number as it is kept, wrapped around where the sum does not fit. -/
def csiSum : ℤ → List Byte → ℤ
  | num, [] => num
  | num, c :: digits => csiSum ((num * 10 + digit c).bmod (2 ^ 32)) digits

/-- Digits after the first. -/
theorem feeds_csiSum {digits : List Byte} (hbuf : l.buf.length ≠ 0) (hstate : l.escState = .csiNum)
    (hdigits : ∀ c ∈ digits, isDigit c = true) :
    linenoiseEditFeeds completion h l (digits.map some) =
      some (List.replicate digits.length 0, { l with csiNum := csiSum l.csiNum digits }) := by
  induction digits generalizing l with
  | nil => rfl
  | cons c digits ih =>
    rw [List.forall_mem_cons] at hdigits
    have htilde : c ≠ 126 := by
      rintro rfl
      exact absurd hdigits.1 (by decide)
    have hfeed : linenoiseEditFeed completion h l (some c) =
        some ⟨0, { l with csiNum := (l.csiNum * 10 + digit c).bmod (2 ^ 32) }, []⟩ := by
      rw [feed_some hbuf, hstate]
      simp only [feedCsiNum, if_neg htilde, if_pos hdigits.1, ignored, hstate]
    have hrest := ih (l := { l with csiNum := (l.csiNum * 10 + digit c).bmod (2 ^ 32) }) hbuf hstate hdigits.2
    rw [List.map_cons, feeds_cons hfeed, hrest]
    rfl

variable (completion h) in
/-- `ESC [` and a number. -/
theorem feeds_number {c : Byte} {digits : List Byte} (hbuf : l.buf.length ≠ 0) (hready : l.escState = .normal)
    (hdigits : ∀ d ∈ c :: digits, isDigit d = true) :
    linenoiseEditFeeds completion h l ((27 :: 91 :: c :: digits).map some) =
      some (List.replicate (digits.length + 3) 0,
        { endCompletion l with escState := .csiNum, csiNum := csiSum (digit c) digits }) := by
  rw [List.forall_mem_cons] at hdigits
  have hfirst : linenoiseEditFeed completion h { endCompletion l with escState := .csi } (some c) =
      some ⟨0, { endCompletion l with csiNum := digit c, escState := .csiNum }, []⟩ := by
    rw [feed_some (escape_buflen hbuf .csi _)]
    simp only [feedCsi, hdigits.1, if_true]
    rfl
  have hrest : linenoiseEditFeeds completion h { endCompletion l with csiNum := digit c, escState := .csiNum }
      (digits.map some) = some (List.replicate digits.length 0,
        { endCompletion l with escState := .csiNum, csiNum := csiSum (digit c) digits }) :=
    feeds_csiSum (escape_buflen hbuf .csiNum (digit c)) rfl hdigits.2
  rw [show (27 :: 91 :: c :: digits).map some = [some 27, some 91] ++ some c :: digits.map some from rfl,
    feeds_append (feeds_csi hbuf hready), feeds_cons hfirst, hrest]
  rfl

theorem csiSum_concat (num : ℤ) (digits : List Byte) (c : Byte) :
    csiSum num (digits ++ [c]) = (csiSum num digits * 10 + digit c).bmod (2 ^ 32) := by
  induction digits generalizing num with
  | nil => rfl
  | cons d digits ih => exact ih _

/-- The value of a digit is a natural number. -/
theorem digit_eq {c : Byte} (hc : isDigit c = true) : digit c = ((c.toNat - 48 : ℕ) : ℤ) := by
  rw [isDigit, Bool.and_eq_true, decide_eq_true_eq, decide_eq_true_eq] at hc
  have hlow : 48 ≤ c.toNat := hc.1
  rw [digit]
  omega

theorem decimalValue_singleton (c : Byte) : decimalValue [c] = c.toNat - 48 := by
  rw [decimalValue, List.foldl_cons, List.foldl_nil, Nat.zero_mul, Nat.zero_add]

/-- A sum that fits is kept as it is. -/
theorem bmod_of_fits {k : ℤ} (hk : FitsInt k) : k.bmod (2 ^ 32) = k := by
  obtain ⟨hlow, hhigh⟩ := hk
  exact Int.bmod_eq_of_le (by omega) (by omega)

/-- **A number that fits is kept.** -/
theorem csiSum_eq {c : Byte} {digits : List Byte} (hdigits : ∀ d ∈ c :: digits, isDigit d = true)
    (hfits : decimalValue (c :: digits) ≤ 2147483647) :
    csiSum (digit c) digits = (decimalValue (c :: digits) : ℤ) := by
  induction digits using List.reverseRecOn with
  | nil =>
    rw [csiSum, decimalValue_singleton]
    exact digit_eq (hdigits c List.mem_cons_self)
  | append_singleton digits d ih =>
    rw [← List.cons_append] at hdigits hfits ⊢
    have hle := hfits
    rw [decimalValue_concat] at hle ⊢
    have hsum := ih (fun d hd => hdigits d (List.mem_append_left _ hd)) (by omega)
    have hd := digit_eq (hdigits d (List.mem_append_right _ (List.mem_singleton_self d)))
    rw [csiSum_concat, hsum, hd, bmod_of_fits]
    · push_cast
      rfl
    · constructor <;> omega

/-- **And if no sum overflows the number fits.** -/
theorem fits_of_sums {c : Byte} {digits : List Byte} (hdigits : ∀ d ∈ c :: digits, isDigit d = true)
    (hsums : ∀ front d rest, digits = front ++ d :: rest → FitsInt (csiSum (digit c) front * 10 + digit d)) :
    decimalValue (c :: digits) ≤ 2147483647 := by
  induction digits using List.reverseRecOn with
  | nil =>
    have hc := c.toNat_lt
    rw [decimalValue_singleton]
    omega
  | append_singleton digits d ih =>
    rw [← List.cons_append] at hdigits ⊢
    have hfront : ∀ e ∈ c :: digits, isDigit e = true := fun e he => hdigits e (List.mem_append_left _ he)
    have hfits := ih hfront fun front e rest heq => hsums front e (rest ++ [d]) (by rw [heq, List.append_assoc]; rfl)
    have hlast := (hsums digits d [] rfl).2
    have hd := digit_eq (hdigits d (List.mem_append_right _ (List.mem_singleton_self d)))
    rw [csiSum_eq hfront hfits, hd] at hlast
    rw [decimalValue_concat]
    omega

variable (completion h) in
/-- The sums of a run are those of its digits. -/
theorem neverOverflows_iff {c : Byte} {digits : List Byte} (hbuf : l.buf.length ≠ 0) (hready : l.escState = .normal)
    (hdigits : ∀ d ∈ c :: digits, isDigit d = true) :
    NeverOverflows completion h l (c :: digits) ↔ decimalValue (c :: digits) ≤ 2147483647 := by
  have hreached : ∀ front d rest, digits = front ++ d :: rest →
      linenoiseEditFeeds completion h l ((27 :: 91 :: c :: front).map some) =
        some (List.replicate (front.length + 3) 0,
          { endCompletion l with escState := .csiNum, csiNum := csiSum (digit c) front }) := by
    intro front d rest hsplit
    refine feeds_number completion h hbuf hready fun e he => hdigits e ?_
    rw [hsplit, ← List.cons_append]
    exact List.mem_append_left _ he
  constructor
  · intro hnever
    refine fits_of_sums hdigits fun front d rest hsplit => ?_
    exact hnever (c :: front) d rest (by rw [hsplit]; rfl) (List.cons_ne_nil _ _) _ _ (hreached front d rest hsplit)
  · intro hfits front d rest hsplit hne rcs l' hfeeds
    cases front with
    | nil => exact absurd rfl hne
    | cons c' front =>
      obtain ⟨rfl, hrest⟩ := List.cons.inj hsplit
      rw [hreached front d rest hrest] at hfeeds
      cases hfeeds
      -- what was read so far, with one digit more, is no more than the whole number
      have hwhole : c :: digits = ((c :: front) ++ [d]) ++ rest := by rw [hrest]; simp
      have hmem : ∀ e ∈ (c :: front) ++ [d], isDigit e = true :=
        fun e he => hdigits e (by rw [hwhole]; exact List.mem_append_left _ he)
      have hle := decimalValue_le_append ((c :: front) ++ [d]) rest
      rw [← hwhole] at hle
      have hd := digit_eq (hmem d (List.mem_append_right _ (List.mem_singleton_self d)))
      have hnext := decimalValue_concat (c :: front) d
      have hsum := csiSum_eq (fun e he => hmem e (List.mem_append_left _ he)) (by omega)
      dsimp only
      rw [hsum, hd]
      constructor <;> omega

/-- `~` after a number that fits does what the value says. -/
theorem Editor.Sound.actsByValue (hl : l.Sound h n) (hready : l.escState = .normal) {c : Byte} {digits : List Byte}
    (hdigits : ∀ d ∈ c :: digits, isDigit d = true) (hfits : decimalValue (c :: digits) ≤ 2147483647) :
    ActsByValue completion h l (c :: digits) := by
  obtain ⟨z, hline⟩ := hl.line
  have hbuf := hline.buf_ne
  have hshows := (hline.endCompletion.escape .normal (csiSum (digit c) digits)).shows
  have hsum := csiSum_eq hdigits hfits
  have hfeeds := feeds_number completion h hbuf hready hdigits
  have htilde : linenoiseEditFeed completion h
      { TcpClient.endCompletion l with escState := .csiNum, csiNum := csiSum (digit c) digits } (some 126) =
        TcpClient.feedCsiNum 126 { TcpClient.endCompletion l with escState := .csiNum, csiNum := csiSum (digit c) digits } :=
    feed_some (escape_buflen hbuf .csiNum _) 126
  rw [feedCsiNum_tilde hsum] at htilde
  -- the label that is gone to, and what it makes of the line
  have hlabel : ∀ before after, Edits { TcpClient.endCompletion l with
        escState := .normal, csiNum := csiSum (digit c) digits }
      (linenoiseEditFeed completion h
        { TcpClient.endCompletion l with escState := .csiNum, csiNum := csiSum (digit c) digits } (some 126))
      0 before after →
      (before, after) = execParts (numberedCommand (decimalValue (c :: digits))) l.parts →
      ActsByValue completion h l (c :: digits) := by
    rintro before after ⟨l', out, hfed, hshows', hframe⟩ hparts
    refine ⟨List.replicate (digits.length + 3) 0 ++ [0], l', ?_, ?_, ?_, ?_⟩
    · rw [numberedKey, feeds_append hfeeds, feeds_single hfed]
      rfl
    · rw [hshows'.parts, hparts]
    · exact hframe.historyIndex.trans (historyIndex_endCompletion l)
    · intro rc hrc
      rcases List.mem_append.mp hrc with hrc | hrc
      · exact List.eq_of_mem_replicate hrc
      · exact List.mem_singleton.mp hrc
  have hparts := hline.shows.parts
  rw [htilde, hparts] at hlabel
  by_cases h₃ : decimalValue (c :: digits) = 3
  · rw [numberedCommand, if_pos h₃, if_pos (by exact_mod_cast h₃)] at hlabel
    exact hlabel _ _ hshows.handleDelete rfl
  by_cases h₁₇ : decimalValue (c :: digits) = 1 ∨ decimalValue (c :: digits) = 7
  · rw [numberedCommand, if_neg h₃, if_pos h₁₇, if_neg (by exact_mod_cast h₃), if_pos (by exact_mod_cast h₁₇)] at hlabel
    exact hlabel _ _ hshows.handleHome rfl
  by_cases h₄₈ : decimalValue (c :: digits) = 4 ∨ decimalValue (c :: digits) = 8
  · rw [numberedCommand, if_neg h₃, if_neg h₁₇, if_pos h₄₈, if_neg (by exact_mod_cast h₃),
      if_neg (by exact_mod_cast h₁₇), if_pos (by exact_mod_cast h₄₈)] at hlabel
    exact hlabel _ _ hshows.handleEnd rfl
  · rw [numberedCommand, if_neg h₃, if_neg h₁₇, if_neg h₄₈, if_neg (by exact_mod_cast h₃),
      if_neg (by exact_mod_cast h₁₇), if_neg (by exact_mod_cast h₄₈)] at hlabel
    exact hlabel _ _ hshows.ignored rfl

theorem Editor.Sound.numbered_keys_iff (hl : l.Sound h n) (hready : l.escState = .normal) {digits : List Byte}
    (hne : digits ≠ []) (hdigits : ∀ d ∈ digits, isDigit d = true) :
    ActsByValue completion h l digits ∧ NeverOverflows completion h l digits ↔
      decimalValue digits ≤ 2147483647 := by
  obtain ⟨z, hline⟩ := hl.line
  obtain ⟨c, digits, rfl⟩ := List.exists_cons_of_ne_nil hne
  have hnever := neverOverflows_iff completion h hline.buf_ne hready hdigits
  constructor
  · rintro ⟨-, hsums⟩
    exact hnever.mp hsums
  · intro hfits
    exact ⟨hl.actsByValue hready hdigits hfits, hnever.mpr hfits⟩

end Reachable

/-! ### In a session -/

section Session

variable {completion : Option CompletionCallback} {h : History} {entries : List CStr} {buf prompt out : List Byte}
  {ops : List Op} {l : Editor} {s : Session}

/-- **Ctrl+C and Ctrl+D both leave the session on an empty line only, wherever keys have led it,
exactly when the line is empty**: on any other, Ctrl+C leaves it too. -/
theorem leaves_empty_iff (hh : h.Holds entries) (hbuf : 1 ≤ buf.length)
    (hstart : linenoiseEditStart h buf prompt = some (l, out))
    (hrun : ops.foldlM (sessionStep completion) ⟨h, l⟩ = some s) (hready : s.editor.escState = .normal) :
    CtrlCClears completion s.history s.editor ∧ CtrlDDeletes completion s.history s.editor ↔ s.editor.len = 0 :=
  (Session.sound_of_run hh hbuf hstart hrun).editor.ctrl_keys_iff hready

/-- **A numbered key acts by the value of its number, wherever keys have led the session, and no sum
overflows, exactly when the number is at most 2147483647.** -/
theorem numbered_key_iff (hh : h.Holds entries) (hbuf : 1 ≤ buf.length)
    (hstart : linenoiseEditStart h buf prompt = some (l, out))
    (hrun : ops.foldlM (sessionStep completion) ⟨h, l⟩ = some s) (hready : s.editor.escState = .normal)
    {digits : List Byte} (hne : digits ≠ []) (hdigits : ∀ d ∈ digits, isDigit d = true) :
    ActsByValue completion s.history s.editor digits ∧ NeverOverflows completion s.history s.editor digits ↔
      decimalValue digits ≤ 2147483647 :=
  (Session.sound_of_run hh hbuf hstart hrun).editor.numbered_keys_iff hready hne hdigits

end Session

/-- On a line just started. -/
theorem leaves_empty_start :
    ∃ l out, linenoiseEditStart {} (List.replicate 8 7) [] = some (l, out) ∧ CtrlCClears none {} l ∧
      CtrlDDeletes none {} l := by
  obtain ⟨l, out, hstart, hline, hready⟩ := linenoiseEditStart_line {} (show 1 ≤ (List.replicate 8 7).length by decide) []
  have hrun : ([] : List Op).foldlM (sessionStep none) ⟨{}, l⟩ = some ⟨{}, l⟩ := rfl
  exact ⟨l, out, hstart, (leaves_empty_iff holds_init (by decide) hstart hrun hready).mpr hline.shows.len⟩

/-- With an `a` on the line, Ctrl+C leaves the session. -/
theorem ctrlC_leaves :
    ∃ l out s, linenoiseEditStart {} (List.replicate 8 7) [] = some (l, out) ∧
      [Op.feed (some 97)].foldlM (sessionStep none) ⟨{}, l⟩ = some s ∧ s.editor.escState = .normal ∧
      ¬ (CtrlCClears none s.history s.editor ∧ CtrlDDeletes none s.history s.editor) := by
  refine ⟨_, _, _, rfl, rfl, rfl, ?_⟩
  rintro ⟨⟨fed, hfed, hleaves, -⟩, -⟩
  cases hfed
  exact absurd (hleaves.mp rfl) (by decide)

/-- The Delete key, on a line just started. -/
theorem numbered_key_delete :
    ∃ l out, linenoiseEditStart {} (List.replicate 8 7) [] = some (l, out) ∧ ActsByValue none {} l (str "3") := by
  obtain ⟨l, out, hstart, -, hready⟩ := linenoiseEditStart_line {} (show 1 ≤ (List.replicate 8 7).length by decide) []
  have hrun : ([] : List Op).foldlM (sessionStep none) ⟨{}, l⟩ = some ⟨{}, l⟩ := rfl
  have hiff := numbered_key_iff (s := ⟨{}, l⟩) holds_init (by decide) hstart hrun hready
    (show str "3" ≠ [] by decide) (by decide +kernel)
  exact ⟨l, out, hstart, (hiff.mpr (by decide)).1⟩

/-- The number 4294967299 wraps around to 3, and deletes. -/
theorem numbered_key_wraps :
    ∃ l out s, linenoiseEditStart {} (List.replicate 8 7) [] = some (l, out) ∧
      [Op.feed (some 97), .feed (some 1)].foldlM (sessionStep none) ⟨{}, l⟩ = some s ∧ s.editor.escState = .normal ∧
      ¬ (ActsByValue none s.history s.editor (str "4294967299") ∧
        NeverOverflows none s.history s.editor (str "4294967299")) := by
  refine ⟨_, _, _, rfl, rfl, rfl, ?_⟩
  rintro ⟨⟨rcs, l', hfeeds, hparts, -, -⟩, -⟩
  have hdeleted : (linenoiseEditFeeds none {} { buf := [97, 0, 7, 7, 7, 7, 7, 7], prompt := [], len := 1 }
      (numberedKey (str "4294967299"))).map (fun r => r.2.parts) = some ([], []) := by decide +kernel
  have hkept := congrArg (Option.map fun r => r.2.parts) hfeeds
  rw [Option.map_some, hparts] at hkept
  exact absurd (hdeleted.symm.trans hkept) (by decide +kernel)

end TcpClient
