import TcpClient.Linenoise.History
import TcpClient.Interactive.Commands
import Mathlib.Data.List.Chain

/-!
# The history file

`linenoiseHistoryLoad`, and what a history that is saved and loaded again comes to.
`linenoiseHistorySave` writes every entry whole; `linenoiseHistoryLoad` reads through a
buffer of 4096 bytes, so that a longer entry comes back in pieces.

A history that was loaded, and to which lines were added, survives exactly when none of
its entries is longer than the buffer takes at once (`history_restart`). The invariant is
`Storable`: the entries have no line ends, and no two neighbours are the same.
-/

namespace TcpClient

open CString

/-- `sizeof(buf)` in `linenoiseHistoryLoad`. -/
def historyBufSize : ℕ := 4096

/-- The string in `buf` after `fgets` has read `piece`, and the line ends at its end are cut off. -/
def historyPiece (piece : List Byte) : CStr := CStr.ofMem (stripLineEnd (cstr piece))

/-- Several lines are added. -/
def addAll (lines : List CStr) (h : History) : Option History :=
  lines.foldlM (fun h line => (linenoiseHistoryAdd line h).map (·.2)) h

/-- `linenoiseHistoryLoad`, where the file holds `text`. -/
def linenoiseHistoryLoad (text : List Byte) (h : History) : Option History :=
  addAll ((fgetsAll historyBufSize [] text).map historyPiece) h

/-- `history[0 .. history_len)`. -/
def History.entries (h : History) : Option (List CStr) := (List.range h.len).mapM h.get

/-- What is saved of `h` and loaded into an empty history is what `h` holds. -/
def SurvivesRestart (h : History) : Prop :=
  ∃ saved h', linenoiseHistorySave h = some saved ∧ linenoiseHistoryLoad saved {} = some h' ∧ h'.entries = h.entries

/-! ### Reading lines -/

section Reading

variable {size : ℕ} {line e rest : List Byte}

/-- A line that fits, its end included, is read at once. -/
theorem fgetsAll_line (he : 10 ∉ e) (hfits : line.length + e.length + 2 ≤ size) :
    fgetsAll size line (e ++ 10 :: rest) = (line ++ e ++ [10]) :: fgetsAll size [] rest := by
  induction e generalizing line with
  | nil => simp [fgetsAll]
  | cons c e ih =>
    simp only [List.mem_cons, not_or] at he
    rw [List.length_cons] at hfits
    have hmore : ¬ (c = 10 ∨ size ≤ (line ++ [c]).length + 1) := by
      rw [not_or, List.length_append, List.length_singleton]
      exact ⟨fun h => he.1 h.symm, by omega⟩
    rw [List.cons_append, fgetsAll]
    simp only [if_neg hmore]
    rw [ih he.2 (by rw [List.length_append, List.length_singleton]; omega)]
    simp

/-- A line that fits without its end is read without it. -/
theorem fgetsAll_full (he : 10 ∉ e) (hne : e ≠ []) (hfull : line.length + e.length + 1 = size) :
    fgetsAll size line (e ++ rest) = (line ++ e) :: fgetsAll size [] rest := by
  induction e generalizing line with
  | nil => exact absurd rfl hne
  | cons c e ih =>
    simp only [List.mem_cons, not_or] at he
    rw [List.length_cons] at hfull
    rw [List.cons_append, fgetsAll]
    cases e with
    | nil =>
      have hdone : c = 10 ∨ size ≤ (line ++ [c]).length + 1 := by
        right
        rw [List.length_append, List.length_singleton]
        simp only [List.length_nil] at hfull
        omega
      simp only [if_pos hdone]
      rfl
    | cons d e =>
      have hmore : ¬ (c = 10 ∨ size ≤ (line ++ [c]).length + 1) := by
        rw [not_or, List.length_append, List.length_singleton]
        rw [List.length_cons] at hfull
        exact ⟨fun h => he.1 h.symm, by omega⟩
      simp only [if_neg hmore]
      rw [ih he.2 (by simp) (by rw [List.length_append, List.length_singleton]; omega)]
      simp

/-- No piece is longer than the buffer takes, and a line end is at the end of its piece. -/
theorem fgetsAll_pieces (hsize : 2 ≤ size) (hline : 10 ∉ line) (hfits : line.length + 2 ≤ size) (text : List Byte) :
    ∀ piece ∈ fgetsAll size line text, piece.length + 1 ≤ size ∧ 10 ∉ piece.dropLast := by
  induction text generalizing line with
  | nil =>
    intro piece hpiece
    rw [fgetsAll] at hpiece
    split_ifs at hpiece
    · cases hpiece
    · rw [List.mem_singleton.mp hpiece]
      exact ⟨by omega, fun h => hline (List.dropLast_subset line h)⟩
  | cons c text ih =>
    intro piece hpiece
    rw [fgetsAll] at hpiece
    by_cases hdone : c = 10 ∨ size ≤ (line ++ [c]).length + 1
    · simp only [if_pos hdone, List.mem_cons] at hpiece
      cases hpiece with
      | inl heq =>
        rw [heq, List.length_append, List.length_singleton, List.dropLast_concat]
        exact ⟨by omega, hline⟩
      | inr hrest => exact ih (by simp) (by simpa using hsize) piece hrest
    · simp only [if_neg hdone] at hpiece
      rw [not_or, List.length_append, List.length_singleton] at hdone
      refine ih ?_ (by rw [List.length_append, List.length_singleton]; omega) piece hpiece
      simp only [List.mem_append, List.mem_singleton, not_or]
      exact ⟨hline, fun h => hdone.1 h.symm⟩

/-- Nothing is lost between the pieces. -/
theorem flatten_fgetsAll (size : ℕ) (line text : List Byte) : (fgetsAll size line text).flatten = line ++ text := by
  induction text generalizing line with
  | nil =>
    rw [fgetsAll]
    split_ifs with hnil
    · rw [hnil]
      rfl
    · simp
  | cons c text ih =>
    rw [fgetsAll]
    split_ifs
    · rw [List.flatten_cons, ih]
      simp
    · rw [ih]
      simp

end Reading

/-! ### What is loaded -/

/-- A line with no line end in it, and none at its end to cut off. -/
def OneLine (line : CStr) : Prop := 10 ∉ line.chars ∧ stripLineEnd line.chars = line.chars

/-- Entries that a file can hold: none is empty, each is one line, no two neighbours are the same,
and there are no more than may be. -/
structure Storable (max : ℕ) (entries : List CStr) : Prop where
  nonempty : ∀ line ∈ entries, line ≠ CStr.empty
  oneLine : ∀ line ∈ entries, OneLine line
  distinct : entries.IsChain (· ≠ ·)
  room : entries.length ≤ max

theorem storable_nil (max : ℕ) : Storable max [] := ⟨by simp, by simp, .nil, Nat.zero_le max⟩

/-- Adding a line keeps the entries storable. -/
theorem Storable.remember {max : ℕ} {entries : List CStr} {line : CStr} (hs : Storable max entries)
    (hline : OneLine line) : Storable max (remember max entries line) := by
  unfold TcpClient.remember
  split_ifs with hskip
  · exact hs
  · rw [not_or] at hskip
    have hmem : ∀ e ∈ (entries ++ [line]).drop (entries.length + 1 - max), e ∈ entries ∨ e = line := by
      intro e he
      simpa using List.mem_of_mem_drop he
    constructor
    · intro e he
      cases hmem e he with
      | inl hold => exact hs.nonempty e hold
      | inr hnew => exact hnew ▸ hskip.1
    · intro e he
      cases hmem e he with
      | inl hold => exact hs.oneLine e hold
      | inr hnew => exact hnew ▸ hline
    · refine List.IsChain.drop ?_ _
      rw [List.isChain_append]
      refine ⟨hs.distinct, .singleton line, ?_⟩
      rintro e he f hf rfl
      cases hf
      exact hskip.2 he
    · have hroom := hs.room
      rw [List.length_drop, List.length_append, List.length_singleton]
      omega

theorem Storable.foldl {max : ℕ} {entries lines : List CStr} (hs : Storable max entries)
    (hlines : ∀ line ∈ lines, OneLine line) : Storable max (lines.foldl (TcpClient.remember max) entries) := by
  induction lines generalizing entries with
  | nil => exact hs
  | cons line lines ih =>
    exact ih (hs.remember (hlines line List.mem_cons_self)) fun l hl => hlines l (List.mem_cons_of_mem _ hl)

/-- Every entry was there before, or is one of the lines. -/
theorem mem_foldl_remember {max : ℕ} {entries lines : List CStr} {e : CStr}
    (he : e ∈ lines.foldl (remember max) entries) : e ∈ entries ∨ e ∈ lines := by
  induction lines generalizing entries with
  | nil => exact .inl he
  | cons line lines ih =>
    cases ih he with
    | inr hline => exact .inr (List.mem_cons_of_mem _ hline)
    | inl hentry =>
      unfold remember at hentry
      split_ifs at hentry
      · exact .inl hentry
      · cases List.mem_append.mp (List.mem_of_mem_drop hentry) with
        | inl hold => exact .inl hold
        | inr hnew => exact .inr (by simp [List.mem_singleton.mp hnew])

theorem chars_historyPiece (piece : List Byte) : (historyPiece piece).chars = stripLineEnd (cstr piece) :=
  cstr_eq_self fun h => nul_not_mem_cstr piece ((List.rdropWhile_prefix _ _).subset h)

theorem historyPiece_starts (piece : List Byte) : (historyPiece piece).chars <+: piece := by
  rw [chars_historyPiece]
  exact (List.rdropWhile_prefix _ _).trans (List.takeWhile_prefix _)

/-- A piece is added as one line. -/
theorem oneLine_historyPiece {piece : List Byte} (hpiece : 10 ∉ piece.dropLast) : OneLine (historyPiece piece) := by
  have hstrip : stripLineEnd (historyPiece piece).chars = (historyPiece piece).chars := by
    rw [chars_historyPiece]
    exact List.rdropWhile_idempotent _ _
  refine ⟨fun hmem => ?_, hstrip⟩
  obtain ⟨rest, hrest⟩ := historyPiece_starts piece
  -- the last character is none that is cut off, so that the line end is before it
  have hne := List.ne_nil_of_mem hmem
  have hlast := List.rdropWhile_eq_self_iff.mp hstrip hne
  rw [← List.dropLast_append_getLast hne, List.mem_append, List.mem_singleton] at hmem
  have hinit := hmem.resolve_right fun h10 => hlast (by rw [← h10]; rfl)
  refine hpiece ?_
  rw [← hrest]
  cases rest with
  | nil => rwa [List.append_nil]
  | cons c rest =>
    rw [List.dropLast_append_of_ne_nil (by simp)]
    exact List.mem_append_left _ (List.dropLast_subset _ hinit)

/-- The entries after lines were added to the array. -/
theorem addAll_holds {h : History} {entries : List CStr} (hh : h.Holds entries) (lines : List CStr) :
    ∃ h', addAll lines h = some h' ∧ h'.maxLen = h.maxLen ∧ h'.Holds (lines.foldl (remember h.maxLen) entries) := by
  induction lines generalizing h entries with
  | nil => exact ⟨h, rfl, rfl, hh⟩
  | cons line lines ih =>
    obtain ⟨rc, h₁, hadd, hmax₁, hh₁⟩ := linenoiseHistoryAdd_holds hh line
    obtain ⟨h', hall, hmax, hh'⟩ := ih hh₁
    rw [hmax₁] at hmax hh'
    refine ⟨h', ?_, hmax, hh'⟩
    rw [addAll, List.foldlM_cons, hadd]
    exact hall

theorem History.Holds.entries_eq {h : History} {entries : List CStr} (hh : h.Holds entries) :
    h.entries = some entries := hh.read_all

/-! ### Saving and loading -/

/-- A stored line is read as it is, with and without its line end. -/
theorem historyPiece_line {line : CStr} (hline : OneLine line) :
    historyPiece line.chars = line ∧ historyPiece (line.chars ++ [10]) = line := by
  constructor
  · apply CStr.ext
    rw [chars_historyPiece, cstr_eq_self line.nul_free, hline.2]
  · apply CStr.ext
    have hnul : 0 ∉ line.chars ++ [10] := by simp [line.nul_free]
    rw [chars_historyPiece, cstr_eq_self hnul, stripLineEnd, List.rdropWhile_concat_pos _ _ _ (by decide)]
    exact hline.2

/-- What is left of a long line's end is no entry. -/
theorem historyPiece_lineEnd : historyPiece [10] = CStr.empty := by decide

/-- A line that is not empty and not the last entry is appended, when there is room. -/
theorem remember_append {max : ℕ} {acc : List CStr} {line : CStr} (hne : line ≠ CStr.empty)
    (hlast : acc.getLast? ≠ some line) (hroom : acc.length < max) : remember max acc line = acc ++ [line] := by
  rw [remember, if_neg (not_or.mpr ⟨hne, hlast⟩), Nat.sub_eq_zero_of_le (by omega), List.drop_zero]

/-- **Storable entries that are not too long are loaded as they were saved.** -/
theorem load_saved {max : ℕ} {acc entries : List CStr} (hs : Storable max (acc ++ entries))
    (hshort : ∀ line ∈ entries, line.chars.length < historyBufSize) :
    ((fgetsAll historyBufSize [] (entries.flatMap fun line => line.chars ++ [10])).map historyPiece).foldl
      (remember max) acc = acc ++ entries := by
  induction entries generalizing acc with
  | nil => exact (List.append_nil acc).symm
  | cons line entries ih =>
    have hline := hs.oneLine line (by simp)
    have hrest : Storable max (acc ++ [line] ++ entries) := by
      rw [List.append_assoc]
      exact hs
    have hne := hs.nonempty line (by simp)
    have hadd : remember max acc line = acc ++ [line] := by
      have hdistinct := List.isChain_append.mp hs.distinct
      have hroom := hs.room
      rw [List.length_append, List.length_cons] at hroom
      exact remember_append hne (fun hlast => hdistinct.2.2 line hlast line rfl rfl) (by omega)
    have hload := ih hrest fun l hl => hshort l (List.mem_cons_of_mem _ hl)
    rw [List.append_assoc] at hload
    rw [List.flatMap_cons, List.append_assoc, List.singleton_append]
    cases Nat.lt_or_ge (line.chars.length + 1) historyBufSize with
    | inl hfits =>
      rw [fgetsAll_line hline.1 (by rw [List.length_nil]; omega), List.nil_append, List.map_cons, List.foldl_cons,
        (historyPiece_line hline).2, hadd]
      exact hload
    | inr hfull =>
      have hlen := hshort line List.mem_cons_self
      have hchars : line.chars ≠ [] := fun h0 => hne (CStr.ext h0)
      have hend : ∀ rest, fgetsAll historyBufSize [] (10 :: rest) = [10] :: fgetsAll historyBufSize [] rest :=
        fun rest => fgetsAll_line (e := []) (by simp) (by decide)
      rw [fgetsAll_full hline.1 hchars (by rw [List.length_nil]; omega), hend, List.nil_append, List.map_cons,
        List.map_cons, List.foldl_cons, List.foldl_cons, (historyPiece_line hline).1, hadd, historyPiece_lineEnd,
        remember, if_pos (Or.inl rfl)]
      exact hload

/-- What is loaded: storable entries, none longer than the buffer takes at once. -/
theorem linenoiseHistoryLoad_holds (text : List Byte) :
    ∃ h' entries, linenoiseHistoryLoad text {} = some h' ∧ h'.maxLen = 500 ∧ h'.Holds entries ∧ Storable 500 entries ∧
      (∀ line ∈ entries, line.chars.length < historyBufSize) ∧
      entries = ((fgetsAll historyBufSize [] text).map historyPiece).foldl (remember 500) [] := by
  have hpieces : ∀ piece ∈ fgetsAll historyBufSize [] text, piece.length + 1 ≤ historyBufSize ∧ 10 ∉ piece.dropLast :=
    fgetsAll_pieces (by decide) (by simp) (by decide) text
  obtain ⟨h', hall, hmax, hh'⟩ := addAll_holds holds_init ((fgetsAll historyBufSize [] text).map historyPiece)
  refine ⟨h', _, hall, hmax, hh', (storable_nil 500).foldl ?_, ?_, rfl⟩
  · intro line hline
    obtain ⟨piece, hpiece, rfl⟩ := List.mem_map.mp hline
    exact oneLine_historyPiece (hpieces piece hpiece).2
  · intro line hline
    cases mem_foldl_remember hline with
    | inl hnil => cases hnil
    | inr hread =>
      obtain ⟨piece, hpiece, rfl⟩ := List.mem_map.mp hread
      have hlen := (historyPiece_starts piece).length_le
      have hbound := (hpieces piece hpiece).1
      omega

/-- A storable history survives exactly when none of its entries is too long. -/
theorem survivesRestart_iff {h : History} {entries : List CStr} (hh : h.Holds entries) (hs : Storable 500 entries) :
    SurvivesRestart h ↔ ∀ line ∈ entries, line.chars.length < historyBufSize := by
  have hsave := linenoiseHistorySave_holds hh
  obtain ⟨h', loaded, hload, -, hh', -, hshort, hloaded⟩ :=
    linenoiseHistoryLoad_holds (entries.flatMap fun line => line.chars ++ [10])
  constructor
  · intro hsurvives
    obtain ⟨saved, h'', hsave', hload', hsame⟩ := hsurvives
    rw [hsave] at hsave'
    cases hsave'
    rw [hload] at hload'
    cases hload'
    rw [hh.entries_eq, hh'.entries_eq] at hsame
    cases hsame
    exact hshort
  · intro hall
    refine ⟨_, h', hsave, hload, ?_⟩
    rw [hh.entries_eq, hh'.entries_eq, hloaded]
    exact congrArg some (load_saved (show Storable 500 ([] ++ entries) from hs) hall)

/-- **The history survives a restart exactly when none of its entries is longer than 4095
bytes.** From any history that was loaded from a file, whatever lines are added. -/
theorem history_restart (text : List Byte) (lines : List CStr)
    (hlines : ∀ line ∈ lines, 10 ∉ line.chars ∧ 13 ∉ line.chars) :
    ∃ h₀ h entries, linenoiseHistoryLoad text {} = some h₀ ∧ addAll lines h₀ = some h ∧ h.entries = some entries ∧
      (SurvivesRestart h ↔ ∀ line ∈ entries, line.chars.length ≤ 4095) := by
  have hone : ∀ line ∈ lines, OneLine line := by
    intro line hline
    obtain ⟨h10, h13⟩ := hlines line hline
    refine ⟨h10, List.rdropWhile_eq_self_iff.mpr fun hne hlast => ?_⟩
    simp only [Bool.or_eq_true, beq_iff_eq] at hlast
    cases hlast with
    | inl hcr => exact h13 (hcr ▸ List.getLast_mem hne)
    | inr hlf => exact h10 (hlf ▸ List.getLast_mem hne)
  obtain ⟨h₀, entries₀, hload, hmax₀, hh₀, hs₀, -⟩ := linenoiseHistoryLoad_holds text
  obtain ⟨h, hadd, -, hh⟩ := addAll_holds hh₀ lines
  rw [hmax₀] at hh
  refine ⟨h₀, h, _, hload, hadd, hh.entries_eq, (survivesRestart_iff hh (hs₀.foldl hone)).trans ?_⟩
  exact forall₂_congr fun line _ => Nat.lt_succ_iff

/-- The history `NC`, and one more command. -/
theorem history_restart_BA :
    ∃ h₀ h, linenoiseHistoryLoad (str "NC\n") {} = some h₀ ∧ addAll [⟨str "BA", by decide⟩] h₀ = some h ∧
      SurvivesRestart h := by
  obtain ⟨h₀, h, entries, hload, hadd, hentries, hiff⟩ :=
    history_restart (str "NC\n") [⟨str "BA", by decide⟩] (by decide)
  have hkept : ((linenoiseHistoryLoad (str "NC\n") {}).bind fun h₀ =>
      (addAll [⟨str "BA", by decide⟩] h₀).bind History.entries) =
        some [⟨str "NC", by decide⟩, ⟨str "BA", by decide⟩] := by decide +kernel
  rw [hload, Option.bind_some, hadd, Option.bind_some, hentries, Option.some.injEq] at hkept
  subst hkept
  exact ⟨h₀, h, hload, hadd, hiff.mpr (by decide)⟩

/-- A line of the letter `a`. -/
def lineOfA (n : ℕ) : CStr := ⟨List.replicate n 97, fun h => absurd (List.eq_of_mem_replicate h) (by decide)⟩

theorem oneLine_lineOfA (n : ℕ) : OneLine (lineOfA n) := by
  refine ⟨fun h => absurd (List.eq_of_mem_replicate h) (by decide), List.rdropWhile_eq_self_iff.mpr fun hne => ?_⟩
  rw [List.eq_of_mem_replicate (List.getLast_mem hne)]
  decide

/-- A line of 4096 characters comes back as two. -/
theorem history_not_restarted :
    ∃ h₀ h, linenoiseHistoryLoad [] {} = some h₀ ∧ addAll [lineOfA 4096] h₀ = some h ∧ ¬ SurvivesRestart h := by
  obtain ⟨h, hadd, -, hh⟩ := addAll_holds holds_init [lineOfA 4096]
  have hne : lineOfA 4096 ≠ CStr.empty := by
    intro hempty
    have hlen := congrArg (fun line => line.chars.length) hempty
    rw [lineOfA, List.length_replicate] at hlen
    cases hlen
  have hentries : remember 500 [] (lineOfA 4096) = [lineOfA 4096] :=
    remember_append hne (by simp) (show [].length < 500 by decide)
  have hstorable : Storable 500 ([lineOfA 4096].foldl (remember 500) []) :=
    (storable_nil 500).foldl fun line hline => List.mem_singleton.mp hline ▸ oneLine_lineOfA 4096
  refine ⟨{}, h, rfl, hadd, fun hsurvives => ?_⟩
  have hshort := (survivesRestart_iff hh hstorable).mp hsurvives (lineOfA 4096) (hentries ▸ .head _)
  rw [lineOfA, List.length_replicate] at hshort
  exact absurd hshort (by decide)

end TcpClient
