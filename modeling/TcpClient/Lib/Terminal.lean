import TcpClient.Lib.CString
import TcpClient.Lib.Lines
import Mathlib.Algebra.BigOperators.Group.List.Basic
import Mathlib.Algebra.GroupWithZero.Nat
import Mathlib.Data.Set.List

/-!
# A terminal

The screen of a VT100, as a line with a cursor and the rows above it: a byte of the character set
takes one column, a carriage return goes to column 0, and a line feed to the next row, in the same
column. Of the control sequences there are `ESC [ 2 K`, which erases the row, and `ESC [ n D`, which
moves the cursor to the left. The row is as long as it needs to be, and there is nothing below it.

So lines that are written with nothing but line feeds between them form stairs (`feedAll_unlines`),
and stand where they should exactly when at most one of them is not empty (`stairs_eq_self_iff`).

## Honest scope

Other control characters and control sequences are passed over.
-/

namespace TcpClient.Terminal

open CString Lines

/-- A character set: the bytes that take a column each. Control characters do not, a blank does. -/
structure Charset where
  prints : UInt8 → Bool
  control : ∀ c, c < 32 → prints c = false
  blank : prints 32 = true

/-- The printable characters of ASCII. -/
def ascii : Charset where
  prints c := 32 ≤ c && c < 127
  control c hc := by simp [UInt8.not_le.mpr hc]
  blank := rfl

/-- What stands in a column. -/
abbrev Glyph (cs : Charset) : Type := {c : UInt8 // cs.prints c = true}

/-- How far a control sequence has come. -/
inductive Mode where
  | ground
  | escape
  | csi (params : List UInt8)
  deriving DecidableEq

/-- The rows from the top of the screen, and the one with the cursor. -/
structure Screen (cs : Charset) where
  above : List (List (Glyph cs)) := []
  row : List (Glyph cs) := []
  col : ℕ := 0
  mode : Mode := .ground

variable {cs : Charset}

/-- The blank. -/
def space : Glyph cs := ⟨32, cs.blank⟩

/-- The bytes of a row. -/
def text (row : List (Glyph cs)) : List UInt8 := row.map (·.val)

@[simp]
theorem length_text (row : List (Glyph cs)) : (text row).length = row.length := List.length_map _

/-- Bytes of the character set are those of a row. -/
theorem exists_text {bs : List UInt8} (h : ∀ c ∈ bs, cs.prints c = true) : ∃ row : List (Glyph cs), text row = bs := by
  lift bs to List (Glyph cs) using h
  exact ⟨bs, rfl⟩

namespace Screen

/-- A glyph is put at the cursor; columns that were never written to are blank. -/
def put (g : Glyph cs) (v : Screen cs) : Screen cs :=
  { v with
    row := v.row.take v.col ++ List.replicate (v.col - v.row.length) space ++ g :: v.row.drop (v.col + 1)
    col := v.col + 1 }

/-- The end of a control sequence. -/
def final (params : List UInt8) (c : UInt8) (v : Screen cs) : Screen cs :=
  if c = 75 ∧ params = [50] then { v with row := [] }
  else if c = 68 then { v with col := v.col - max 1 (decimalValue params) }
  else v

/-- A byte comes. -/
def feed (v : Screen cs) (c : UInt8) : Screen cs :=
  match v.mode with
  | .ground =>
    if h : cs.prints c = true then v.put ⟨c, h⟩
    else if c = 13 then { v with col := 0 }
    else if c = 10 then { v with above := v.above ++ [v.row], row := [] }
    else if c = 27 then { v with mode := .escape }
    else v
  | .escape => { v with mode := if c = 91 then .csi [] else .ground }
  | .csi params =>
    if 48 ≤ c ∧ c ≤ 63 then { v with mode := .csi (params ++ [c]) }
    else { v.final params c with mode := .ground }

/-- Bytes come. -/
def feedAll (v : Screen cs) (bs : List UInt8) : Screen cs := bs.foldl feed v

variable {v : Screen cs}

@[simp]
theorem feedAll_nil (v : Screen cs) : v.feedAll [] = v := rfl

@[simp]
theorem feedAll_cons (v : Screen cs) (c : UInt8) (bs : List UInt8) : v.feedAll (c :: bs) = (v.feed c).feedAll bs := rfl

theorem feedAll_append (v : Screen cs) (bs bs' : List UInt8) : v.feedAll (bs ++ bs') = (v.feedAll bs).feedAll bs' :=
  List.foldl_append

theorem feed_glyph (hv : v.mode = .ground) (g : Glyph cs) : v.feed g.val = v.put g := by
  rw [feed, hv]
  exact dif_pos g.property

/-- A control character in the ground mode. -/
theorem feed_control (hv : v.mode = .ground) {c : UInt8} (hc : c < 32) :
    v.feed c =
      if c = 13 then { v with col := 0 }
      else if c = 10 then { v with above := v.above ++ [v.row], row := [] }
      else if c = 27 then { v with mode := .escape }
      else v := by
  have hprints : ¬ cs.prints c = true := Bool.eq_false_iff.mp (cs.control c hc)
  rw [feed, hv]
  exact dif_neg hprints

/-- **No escape character, no control sequence.** -/
theorem feedAll_ground (hv : v.mode = .ground) {bs : List UInt8} (hbs : 27 ∉ bs) : (v.feedAll bs).mode = .ground := by
  induction bs generalizing v with
  | nil => exact hv
  | cons c bs ih =>
    rw [List.mem_cons, not_or] at hbs
    refine ih ?_ hbs.2
    rw [feed, hv]
    dsimp only
    split_ifs with hprints hreturn hline hescape
    · exact hv
    · rfl
    · rfl
    · exact absurd hescape.symm hbs.1
    · exact hv

/-! ### Control sequences -/

/-- The row is erased: `\r ESC [ 2 K`. -/
theorem feedAll_eraseRow (hv : v.mode = .ground) :
    v.feedAll [13, 27, 91, 50, 75] = { v with row := [], col := 0 } := by
  have hreturn : v.feed 13 = { v with col := 0 } := feed_control hv (by decide)
  have hescape : ({ v with col := 0 } : Screen cs).feed 27 = { v with col := 0, mode := .escape } :=
    feed_control (v := { v with col := 0 }) hv (by decide)
  rw [feedAll_cons, hreturn, feedAll_cons, hescape]
  obtain ⟨above, row, col, mode⟩ := v
  cases hv
  rfl

/-- Parameters are collected. -/
theorem feedAll_params {params ds : List UInt8} (hv : v.mode = .csi params) (hds : ∀ d ∈ ds, 48 ≤ d ∧ d ≤ 57) :
    v.feedAll ds = { v with mode := .csi (params ++ ds) } := by
  induction ds generalizing v params with
  | nil =>
    rw [List.append_nil, ← hv]
    rfl
  | cons d ds ih =>
    obtain ⟨hlow, hhigh⟩ := hds d List.mem_cons_self
    have hparam : v.feed d = { v with mode := .csi (params ++ [d]) } := by
      rw [feed, hv]
      exact if_pos ⟨hlow, UInt8.le_trans hhigh (by decide)⟩
    rw [feedAll_cons, hparam, ih rfl fun d' hd' => hds d' (List.mem_cons_of_mem _ hd'), List.append_assoc]
    rfl

/-- The cursor moves to the left: `ESC [ n D`. -/
theorem feedAll_cursorBack (hv : v.mode = .ground) {ds : List UInt8} (hds : ∀ d ∈ ds, 48 ≤ d ∧ d ≤ 57)
    (hpos : 1 ≤ decimalValue ds) :
    v.feedAll (27 :: 91 :: (ds ++ [68])) = { v with col := v.col - decimalValue ds } := by
  have hescape : v.feed 27 = { v with mode := .escape } := feed_control hv (by decide)
  have hcsi : ({ v with mode := .escape } : Screen cs).feed 91 = { v with mode := .csi [] } := rfl
  have hparams : ({ v with mode := .csi [] } : Screen cs).feedAll ds = { v with mode := .csi ds } :=
    feedAll_params (v := { v with mode := .csi [] }) rfl hds
  rw [feedAll_cons, hescape, feedAll_cons, hcsi, feedAll_append, hparams, ← max_eq_right hpos]
  obtain ⟨above, row, col, mode⟩ := v
  cases hv
  rfl

end Screen

/-! ### Stairs -/

section Stairs

variable {α β : Type} (blank : α)

/-- A line written from column `k` on. -/
def indent (k : ℕ) (line : List α) : List α := if line = [] then [] else List.replicate k blank ++ line

/-- Lines each of which begins in the column where the one before ended. -/
def stairs : ℕ → List (List α) → List (List α)
  | _, [] => []
  | k, line :: lines => indent blank k line :: stairs (k + line.length) lines

theorem indent_eq_self_iff {k : ℕ} {line : List α} : indent blank k line = line ↔ k = 0 ∨ line = [] := by
  unfold indent
  split_ifs with hline
  · exact iff_of_true hline.symm (.inr hline)
  · rw [or_iff_left hline, List.append_left_eq_self, List.replicate_eq_nil_iff]

/-- Behind a column that is not the first, only empty lines stand where they should. -/
theorem stairs_eq_self_iff_of_pos {k : ℕ} (hk : 0 < k) {lines : List (List α)} :
    stairs blank k lines = lines ↔ lines.filter (· ≠ []) = [] := by
  induction lines with
  | nil => exact iff_of_true rfl rfl
  | cons line lines ih =>
    rw [stairs, List.cons.injEq, indent_eq_self_iff, or_iff_right hk.ne']
    by_cases hline : line = []
    · subst hline
      simpa using ih
    · simp [hline]

/-- **Stairs are level exactly when at most one line is not empty.** -/
theorem stairs_eq_self_iff {lines : List (List α)} :
    stairs blank 0 lines = lines ↔ (lines.filter (· ≠ [])).length ≤ 1 := by
  induction lines with
  | nil => exact iff_of_true rfl (Nat.zero_le _)
  | cons line lines ih =>
    rw [stairs, List.cons.injEq, indent_eq_self_iff, Nat.zero_add]
    by_cases hline : line = []
    · subst hline
      simpa using ih
    · have hfilter : (line :: lines).filter (· ≠ []) = line :: lines.filter (· ≠ []) :=
        List.filter_cons_of_pos (by simpa using hline)
      rw [stairs_eq_self_iff_of_pos blank (List.length_pos_iff.mpr hline), hfilter, List.length_cons, Nat.add_le_add_iff_right,
        Nat.le_zero, List.length_eq_zero_iff, and_iff_right (.inl rfl)]

theorem map_stairs (f : α → β) (k : ℕ) (lines : List (List α)) :
    (stairs blank k lines).map (·.map f) = stairs (f blank) k (lines.map (·.map f)) := by
  induction lines generalizing k with
  | nil => rfl
  | cons line lines ih =>
    have hindent : (indent blank k line).map f = indent (f blank) k (line.map f) := by
      unfold indent
      by_cases hline : line = []
      · simp [hline]
      · simp [hline]
    rw [stairs, List.map_cons, hindent, ih, List.map_cons, stairs, List.length_map]

end Stairs

/-! ### Text -/

namespace Screen

variable {v : Screen cs}

/-- A glyph behind a line. -/
theorem put_indent (k : ℕ) (line : List (Glyph cs)) (g : Glyph cs) (v : Screen cs) :
    ({ v with row := indent space k line, col := k + line.length } : Screen cs).put g =
      { v with row := indent space k (line ++ [g]), col := k + (line ++ [g]).length } := by
  have hwritten : indent space k (line ++ [g]) = List.replicate k space ++ (line ++ [g]) := if_neg (by simp)
  have hrow : (indent space k line).take (k + line.length) ++
      List.replicate (k + line.length - (indent space k line).length) space ++
        g :: (indent space k line).drop (k + line.length + 1) = List.replicate k space ++ (line ++ [g]) := by
    by_cases hline : line = []
    · subst hline
      simp [indent]
    · have hindent : indent space k line = List.replicate k space ++ line := if_neg hline
      have hlen : (indent space k line).length = k + line.length := by
        rw [hindent, List.length_append, List.length_replicate]
      rw [List.take_of_length_le hlen.le, hlen, Nat.sub_self, List.drop_of_length_le (by omega), hindent]
      simp
  rw [put, hwritten]
  simp only [hrow, List.length_append, List.length_singleton]
  rfl

/-- A line, on an empty row. -/
theorem feedAll_text (hv : v.mode = .ground) (hrow : v.row = []) (line : List (Glyph cs)) :
    v.feedAll (text line) = { v with row := indent space v.col line, col := v.col + line.length } := by
  induction line using List.reverseRecOn with
  | nil =>
    obtain ⟨above, row, col, mode⟩ := v
    cases hrow
    rfl
  | append_singleton line g ih =>
    have hsplit : text (line ++ [g]) = text line ++ [g.val] := List.map_append
    have hput := feed_glyph (v := { v with row := indent space v.col line, col := v.col + line.length }) hv g
    rw [hsplit, feedAll_append, ih, feedAll_cons, feedAll_nil, hput, put_indent]

/-- **Lines with a line feed behind each form stairs.** -/
theorem feedAll_unlines (hv : v.mode = .ground) (hrow : v.row = []) (lines : List (List (Glyph cs))) :
    v.feedAll (unlines 10 (lines.map text)) =
      { v with above := v.above ++ stairs space v.col lines, col := v.col + (lines.map List.length).sum } := by
  induction lines generalizing v with
  | nil =>
    rw [stairs, List.append_nil]
    rfl
  | cons line lines ih =>
    have hline := feedAll_text hv hrow line
    have hfeed : ({ v with row := indent space v.col line, col := v.col + line.length } : Screen cs).feed 10 =
        { v with above := v.above ++ [indent space v.col line], row := [], col := v.col + line.length } :=
      feed_control (v := { v with row := indent space v.col line, col := v.col + line.length }) hv (by decide)
    have hrest := ih (v := { v with above := v.above ++ [indent space v.col line], row := [], col := v.col + line.length })
      hv rfl
    rw [List.map_cons, unlines_cons, feedAll_append, hline, feedAll_cons, hfeed, hrest, stairs]
    simp only [List.append_assoc, List.singleton_append, List.map_cons, List.sum_cons, Nat.add_assoc, hrow]

end Screen

end TcpClient.Terminal
