import Mathlib.Data.List.Induction
import Mathlib.Tactic.Common

/-!
# A line with a cursor

A line being edited is two lists: what stands before the cursor, and what stands
after it. `Zipper α cap` is such a line with no more than `cap` elements, and the
commands of a line editor are its operations; none of them can make it longer than
it may be.

The moves keep the text (`text_left`, …), and a row of insertions puts in as much as
there is room for (`run_insert`).
-/

namespace TcpClient

universe u

/-! ### The ends of a list -/

theorem dropLast_append_toList {α : Type u} (xs : List α) : xs.dropLast ++ xs.getLast?.toList = xs := by
  induction xs using List.reverseRecOn with
  | nil => rfl
  | append_singleton xs x => simp

theorem toList_append_tail {α : Type u} (xs : List α) : xs.head?.toList ++ xs.tail = xs := by
  cases xs <;> rfl

/-- A line of at most `cap` elements, with a cursor in it. -/
@[ext] structure Zipper (α : Type u) (cap : ℕ) where
  before : List α
  after : List α
  bounded : before.length + after.length ≤ cap
  deriving DecidableEq

namespace Zipper

variable {α : Type u} {cap : ℕ}

/-- The empty line. -/
def empty : Zipper α cap := ⟨[], [], Nat.zero_le cap⟩

/-- The line without its cursor. -/
def text (z : Zipper α cap) : List α := z.before ++ z.after

/-- How many more elements there is room for. -/
def room (z : Zipper α cap) : ℕ := cap - z.text.length

/-- An element is put in before the cursor, if there is room. -/
def insert (x : α) (z : Zipper α cap) : Zipper α cap :=
  if h : z.before.length + z.after.length < cap then
    ⟨z.before ++ [x], z.after, by rw [List.length_append, List.length_singleton]; omega⟩
  else z

/-- The element before the cursor goes. -/
def backspace (z : Zipper α cap) : Zipper α cap :=
  ⟨z.before.dropLast, z.after, by have := z.bounded; rw [List.length_dropLast]; omega⟩

/-- The element after the cursor goes. -/
def delete (z : Zipper α cap) : Zipper α cap :=
  ⟨z.before, z.after.tail, by have := z.bounded; rw [List.length_tail]; omega⟩

/-- The cursor moves back by one. -/
def left (z : Zipper α cap) : Zipper α cap :=
  ⟨z.before.dropLast, z.before.getLast?.toList ++ z.after, by
    rw [← List.length_append, ← List.append_assoc, dropLast_append_toList, List.length_append]
    exact z.bounded⟩

/-- The cursor moves on by one. -/
def right (z : Zipper α cap) : Zipper α cap :=
  ⟨z.before ++ z.after.head?.toList, z.after.tail, by
    rw [← List.length_append, List.append_assoc, toList_append_tail, List.length_append]
    exact z.bounded⟩

/-- The cursor moves to the start. -/
def home (z : Zipper α cap) : Zipper α cap :=
  ⟨[], z.text, by have := z.bounded; rw [text, List.length_append, List.length_nil]; omega⟩

/-- The cursor moves to the end. -/
def toEnd (z : Zipper α cap) : Zipper α cap :=
  ⟨z.text, [], by have := z.bounded; rw [text, List.length_append, List.length_nil]; omega⟩

/-- What stands after the cursor goes. -/
def kill (z : Zipper α cap) : Zipper α cap :=
  ⟨z.before, [], by have := z.bounded; rw [List.length_nil]; omega⟩

/-! ### Commands -/

/-- The commands of a line editor. -/
inductive Command (α : Type u) where
  | insert (x : α)
  | backspace
  | delete
  | left
  | right
  | home
  | toEnd
  /-- The whole line goes. -/
  | clear
  | kill
  deriving DecidableEq

/-- One command. -/
def exec (z : Zipper α cap) : Command α → Zipper α cap
  | .insert x => z.insert x
  | .backspace => z.backspace
  | .delete => z.delete
  | .left => z.left
  | .right => z.right
  | .home => z.home
  | .toEnd => z.toEnd
  | .clear => empty
  | .kill => z.kill

/-- The commands one after another. -/
def run (z : Zipper α cap) (cmds : List (Command α)) : Zipper α cap := cmds.foldl exec z

@[simp] theorem run_nil (z : Zipper α cap) : z.run [] = z := rfl

@[simp] theorem run_cons (z : Zipper α cap) (cmd : Command α) (cmds : List (Command α)) :
    z.run (cmd :: cmds) = (z.exec cmd).run cmds := rfl

theorem run_append (z : Zipper α cap) (cmds cmds' : List (Command α)) :
    z.run (cmds ++ cmds') = (z.run cmds).run cmds' := List.foldl_append

theorem length_text_le (z : Zipper α cap) : z.text.length ≤ cap := by
  rw [text, List.length_append]
  exact z.bounded

/-! ### The moves keep the text -/

theorem text_left (z : Zipper α cap) : z.left.text = z.text := by
  rw [text, left, ← List.append_assoc, dropLast_append_toList, text]

theorem text_right (z : Zipper α cap) : z.right.text = z.text := by
  rw [text, right, List.append_assoc, toList_append_tail, text]

theorem text_home (z : Zipper α cap) : z.home.text = z.text := rfl

theorem text_toEnd (z : Zipper α cap) : z.toEnd.text = z.text := List.append_nil _

/-! ### A row of insertions -/

/-- **A row of elements is put in as far as there is room for it.** -/
theorem run_insert (z : Zipper α cap) (xs : List α) :
    (z.run (xs.map .insert)).before = z.before ++ xs.take z.room ∧ (z.run (xs.map .insert)).after = z.after := by
  induction xs generalizing z with
  | nil => simp
  | cons x xs ih =>
    rw [List.map_cons, run_cons]
    obtain ⟨hbefore, hafter⟩ := ih (z.exec (.insert x))
    rw [hbefore, hafter]
    by_cases h : z.before.length + z.after.length < cap
    · have hins : z.exec (.insert x) = ⟨z.before ++ [x], z.after, by simp; omega⟩ := dif_pos h
      have hroom : z.room = (z.exec (.insert x)).room + 1 := by
        simp only [hins, room, text, List.length_append, List.length_singleton]
        omega
      rw [hroom, List.take_succ_cons, hins]
      simp
    · have hins : z.exec (.insert x) = z := dif_neg h
      have hroom : z.room = 0 := by
        simp only [room, text, List.length_append]
        omega
      rw [hins, hroom]
      simp

end Zipper

end TcpClient
