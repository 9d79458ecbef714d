import Mathlib.Data.List.Basic
import Mathlib.Data.List.Flatten
import Mathlib.Tactic.Common

/-!
# Lines of a text

A text is split at a newline mark `nl`. What stands in front of a mark is a complete line; what
stands behind the last one is not. A text put together from pieces, each with a mark behind it, has
the lines of its pieces and no others (`mem_completeLines_unlines`), also when a piece has marks of
its own; and a text cut somewhere in a piece has what is left of that piece at its end
(`take_unlines`).

A line that is too long is read in pieces, of which all but the last are full (`toChunks_eq`).
-/

namespace TcpClient.Lines

variable {α : Type} (nl : α)

/-- The pieces, each with a mark behind it. -/
def unlines (pieces : List (List α)) : List α := pieces.flatMap fun piece => piece ++ [nl]

@[simp]
theorem unlines_nil : unlines nl [] = [] := rfl

@[simp]
theorem unlines_cons (piece : List α) (pieces : List (List α)) :
    unlines nl (piece :: pieces) = piece ++ nl :: unlines nl pieces := by
  simp [unlines]

@[simp]
theorem unlines_append (pieces pieces' : List (List α)) :
    unlines nl (pieces ++ pieces') = unlines nl pieces ++ unlines nl pieces' := List.flatMap_append

/-- A text cut in front of the end of one of its pieces. -/
theorem take_unlines {pieces : List (List α)} {piece : List α} {rest : List (List α)} {n : ℕ}
    (hle : (unlines nl pieces).length ≤ n) (hlt : n ≤ (unlines nl pieces).length + piece.length) :
    (unlines nl (pieces ++ piece :: rest)).take n =
      unlines nl pieces ++ piece.take (n - (unlines nl pieces).length) := by
  rw [unlines_append, unlines_cons, List.take_append, List.take_of_length_le hle,
    List.take_append_of_le_length (by omega)]

/-- Pieces that are left out are missed, if only for their marks. -/
theorem unlines_filter_eq_iff {pieces : List (List α)} (p : List α → Bool) :
    unlines nl (pieces.filter p) = unlines nl pieces ↔ ∀ piece ∈ pieces, p piece = true := by
  constructor
  · intro heq
    induction pieces with
    | nil => exact fun piece hpiece => absurd hpiece List.not_mem_nil
    | cons piece pieces ih =>
      cases hpiece : p piece with
      | true =>
        rw [List.filter_cons_of_pos hpiece, unlines_cons, unlines_cons] at heq
        have hrest := ih (List.cons.inj (List.append_cancel_left heq)).2
        exact List.forall_mem_cons.mpr ⟨hpiece, hrest⟩
      | false =>
        -- the rest cannot make up for the piece
        rw [List.filter_cons_of_neg (by rw [hpiece]; decide), unlines_cons] at heq
        have hlen := congrArg List.length heq
        have hrest : (unlines nl (pieces.filter p)).length ≤ (unlines nl pieces).length :=
          (List.Sublist.flatMap List.filter_sublist _).length_le
        rw [List.length_append, List.length_cons] at hlen
        omega
  · intro hall
    rw [List.filter_eq_self.mpr hall]

variable [BEq α]

/-- The lines of a text that have their mark. -/
def completeLines (text : List α) : List (List α) := (text.splitOn nl).dropLast

variable [LawfulBEq α]

/-- A line has its characters from the text, and no mark. -/
theorem of_mem_splitOn {text line : List α} (h : line ∈ text.splitOn nl) : line.Sublist text ∧ nl ∉ line := by
  induction text generalizing line with
  | nil =>
    rw [List.splitOn_nil, List.mem_singleton] at h
    subst h
    exact ⟨List.Sublist.refl _, List.not_mem_nil⟩
  | cons c text ih =>
    rw [List.splitOn_cons_eq_if_modifyHead] at h
    split_ifs at h with hc
    · cases List.mem_cons.mp h with
      | inl hfirst =>
        subst hfirst
        exact ⟨List.nil_sublist _, List.not_mem_nil⟩
      | inr hlater => exact ⟨(ih hlater).1.cons c, (ih hlater).2⟩
    · cases hsplit : text.splitOn nl with
      | nil => exact absurd hsplit (List.splitOn_ne_nil _ _)
      | cons first lines =>
        rw [hsplit] at h ih
        cases List.mem_cons.mp h with
        | inl hfirst =>
          obtain ⟨hsub, hno⟩ := ih List.mem_cons_self
          have hne : nl ≠ c := fun heq => hc (beq_iff_eq.mpr heq.symm)
          rw [hfirst]
          exact ⟨hsub.cons_cons c, by rw [List.mem_cons, not_or]; exact ⟨hne, hno⟩⟩
        | inr hlater =>
          obtain ⟨hsub, hno⟩ := ih (List.mem_cons_of_mem _ hlater)
          exact ⟨hsub.cons c, hno⟩

/-- A line is no longer than the text. -/
theorem length_le_of_mem_splitOn {text line : List α} (h : line ∈ text.splitOn nl) : line.length ≤ text.length :=
  (of_mem_splitOn nl h).1.length_le

/-- The lines of a text, put together again. -/
theorem unlines_splitOn (text : List α) : unlines nl (text.splitOn nl) = text ++ [nl] := by
  induction text with
  | nil => rfl
  | cons c text ih =>
    rw [List.splitOn_cons_eq_if_modifyHead]
    split_ifs with hc
    · rw [unlines_cons, ih, beq_iff_eq.mp hc]
      rfl
    · cases hsplit : text.splitOn nl with
      | nil => exact absurd hsplit (List.splitOn_ne_nil _ _)
      | cons first lines =>
        rw [hsplit, unlines_cons] at ih
        rw [List.modifyHead_cons, unlines_cons, List.cons_append, ih]
        rfl

/-- Text in front of the first mark goes to the first line. -/
theorem splitOn_append {front : List α} (h : nl ∉ front) (text : List α) :
    (front ++ text).splitOn nl = (text.splitOn nl).modifyHead (front ++ ·) := by
  induction front with
  | nil =>
    rw [List.nil_append]
    cases text.splitOn nl <;> rfl
  | cons c front ih =>
    rw [List.mem_cons, not_or] at h
    have hc : (c == nl) = false := beq_eq_false_iff_ne.mpr (Ne.symm h.1)
    rw [List.cons_append, List.splitOn_cons_eq_if_modifyHead, if_neg (by simp [hc]), ih h.2]
    cases text.splitOn nl <;> rfl

/-- **The complete lines of a text are those of its pieces.** -/
theorem mem_completeLines_unlines {pieces : List (List α)} {line : List α} :
    line ∈ completeLines nl (unlines nl pieces) ↔ ∃ piece ∈ pieces, line ∈ piece.splitOn nl := by
  induction pieces with
  | nil => simp [completeLines]
  | cons piece pieces ih =>
    have hne : (unlines nl pieces).splitOn nl ≠ [] := List.splitOn_ne_nil _ _
    rw [completeLines, unlines_cons, List.splitOn_append_cons_self, List.dropLast_append_of_ne_nil hne,
      List.mem_append, List.exists_mem_cons_iff, ← ih, completeLines]

/-- The lines of a text behind a front without marks that no line in question starts like. -/
theorem mem_splitOn_append {front line : List α} (hfront : nl ∉ front) (hne : ¬ front <+: line) (text : List α) :
    line ∈ (front ++ text).splitOn nl ↔ line ∈ (text.splitOn nl).tail := by
  rw [splitOn_append nl hfront]
  cases hsplit : text.splitOn nl with
  | nil => exact absurd hsplit (List.splitOn_ne_nil _ _)
  | cons first lines =>
    rw [List.modifyHead_cons, List.mem_cons, List.tail_cons, or_iff_right]
    rintro rfl
    exact hne (List.prefix_append _ _)

/-! ### Long lines -/

section Chunks

variable {β : Type} {size : ℕ}

/-- The pieces that are ready stand in front. -/
theorem toChunks_go_append (l : List β) (acc : Array β) (ready : Array (List β)) :
    List.toChunks.go size l acc ready = ready.toList ++ List.toChunks.go size l acc #[] := by
  induction l generalizing acc ready with
  | nil => simp [List.toChunks.go]
  | cons x l ih =>
    rw [List.toChunks.go, List.toChunks.go]
    split_ifs
    · rw [ih, ih _ (#[].push _)]
      simp
    · exact ih _ _

/-- A piece is filled, and then the next is begun. -/
theorem toChunks_go (l : List β) {acc : Array β} (hne : acc.toList ≠ []) (hacc : acc.size ≤ size) :
    List.toChunks.go size l acc #[] =
      (acc.toList ++ l.take (size - acc.size)) :: List.toChunks size (l.drop (size - acc.size)) := by
  induction l generalizing acc with
  | nil => simp [List.toChunks.go, List.toChunks]
  | cons x l ih =>
    have hpos : 0 < acc.size := by
      rw [← Array.length_toList]
      exact List.length_pos_iff.mpr hne
    rw [List.toChunks.go]
    split_ifs with hfull
    · rw [beq_iff_eq] at hfull
      obtain ⟨m, rfl⟩ : ∃ m, size = m + 1 := ⟨size - 1, by omega⟩
      rw [toChunks_go_append, hfull, Nat.sub_self]
      simp [List.toChunks]
    · rw [beq_iff_eq] at hfull
      have hsize : size - acc.size = (size - (acc.push x).size) + 1 := by
        rw [Array.size_push]
        omega
      rw [ih (by simp) (by rw [Array.size_push]; omega), hsize, List.take_succ_cons, List.drop_succ_cons]
      simp

/-- **A list that is not empty** begins with a piece, and goes on with those of the rest. -/
theorem toChunks_eq {l : List β} (hsize : 0 < size) (hne : l ≠ []) :
    l.toChunks size = l.take size :: (l.drop size).toChunks size := by
  obtain ⟨x, l, rfl⟩ := List.exists_cons_of_ne_nil hne
  obtain ⟨m, rfl⟩ : ∃ m, size = m + 1 := ⟨size - 1, by omega⟩
  have hgo : List.toChunks.go (m + 1) l #[x] #[] = _ := toChunks_go l (by simp) (by simp)
  simpa [List.toChunks] using hgo

theorem toChunks_of_length_le {l : List β} (hne : l ≠ []) (hshort : l.length ≤ size) : l.toChunks size = [l] := by
  have hlen := List.length_pos_iff.mpr hne
  rw [toChunks_eq (by omega) hne, List.take_of_length_le hshort, List.drop_of_length_le hshort]
  rfl

end Chunks

end TcpClient.Lines
