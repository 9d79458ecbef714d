import Mathlib.Data.List.Induction
import Mathlib.Tactic.Common

/-!
# Streams and where they are cut

A byte stream arrives in pieces, and what is done with it must not depend on the
pieces. Two ways a stream is read are treated here, over any alphabet:

* up to a delimiter: `cutAfter p s` is `s` up to and including the first item
  that satisfies `p`, and all of `s` if none does;
* record by record: `records nl s` are the complete records of `s`, each with the
  delimiter that ends it, and the tail after the last delimiter.

For both, the law that carries a piecewise reader: what a longer stream gives, in
terms of what the shorter one gave (`cutAfter_append_of_all`, `records_concat`).
-/

namespace TcpClient.Stream

universe u

variable {α : Type u}

/-! ### Up to a delimiter -/

/-- `s` up to and including the first item that satisfies `p`. -/
def cutAfter (p : α → Bool) : List α → List α
  | [] => []
  | a :: s => if p a then [a] else a :: cutAfter p s

variable (p : α → Bool)

/-- Where no delimiter has come, the cut is further on. -/
theorem cutAfter_append_of_all {s : List α} (h : ∀ a ∈ s, p a = false) (t : List α) :
    cutAfter p (s ++ t) = s ++ cutAfter p t := by
  induction s with
  | nil => rfl
  | cons a s ih =>
    rw [List.cons_append, cutAfter, h a List.mem_cons_self, ih fun b hb => h b (List.mem_cons_of_mem _ hb)]
    rfl

theorem cutAfter_of_all {s : List α} (h : ∀ a ∈ s, p a = false) : cutAfter p s = s := by
  simpa [cutAfter] using cutAfter_append_of_all p h []

/-- The cut as an index: the items up to the one the search finds. -/
theorem cutAfter_of_findIdx? {s : List α} {i : ℕ} (h : s.findIdx? p = some i) :
    cutAfter p s = s.take (i + 1) := by
  induction s generalizing i with
  | nil => simp at h
  | cons a s ih =>
    rw [List.findIdx?_cons] at h
    rw [cutAfter]
    split_ifs at h ⊢ with ha
    · cases h; rfl
    · obtain ⟨j, hj, rfl⟩ := Option.map_eq_some_iff.mp h
      rw [ih hj, List.take_succ_cons]

/-! ### Record by record -/

variable [DecidableEq α] (nl : α)

/-- The complete records of a stream, each with its delimiter, and the tail. -/
def records : List α → List (List α) × List α
  | [] => ([], [])
  | a :: s =>
    if a = nl then ([a] :: (records s).1, (records s).2)
    else match records s with
      | ([], tail) => ([], a :: tail)
      | (r :: rs, tail) => ((a :: r) :: rs, tail)

/-- **One item more**: a delimiter closes the tail, anything else lengthens it. -/
theorem records_concat (s : List α) (a : α) :
    records nl (s ++ [a]) =
      if a = nl then ((records nl s).1 ++ [(records nl s).2 ++ [a]], [])
      else ((records nl s).1, (records nl s).2 ++ [a]) := by
  induction s with
  | nil => by_cases ha : a = nl <;> simp [records, ha]
  | cons b s ih =>
    rw [List.cons_append, records, records, ih]
    rcases hs : records nl s with ⟨_ | ⟨r, rs⟩, tail⟩ <;> by_cases ha : a = nl <;> by_cases hb : b = nl <;>
      simp [ha, hb]

/-- Items among which there is no delimiter lengthen the tail. -/
theorem records_append_of_not_mem {t : List α} (ht : nl ∉ t) (s : List α) :
    records nl (s ++ t) = ((records nl s).1, (records nl s).2 ++ t) := by
  induction t using List.reverseRecOn with
  | nil => simp
  | append_singleton t a ih =>
    rw [List.mem_append, List.mem_singleton, not_or] at ht
    rw [← List.append_assoc, records_concat, if_neg (Ne.symm ht.2), ih ht.1, List.append_assoc]

/-- The tail has no delimiter. -/
theorem not_mem_records_tail (s : List α) : nl ∉ (records nl s).2 := by
  induction s using List.reverseRecOn with
  | nil => simp [records]
  | append_singleton s a ih =>
    rw [records_concat]
    split_ifs with ha
    · simp
    · simpa [ih] using Ne.symm ha

/-- What comes later leaves the records there are. -/
theorem records_prefix (s t : List α) : (records nl s).1 <+: (records nl (s ++ t)).1 := by
  induction t using List.reverseRecOn with
  | nil => simp
  | append_singleton t a ih =>
    rw [← List.append_assoc, records_concat]
    split_ifs
    · exact ih.trans (List.prefix_append _ _)
    · exact ih

end TcpClient.Stream
