import Mathlib.Data.List.Nodup
import Mathlib.Data.List.Perm.Basic
import Mathlib.Tactic.Common

/-!
# A heap, and who owns what of it

The memory that `malloc`, `realloc` and `free` hand out, as the blocks that are allocated and what
they hold. An address is given to one block only, so that a pointer into a block that was freed, or
moved, is a pointer to nothing: to read, write or free through it gives `none`. An allocation is
granted or denied by the environment, which is asked each time anew.

A part of a program owns a *footprint*, the blocks it has pointers to. `Heap.Has` is that some
footprints together are the whole heap, with no block in two of them and none left over. The rules
say what each call does to a footprint and leaves alone beside it:

* `Has.read`, `Has.write`, `Has.free` — an owned block can be read, written and freed;
* `Has.malloc`, `Has.realloc` — a block is gained, or exchanged for another, or nothing happens, and
  then the allocation was denied (`Heap.Denied`).

So a program all of whose calls go by the rules frees no block twice, keeps no pointer to a freed
one, and has lost none: what it owns at the end is what is allocated.
-/

namespace TcpClient

universe u

variable {β : Type u}

/-- The blocks that are allocated, and how many allocations were asked for: the address of a block
is the number of its allocation. -/
structure Heap (β : Type u) where
  blocks : List (ℕ × β) := []
  asked : ℕ := 0
  /-- No block has an address that is still to be given. -/
  bounded : ∀ b ∈ blocks, b.1 < asked := by exact List.forall_mem_nil _
  /-- No two blocks have one address. -/
  distinct : (blocks.map Prod.fst).Nodup := by exact List.nodup_nil

/-- The blocks of an optional pointer. -/
def held (p : Option ℕ) (v : β) : List (ℕ × β) := (p.map fun p => (p, v)).toList

@[simp] theorem held_none (v : β) : held none v = [] := rfl

@[simp] theorem held_some (p : ℕ) (v : β) : held (some p) v = [(p, v)] := rfl

namespace Heap

/-- The addresses of the blocks. -/
def addresses (h : Heap β) : List ℕ := h.blocks.map Prod.fst

/-- What the block at `p` holds. -/
def read (h : Heap β) (p : ℕ) : Option β := (h.blocks.find? (·.1 = p)).map Prod.snd

/-- The block at `p` comes to hold `v`. -/
def write (h : Heap β) (p : ℕ) (v : β) : Option (Heap β) :=
  if p ∈ h.addresses then
    some {
      blocks := h.blocks.map fun b => (b.1, if b.1 = p then v else b.2)
      asked := h.asked
      bounded := by
        intro b hb
        obtain ⟨c, hc, rfl⟩ := List.mem_map.mp hb
        exact h.bounded c hc
      distinct := by
        rw [List.map_map]
        exact h.distinct }
  else none

/-- `free(p)`, where `p` is not `NULL`. -/
def free (h : Heap β) (p : ℕ) : Option (Heap β) :=
  if p ∈ h.addresses then
    some {
      blocks := h.blocks.filter (·.1 ≠ p)
      asked := h.asked
      bounded := fun b hb => h.bounded b (List.mem_of_mem_filter hb)
      distinct := h.distinct.sublist (List.filter_sublist.map Prod.fst) }
  else none

/-- `malloc`: the block is to hold `v`. -/
def malloc (grant : ℕ → Bool) (v : β) (h : Heap β) : Option ℕ × Heap β :=
  if grant h.asked then
    (some h.asked, {
      blocks := (h.asked, v) :: h.blocks
      asked := h.asked + 1
      bounded := by
        rw [List.forall_mem_cons]
        exact ⟨Nat.lt_succ_self _, fun b hb => Nat.lt_succ_of_lt (h.bounded b hb)⟩
      distinct := by
        rw [List.map_cons, List.nodup_cons]
        refine ⟨?_, h.distinct⟩
        intro hmem
        obtain ⟨b, hb, heq⟩ := List.mem_map.mp hmem
        exact absurd (h.bounded b hb) (heq ▸ Nat.lt_irrefl _) })
  else
    (none, { h with asked := h.asked + 1, bounded := fun b hb => Nat.lt_succ_of_lt (h.bounded b hb) })

/-- `realloc`: the block at `p`, if there is one, is exchanged for one that holds what `resize` makes
of it; where there is none, of `init`. -/
def realloc (grant : ℕ → Bool) (p : Option ℕ) (init : β) (resize : β → β) (h : Heap β) :
    Option (Option ℕ × Heap β) :=
  match p with
  | none => some (h.malloc grant (resize init))
  | some p => do
    let v ← h.read p
    let (q, h') := h.malloc grant (resize v)
    if q = none then return (none, h') else return (q, ← h'.free p)

/-! ### Denied allocations -/

/-- An allocation asked for between `h` and `h'` was denied. -/
def Denied (grant : ℕ → Bool) (h h' : Heap β) : Prop := ∃ n, h.asked ≤ n ∧ n < h'.asked ∧ grant n = false

section Denied

variable {h h' h₀ : Heap β} {grant : ℕ → Bool} {p : ℕ} {q : Option ℕ} {v : β}

theorem Denied.not_all (hdenied : h.Denied grant h') : ¬ ∀ n, grant n = true := by
  intro hall
  obtain ⟨n, -, -, hn⟩ := hdenied
  rw [hall n] at hn
  cases hn

/-- What was asked for before changes nothing. -/
theorem Denied.of_le (hdenied : h.Denied grant h') (hle : h₀.asked ≤ h.asked) : h₀.Denied grant h' := by
  obtain ⟨n, hfrom, hto, hn⟩ := hdenied
  exact ⟨n, Nat.le_trans hle hfrom, hto, hn⟩

theorem asked_free (hfree : h.free p = some h') : h'.asked = h.asked := by
  unfold free at hfree
  split_ifs at hfree
  cases hfree
  rfl

/-- `malloc` asks for one allocation. -/
theorem asked_malloc (hmalloc : h.malloc grant v = (q, h')) :
    h'.asked = h.asked + 1 ∧ (q = none → h.Denied grant h') := by
  unfold malloc at hmalloc
  split_ifs at hmalloc with hgrant <;> cases hmalloc
  · exact ⟨rfl, fun hq => by cases hq⟩
  · exact ⟨rfl, fun _ => ⟨h.asked, Nat.le_refl _, Nat.lt_succ_self _, Bool.eq_false_iff.mpr hgrant⟩⟩

end Denied

/-! ### Footprints -/

/-- The blocks of the footprint are the blocks there are. -/
def Has (h : Heap β) (fp : List (ℕ × β)) : Prop := h.blocks.Perm fp

section Has

variable {h : Heap β} {fp fp' : List (ℕ × β)} {grant : ℕ → Bool} {p : ℕ} {v w : β}

theorem Has.perm (hfp : h.Has fp) (hperm : fp.Perm fp') : h.Has fp' := List.Perm.trans hfp hperm

theorem Has.nodup (hfp : h.Has fp) : (fp.map Prod.fst).Nodup := (hfp.map Prod.fst).nodup_iff.mp h.distinct

theorem Has.addresses (hfp : h.Has fp) : h.addresses.Perm (fp.map Prod.fst) := hfp.map Prod.fst

theorem Has.mem_addresses (hfp : h.Has ((p, v) :: fp)) : p ∈ h.addresses :=
  hfp.addresses.mem_iff.mpr List.mem_cons_self

/-- A block is the only one at its address. -/
theorem Has.ne (hfp : h.Has ((p, v) :: fp)) {b : ℕ × β} (hb : b ∈ fp) : b.1 ≠ p := by
  have hnodup := hfp.nodup
  rw [List.map_cons, List.nodup_cons] at hnodup
  intro heq
  exact hnodup.1 (List.mem_map.mpr ⟨b, hb, heq⟩)

/-- **An owned block can be read.** -/
theorem Has.read (hfp : h.Has fp) (hmem : (p, v) ∈ fp) : h.read p = some v := by
  have hblock : (p, v) ∈ h.blocks := hfp.mem_iff.mpr hmem
  obtain ⟨b, hb⟩ : ∃ b, h.blocks.find? (·.1 = p) = some b :=
    Option.isSome_iff_exists.mp (List.find?_isSome.mpr ⟨(p, v), hblock, by simp⟩)
  have hbp : b.1 = p := by simpa using List.find?_some hb
  have heq : b = (p, v) := List.inj_on_of_nodup_map h.distinct (List.mem_of_find?_eq_some hb) hblock hbp
  rw [Heap.read, hb, heq]
  rfl

/-- **An owned block can be written.** -/
theorem Has.write (hfp : h.Has ((p, v) :: fp)) (w : β) : ∃ h', h.write p w = some h' ∧ h'.Has ((p, w) :: fp) := by
  refine ⟨_, if_pos hfp.mem_addresses, ?_⟩
  have hmap := hfp.map fun b => (b.1, if b.1 = p then w else b.2)
  have hrest : fp.map (fun b => (b.1, if b.1 = p then w else b.2)) = fp := by
    refine (List.map_congr_left ?_).trans (List.map_id fp)
    intro b hb
    rw [if_neg (hfp.ne hb)]
    rfl
  rw [List.map_cons, hrest, if_pos rfl] at hmap
  exact hmap

/-- **An owned block can be freed.** -/
theorem Has.free (hfp : h.Has ((p, v) :: fp)) : ∃ h', h.free p = some h' ∧ h'.Has fp := by
  refine ⟨_, if_pos hfp.mem_addresses, ?_⟩
  have hfilter := hfp.filter (·.1 ≠ p)
  have hrest : fp.filter (·.1 ≠ p) = fp := List.filter_eq_self.mpr fun b hb => decide_eq_true (hfp.ne hb)
  rw [List.filter_cons_of_neg (by simp), hrest] at hfilter
  exact hfilter

/-- **A block is gained**, if the allocation is granted. -/
theorem Has.malloc (hfp : h.Has fp) (grant : ℕ → Bool) (v : β) :
    ∃ q h', h.malloc grant v = (q, h') ∧ h'.Has (held q v ++ fp) := by
  unfold Heap.malloc
  split_ifs
  · exact ⟨some h.asked, _, rfl, hfp.cons _⟩
  · exact ⟨none, _, rfl, hfp⟩

/-- **A block is exchanged for another**, or stays where it is. -/
theorem Has.realloc (hfp : h.Has ((p, v) :: fp)) (grant : ℕ → Bool) (init : β) (resize : β → β) :
    (∃ h', h.realloc grant (some p) init resize = some (none, h') ∧ h'.Has ((p, v) :: fp) ∧ h.Denied grant h') ∨
    ∃ q h', h.realloc grant (some p) init resize = some (some q, h') ∧ h'.Has ((q, resize v) :: fp) := by
  have hread := hfp.read List.mem_cons_self
  obtain ⟨q, h₁, hmalloc, hgained⟩ := hfp.malloc grant (resize v)
  have hrealloc : h.realloc grant (some p) init resize =
      if q = none then some (none, h₁) else (h₁.free p).map fun h' => (q, h') := by
    rw [Heap.realloc, hread, Option.bind_eq_bind, Option.bind_some, hmalloc]
    dsimp only
    split_ifs
    · rfl
    · cases h₁.free p <;> rfl
  cases q with
  | none => exact .inl ⟨h₁, by rw [hrealloc, if_pos rfl], hgained, (asked_malloc hmalloc).2 rfl⟩
  | some q =>
    obtain ⟨h₂, hfree, hleft⟩ := (hgained.perm (List.Perm.swap (p, v) (q, resize v) fp)).free
    exact .inr ⟨q, h₂, by rw [hrealloc, if_neg (by simp), hfree]; rfl, hleft⟩

end Has

end Heap

end TcpClient
