import TcpClient.Lib.CString
import TcpClient.Lib.Heap

/-!
# Growing arrays of strings on the heap

The usual C idiom for a list of strings: an array of pointers that is grown by `realloc`, each
pointer to a copy of a string. A `StringVec` says which blocks such a list consists of, and the
lemmas say what the loops and calls of the idiom do to them: read an entry, append a copy, let a copy
take the place of the first string, free the first few strings, free all.

Slots of the array that were never written to hold no pointer, and to read one gives `none`.
-/

namespace TcpClient

open CString

/-- What a block holds: a string, or an array of pointers. -/
inductive Block where
  | text (s : CStr)
  | slots (ps : List (Option ℕ))
  deriving DecidableEq

namespace Heap

/-! ### The calls -/

/-- The string at `p`. -/
def text (h : Heap Block) (p : ℕ) : Option CStr :=
  match h.read p with
  | some (.text s) => some s
  | _ => none

/-- The array at `p`, which may be `NULL`. -/
def slots (h : Heap Block) (p : Option ℕ) : Option (List (Option ℕ)) :=
  match p.bind h.read with
  | some (.slots ps) => some ps
  | _ => none

/-- `p[i]`. -/
def load (h : Heap Block) (p : Option ℕ) (i : ℕ) : Option ℕ := do ((← h.slots p)[i]?).join

/-- The array at `p` comes to hold `ps`. -/
def setSlots (h : Heap Block) (p : Option ℕ) (ps : List (Option ℕ)) : Option (Heap Block) := do
  h.write (← p) (.slots ps)

/-- An array of `n` slots: those there are, as many as fit, and new ones. Only arrays are resized. -/
def resize (n : ℕ) : Block → Block
  | .slots ps => .slots (ps.take n ++ List.replicate (n - ps.length) none)
  | .text s => .text s

/-- `realloc(p, sizeof(char *) * n)`. -/
def reallocSlots (grant : ℕ → Bool) (p : Option ℕ) (n : ℕ) (h : Heap Block) : Option (Option ℕ × Heap Block) :=
  h.realloc grant p (.slots []) (resize n)

/-- The array, of `n` pointers so far, is grown by one, which becomes `copy`. When it cannot be grown,
the copy is freed. -/
def append (grant : ℕ → Bool) (p : Option ℕ) (n copy : ℕ) (h : Heap Block) : Option (Option ℕ × Heap Block) := do
  let (q, h) ← h.reallocSlots grant p (n + 1)
  if q = none then return (none, ← h.free copy)
  else
    let ps ← store (← h.slots q) n (some copy)
    return (q, ← h.setSlots q ps)

/-- `for (int i = 0; i < n; i++) free(p[i]);` -/
def freeSlots (p : Option ℕ) (n : ℕ) (h : Heap Block) : Option (Heap Block) :=
  (List.range n).foldlM (fun h i => do h.free (← h.load p i)) h

/-- The first string is freed, the pointers behind it move down, and the last of the `n` becomes
`copy`. -/
def shift (p : Option ℕ) (n copy : ℕ) (h : Heap Block) : Option (Heap Block) := do
  let h ← h.free (← h.load p 0)
  let ps ← memmove (← h.slots p) 0 1 (n - 1)
  h.setSlots p (← store ps (n - 1) (some copy))

/-- The strings of the array. -/
def texts (h : Heap Block) (p : Option ℕ) (n : ℕ) : Option (List CStr) :=
  (List.range n).mapM fun i => do h.text (← h.load p i)

end Heap

/-! ### The blocks of a list -/

/-- The array, if there is one, the strings it points to, and the slots behind them. -/
structure StringVec where
  array : Option ℕ := none
  strings : List (ℕ × CStr) := []
  junk : List (Option ℕ) := []
  /-- Without an array there is nothing in it. -/
  null : array = none → strings = [] ∧ junk = [] := by exact fun _ => ⟨rfl, rfl⟩

namespace StringVec

open Heap

/-- What the array holds. -/
def slots (v : StringVec) : List (Option ℕ) := v.strings.map (some ·.1) ++ v.junk

/-- The blocks of the strings. -/
def texts (strings : List (ℕ × CStr)) : List (ℕ × Block) := strings.map fun s => (s.1, .text s.2)

/-- All blocks. -/
def blocks (v : StringVec) : List (ℕ × Block) := held v.array (.slots v.slots) ++ texts v.strings

/-- The strings. -/
def lines (v : StringVec) : List CStr := v.strings.map Prod.snd

/-- An array that is there. -/
theorem null_some {p : ℕ} {P : Prop} (h : some p = none) : P := absurd h (Option.some_ne_none p)

variable {v : StringVec} {h : Heap Block} {rest : List (ℕ × Block)} {p i : ℕ} {s : CStr} {strings : List (ℕ × CStr)}
  {ps junk : List (Option ℕ)} {grant : ℕ → Bool}

@[simp] theorem length_lines (v : StringVec) : v.lines.length = v.strings.length := List.length_map _

theorem blocks_some {p : ℕ} (hp : v.array = some p) : v.blocks = (p, .slots v.slots) :: texts v.strings := by
  rw [blocks, hp, held_some, List.singleton_append]

theorem text_of_mem (hh : h.Has rest) (hmem : (p, .text s) ∈ rest) : h.text p = some s := by
  rw [Heap.text, hh.read hmem]

theorem slots_of_mem (hh : h.Has rest) (hmem : (p, .slots ps) ∈ rest) : h.slots (some p) = some ps := by
  rw [Heap.slots, Option.bind_some, hh.read hmem]

theorem load_of_mem (hh : h.Has rest) (ps : List (Option ℕ)) (hmem : (p, .slots ps) ∈ rest) :
    h.load (some p) i = (ps[i]?).join := by
  rw [load, slots_of_mem hh hmem]
  rfl

/-- The array is written. -/
theorem setSlots_eq (hh : h.Has ((p, .slots ps) :: rest)) (qs : List (Option ℕ)) :
    ∃ h', h.setSlots (some p) qs = some h' ∧ h'.Has ((p, .slots qs) :: rest) := hh.write (.slots qs)

/-- An entry is read. -/
theorem load_eq (hh : h.Has (v.blocks ++ rest)) (hi : i < v.strings.length) :
    h.load v.array i = some v.strings[i].1 ∧ h.text v.strings[i].1 = some v.strings[i].2 := by
  cases harray : v.array with
  | none =>
    rw [(v.null harray).1] at hi
    cases hi
  | some p =>
    rw [blocks_some harray] at hh
    constructor
    · rw [load_of_mem hh v.slots List.mem_cons_self, slots,
        List.getElem?_append_left (by rw [List.length_map]; exact hi)]
      simp [hi]
    · refine text_of_mem hh (List.mem_append_left _ (List.mem_cons_of_mem _ ?_))
      exact List.mem_map.mpr ⟨v.strings[i], List.getElem_mem hi, rfl⟩

/-- All entries are read. -/
theorem texts_eq (hh : h.Has (v.blocks ++ rest)) : h.texts v.array v.strings.length = some v.lines := by
  rw [Heap.texts, lines]
  have hread : ∀ n, n ≤ v.strings.length →
      (List.range n).mapM (fun i => do h.text (← h.load v.array i)) = some ((v.strings.take n).map Prod.snd) := by
    intro n hn
    induction n with
    | zero => rfl
    | succ n ih =>
      obtain ⟨hload, htext⟩ := load_eq hh (i := n) hn
      rw [List.range_succ, List.mapM_append, ih (by omega), List.take_succ_eq_append_getElem hn, List.map_append]
      simp only [List.mapM_cons, List.mapM_nil, hload, htext, Option.bind_eq_bind, Option.bind_some, Option.pure_def,
        List.map_singleton]
  rw [hread _ le_rfl, List.take_length]

/-- **The first strings are freed.** -/
theorem freeSlots_eq (hh : h.Has (v.blocks ++ rest)) {k : ℕ} (hk : k ≤ v.strings.length) :
    ∃ h', h.freeSlots v.array k = some h' ∧
      h'.Has (held v.array (.slots v.slots) ++ texts (v.strings.drop k) ++ rest) := by
  induction k with
  | zero => exact ⟨h, rfl, hh⟩
  | succ k ih =>
    obtain ⟨h₁, hfree, hh₁⟩ := ih (by omega)
    cases harray : v.array with
    | none =>
      rw [(v.null harray).1] at hk
      cases hk
    | some p =>
      rw [harray] at hfree hh₁
      have hload : h₁.load (some p) k = some v.strings[k].1 := by
        rw [load_of_mem hh₁ v.slots (by simp), slots,
          List.getElem?_append_left (by rw [List.length_map]; exact hk), List.getElem?_map,
          List.getElem?_eq_getElem hk]
        rfl
      have hnext : texts (v.strings.drop k) =
          (v.strings[k].1, .text v.strings[k].2) :: texts (v.strings.drop (k + 1)) := by
        rw [List.drop_eq_getElem_cons hk]
        rfl
      rw [hnext, held_some, List.singleton_append, List.cons_append, List.cons_append] at hh₁
      obtain ⟨h₂, hfree₂, hh₂⟩ := (hh₁.perm (List.Perm.swap _ _ _)).free
      refine ⟨h₂, ?_, hh₂⟩
      rw [freeSlots] at hfree ⊢
      rw [List.range_succ, List.foldlM_append, hfree]
      simp [hload, hfree₂]

/-- **Every block of the list is freed.** -/
theorem freeSlots_all (hh : h.Has (v.blocks ++ rest)) {p : ℕ} (hp : v.array = some p) :
    ∃ h₁ h₂, h.freeSlots (some p) v.strings.length = some h₁ ∧ h₁.free p = some h₂ ∧ h₂.Has rest := by
  obtain ⟨h₁, hfree, hh₁⟩ := freeSlots_eq hh le_rfl
  rw [hp, List.drop_length, held_some, List.singleton_append, List.cons_append] at hh₁
  obtain ⟨h₂, hfree₂, hh₂⟩ := hh₁.free
  exact ⟨h₁, h₂, hp ▸ hfree, hfree₂, hh₂⟩

/-- What is there stays, when an array is given more slots. -/
theorem resize_slots (junk : List (Option ℕ)) {n : ℕ} (hn : strings.length ≤ n) :
    ∃ junk', resize n (.slots (strings.map (some ·.1) ++ junk)) = .slots (strings.map (some ·.1) ++ junk') ∧
      (strings.map (some ·.1) ++ junk').length = n := by
  refine ⟨junk.take (n - strings.length) ++ List.replicate (n - (strings.length + junk.length)) none, ?_, ?_⟩
  · rw [resize, List.take_append, List.take_of_length_le (by rw [List.length_map]; exact hn), List.length_append,
      List.length_map, List.append_assoc]
  · simp only [List.length_append, List.length_map, List.length_take, List.length_replicate]
    omega

/-- **The array is resized**, or stays as it was. -/
theorem reallocSlots_eq (hh : h.Has (v.blocks ++ rest)) (grant : ℕ → Bool) {n : ℕ} (hn : v.strings.length ≤ n) :
    (∃ h', h.reallocSlots grant v.array n = some (none, h') ∧ h'.Has (v.blocks ++ rest) ∧ h.Denied grant h') ∨
    ∃ q h' junk, h.reallocSlots grant v.array n = some (some q, h') ∧
      h'.Has ((q, .slots (v.strings.map (some ·.1) ++ junk)) :: texts v.strings ++ rest) ∧
      (v.strings.map (some ·.1) ++ junk).length = n := by
  obtain ⟨junk, hresize, hlen⟩ := resize_slots v.junk hn
  cases harray : v.array with
  | none =>
    have hnull := v.null harray
    have hblocks : v.blocks = [] := by
      rw [blocks, harray, hnull.1]
      rfl
    have hinit : v.strings.map (some ·.1) ++ v.junk = ([] : List (Option ℕ)) := by
      rw [hnull.1, hnull.2]
      rfl
    rw [hinit] at hresize
    obtain ⟨q, h', hmalloc, hgained⟩ := hh.malloc grant (resize n (.slots []))
    have hrealloc : h.reallocSlots grant none n = some (q, h') := congrArg some hmalloc
    cases q with
    | none => exact .inl ⟨h', hrealloc, hgained, (asked_malloc hmalloc).2 rfl⟩
    | some q =>
      refine .inr ⟨q, h', junk, hrealloc, ?_, hlen⟩
      rw [hblocks, hresize] at hgained
      rw [hnull.1] at hgained ⊢
      exact hgained
  | some p =>
    rw [blocks_some harray, List.cons_append] at hh ⊢
    rcases hh.realloc grant (.slots []) (resize n) with ⟨h', hrealloc, hsame, hdenied⟩ | ⟨q, h', hrealloc, hmoved⟩
    · exact .inl ⟨h', hrealloc, hsame, hdenied⟩
    · rw [slots, hresize] at hmoved
      exact .inr ⟨q, h', junk, hrealloc, hmoved, hlen⟩

/-- A string more. -/
def push (v : StringVec) (q p : ℕ) (s : CStr) : StringVec where
  array := some q
  strings := v.strings ++ [(p, s)]
  null := null_some

/-- **A copy is appended**, or freed when the array cannot be grown. -/
theorem append_eq (hh : h.Has ((p, .text s) :: (v.blocks ++ rest))) (grant : ℕ → Bool) :
    (∃ h', h.append grant v.array v.strings.length p = some (none, h') ∧ h'.Has (v.blocks ++ rest) ∧
      h.Denied grant h') ∨
    ∃ q h', h.append grant v.array v.strings.length p = some (some q, h') ∧ h'.Has ((v.push q p s).blocks ++ rest) := by
  have hswap : h.Has (v.blocks ++ (p, .text s) :: rest) := hh.perm List.perm_middle.symm
  rcases reallocSlots_eq hswap grant (Nat.le_succ v.strings.length) with
    ⟨h₁, hrealloc, hsame, n, hfrom, hto, hn⟩ | ⟨q, h₁, junk, hrealloc, hmoved, hlen⟩
  · obtain ⟨h₂, hfree, hleft⟩ := (hsame.perm List.perm_middle).free
    refine .inl ⟨h₂, ?_, hleft, n, hfrom, hto.trans_eq (asked_free hfree).symm, hn⟩
    rw [append, hrealloc]
    simp [hfree]
  · -- one slot is behind those of the strings, and takes the copy
    rw [List.cons_append] at hmoved
    obtain ⟨x, rfl⟩ : ∃ x, junk = [x] := List.length_eq_one_iff.mp (by
      rw [List.length_append, List.length_map] at hlen
      omega)
    have hslots : h₁.slots (some q) = some (v.strings.map (some ·.1) ++ [x]) := slots_of_mem hmoved List.mem_cons_self
    have hstore : store (v.strings.map (some ·.1) ++ [x]) v.strings.length (some p) =
        some ((v.strings ++ [(p, s)]).map (some ·.1)) := by
      rw [store, if_pos (by simp), List.set_append_right _ _ (by simp)]
      simp
    obtain ⟨h₂, hwrite, hwritten⟩ := setSlots_eq hmoved ((v.strings ++ [(p, s)]).map (some ·.1))
    refine .inr ⟨q, h₂, ?_, hwritten.perm ?_⟩
    · rw [append, hrealloc]
      simp only [Option.bind_eq_bind, Option.bind_some, reduceCtorEq, if_false, hslots, hstore, hwrite]
      rfl
    · rw [blocks_some rfl, slots, push, List.append_nil, List.cons_append]
      refine List.Perm.cons _ ?_
      rw [texts, texts, List.map_append, List.map_singleton, List.append_assoc, List.singleton_append]

/-- The entries move down by one, and a new one takes the last slot. -/
theorem shift_slots {α : Type} (x y : α) (xs junk : List α) :
    ∃ slots, memmove (x :: xs ++ junk) 0 1 xs.length = some slots ∧
      store slots xs.length y = some (xs ++ [y] ++ junk) := by
  obtain ⟨z, hrest⟩ : ∃ z, (x :: xs ++ junk).drop xs.length = z :: junk := by
    obtain ⟨most, last, hsplit⟩ := (List.eq_nil_or_concat' (x :: xs)).resolve_left (by simp)
    have hcount : xs.length = most.length := by
      have := congrArg List.length hsplit
      simpa using this
    refine ⟨last, ?_⟩
    rw [hsplit, List.append_assoc, hcount, List.drop_left]
    rfl
  refine ⟨xs ++ z :: junk, ?_, ?_⟩
  · rw [memmove, if_pos (by simp only [List.length_append, List.length_cons]; omega), Nat.zero_add, hrest,
      List.cons_append, List.drop_succ_cons, List.drop_zero, List.take_left]
    rfl
  · rw [store, if_pos (by simp), List.set_append_right _ _ le_rfl, Nat.sub_self]
    simp

/-- **A copy takes the place of the first string**, behind the others. -/
theorem shift_eq (hh : h.Has ((p, .text s) :: (v.blocks ++ rest))) {first : ℕ × CStr}
    (hv : v.strings = first :: strings) :
    ∃ (h' : Heap Block) (v' : StringVec), h.shift v.array v.strings.length p = some h' ∧
      h'.Has (v'.blocks ++ rest) ∧ v'.array = v.array ∧ v'.strings = strings ++ [(p, s)] := by
  cases harray : v.array with
  | none => exact absurd (v.null harray).1 (by rw [hv]; exact List.cons_ne_nil _ _)
  | some a =>
    have hslots : v.slots = some first.1 :: (strings.map fun s => some s.1) ++ v.junk := by
      rw [slots, hv]
      rfl
    rw [blocks_some harray, hslots, hv] at hh
    have hload : h.load (some a) 0 = some first.1 := by
      rw [load_of_mem hh (some first.1 :: (strings.map fun s => some s.1) ++ v.junk) (by simp)]
      rfl
    -- the first string comes to the front, to be freed
    have hfront := hh.perm ((List.Perm.swap _ _ _).trans ((List.Perm.cons _ (List.Perm.swap _ _ _)).trans
      (List.Perm.swap _ _ _)))
    obtain ⟨h₁, hfree, hh₁⟩ := hfront.free
    obtain ⟨ps, hmove, hstore⟩ := shift_slots (some first.1) (some p) (strings.map fun s => some s.1) v.junk
    rw [List.length_map] at hmove hstore
    obtain ⟨h₂, hset, hh₂⟩ := setSlots_eq hh₁ ((strings.map fun s => some s.1) ++ [some p] ++ v.junk)
    have hread := slots_of_mem hh₁ List.mem_cons_self
    refine ⟨h₂, ⟨some a, strings ++ [(p, s)], v.junk, null_some⟩, ?_, hh₂.perm ?_, rfl, rfl⟩
    · rw [hv, List.length_cons, shift, hload]
      simp only [hfree, hread, Nat.add_sub_cancel, hmove, hstore, hset, Option.bind_eq_bind, Option.bind_some]
    · have hblocks : blocks ⟨some a, strings ++ [(p, s)], v.junk, null_some⟩ =
          (a, .slots ((strings.map fun s => some s.1) ++ [some p] ++ v.junk)) :: (texts strings ++ [(p, .text s)]) := by
        simp [blocks, slots, texts]
      have happ : texts strings ++ [(p, Block.text s)] ++ rest = texts strings ++ (p, .text s) :: rest := by simp
      rw [hblocks, List.cons_append, happ]
      exact List.Perm.cons _ List.perm_middle.symm

end StringVec

end TcpClient
