import TcpClient.Linenoise.Memory

/-!
# What the line editor owns

Every block that the line editor has allocated is pointed to from one place: `saved_line`, the array
of the history or one of its entries, the array of the completions or one of its strings.
`Mem.Owns` says so, with the strings the blocks hold; each call keeps it, whichever allocations are
denied.

What the calls do is compared with the model in which strings are values (`Contents.view`,
`Contents.past`). Where every allocation is granted the two agree; where one is denied, a line is
not added to the history, a completion is left out, or the line that was edited is not saved.
-/

namespace TcpClient.Memory

open CString

/-- The strings there are, with their blocks, and `history_max_len`. -/
structure Contents where
  hist : StringVec := {}
  comps : StringVec := {}
  saved : Option (ℕ × CStr) := none
  max : ℕ := 500

/-- The blocks. -/
def Contents.footprint (c : Contents) : List (ℕ × Block) :=
  StringVec.texts c.saved.toList ++ (c.hist.blocks ++ c.comps.blocks)

/-- **All that is allocated is what is pointed to.** -/
structure Mem.Owns (m : Mem) (c : Contents) : Prop where
  heap : m.heap.Has c.footprint
  history : m.history = c.hist.array
  historyLen : m.historyLen = c.hist.strings.length
  historyMaxLen : m.historyMaxLen = c.max
  savedLine : m.savedLine = c.saved.map Prod.fst
  cvec : m.cvec = c.comps.array
  clen : m.clen = c.comps.strings.length
  room : c.hist.strings.length ≤ c.max
  pos : 0 < c.max

/-- Every allocation is granted. -/
def Generous (grant : ℕ → Bool) : Prop := ∀ n, grant n = true

section Ownership

variable {grant : ℕ → Bool} {m : Mem} {c : Contents} {heap : Heap Block} {line : CStr}

theorem owns_init : ({} : Mem).Owns {} := ⟨List.Perm.refl _, rfl, rfl, rfl, rfl, rfl, rfl, Nat.zero_le _, by decide⟩

/-- The history first. -/
theorem Contents.footprint_hist (c : Contents) :
    c.footprint.Perm (c.hist.blocks ++ (StringVec.texts c.saved.toList ++ c.comps.blocks)) := by
  rw [footprint, ← List.append_assoc, ← List.append_assoc]
  exact List.Perm.append_right _ List.perm_append_comm

/-- The completions first. -/
theorem Contents.footprint_comps (c : Contents) :
    c.footprint.Perm (c.comps.blocks ++ (StringVec.texts c.saved.toList ++ c.hist.blocks)) := by
  rw [footprint, ← List.append_assoc]
  exact List.perm_append_comm

/-- Another history, with the rest as it was. -/
theorem Contents.footprint_withHist (c : Contents) (hist : StringVec) :
    (hist.blocks ++ (StringVec.texts c.saved.toList ++ c.comps.blocks)).Perm { c with hist := hist }.footprint :=
  (footprint_hist { c with hist := hist }).symm

theorem Mem.Owns.heap_hist (hm : m.Owns c) :
    m.heap.Has (c.hist.blocks ++ (StringVec.texts c.saved.toList ++ c.comps.blocks)) := hm.heap.perm c.footprint_hist

theorem Mem.Owns.heap_comps (hm : m.Owns c) :
    m.heap.Has (c.comps.blocks ++ (StringVec.texts c.saved.toList ++ c.hist.blocks)) := hm.heap.perm c.footprint_comps

/-! ### Copies -/

/-- A copy belongs to nobody yet. -/
theorem Mem.Owns.strdup (hm : m.Owns c) (grant : ℕ → Bool) (s : CStr) :
    ∃ p heap, linenoiseStrdup grant s m = (p, { m with heap := heap }) ∧
      heap.Has (held p (.text s) ++ c.footprint) ∧ m.heap.asked ≤ heap.asked ∧
      (p = none → m.heap.Denied grant heap) := by
  obtain ⟨p, heap, hmalloc, hgained⟩ := hm.heap.malloc grant (.text s)
  obtain ⟨hasked, hdenied⟩ := Heap.asked_malloc hmalloc
  exact ⟨p, heap, by rw [linenoiseStrdup, hmalloc], hgained, hasked ▸ Nat.le_succ _, hdenied⟩

theorem Mem.Owns.freeSavedLine (hm : m.Owns c) :
    ∃ m', freeSavedLine m = some m' ∧ m'.Owns { c with saved := none } := by
  have hsaved := hm.savedLine
  have hheap := hm.heap
  unfold Memory.freeSavedLine
  cases hc : c.saved with
  | none =>
    rw [hc] at hsaved
    rw [hsaved]
    exact ⟨m, rfl, { hm with heap := by rw [Contents.footprint, hc] at hheap; exact hheap, savedLine := hsaved }⟩
  | some ps =>
    obtain ⟨p, s⟩ := ps
    rw [hc] at hsaved
    rw [Contents.footprint, hc] at hheap
    obtain ⟨heap, hfree, hleft⟩ := Heap.Has.free (p := p) (v := Block.text s) hheap
    rw [hsaved]
    refine ⟨{ m with heap := heap, savedLine := none }, ?_, { hm with heap := hleft, savedLine := rfl }⟩
    simp [Mem.free, hfree]

/-! ### The history -/

theorem getLast?_lines {v : StringVec} : v.lines.getLast? = v.strings.getLast?.map Prod.snd := List.getLast?_map

theorem Mem.Owns.repeats (hm : m.Owns c) (line : CStr) :
    repeats line m = some (decide (c.hist.lines.getLast? = some line)) := by
  unfold Memory.repeats
  rw [hm.history, hm.historyLen, getLast?_lines]
  cases hlast : c.hist.strings.getLast? with
  | none =>
    rw [List.getLast?_eq_none_iff.mp hlast]
    simp
  | some last =>
    have hpos : 0 < c.hist.strings.length := by
      cases hnil : c.hist.strings with
      | nil => simp [hnil] at hlast
      | cons s rest => exact Nat.succ_pos _
    have harray : c.hist.array ≠ none := fun hnone => by simp [(c.hist.null hnone).1] at hpos
    rw [if_pos ⟨harray, hpos⟩]
    obtain ⟨hload, htext⟩ := StringVec.load_eq hm.heap_hist (i := c.hist.strings.length - 1) (by omega)
    rw [List.getLast?_eq_getElem?, List.getElem?_eq_getElem (by omega), Option.some.injEq] at hlast
    rw [hlast] at hload htext
    rw [hload]
    simp [htext]

/-- The copy goes in: behind the others, or for the oldest, unless the array cannot be grown. -/
theorem Mem.Owns.addCopy {copy : ℕ} (hm : m.Owns c) (hheap : heap.Has ((copy, .text line) :: c.footprint))
    (grant : ℕ → Bool) :
    ∃ (rc : ℤ) (m' : Mem) (hist : StringVec), addCopy grant copy { m with heap := heap } = some (rc, m') ∧
      m'.Owns { c with hist := hist } ∧
      ((rc = 1 ∧ hist.lines = keepLast c.max (c.hist.lines ++ [line])) ∨
        (rc = 0 ∧ hist.lines = c.hist.lines ∧ heap.Denied grant m'.heap)) := by
  have hroom := hm.room
  have hall := hheap.perm (List.Perm.cons _ c.footprint_hist)
  unfold Memory.addCopy
  simp only [hm.history, hm.historyLen, hm.historyMaxLen]
  by_cases hfull : c.max ≤ c.hist.strings.length
  · have hmax : c.max = c.hist.strings.length := le_antisymm hfull hroom
    cases hstrings : c.hist.strings with
    | nil =>
      have hpos := hm.pos
      rw [hmax, hstrings] at hpos
      cases hpos
    | cons first strings =>
      obtain ⟨heap', hist, hshift, hheap', harray, hlast⟩ := StringVec.shift_eq hall hstrings
      have hlen : hist.strings.length = c.hist.strings.length := by
        rw [hlast, hstrings]
        simp
      rw [← hmax] at hshift
      rw [← hstrings, if_pos hfull, hshift]
      refine ⟨1, _, hist, rfl, { hm with
        heap := hheap'.perm (c.footprint_withHist _)
        history := harray.symm
        historyLen := hlen.symm
        historyMaxLen := rfl
        room := hlen.trans_le hroom }, .inl ⟨rfl, ?_⟩⟩
      rw [StringVec.lines, StringVec.lines, hlast, hmax, hstrings, keepLast]
      simp
  · rw [if_neg hfull]
    have hkept : keepLast c.max (c.hist.lines ++ [line]) = c.hist.lines ++ [line] := by
      rw [keepLast, List.length_append, StringVec.length_lines, List.length_singleton,
        Nat.sub_eq_zero_of_le (not_le.mp hfull), List.drop_zero]
    rcases StringVec.append_eq hall grant with ⟨heap', happend, hheap', hdenied⟩ | ⟨q, heap', happend, hheap'⟩
    · rw [happend]
      refine ⟨0, _, c.hist, rfl, { hm with
        heap := hheap'.perm c.footprint_hist.symm
        history := rfl
        historyLen := rfl
        historyMaxLen := rfl }, .inr ⟨rfl, rfl, hdenied⟩⟩
    · rw [happend]
      refine ⟨1, _, c.hist.push q copy line, rfl, { hm with
        heap := hheap'.perm (c.footprint_withHist _)
        history := rfl
        historyLen := by simp [StringVec.push]
        historyMaxLen := rfl
        room := by simpa [StringVec.push] using Nat.succ_le_of_lt (not_le.mp hfull) }, .inl ⟨rfl, ?_⟩⟩
      rw [hkept, StringVec.lines, StringVec.push, List.map_append]
      rfl

/-- **Adding a line** keeps what is owned; a line is lost only where an allocation is denied that the call asks
for. -/
theorem Mem.Owns.linenoiseHistoryAdd (hm : m.Owns c) (grant : ℕ → Bool) (line : CStr) :
    ∃ (rc : ℤ) (m' : Mem) (hist : StringVec), linenoiseHistoryAdd grant line m = some (rc, m') ∧
      m'.Owns { c with hist := hist } ∧
        ((rc = (if line = CStr.empty ∨ c.hist.lines.getLast? = some line then 0 else 1) ∧
            hist.lines = remember c.max c.hist.lines line) ∨
          (rc = 0 ∧ hist.lines = c.hist.lines ∧ m.heap.Denied grant m'.heap)) := by
  have hpos := hm.pos
  unfold Memory.linenoiseHistoryAdd
  rw [remember_eq]
  by_cases hempty : line = CStr.empty
  · rw [if_pos (.inl hempty), if_pos (.inl hempty), if_pos (.inl hempty)]
    exact ⟨0, m, c.hist, rfl, hm, .inl ⟨rfl, rfl⟩⟩
  rw [if_neg (not_or.mpr ⟨hempty, by rw [hm.historyMaxLen]; exact hpos.ne'⟩), hm.repeats line]
  by_cases hlast : c.hist.lines.getLast? = some line
  · rw [if_pos (.inr hlast), if_pos (.inr hlast)]
    exact ⟨0, m, c.hist, by simp [hlast], hm, .inl ⟨rfl, rfl⟩⟩
  rw [if_neg (not_or.mpr ⟨hempty, hlast⟩), if_neg (not_or.mpr ⟨hempty, hlast⟩)]
  simp only [decide_eq_false hlast, Option.bind_eq_bind, Option.bind_some, Bool.false_eq_true, if_false]
  obtain ⟨p, heap, hdup, hheap, hasked, hdenied⟩ := hm.strdup grant line
  rw [hdup]
  cases p with
  | none => exact ⟨0, _, c.hist, rfl, { hm with heap := hheap }, .inr ⟨rfl, rfl, hdenied rfl⟩⟩
  | some copy =>
    obtain ⟨rc, m', hist, hadd, hm', hkept | ⟨hrc, hlines, hdenied'⟩⟩ := hm.addCopy hheap grant
    · exact ⟨rc, m', hist, hadd, hm', .inl hkept⟩
    · exact ⟨rc, m', hist, hadd, hm', .inr ⟨hrc, hlines, hdenied'.of_le hasked⟩⟩

/-- The oldest entries go. -/
theorem Mem.Owns.trim (hm : m.Owns c) {n : ℕ} (hn : n < c.hist.strings.length) :
    ∃ (m' : Mem) (hist : StringVec), trim n m = some m' ∧ m'.Owns { c with hist := hist } ∧ hist.array = c.hist.array ∧
      hist.strings = c.hist.strings.drop (c.hist.strings.length - n) := by
  cases harray : c.hist.array with
  | none =>
    rw [(c.hist.null harray).1] at hn
    cases hn
  | some p =>
    obtain ⟨heap₁, hfree, hheap₁⟩ :=
      StringVec.freeSlots_eq hm.heap_hist (Nat.sub_le c.hist.strings.length n)
    rw [harray] at hfree hheap₁
    rw [held_some, List.append_assoc, List.singleton_append] at hheap₁
    have hlen : n + (c.hist.strings.length - n) ≤ c.hist.slots.length := by
      rw [StringVec.slots, List.length_append, List.length_map]
      omega
    have hkept : (c.hist.slots.drop (c.hist.strings.length - n)).take n =
        (c.hist.strings.drop (c.hist.strings.length - n)).map (some ·.1) := by
      rw [StringVec.slots, List.drop_append_of_le_length (by rw [List.length_map]; omega), ← List.map_drop]
      exact List.take_left' (by rw [List.length_map, List.length_drop]; omega)
    have hread := StringVec.slots_of_mem hheap₁ List.mem_cons_self
    obtain ⟨heap₂, hset, hheap₂⟩ := StringVec.setSlots_eq hheap₁
      ((c.hist.strings.drop (c.hist.strings.length - n)).map (some ·.1) ++ c.hist.slots.drop n)
    refine ⟨{ m with heap := heap₂, historyLen := n },
      ⟨some p, c.hist.strings.drop (c.hist.strings.length - n), c.hist.slots.drop n, StringVec.null_some⟩, ?_, ?_, rfl, rfl⟩
    · rw [Memory.trim]
      simp only [hm.history, hm.historyLen, harray, hfree, hread, moveDown_eq hlen, hkept, hset, Option.bind_eq_bind,
        Option.bind_some, Option.pure_def]
    · have hcount : (c.hist.strings.drop (c.hist.strings.length - n)).length = n := by
        rw [List.length_drop]
        omega
      refine { hm with
        heap := hheap₂.perm (c.footprint_withHist ⟨some p, _, _, StringVec.null_some⟩)
        history := hm.history.trans harray
        historyLen := hcount.symm
        room := ?_ }
      have hroom := hm.room
      dsimp only
      omega

/-- The entries that are too many go. -/
theorem Mem.Owns.shrink (hm : m.Owns c) (n : ℕ) :
    ∃ (m' : Mem) (hist : StringVec), shrink n m = some m' ∧ m'.Owns { c with hist := hist } ∧
      hist.array = c.hist.array ∧ hist.strings.length ≤ n ∧ hist.lines = keepLast n c.hist.lines := by
  rw [Memory.shrink, hm.historyLen]
  split_ifs with hmany
  · obtain ⟨m', hist, htrim, hm', harray, hstrings⟩ := hm.trim hmany
    refine ⟨m', hist, htrim, hm', harray, ?_, ?_⟩
    · rw [hstrings, List.length_drop]
      omega
    · rw [StringVec.lines, hstrings, List.map_drop, keepLast, StringVec.length_lines]
      rfl
  · refine ⟨m, c.hist, rfl, hm, rfl, not_lt.mp hmany, ?_⟩
    rw [keepLast, StringVec.length_lines, Nat.sub_eq_zero_of_le (not_lt.mp hmany), List.drop_zero]

/-- **A new limit** keeps what is owned, and the last entries. -/
theorem Mem.Owns.linenoiseHistorySetMaxLen (hm : m.Owns c) (grant : ℕ → Bool) {len : ℤ} (hlen : 1 ≤ len) :
    ∃ (m' : Mem) (hist : StringVec), linenoiseHistorySetMaxLen grant len m = some (1, m') ∧
      m'.Owns { c with hist := hist, max := len.toNat } ∧ hist.lines = keepLast len.toNat c.hist.lines := by
  have hpos : 0 < len.toNat := by omega
  have hhist := hm.history
  unfold Memory.linenoiseHistorySetMaxLen
  rw [if_neg (by omega)]
  cases harray : c.hist.array with
  | none =>
    rw [harray] at hhist
    have hnull := c.hist.null harray
    have hzero : c.hist.strings.length = 0 := by rw [hnull.1, List.length_nil]
    refine ⟨_, c.hist, if_pos hhist, { hm with
      historyMaxLen := rfl
      room := hzero.trans_le (Nat.zero_le _)
      pos := hpos }, ?_⟩
    rw [keepLast, StringVec.length_lines, hzero, Nat.zero_sub, List.drop_zero]
  | some p =>
    rw [harray] at hhist
    -- the entries that are too many go first
    obtain ⟨m₁, hist₁, hshrink, hm₁, -, hfits, hlines⟩ := hm.shrink len.toNat
    rw [if_neg (by rw [hhist]; simp), hshrink]
    simp only [Option.bind_eq_bind, Option.bind_some, hm₁.history]
    rcases StringVec.reallocSlots_eq hm₁.heap_hist grant hfits with
      ⟨heap', hrealloc, hheap', hdenied⟩ | ⟨q, heap', junk, hrealloc, hheap', hcap⟩
    · rw [hrealloc]
      exact ⟨_, hist₁, rfl, { hm₁ with
        heap := hheap'.perm (c.footprint_withHist hist₁)
        history := rfl
        historyMaxLen := rfl
        room := hfits
        pos := hpos }, hlines⟩
    · rw [hrealloc]
      refine ⟨_, ⟨some q, hist₁.strings, junk, StringVec.null_some⟩, rfl, { hm₁ with
        heap := hheap'.perm (c.footprint_withHist ⟨some q, _, _, StringVec.null_some⟩)
        history := rfl
        historyMaxLen := rfl
        room := hfits
        pos := hpos }, hlines⟩

/-- **The history is freed**, and the saved line. -/
theorem Mem.Owns.linenoiseHistoryFree (hm : m.Owns c) :
    ∃ m', linenoiseHistoryFree m = some m' ∧ m'.Owns { c with hist := {}, saved := none } := by
  have hhist := hm.history
  unfold Memory.linenoiseHistoryFree
  cases harray : c.hist.array with
  | none =>
    rw [harray] at hhist
    have hnull := c.hist.null harray
    have hempty : c.hist = {} := by
      obtain ⟨⟨array, strings, junk, hnone⟩, comps, saved, max⟩ := c
      cases harray
      cases hnull.1
      cases hnull.2
      rfl
    have hm' : ({ m with history := none, historyLen := 0 } : Mem).Owns { c with hist := {} } :=
      { hm with
        heap := by
          have hheap := hm.heap
          rw [Contents.footprint, hempty] at hheap
          exact hheap
        history := rfl
        historyLen := rfl
        room := Nat.zero_le _ }
    rw [hhist]
    exact hm'.freeSavedLine
  | some p =>
    rw [harray] at hhist
    obtain ⟨heap₁, heap₂, hfree, hfree', hheap⟩ := StringVec.freeSlots_all hm.heap_hist harray
    rw [hm.historyLen]
    have hm' : ({ m with heap := heap₂, history := none, historyLen := 0 } : Mem).Owns { c with hist := {} } :=
      { hm with
        heap := hheap.perm (c.footprint_withHist {})
        history := rfl
        historyLen := rfl
        room := Nat.zero_le _ }
    simp only [hhist, hfree, hfree', Option.bind_eq_bind, Option.bind_some]
    exact hm'.freeSavedLine

/-! ### The completions -/

/-- Other completions, with the rest as it was. -/
theorem Contents.footprint_withComps (c : Contents) (comps : StringVec) :
    (comps.blocks ++ (StringVec.texts c.saved.toList ++ c.hist.blocks)).Perm { c with comps := comps }.footprint :=
  (footprint_comps { c with comps := comps }).symm

theorem Mem.Owns.linenoiseFreeCompletions (hm : m.Owns c) :
    ∃ m', linenoiseFreeCompletions m = some m' ∧ m'.Owns { c with comps := {} } := by
  have hcvec := hm.cvec
  unfold Memory.linenoiseFreeCompletions
  cases harray : c.comps.array with
  | none =>
    rw [harray] at hcvec
    have hnull := c.comps.null harray
    have hempty : c.comps = {} := by
      obtain ⟨hist, ⟨array, strings, junk, hnone⟩, saved, max⟩ := c
      cases harray
      cases hnull.1
      cases hnull.2
      rfl
    rw [hcvec]
    refine ⟨_, rfl, { hm with heap := ?_, cvec := rfl, clen := rfl }⟩
    have hheap := hm.heap
    rw [Contents.footprint, hempty] at hheap
    exact hheap
  | some p =>
    obtain ⟨heap₁, heap₂, hfree, hfree', hheap⟩ := StringVec.freeSlots_all hm.heap_comps harray
    rw [harray] at hcvec
    simp only [hcvec, hm.clen, hfree, hfree', Option.bind_eq_bind, Option.bind_some]
    exact ⟨_, rfl, { hm with heap := hheap.perm (c.footprint_withComps {}), cvec := rfl, clen := rfl }⟩

/-- A completion more, unless an allocation is denied. -/
theorem Mem.Owns.linenoiseAddCompletion (hm : m.Owns c) (grant : ℕ → Bool) (s : CStr) :
    ∃ (m' : Mem) (comps : StringVec), linenoiseAddCompletion grant m s = some m' ∧ m'.Owns { c with comps := comps } ∧
      (comps.lines = c.comps.lines ++ [s] ∨ (comps.lines = c.comps.lines ∧ ¬ Generous grant)) := by
  unfold Memory.linenoiseAddCompletion
  obtain ⟨p, heap, hdup, hheap, -, hdenied⟩ := hm.strdup grant s
  rw [hdup]
  cases p with
  | none => exact ⟨_, c.comps, rfl, { hm with heap := hheap }, .inr ⟨rfl, (hdenied rfl).not_all⟩⟩
  | some copy =>
    have hcopy := hheap.perm (List.Perm.cons _ c.footprint_comps)
    simp only [hm.cvec, hm.clen]
    rcases StringVec.append_eq hcopy grant with ⟨heap', happend, hheap', hdenied⟩ | ⟨q, heap', happend, hheap'⟩
    · rw [happend]
      exact ⟨_, c.comps, rfl, { hm with heap := hheap'.perm c.footprint_comps.symm, cvec := rfl, clen := rfl },
        .inr ⟨rfl, hdenied.not_all⟩⟩
    · rw [happend]
      refine ⟨_, c.comps.push q copy s, rfl, { hm with
        heap := hheap'.perm (c.footprint_withComps _)
        cvec := rfl
        clen := by simp [StringVec.push] }, .inl ?_⟩
      rw [StringVec.lines, StringVec.push, List.map_append]
      rfl

/-- Several completions: those for which nothing was denied. -/
theorem Mem.Owns.addCompletions (hm : m.Owns c) (grant : ℕ → Bool) (ss : List CStr) :
    ∃ (m' : Mem) (comps : StringVec) (added : List CStr), ss.foldlM (Memory.linenoiseAddCompletion grant) m = some m' ∧
      m'.Owns { c with comps := comps } ∧ comps.lines = c.comps.lines ++ added ∧ added.Sublist ss ∧
      (Generous grant → added = ss) := by
  induction ss generalizing m c with
  | nil => exact ⟨m, c.comps, [], rfl, hm, (List.append_nil _).symm, List.Sublist.refl _, fun _ => rfl⟩
  | cons s ss ih =>
    obtain ⟨m₁, comps₁, hadd, hm₁, hlines₁⟩ := hm.linenoiseAddCompletion grant s
    obtain ⟨m₂, comps₂, added, hrest, hm₂, hlines₂, hsub, hall⟩ := ih hm₁
    rw [List.foldlM_cons, hadd]
    rcases hlines₁ with hlines₁ | ⟨hlines₁, hdenied⟩
    · refine ⟨m₂, comps₂, s :: added, hrest, hm₂, ?_, hsub.cons_cons s, fun h => by rw [hall h]⟩
      rw [hlines₂]
      dsimp only
      rw [hlines₁, List.append_assoc, List.singleton_append]
    · refine ⟨m₂, comps₂, added, hrest, hm₂, ?_, hsub.cons s, fun h => absurd h hdenied⟩
      rw [hlines₂]
      dsimp only
      rw [hlines₁]

end Ownership

end TcpClient.Memory
