import TcpClient.Linenoise.History
import TcpClient.Lib.Machine
import Mathlib.Data.List.Chain

/-!
# The history is a bounded log

`linenoiseHistorySetMaxLen`, and what becomes of the history under any sequence of the three calls
that change it. The array has a capacity, a length and a limit of its own, which the calls change
each in its way; a `Log` is a list of lines and a limit. Every call does to the array what its
operation does to the log (`HistoryOp.holds`), so that a run of calls leaves the log the run of
operations does (`history_log`), without ever leaving the array.
-/

namespace TcpClient

open CString Machine

/-! ### The limit -/

/-- `for (int i = 0; i < n; i++) a[i] = a[i + k];` -/
def moveDown {α : Type} (slots : List α) (k n : ℕ) : Option (List α) :=
  (List.range n).foldlM (fun slots i => do
    let slot ← slots[i + k]?
    store slots i slot) slots

/-- The oldest entries are freed, and the others move down. -/
def History.trim (h : History) (n : ℕ) : Option History := do
  let _ ← (List.range (h.len - n)).mapM h.get
  let slots ← moveDown h.slots (h.len - n) n
  return { h with slots := slots, len := n }

/-- `linenoiseHistorySetMaxLen(len)`. -/
def linenoiseHistorySetMaxLen (len : ℤ) (h : History) : Option (ℤ × History) :=
  if len < 1 then some (0, h)
  else if h.slots = [] then some (1, { h with maxLen := len.toNat })
  else do
    let h ← if len.toNat < h.len then h.trim len.toNat else some h
    return (1, { h.realloc len.toNat with maxLen := len.toNat })

/-- What is moved is what was `k` slots further on. -/
theorem moveDown_eq {α : Type} {slots : List α} {k n : ℕ} (h : n + k ≤ slots.length) :
    moveDown slots k n = some ((slots.drop k).take n ++ slots.drop n) := by
  induction n with
  | zero => rfl
  | succ n ih =>
    have hn := ih (by omega)
    rw [moveDown] at hn ⊢
    have hlen : ((slots.drop k).take n).length = n := by
      rw [List.length_take, List.length_drop]
      omega
    have hread : ((slots.drop k).take n ++ slots.drop n)[n + k]? = some slots[n + k] := by
      rw [List.getElem?_append_right (by omega), hlen, Nat.add_sub_cancel_left, List.getElem?_drop]
      exact List.getElem?_eq_getElem (by omega)
    have htake : (slots.drop k).take (n + 1) = (slots.drop k).take n ++ [slots[n + k]] := by
      rw [List.take_succ_eq_append_getElem (by rw [List.length_drop]; omega), List.getElem_drop]
      simp only [Nat.add_comm k n]
    have hwrite : store ((slots.drop k).take n ++ slots.drop n) n slots[n + k] =
        some ((slots.drop k).take (n + 1) ++ slots.drop (n + 1)) := by
      have hnext : slots.drop n = slots[n] :: slots.drop (n + 1) := List.drop_eq_getElem_cons (by omega)
      rw [store, if_pos (by rw [List.length_append, hlen, List.length_drop]; omega),
        List.set_append_right _ _ (by omega), hlen, Nat.sub_self, hnext, List.set_cons_zero, htake, List.append_assoc,
        List.singleton_append]
    rw [List.range_succ, List.foldlM_append, hn]
    simp only [Option.bind_eq_bind, Option.bind_some, List.foldlM_cons, List.foldlM_nil, hread, hwrite, Option.pure_def]

/-! ### The log -/

/-- The last `n` of some lines. -/
def keepLast (n : ℕ) (lines : List CStr) : List CStr := lines.drop (lines.length - n)

/-- The lines remembered, and how many may be. -/
structure Log where
  lines : List CStr := []
  max : ℕ := 500

/-- A call that changes the history. -/
inductive HistoryOp where
  | add (line : CStr)
  | setMaxLen (len : ℤ)
  | free

/-- What a call is for. -/
def HistoryOp.log : HistoryOp → Log → Log
  | .add line, log =>
    if line = CStr.empty ∨ log.lines.getLast? = some line then log
    else { log with lines := keepLast log.max (log.lines ++ [line]) }
  | .setMaxLen len, log => if len < 1 then log else ⟨keepLast len.toNat log.lines, len.toNat⟩
  | .free, log => { log with lines := [] }

/-- The call. -/
def HistoryOp.run (op : HistoryOp) (h : History) : Option History :=
  match op with
  | .add line => (linenoiseHistoryAdd line h).map (·.2)
  | .setMaxLen len => (linenoiseHistorySetMaxLen len h).map (·.2)
  | .free => linenoiseHistoryFree h

/-- The log after some calls. -/
def HistoryOp.logAll (ops : List HistoryOp) (log : Log) : Log := ops.foldl (fun log op => HistoryOp.log op log) log

/-- The history after some calls. -/
def HistoryOp.runAll (ops : List HistoryOp) (h : History) : Option History :=
  ops.foldlM (fun h op => HistoryOp.run op h) h

/-- The array holds the lines of the log, and the limits are the same. -/
structure History.Keeps (h : History) (log : Log) : Prop where
  holds : h.Holds log.lines
  max : h.maxLen = log.max
  distinct : List.IsChain (· ≠ ·) log.lines

/-! ### One call -/

section Call

variable {h : History} {entries : List CStr} {log : Log}

theorem remember_eq (max : ℕ) (entries : List CStr) (line : CStr) :
    remember max entries line =
      if line = CStr.empty ∨ entries.getLast? = some line then entries else keepLast max (entries ++ [line]) := by
  rw [remember, keepLast, List.length_append, List.length_singleton]

theorem length_keepLast (n : ℕ) (lines : List CStr) : (keepLast n lines).length = min n lines.length := by
  rw [keepLast, List.length_drop]
  omega

/-- The oldest entries go. -/
theorem History.Holds.trim (hh : h.Holds entries) {n : ℕ} (hlt : n < h.len) :
    ∃ junk, h.trim n = some { h with slots := (keepLast n entries).map some ++ junk, len := n } := by
  obtain ⟨junk, hslots⟩ := hh.slots
  have hlen := hh.len
  have hread : (List.range (h.len - n)).mapM h.get = some (entries.take (h.len - n)) := by
    have htake : (entries.take (h.len - n)).length = h.len - n := by
      rw [List.length_take]
      omega
    have hall : (List.range (entries.take (h.len - n)).length).mapM h.get = some (entries.take (h.len - n)) := by
      refine mapM_range_eq fun i hi => ?_
      rw [htake] at hi
      rw [hh.get_lt (by omega), List.getElem_take]
    rwa [htake] at hall
  have hroom : n + (h.len - n) ≤ h.slots.length := by
    rw [hslots, List.length_append, List.length_map]
    omega
  have hkept : (h.slots.drop (h.len - n)).take n = (keepLast n entries).map some := by
    have hcount : (keepLast n entries).length = n := by
      rw [length_keepLast]
      omega
    rw [hslots, hlen, List.drop_append_of_le_length (by rw [List.length_map]; omega), ← List.map_drop]
    exact List.take_left' (by rw [List.length_map]; exact hcount)
  refine ⟨h.slots.drop n, ?_⟩
  rw [History.trim, hread, moveDown_eq hroom, hkept]
  rfl

/-- The capacity becomes `n`; nothing is lost when there are no more entries than that. -/
theorem realloc_slots {junk : List (Option CStr)} {n : ℕ} (hslots : h.slots = entries.map some ++ junk)
    (hle : entries.length ≤ n) : ∃ junk', (h.realloc n).slots = entries.map some ++ junk' := by
  refine ⟨junk.take (n - entries.length) ++ List.replicate (n - h.slots.length) none, ?_⟩
  rw [History.realloc, hslots]
  dsimp only
  rw [List.take_append, List.take_of_length_le (by rw [List.length_map]; exact hle), List.length_map, List.append_assoc]

/-- **A new limit** keeps the last entries, and touches no slot outside the array. -/
theorem linenoiseHistorySetMaxLen_holds (hh : h.Holds entries) {len : ℤ} (hlen : 1 ≤ len) :
    ∃ h', linenoiseHistorySetMaxLen len h = some (1, h') ∧ h'.maxLen = len.toNat ∧
      h'.Holds (keepLast len.toNat entries) := by
  have hpos : 0 < len.toNat := by omega
  have hcount := hh.len
  obtain ⟨junk, hslots⟩ := hh.slots
  rw [linenoiseHistorySetMaxLen, if_neg (by omega)]
  by_cases hnil : h.slots = []
  · -- there is no array yet, and nothing in it
    have hentries : entries = [] := by
      rw [hnil] at hslots
      exact List.map_eq_nil_iff.mp (List.append_eq_nil_iff.mp hslots.symm).1
    have hzero : h.len = 0 := by rw [hcount, hentries, List.length_nil]
    have hkept : keepLast len.toNat entries = [] := by rw [hentries, keepLast, List.drop_nil]
    rw [if_pos hnil, hkept]
    exact ⟨_, rfl, rfl, ⟨⟨[], hnil⟩, hzero, hzero.trans_le (Nat.zero_le _), hpos⟩⟩
  · rw [if_neg hnil]
    by_cases hlt : len.toNat < h.len
    · obtain ⟨junk', htrim⟩ := hh.trim hlt
      have hkept : (keepLast len.toNat entries).length = len.toNat := by
        rw [length_keepLast]
        omega
      obtain ⟨junk'', hrealloc⟩ := realloc_slots
        (h := { h with slots := (keepLast len.toNat entries).map some ++ junk', len := len.toNat }) rfl hkept.le
      rw [if_pos hlt, htrim]
      exact ⟨_, rfl, rfl, ⟨⟨junk'', hrealloc⟩, hkept.symm, le_rfl, hpos⟩⟩
    · have hkept : keepLast len.toNat entries = entries := by
        rw [keepLast, show entries.length - len.toNat = 0 by omega, List.drop_zero]
      obtain ⟨junk', hrealloc⟩ := realloc_slots hslots (n := len.toNat) (by omega)
      rw [if_neg hlt, hkept]
      exact ⟨_, rfl, rfl, ⟨⟨junk', hrealloc⟩, hcount, not_lt.mp hlt, hpos⟩⟩

/-- No two lines next to each other become equal. -/
theorem isChain_keepLast {lines : List CStr} (hchain : List.IsChain (· ≠ ·) lines) (n : ℕ) :
    List.IsChain (· ≠ ·) (keepLast n lines) := hchain.drop _

/-- **Each call does to the array what its operation does to the log.** -/
theorem HistoryOp.holds (hh : h.Keeps log) (op : HistoryOp) : ∃ h', op.run h = some h' ∧ h'.Keeps (op.log log) := by
  obtain ⟨hholds, hmax, hdistinct⟩ := hh
  cases op with
  | add line =>
    obtain ⟨rc, h', hadd, hmax', hh'⟩ := linenoiseHistoryAdd_holds hholds line
    rw [hmax, remember_eq] at hh'
    refine ⟨h', by rw [HistoryOp.run, hadd]; rfl, ?_⟩
    rw [HistoryOp.log]
    split_ifs at hh' ⊢ with hsame
    · exact ⟨hh', hmax'.trans hmax, hdistinct⟩
    · refine ⟨hh', hmax'.trans hmax, isChain_keepLast ?_ _⟩
      rw [not_or] at hsame
      refine List.isChain_append.mpr ⟨hdistinct, List.isChain_singleton _, ?_⟩
      intro last hlast first hfirst hequal
      cases hfirst
      exact hsame.2 (hequal ▸ hlast)
  | setMaxLen len =>
    rw [HistoryOp.log]
    split_ifs with hsmall
    · exact ⟨h, by rw [HistoryOp.run, linenoiseHistorySetMaxLen, if_pos hsmall]; rfl, hholds, hmax, hdistinct⟩
    · have hlen : 1 ≤ len := by omega
      obtain ⟨h', hset, hmax', hh'⟩ := linenoiseHistorySetMaxLen_holds hholds hlen
      exact ⟨h', by rw [HistoryOp.run, hset]; rfl, hh', hmax', isChain_keepLast hdistinct _⟩
  | free =>
    obtain ⟨h', hfree, hmax', hh'⟩ := linenoiseHistoryFree_holds hholds
    exact ⟨h', hfree, hh', hmax'.trans hmax, List.IsChain.nil⟩

end Call

/-! ### Any calls -/

/-- **A run of calls** leaves the log the run of operations does. -/
theorem HistoryOp.runAll_holds {h : History} {log : Log} (hh : h.Keeps log) (ops : List HistoryOp) :
    ∃ h', runAll ops h = some h' ∧ h'.Keeps (logAll ops log) := by
  induction ops generalizing h log with
  | nil => exact ⟨h, rfl, hh⟩
  | cons op ops ih =>
    obtain ⟨h₁, hop, hh₁⟩ := op.holds hh
    obtain ⟨h₂, hops, hh₂⟩ := ih hh₁
    refine ⟨h₂, ?_, hh₂⟩
    rw [runAll, List.foldlM_cons, hop]
    exact hops

/-- **The history is the log it claims to be.** From the start, any calls are defined, which is to
say that they keep to the array as it is at the time. Then the entries are the lines of the
log, the limit is that of the log and not exceeded, and no entry repeats the one before it. -/
theorem history_log (ops : List HistoryOp) :
    ∃ h, HistoryOp.runAll ops {} = some h ∧ (List.range h.len).mapM h.get = some (HistoryOp.logAll ops {}).lines ∧
      h.maxLen = (HistoryOp.logAll ops {}).max ∧ h.len ≤ h.maxLen ∧ h.len ≤ h.slots.length ∧
      List.IsChain (· ≠ ·) (HistoryOp.logAll ops {}).lines := by
  have hstart : History.Keeps {} {} := ⟨holds_init, rfl, List.IsChain.nil⟩
  obtain ⟨h, hops, hholds, hmax, hdistinct⟩ := HistoryOp.runAll_holds hstart ops
  obtain ⟨junk, hslots⟩ := hholds.slots
  refine ⟨h, hops, hholds.read_all, hmax, hholds.room, ?_, hdistinct⟩
  rw [hslots, hholds.len, List.length_append, List.length_map]
  exact Nat.le_add_right _ _

end TcpClient
