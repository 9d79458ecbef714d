import Mathlib.Data.List.Induction
import Mathlib.Data.List.TakeWhile
import Mathlib.Tactic.Common

/-!
# C strings and checked memory

A C string is the list of its characters; the terminating NUL is left out, and
`cstr` reads a string from the memory it starts at. `Holds buf text` says that the
array `buf` holds the string `text`, with a NUL after it and anything behind.

The memory operations are checked: `store`, `memmove` and `memcpy` give `none`
when they would touch a byte outside the array. The lemmas on `Holds` say what
each does to the string in the array, and that it stays inside it.
-/

namespace TcpClient.CString

/-- `isspace` in the C locale. -/
def isspace (c : UInt8) : Bool := c == 32 || (9 ≤ c && c ≤ 13)

/-- `tolower` in the C locale. -/
def tolower (c : UInt8) : UInt8 := if 65 ≤ c && c ≤ 90 then c + 32 else c

/-- The value of a decimal number. -/
def decimalValue (digits : List UInt8) : ℕ := digits.foldl (fun n c => n * 10 + (c.toNat - 48)) 0

/-- One more digit. -/
theorem decimalValue_concat (digits : List UInt8) (c : UInt8) :
    decimalValue (digits ++ [c]) = decimalValue digits * 10 + (c.toNat - 48) := by
  rw [decimalValue, List.foldl_append, List.foldl_cons, List.foldl_nil]
  rfl

/-- A number is no smaller than what its first digits are. -/
theorem decimalValue_le_append (digits more : List UInt8) : decimalValue digits ≤ decimalValue (digits ++ more) := by
  induction more using List.reverseRecOn with
  | nil => rw [List.append_nil]
  | append_singleton more c ih =>
    rw [← List.append_assoc, decimalValue_concat]
    omega

/-- The characters of a number. -/
theorem digit_of_mem_toDigits {n : ℕ} {c : Char} (hc : c ∈ Nat.toDigits 10 n) : 48 ≤ c.toNat ∧ c.toNat ≤ 57 := by
  have hdigit := Nat.isDigit_of_mem_toDigits (by decide) (by decide) hc
  rw [Char.isDigit, Bool.and_eq_true, decide_eq_true_eq, decide_eq_true_eq] at hdigit
  exact ⟨hdigit.1, hdigit.2⟩

theorem byte_of_mem_toDigits {n : ℕ} {d : UInt8} (hd : d ∈ (Nat.toDigits 10 n).map fun c => UInt8.ofNat c.toNat) :
    48 ≤ d ∧ d ≤ 57 := by
  obtain ⟨c, hc, rfl⟩ := List.mem_map.mp hd
  obtain ⟨hlow, hhigh⟩ := digit_of_mem_toDigits hc
  rw [UInt8.le_iff_toNat_le, UInt8.le_iff_toNat_le, UInt8.toNat_ofNat', Nat.mod_eq_of_lt (by omega)]
  exact ⟨hlow, hhigh⟩

/-- The value of characters that are bytes. -/
theorem decimalValue_map {chars : List Char} (hchars : ∀ c ∈ chars, c.toNat < 256) :
    decimalValue (chars.map fun c => UInt8.ofNat c.toNat) = Nat.ofDigitChars 10 chars 0 := by
  induction chars using List.reverseRecOn with
  | nil => rfl
  | append_singleton chars c ih =>
    have hc : (UInt8.ofNat c.toNat).toNat = c.toNat := by
      rw [UInt8.toNat_ofNat', Nat.mod_eq_of_lt (hchars c (by simp))]
    rw [List.map_append, List.map_singleton, decimalValue_concat, hc, Nat.ofDigitChars_append, Nat.ofDigitChars_cons,
      Nat.ofDigitChars_nil, ih fun d hd => hchars d (List.mem_append_left _ hd), Nat.mul_comm]
    rfl

/-- **A number written in decimal has its value.** -/
theorem decimalValue_toDigits (n : ℕ) : decimalValue ((Nat.toDigits 10 n).map fun c => UInt8.ofNat c.toNat) = n := by
  rw [decimalValue_map, Nat.ofDigitChars_ten_toDigits]
  intro c hc
  exact Nat.lt_of_le_of_lt (digit_of_mem_toDigits hc).2 (by decide)

/-- The string that starts at the first byte of `mem`. -/
def cstr (mem : List UInt8) : List UInt8 := mem.takeWhile (· ≠ 0)

theorem cstr_of_not_mem {s : List UInt8} (h : 0 ∉ s) (rest : List UInt8) :
    cstr (s ++ 0 :: rest) = s := by
  have hne : ∀ a ∈ s, decide (a ≠ 0) = true := fun a ha => by
    simpa using fun h0 : a = 0 => h (h0 ▸ ha)
  rw [cstr, List.takeWhile_append_of_pos hne]
  simp

theorem cstr_eq_self {s : List UInt8} (h : 0 ∉ s) : cstr s = s := by
  rw [cstr, List.takeWhile_eq_self_iff]
  intro c hc
  simpa using fun h0 : c = 0 => h (h0 ▸ hc)

theorem nul_not_mem_cstr (mem : List UInt8) : 0 ∉ cstr mem := fun h => by
  simpa using List.mem_takeWhile_imp h

/-- A C string: a list of characters none of which is NUL. -/
structure CStr where
  /-- The characters. -/
  chars : List UInt8
  /-- No NUL among them. -/
  nul_free : 0 ∉ chars
  deriving DecidableEq

/-- The string in memory. -/
def CStr.ofMem (mem : List UInt8) : CStr := ⟨cstr mem, nul_not_mem_cstr mem⟩

/-- The empty string. -/
def CStr.empty : CStr := ⟨[], by simp⟩

@[ext] theorem CStr.ext {s t : CStr} (h : s.chars = t.chars) : s = t := by
  cases s; cases t; simpa using h

/-! ### Checked memory -/

/-- `buf[i] = c`, in an array of any type. -/
def store {α : Type} (buf : List α) (i : ℕ) (c : α) : Option (List α) :=
  if i < buf.length then some (buf.set i c) else none

/-- `memmove(buf + dst, buf + src, n)`, counted in elements. -/
def memmove {α : Type} (buf : List α) (dst src n : ℕ) : Option (List α) :=
  if dst + n ≤ buf.length ∧ src + n ≤ buf.length then
    some (buf.take dst ++ ((buf.drop src).take n ++ buf.drop (dst + n)))
  else none

/-- `memcpy(buf, from, n)`. -/
def memcpy (buf from' : List UInt8) (n : ℕ) : Option (List UInt8) :=
  if n ≤ buf.length ∧ n ≤ from'.length then some (from'.take n ++ buf.drop n) else none

/-- `strlen(buf)`, which needs a NUL to stop at. -/
def strlen (buf : List UInt8) : Option ℕ :=
  if 0 ∈ buf then some (cstr buf).length else none

/-- The array `buf` holds the string `text`. -/
structure Holds (buf text : List UInt8) : Prop where
  /-- The characters, the NUL, and what is behind it. -/
  layout : ∃ junk, buf = text ++ 0 :: junk
  /-- No NUL before the end. -/
  nul_free : 0 ∉ text

namespace Holds

variable {buf text before after : List UInt8} {c : UInt8}

theorem length_lt (h : Holds buf text) : text.length < buf.length := by
  obtain ⟨⟨junk, rfl⟩, -⟩ := h
  simp only [List.length_append, List.length_cons]
  omega

theorem cstr_eq (h : Holds buf text) : cstr buf = text := by
  obtain ⟨⟨junk, rfl⟩, h0⟩ := h
  exact cstr_of_not_mem h0 junk

theorem strlen_eq (h : Holds buf text) : strlen buf = some text.length := by
  rw [strlen, h.cstr_eq, if_pos]
  obtain ⟨⟨junk, rfl⟩, -⟩ := h
  simp

/-- The terminator stands at the length. -/
theorem getElem?_length (h : Holds buf text) : buf[text.length]? = some 0 := by
  obtain ⟨⟨junk, rfl⟩, -⟩ := h
  simp

/-- Every byte before the terminator is one of the string. -/
theorem getElem?_lt (h : Holds buf text) {i : ℕ} (hi : i < text.length) : buf[i]? = text[i]? := by
  obtain ⟨⟨junk, rfl⟩, -⟩ := h
  rw [List.getElem?_append_left hi]

/-- Cutting the string short: `buf[n] = '\0'`. -/
theorem truncate (h : Holds buf (before ++ after)) :
    ∃ buf', store buf before.length 0 = some buf' ∧ Holds buf' before ∧ buf'.length = buf.length := by
  have hlt := h.length_lt
  obtain ⟨⟨junk, rfl⟩, h0⟩ := h
  simp only [List.mem_append, not_or] at h0
  rw [List.length_append] at hlt
  refine ⟨_, if_pos (by omega), ⟨?_, h0.1⟩, by simp⟩
  rw [List.append_assoc, List.set_append_right _ _ le_rfl, Nat.sub_self]
  cases after with
  | nil => exact ⟨junk, rfl⟩
  | cons a after => exact ⟨after ++ 0 :: junk, rfl⟩

/-- Storing the terminator where it stands changes nothing. -/
theorem terminate (h : Holds buf text) : store buf text.length 0 = some buf := by
  rw [store, if_pos h.length_lt]
  obtain ⟨⟨junk, rfl⟩, -⟩ := h
  rw [List.set_append_right _ _ le_rfl, Nat.sub_self]
  rfl

/-- Closing the gap over a dropped character, terminator and all. -/
theorem remove (h : Holds buf (before ++ c :: after)) :
    ∃ buf', memmove buf before.length (before.length + 1) (after.length + 1) = some buf' ∧
      Holds buf' (before ++ after) ∧ buf'.length = buf.length := by
  have hlt := h.length_lt
  obtain ⟨⟨junk, rfl⟩, h0⟩ := h
  simp only [List.mem_append, List.mem_cons, not_or] at h0
  simp only [List.length_append, List.length_cons] at hlt
  have hsrc : ((before ++ c :: after ++ 0 :: junk).drop (before.length + 1)).take (after.length + 1)
      = after ++ [0] := by
    rw [show before ++ c :: after ++ 0 :: junk = (before ++ [c]) ++ ((after ++ [0]) ++ junk) by simp,
      List.drop_left' (by simp), List.take_left' (by simp)]
  have hdst : (before ++ c :: after ++ 0 :: junk).take before.length = before := by
    rw [List.append_assoc, List.take_left]
  have hfit : before.length + (after.length + 1) ≤ (before ++ c :: after ++ 0 :: junk).length ∧
      before.length + 1 + (after.length + 1) ≤ (before ++ c :: after ++ 0 :: junk).length := by
    simp only [List.length_append, List.length_cons]
    omega
  refine ⟨_, if_pos hfit, ⟨?_, by simp [h0]⟩, ?_⟩
  · rw [hsrc, hdst]
    simp
  · rw [hsrc, hdst]
    simp only [List.length_append, List.length_cons, List.length_drop, List.length_nil]
    omega

/-- Opening a gap: the tail and the terminator move up by one, over the first of the bytes behind them. -/
theorem open_gap (before after : List UInt8) (y : UInt8) (junk : List UInt8) :
    ∃ x z : UInt8,
      (if before.length < before.length + after.length then
        memmove (before ++ after ++ 0 :: y :: junk) (before.length + 1) before.length after.length
      else some (before ++ after ++ 0 :: y :: junk)) = some (before ++ x :: (after ++ z :: junk)) := by
  cases after with
  | nil => exact ⟨0, y, by simp⟩
  | cons a after =>
    refine ⟨a, y, ?_⟩
    have hlen : (a :: after).length = after.length + 1 := rfl
    have hkeep : (before ++ a :: after ++ 0 :: y :: junk).take (before.length + 1) = before ++ [a] := by
      rw [show before ++ a :: after ++ 0 :: y :: junk = (before ++ [a]) ++ (after ++ 0 :: y :: junk) by simp,
        List.take_left' (by simp)]
    have hmoved : ((before ++ a :: after ++ 0 :: y :: junk).drop before.length).take (a :: after).length
        = a :: after := by
      rw [List.append_assoc, List.drop_left, List.take_left]
    have htail : (before ++ a :: after ++ 0 :: y :: junk).drop (before.length + 1 + (a :: after).length)
        = y :: junk := by
      rw [show before ++ a :: after ++ 0 :: y :: junk = (before ++ a :: after ++ [0]) ++ (y :: junk) by simp,
        List.drop_left' (by simp; omega)]
    rw [if_pos (by simp), memmove, if_pos (by simp only [List.length_append, List.length_cons]; omega),
      hkeep, hmoved, htail]
    simp

/-- Opening a gap and putting a character in it: the tail moves up, the character
and the new terminator are stored. When there is no tail nothing is moved. -/
theorem insert (h : Holds buf (before ++ after)) (hc : c ≠ 0)
    (hroom : before.length + after.length + 1 < buf.length) :
    ∃ buf₁ buf₂ buf₃,
      (if before.length < before.length + after.length then
        memmove buf (before.length + 1) before.length after.length else some buf) = some buf₁ ∧
      store buf₁ before.length c = some buf₂ ∧
      store buf₂ (before.length + after.length + 1) 0 = some buf₃ ∧
      Holds buf₃ (before ++ c :: after) ∧ buf₃.length = buf.length := by
  obtain ⟨⟨junk, rfl⟩, h0⟩ := h
  simp only [List.mem_append, not_or] at h0
  cases junk with
  | nil =>
    simp only [List.length_append, List.length_singleton] at hroom
    omega
  | cons y junk =>
    obtain ⟨x, z, hmove⟩ := open_gap before after y junk
    refine ⟨_, before ++ c :: (after ++ z :: junk), before ++ c :: (after ++ 0 :: junk), hmove, ?_, ?_, ?_, ?_⟩
    · rw [store, if_pos (by simp), List.set_append_right _ _ le_rfl, Nat.sub_self]
      rfl
    · rw [store, if_pos (by simp; omega), List.set_append_right _ _ (by omega)]
      rw [show before.length + after.length + 1 - before.length = after.length + 1 by omega, List.set_cons_succ,
        List.set_append_right _ _ le_rfl, Nat.sub_self]
      rfl
    · refine ⟨⟨junk, by simp⟩, ?_⟩
      simp only [List.mem_append, List.mem_cons, not_or]
      exact ⟨h0.1, Ne.symm hc, h0.2⟩
    · simp only [List.length_append, List.length_cons]
      omega

/-- Filling the array with the first `n` characters of a string and a terminator. -/
theorem copy (s : CStr) {n : ℕ} (hn : n ≤ s.chars.length) (hbuf : n < buf.length) :
    ∃ buf₁ buf₂, memcpy buf s.chars n = some buf₁ ∧ store buf₁ n 0 = some buf₂ ∧
      Holds buf₂ (s.chars.take n) ∧ buf₂.length = buf.length := by
  have hlen : (s.chars.take n).length = n := by simp [hn]
  obtain ⟨x, junk, hdrop⟩ : ∃ x junk, buf.drop n = x :: junk := by
    cases hd : buf.drop n with
    | nil => rw [List.drop_eq_nil_iff] at hd; omega
    | cons x junk => exact ⟨x, junk, rfl⟩
  have hjunk : junk.length + 1 = buf.length - n := by rw [← List.length_drop, hdrop]; rfl
  refine ⟨s.chars.take n ++ x :: junk, s.chars.take n ++ 0 :: junk, ?_, ?_, ⟨⟨junk, rfl⟩, ?_⟩, ?_⟩
  · rw [memcpy, if_pos ⟨hbuf.le, hn⟩, hdrop]
  · rw [store, if_pos (by rw [List.length_append, hlen, List.length_cons]; omega),
      List.set_append_right _ _ (by omega), hlen, Nat.sub_self]
    rfl
  · exact fun h => s.nul_free (List.mem_of_mem_take h)
  · rw [List.length_append, hlen, List.length_cons]
    omega

end Holds

end TcpClient.CString
