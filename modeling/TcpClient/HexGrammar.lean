import TcpClient.HexUtils
import TcpClient.Lib.Hex
import Mathlib.Algebra.Group.Nat.Even
import Mathlib.Tactic.Ring

/-!
# The grammar of hexadecimal text

What `hex_to_bytes` accepts, said without its loop: behind leading blanks and one `0x`, hex digits
in pairs and separators wherever one likes. The loop decides between three outcomes by what it
meets first, the `max_buf_size + 1`-st pair, a character that is neither a digit nor a separator,
or the end of the text; here is which texts lead to which (`hexToBytes_grammar`), and that what
`bytes_to_hex` writes is always of the first kind and reads as what was written
(`hex_round_trip`). The digits, their values and the letter case are those of `TcpClient.Hex`; the tables
and the bit operations of the source come to the same (`hexPair_eq`, `hexCharToInt_eq`).
-/

namespace TcpClient

open CString

/-- A hex digit. -/
def IsHexDigit (c : Byte) : Prop := c ∈ str "0123456789abcdefABCDEF"

/-- A character that may stand in hex text. -/
def IsHexChar (c : Byte) : Prop := IsHexDigit c ∨ isspace c = true ∨ c = 58 ∨ c = 45

/-- What is read as digits and separators: blanks in front and one `0x` or `0X` are gone. -/
def hexBody (hexStr : List Byte) : List Byte :=
  let text := hexStr.dropWhile isspace
  if str "0x" <+: text ∨ str "0X" <+: text then text.drop 2 else text

/-- The values of the digits of a text, in order. -/
def digitsIn (text : List Byte) : List ℕ := text.filterMap Hex.value

/-- Digits paired in order; a last one without a partner is left out. -/
def pairDigits : List ℕ → List Byte
  | hi :: lo :: digits => UInt8.ofNat (16 * hi + lo) :: pairDigits digits
  | _ => []

/-- Somewhere in the text, before any character that may not stand there, the digits are
`2 * (maxBufSize + 1)`, when `seen` have been read already. -/
def Overflows (maxBufSize seen : ℕ) (text : List Byte) : Prop :=
  ∃ start, start <+: text ∧ (∀ c ∈ start, IsHexChar c) ∧
    seen + (digitsIn start).length = 2 * (maxBufSize + 1)

/-! ### Digits and separators -/

instance (c : Byte) : Decidable (IsHexDigit c) := inferInstanceAs (Decidable (c ∈ str "0123456789abcdefABCDEF"))

/-- **`hex_char_to_int` gives the value of a digit.** -/
theorem hexCharToInt_eq (c : Byte) : hexCharToInt c = Hex.value c :=
  Hex.forall_byte (p := fun c => hexCharToInt c = Hex.value c) (by decide +kernel) c

/-- **The tables hold the digits**, in the letter case that is asked for. -/
theorem hexPair_eq (uppercase : Bool) (byte : Byte) : hexPair uppercase byte = Hex.ofByte uppercase byte := by
  have hdigit : ∀ n < 16, (hexChars uppercase).getD n 0 = Hex.digit uppercase n := by cases uppercase <;> decide
  have hhi : byte.toNat >>> 4 &&& 0x0F < 16 := Nat.lt_of_le_of_lt Nat.and_le_right (by decide)
  have hlo : byte.toNat &&& 0x0F < 16 := Nat.lt_of_le_of_lt Nat.and_le_right (by decide)
  rw [hexPair, Hex.ofByte_eq, hdigit _ hhi, hdigit _ hlo]

/-- **`0x` or `0X` is skipped**, and nothing else. -/
theorem skipHexPrefix_eq (text : List Byte) :
    skipHexPrefix text = if str "0x" <+: text ∨ str "0X" <+: text then text.drop 2 else text := by
  have hmark : str "0x" = [48, 120] ∧ str "0X" = [48, 88] := ⟨rfl, rfl⟩
  rw [hmark.1, hmark.2]
  match text with
  | [] => rfl
  | [c] => simp [skipHexPrefix]
  | c :: x :: cs =>
    by_cases hc : c = 48
    · subst hc
      simp [skipHexPrefix, eq_comm]
    · have hc' : (48 : Byte) ≠ c := Ne.symm hc
      unfold skipHexPrefix
      split
      · rename_i heq
        cases heq
        exact absurd rfl hc
      · simp [hc']

theorem hexBody_eq (hexStr : List Byte) : hexBody hexStr = skipHexPrefix (hexStr.dropWhile isspace) := by
  rw [skipHexPrefix_eq]
  rfl

theorem hexToBytes_eq (hexStr : List Byte) (maxBufSize : ℕ) :
    hexToBytes hexStr maxBufSize = hexLoop maxBufSize (hexBody hexStr) none [] := by
  rw [hexToBytes, hexBody_eq]

theorem isHexDigit_iff (c : Byte) : IsHexDigit c ↔ (hexCharToInt c).isSome = true :=
  Hex.forall_byte (p := fun c => IsHexDigit c ↔ (hexCharToInt c).isSome = true) (by decide +kernel) c

theorem hexCharToInt_lt {c : Byte} {val : ℕ} (h : hexCharToInt c = some val) : val < 16 := by
  have hall : ∀ val ∈ hexCharToInt c, val < 16 :=
    Hex.forall_byte (p := fun c => ∀ val ∈ hexCharToInt c, val < 16) (by decide +kernel) c
  exact hall val h

/-- A separator is no digit. -/
theorem hexCharToInt_separator {c : Byte} (h : isHexSeparator c = true) : hexCharToInt c = none := by
  have hall : isHexSeparator c = true → hexCharToInt c = none :=
    Hex.forall_byte (p := fun c => isHexSeparator c = true → hexCharToInt c = none) (by decide +kernel) c
  exact hall h

theorem isHexSeparator_iff (c : Byte) : isHexSeparator c = true ↔ isspace c = true ∨ c = 58 ∨ c = 45 := by
  rw [isHexSeparator, Bool.or_eq_true, Bool.or_eq_true, beq_iff_eq, beq_iff_eq, or_assoc]

theorem IsHexChar.separator {c : Byte} (h : isHexSeparator c = true) : IsHexChar c :=
  Or.inr ((isHexSeparator_iff c).mp h)

theorem IsHexChar.digit {c : Byte} {val : ℕ} (h : hexCharToInt c = some val) : IsHexChar c :=
  Or.inl ((isHexDigit_iff c).mpr (by rw [h]; rfl))

/-- What is neither a separator nor a digit may not stand in the text. -/
theorem not_isHexChar {c : Byte} (hsep : ¬ isHexSeparator c = true) (hval : hexCharToInt c = none) :
    ¬ IsHexChar c := by
  rintro (hdigit | hblank)
  · rw [isHexDigit_iff, hval] at hdigit
    exact Bool.false_ne_true hdigit
  · exact hsep ((isHexSeparator_iff c).mpr hblank)

@[simp]
theorem digitsIn_nil : digitsIn [] = [] := rfl

theorem digitsIn_cons (c : Byte) (cs : List Byte) : digitsIn (c :: cs) = (hexCharToInt c).toList ++ digitsIn cs := by
  rw [digitsIn, List.filterMap_cons, hexCharToInt_eq]
  cases Hex.value c <;> rfl

/-! ### The three outcomes of the loop -/

section Loop

variable {maxBufSize : ℕ} (cs : List Byte) (firstNibble : Option ℕ) {out : List Byte}

/-- Nothing is stored at index `maxBufSize` or above, whatever happens. -/
theorem hexLoop_within (hout : out.length ≤ maxBufSize) :
    (hexLoop maxBufSize cs firstNibble out).outBuf.length ≤ maxBufSize := by
  fun_induction hexLoop maxBufSize cs firstNibble out with
  | case1 out => exact hout
  | case2 nibble out => exact hout
  | case3 c cs nibble out hsep ih => exact ih hout
  | case4 c cs nibble out hsep hval => exact hout
  | case5 c cs out hsep val hval ih => exact ih hout
  | case6 c cs out hsep val nibble hval hfull => exact hout
  | case7 c cs out hsep val nibble hval hroom ih =>
    refine ih ?_
    rw [List.length_append, List.length_singleton]
    omega

/-- A failure says that nothing was decoded, and is `-1` or `-2`. -/
theorem hexLoop_failure (h : (hexLoop maxBufSize cs firstNibble out).rc ≠ 0) :
    (hexLoop maxBufSize cs firstNibble out).outLen = 0 ∧
      ((hexLoop maxBufSize cs firstNibble out).rc = -1 ∨ (hexLoop maxBufSize cs firstNibble out).rc = -2) := by
  fun_induction hexLoop maxBufSize cs firstNibble out with
  | case1 out => exact absurd rfl h
  | case2 nibble out => exact ⟨rfl, Or.inl rfl⟩
  | case3 c cs nibble out hsep ih => exact ih h
  | case4 c cs nibble out hsep hval => exact ⟨rfl, Or.inl rfl⟩
  | case5 c cs out hsep val hval ih => exact ih h
  | case6 c cs out hsep val nibble hval hfull => exact ⟨rfl, Or.inr rfl⟩
  | case7 c cs out hsep val nibble hval hroom ih => exact ih h

/-- **The loop succeeds on digits and separators that make whole bytes with room for them.** -/
theorem hexLoop_rc_zero (hout : out.length ≤ maxBufSize) :
    (hexLoop maxBufSize cs firstNibble out).rc = 0 ↔
      (∀ c ∈ cs, IsHexChar c) ∧ Even (firstNibble.toList ++ digitsIn cs).length ∧
        2 * out.length + (firstNibble.toList ++ digitsIn cs).length ≤ 2 * maxBufSize := by
  fun_induction hexLoop maxBufSize cs firstNibble out with
  | case1 out => simp [hout]
  | case2 nibble out => simp
  | case3 c cs nibble out hsep ih =>
    rw [ih hout, List.forall_mem_cons, digitsIn_cons, hexCharToInt_separator hsep]
    simp [IsHexChar.separator hsep]
  | case4 c cs nibble out hsep hval =>
    have hbad := not_isHexChar hsep hval
    simp [hbad]
  | case5 c cs out hsep val hval ih =>
    rw [ih hout, List.forall_mem_cons, digitsIn_cons, hval]
    simp [IsHexChar.digit hval]
  | case6 c cs out hsep val nibble hval hfull =>
    rw [digitsIn_cons, hval]
    simp only [Option.toList_some, List.length_append, List.length_singleton]
    constructor
    · intro h
      exact absurd h (by simp)
    · rintro ⟨_, _, hroom⟩
      omega
  | case7 c cs out hsep val nibble hval hroom ih =>
    have hroom' : (out ++ [UInt8.ofNat (nibble <<< 4 ||| val)]).length ≤ maxBufSize := by
      rw [List.length_append, List.length_singleton]
      omega
    rw [ih hroom', List.forall_mem_cons, digitsIn_cons, hval]
    simp only [Option.toList_none, Option.toList_some, List.length_append, List.length_singleton, List.length_nil,
      IsHexChar.digit hval, true_and, zero_add]
    -- the pair has moved from the text to what is stored
    refine and_congr_right fun _ => and_congr ?_ ?_
    · rw [← add_assoc, Nat.even_add (m := 1 + 1)]
      simp
    · omega

/-- What is stored then is the digits in pairs. -/
theorem hexLoop_outBuf (hfirst : ∀ nibble ∈ firstNibble, nibble < 16)
    (h : (hexLoop maxBufSize cs firstNibble out).rc = 0) :
    (hexLoop maxBufSize cs firstNibble out).outBuf = out ++ pairDigits (firstNibble.toList ++ digitsIn cs) := by
  fun_induction hexLoop maxBufSize cs firstNibble out with
  | case1 out => simp [pairDigits]
  | case2 | case4 | case6 => exact absurd h (by simp)
  | case3 c cs nibble out hsep ih =>
    rw [ih hfirst h, digitsIn_cons, hexCharToInt_separator hsep]
    rfl
  | case5 c cs out hsep val hval ih =>
    have hval' : ∀ nibble ∈ some val, nibble < 16 := by
      rintro nibble ⟨⟩
      exact hexCharToInt_lt hval
    rw [ih hval' h, digitsIn_cons, hval]
    rfl
  | case7 c cs out hsep val nibble hval hroom ih =>
    rw [ih (by simp) h, digitsIn_cons, hval, Hex.shiftLeft_or nibble (hexCharToInt_lt hval)]
    simp [pairDigits]

/-- One more character: it has to be one of the grammar, and a digit counts. -/
theorem overflows_cons {seen : ℕ} (hseen : seen < 2 * (maxBufSize + 1)) (c : Byte) :
    Overflows maxBufSize seen (c :: cs) ↔
      IsHexChar c ∧ Overflows maxBufSize (seen + (hexCharToInt c).toList.length) cs := by
  constructor
  · rintro ⟨start, hstart, hchars, hcount⟩
    rcases List.prefix_cons_iff.mp hstart with rfl | ⟨start', rfl, hstart'⟩
    · simp only [digitsIn_nil, List.length_nil] at hcount
      omega
    · rw [List.forall_mem_cons] at hchars
      rw [digitsIn_cons, List.length_append, ← add_assoc] at hcount
      exact ⟨hchars.1, start', hstart', hchars.2, hcount⟩
  · rintro ⟨hc, start, hstart, hchars, hcount⟩
    refine ⟨c :: start, List.cons_prefix_cons.mpr ⟨rfl, hstart⟩, List.forall_mem_cons.mpr ⟨hc, hchars⟩, ?_⟩
    rw [digitsIn_cons, List.length_append, ← add_assoc]
    exact hcount

theorem not_overflows_nil {seen : ℕ} (hseen : seen < 2 * (maxBufSize + 1)) : ¬ Overflows maxBufSize seen [] := by
  rintro ⟨start, hstart, _, hcount⟩
  rw [List.prefix_nil.mp hstart, digitsIn_nil, List.length_nil] at hcount
  omega

/-- Enough digits read already overflow on any text. -/
theorem overflows_of_seen (text : List Byte) : Overflows maxBufSize (2 * (maxBufSize + 1)) text :=
  ⟨[], List.nil_prefix, List.forall_mem_nil _, rfl⟩

/-- **The loop says `-2` where one pair too many is completed before it meets anything else.** -/
theorem hexLoop_rc_overflow (hout : out.length ≤ maxBufSize) :
    (hexLoop maxBufSize cs firstNibble out).rc = -2 ↔
      Overflows maxBufSize (2 * out.length + firstNibble.toList.length) cs := by
  fun_induction hexLoop maxBufSize cs firstNibble out with
  | case1 out =>
    have hseen : 2 * out.length + (none : Option ℕ).toList.length < 2 * (maxBufSize + 1) := by
      simp only [Option.toList_none, List.length_nil]
      omega
    exact iff_of_false (by simp) (not_overflows_nil hseen)
  | case2 nibble out =>
    have hseen : 2 * out.length + (some nibble).toList.length < 2 * (maxBufSize + 1) := by
      simp only [Option.toList_some, List.length_singleton]
      omega
    exact iff_of_false (by simp) (not_overflows_nil hseen)
  | case3 c cs nibble out hsep ih =>
    have hseen : 2 * out.length + nibble.toList.length < 2 * (maxBufSize + 1) := by
      have := Option.length_toList_le (o := nibble)
      omega
    rw [ih hout, overflows_cons _ hseen, hexCharToInt_separator hsep]
    simp [IsHexChar.separator hsep]
  | case4 c cs nibble out hsep hval =>
    have hseen : 2 * out.length + nibble.toList.length < 2 * (maxBufSize + 1) := by
      have := Option.length_toList_le (o := nibble)
      omega
    rw [overflows_cons _ hseen]
    exact iff_of_false (by simp) fun h => not_isHexChar hsep hval h.1
  | case5 c cs out hsep val hval ih =>
    have hseen : 2 * out.length + (none : Option ℕ).toList.length < 2 * (maxBufSize + 1) := by
      simp only [Option.toList_none, List.length_nil]
      omega
    rw [ih hout, overflows_cons _ hseen, hval]
    simp [IsHexChar.digit hval]
  | case6 c cs out hsep val nibble hval hfull =>
    have hlen : out.length = maxBufSize := le_antisymm hout hfull
    have hseen : 2 * out.length + (some nibble).toList.length < 2 * (maxBufSize + 1) := by
      simp only [Option.toList_some, List.length_singleton]
      omega
    rw [overflows_cons _ hseen, hval, hlen]
    exact iff_of_true rfl ⟨IsHexChar.digit hval, overflows_of_seen cs⟩
  | case7 c cs out hsep val nibble hval hroom ih =>
    have hroom' : (out ++ [UInt8.ofNat (nibble <<< 4 ||| val)]).length ≤ maxBufSize := by
      rw [List.length_append, List.length_singleton]
      omega
    have hseen : 2 * out.length + (some nibble).toList.length < 2 * (maxBufSize + 1) := by
      simp only [Option.toList_some, List.length_singleton]
      omega
    rw [ih hroom', overflows_cons _ hseen, hval, List.length_append, List.length_singleton]
    simp only [Option.toList_none, Option.toList_some, List.length_singleton, List.length_nil, IsHexChar.digit hval,
      true_and, mul_add, add_zero, add_assoc]

end Loop

/-- **`hex_to_bytes` accepts its grammar and nothing else, and tells its failures apart.** -/
theorem hexToBytes_grammar (hexStr : List Byte) (maxBufSize : ℕ) :
    ((hexToBytes hexStr maxBufSize).rc = 0 ↔
      (∀ c ∈ hexBody hexStr, IsHexChar c) ∧ Even (digitsIn (hexBody hexStr)).length ∧
        (digitsIn (hexBody hexStr)).length ≤ 2 * maxBufSize) ∧
    ((hexToBytes hexStr maxBufSize).rc = 0 →
      (hexToBytes hexStr maxBufSize).outBuf = pairDigits (digitsIn (hexBody hexStr)) ∧
        (hexToBytes hexStr maxBufSize).outLen = (hexToBytes hexStr maxBufSize).outBuf.length) ∧
    ((hexToBytes hexStr maxBufSize).rc = -2 ↔ Overflows maxBufSize 0 (hexBody hexStr)) ∧
    ((hexToBytes hexStr maxBufSize).rc ≠ 0 → (hexToBytes hexStr maxBufSize).rc ≠ -2 →
      (hexToBytes hexStr maxBufSize).rc = -1) ∧
    ((hexToBytes hexStr maxBufSize).rc ≠ 0 → (hexToBytes hexStr maxBufSize).outLen = 0) ∧
    (hexToBytes hexStr maxBufSize).outBuf.length ≤ maxBufSize := by
  have hstart : ([] : List Byte).length ≤ maxBufSize := Nat.zero_le _
  have hok : (hexToBytes hexStr maxBufSize).rc = 0 →
      (hexToBytes hexStr maxBufSize).outLen = (hexToBytes hexStr maxBufSize).outBuf.length :=
    fun h => (hexToBytes_ok h).1
  rw [hexToBytes_eq] at hok ⊢
  refine ⟨?_, ?_, ?_, ?_, ?_, ?_⟩
  · have hloop := hexLoop_rc_zero (hexBody hexStr) none hstart
    rw [List.length_nil, mul_zero, zero_add, Option.toList_none, List.nil_append] at hloop
    exact hloop
  · intro h
    exact ⟨hexLoop_outBuf (hexBody hexStr) none (by simp) h, hok h⟩
  · exact hexLoop_rc_overflow (hexBody hexStr) none hstart
  · intro h hoverflow
    exact (hexLoop_failure _ _ h).2.resolve_right hoverflow
  · intro h
    exact (hexLoop_failure _ _ h).1
  · exact hexLoop_within _ _ hstart

/-! ### There and back -/

/-- How long the text of `inLen` bytes is. -/
def hexTextLength (inLen : ℕ) (addSpaces : Bool) : ℕ :=
  if addSpaces = true ∧ inLen ≠ 0 then 3 * inLen - 1 else 2 * inLen

section RoundTrip

variable (uppercase addSpaces : Bool)

/-- The loop of `bytes_to_hex` writes the pairs with the separator between them. -/
theorem hexText_eq (bytes : List Byte) :
    hexText uppercase addSpaces bytes =
      List.intercalate (if addSpaces then [32] else []) (bytes.map (Hex.ofByte uppercase)) := by
  induction bytes with
  | nil => rfl
  | cons byte bytes ih =>
    rw [hexText, ih, hexPair_eq]
    cases bytes with
    | nil => simp [List.intercalate]
    | cons byte' bytes => simp [List.intercalate]

theorem length_hexText (bytes : List Byte) :
    (hexText uppercase addSpaces bytes).length = hexTextLength bytes.length addSpaces := by
  induction bytes with
  | nil => simp [hexText, hexTextLength]
  | cons byte bytes ih =>
    have hpair : (hexPair uppercase byte).length = 2 := rfl
    rw [hexText, List.length_append, List.length_append, hpair, ih, List.length_cons]
    cases bytes with
    | nil => cases addSpaces <;> rfl
    | cons byte' bytes =>
      rw [List.length_cons]
      cases addSpaces <;> simp [hexTextLength] <;> omega

/-- The room asked for is the text and its terminator. -/
theorem hexRequired_eq (inLen : ℕ) : hexRequired inLen addSpaces = hexTextLength inLen addSpaces + 1 := by
  rw [hexRequired, hexTextLength]
  cases addSpaces with
  | false => simp [Nat.mul_comm]
  | true =>
    cases inLen with
    | zero => rfl
    | succ n => simp; omega

theorem bytesToHex_isSome (bytes : List Byte) (maxOutSize : ℕ) :
    (bytesToHex bytes maxOutSize uppercase addSpaces).isSome = true ↔
      hexTextLength bytes.length addSpaces + 1 ≤ maxOutSize := by
  rw [bytesToHex, hexRequired_eq]
  split_ifs with hsmall
  · simp only [Option.isSome_none, Bool.false_eq_true, false_iff]
    omega
  · simp only [Option.isSome_some, true_iff]
    omega

theorem bytesToHex_eq_some {bytes : List Byte} {maxOutSize : ℕ} {outStr : List Byte}
    (h : bytesToHex bytes maxOutSize uppercase addSpaces = some outStr) :
    outStr = hexText uppercase addSpaces bytes ++ [0] := by
  rw [bytesToHex] at h
  split_ifs at h
  exact (Option.some.inj h).symm

/-- There is nothing to skip in front of what `bytes_to_hex` writes, no `0x` in particular. -/
theorem hexBody_hexText (bytes : List Byte) :
    hexBody (hexText uppercase addSpaces bytes) = hexText uppercase addSpaces bytes := by
  cases bytes with
  | nil => rfl
  | cons byte bytes =>
    rw [hexText, List.append_assoc, hexBody_eq]
    exact skip_hexPair uppercase byte _

/-- **What was written reads as what it was written from.** -/
theorem hexToBytes_hexText (bytes : List Byte) {maxBufSize : ℕ} (h : bytes.length ≤ maxBufSize) :
    hexToBytes (hexText uppercase addSpaces bytes) maxBufSize = ⟨0, bytes.length, bytes⟩ := by
  have hbody := hexBody_hexText uppercase addSpaces bytes
  have hloop := hexLoop_hexText maxBufSize uppercase addSpaces bytes [] [] (by simpa using h)
  rw [List.append_nil, List.nil_append] at hloop
  rw [hexToBytes_eq, hbody, hloop]
  rfl

/-- **Decoding undoes encoding**, and encoding what was decoded loses nothing. -/
theorem hex_round_trip (bytes : List Byte) :
    (∀ maxOutSize, (bytesToHex bytes maxOutSize uppercase addSpaces).isSome = true ↔
      hexTextLength bytes.length addSpaces + 1 ≤ maxOutSize) ∧
    (∀ maxOutSize outStr, bytesToHex bytes maxOutSize uppercase addSpaces = some outStr →
      outStr = List.intercalate (if addSpaces then [32] else []) (bytes.map (Hex.ofByte uppercase)) ++ [0] ∧
      outStr.length = hexTextLength bytes.length addSpaces + 1 ∧
      ∀ maxBufSize, bytes.length ≤ maxBufSize → hexToBytes (cstr outStr) maxBufSize = ⟨0, bytes.length, bytes⟩) ∧
    (∀ hexStr maxBufSize, (hexToBytes hexStr maxBufSize).rc = 0 →
      ∀ maxOutSize outStr,
        bytesToHex (hexToBytes hexStr maxBufSize).outBuf maxOutSize uppercase addSpaces = some outStr →
        hexToBytes (cstr outStr) maxBufSize = hexToBytes hexStr maxBufSize) := by
  have hcstr : ∀ bytes, cstr (hexText uppercase addSpaces bytes ++ [0]) = hexText uppercase addSpaces bytes :=
    fun bytes => cstr_of_not_mem (nul_not_mem_hexText uppercase addSpaces bytes) []
  refine ⟨bytesToHex_isSome uppercase addSpaces bytes, ?_, ?_⟩
  · intro maxOutSize outStr h
    obtain rfl := bytesToHex_eq_some uppercase addSpaces h
    refine ⟨by rw [hexText_eq], ?_, ?_⟩
    · rw [List.length_append, length_hexText]
      rfl
    · intro maxBufSize hroom
      rw [hcstr]
      exact hexToBytes_hexText uppercase addSpaces bytes hroom
  · intro hexStr maxBufSize hok maxOutSize outStr h
    obtain rfl := bytesToHex_eq_some uppercase addSpaces h
    have hwithin : (hexToBytes hexStr maxBufSize).outBuf.length ≤ maxBufSize := hexLoop_within _ _ (Nat.zero_le _)
    rw [hcstr, hexToBytes_hexText uppercase addSpaces _ hwithin, ← (hexToBytes_ok hok).1, ← hok]

end RoundTrip

end TcpClient
