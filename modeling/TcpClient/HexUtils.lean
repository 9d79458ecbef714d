import TcpClient.Compat
import TcpClient.Lib.CString
import Mathlib.Data.Nat.Bitwise

/-!
# Hexadecimal text

`hex_utils.c`: `hex_to_bytes`, which reads the payload of `-x`,
`bytes_to_hex`, which writes the response under `-X` and the dumps of the HSM
report, `parse_hex_byte`, which reads the terminator of `-T`, and
`unescape_string`, which reads the payload of `-a`.

What is proved here is what the rest of the development needs of them: the text
of a chunk, read back anywhere in a longer text, gives the chunk
(`hexLoop_hexText`), so that a text made of one line of hex for each chunk
decodes to the chunks, one after another (`hexToBytes_hexLines`); and how long
what is decoded can be (`hexToBytes_ok`, `unescapeString_ok`).
-/

namespace TcpClient

open CString

/-- `hex_char_to_int`: the value of a hex digit, `none` for the `-1` of the source. -/
def hexCharToInt (c : Byte) : Option ℕ :=
  if 48 ≤ c && c ≤ 57 then some (c.toNat - 48)
  else if 97 ≤ c && c ≤ 102 then some (c.toNat - 97 + 10)
  else if 65 ≤ c && c ≤ 70 then some (c.toNat - 65 + 10)
  else none

/-- What `hex_to_bytes` gives back: its result, `*out_len`, and the bytes it stored
in `out_buf`, from index `0` on. -/
structure HexResult where
  rc : ℤ
  outLen : ℕ
  outBuf : List Byte
  deriving DecidableEq, Repr

/-- Characters skipped between hex digits. -/
def isHexSeparator (c : Byte) : Bool := isspace c || c == 58 || c == 45

/-- The loop of `hex_to_bytes`: the characters left, `first_nibble`, and the bytes stored. -/
def hexLoop (maxBufSize : ℕ) : List Byte → Option ℕ → List Byte → HexResult
  | [], none, out => ⟨0, out.length, out⟩
  | [], some _, out => ⟨-1, 0, out⟩
  | c :: cs, firstNibble, out =>
    if isHexSeparator c then hexLoop maxBufSize cs firstNibble out
    else
      match hexCharToInt c, firstNibble with
      | none, _ => ⟨-1, 0, out⟩
      | some val, none => hexLoop maxBufSize cs (some val) out
      | some val, some nibble =>
        if maxBufSize ≤ out.length then ⟨-2, 0, out⟩
        else hexLoop maxBufSize cs none (out ++ [UInt8.ofNat (nibble <<< 4 ||| val)])

/-- An optional `0x` or `0X` is passed over. -/
def skipHexPrefix : List Byte → List Byte
  | 48 :: x :: cs => if x = 120 ∨ x = 88 then cs else 48 :: x :: cs
  | cs => cs

/-- `hex_to_bytes(hex_str, out_buf, max_buf_size, &out_len)`. -/
def hexToBytes (hexStr : List Byte) (maxBufSize : ℕ) : HexResult :=
  hexLoop maxBufSize (skipHexPrefix (hexStr.dropWhile isspace)) none []

/-- The digits `bytes_to_hex` picks from. -/
def hexChars (uppercase : Bool) : List Byte :=
  if uppercase then str "0123456789ABCDEF" else str "0123456789abcdef"

/-- The two digits of a byte. -/
def hexPair (uppercase : Bool) (byte : Byte) : List Byte :=
  [(hexChars uppercase).getD (byte.toNat >>> 4 &&& 0x0F) 0, (hexChars uppercase).getD (byte.toNat &&& 0x0F) 0]

/-- The loop of `bytes_to_hex`: the digits of each byte, and a space if one is asked
for and another byte follows. -/
def hexText (uppercase addSpaces : Bool) : List Byte → List Byte
  | [] => []
  | byte :: bytes =>
    hexPair uppercase byte ++ (if addSpaces && !bytes.isEmpty then [32] else []) ++
      hexText uppercase addSpaces bytes

/-- How much room `bytes_to_hex` asks for, the terminator included. -/
def hexRequired (inLen : ℕ) (addSpaces : Bool) : ℕ :=
  (if addSpaces then inLen * 3 else inLen * 2) - (if 0 < inLen && addSpaces then 1 else 0) + 1

/-- `bytes_to_hex(in_buf, in_len, out_str, max_out_size, uppercase, add_spaces)`: what it
stores in `out_str`, terminator and all; `none` when it returns `-1`. -/
def bytesToHex (inBuf : List Byte) (maxOutSize : ℕ) (uppercase addSpaces : Bool) : Option (List Byte) :=
  if maxOutSize = 0 ∨ maxOutSize < hexRequired inBuf.length addSpaces then none
  else some (hexText uppercase addSpaces inBuf ++ [0])

/-- The loop of `parse_hex_byte`: the digits before a blank or the end, at most two, and what is
behind them. -/
def hexDigits : List Byte → List ℕ → Option (List ℕ × List Byte)
  | [], digits => some (digits, [])
  | c :: cs, digits =>
    if isspace c then some (digits, c :: cs)
    else if 2 ≤ digits.length then none
    else
      match hexCharToInt c with
      | none => none
      | some val => hexDigits cs (digits ++ [val])

/-- `parse_hex_byte(str, &out_byte)`: the byte, `none` when it returns `-1`. -/
def parseHexByte (text : List Byte) : Option Byte :=
  match skipHexPrefix (text.dropWhile isspace) with
  | [] => none
  | c :: cs =>
    match hexDigits (c :: cs) [] with
    | none => none
    | some (digits, remainder) =>
      if remainder.all isspace then
        match digits with
        | [d] => some (UInt8.ofNat d)
        | [hi, lo] => some (UInt8.ofNat (hi <<< 4 ||| lo))
        | _ => none
      else none

/-- What `unescape_string` gives back: its result, `*out_len` where it is set, and the bytes it
stored in `out_buf`, from index `0` on. -/
structure UnescapeResult where
  rc : ℤ
  outLen : Option ℕ
  outBuf : List Byte
  deriving DecidableEq, Repr

/-- The byte a backslash and `next` stand for, when `next` is not `x`. -/
def escapedByte (next : Byte) : Byte :=
  if next = 114 then 13
  else if next = 110 then 10
  else if next = 116 then 9
  else if next = 48 then 0
  else if next = 92 then 92
  else next

/-- The loop of `unescape_string`: the characters left, and the bytes stored. -/
def unescapeLoop (maxBufSize : ℕ) : List Byte → List Byte → UnescapeResult
  | [], out => ⟨0, some out.length, out⟩
  | c :: cs, out =>
    if maxBufSize ≤ out.length then ⟨-2, none, out⟩
    else if c = 92 then
      match cs with
      -- a backslash that ends the string stands for itself
      | [] => unescapeLoop maxBufSize [] (out ++ [c])
      | next :: cs =>
        if next = 120 ∨ next = 88 then
          match cs with
          | d₁ :: d₂ :: cs =>
            match hexCharToInt d₁, hexCharToInt d₂ with
            | some h₁, some h₂ => unescapeLoop maxBufSize cs (out ++ [UInt8.ofNat (h₁ <<< 4 ||| h₂)])
            | _, _ => ⟨-1, none, out⟩
          | _ => ⟨-1, none, out⟩
        else unescapeLoop maxBufSize cs (out ++ [escapedByte next])
    else unescapeLoop maxBufSize cs (out ++ [c])

/-- `unescape_string(src, out_buf, max_buf_size, &out_len)`. -/
def unescapeString (src : List Byte) (maxBufSize : ℕ) : UnescapeResult := unescapeLoop maxBufSize src []

/-! ### How much is decoded -/

/-- A byte takes two digits. -/
theorem hexLoop_ok {maxBufSize : ℕ} {cs : List Byte} {firstNibble : Option ℕ} {out : List Byte}
    (h : (hexLoop maxBufSize cs firstNibble out).rc = 0) :
    (hexLoop maxBufSize cs firstNibble out).outLen = (hexLoop maxBufSize cs firstNibble out).outBuf.length ∧
      2 * (hexLoop maxBufSize cs firstNibble out).outBuf.length ≤
        2 * out.length + firstNibble.toList.length + cs.length := by
  fun_induction hexLoop maxBufSize cs firstNibble out with
  | case1 out => simp
  | case2 out nibble => exact absurd h (by simp)
  | case3 c cs nibble out hsep ih =>
    obtain ⟨hlen, hbound⟩ := ih h
    exact ⟨hlen, by rw [List.length_cons]; omega⟩
  | case4 c cs nibble out hsep hval => exact absurd h (by simp)
  | case5 c cs out hsep val hval ih =>
    obtain ⟨hlen, hbound⟩ := ih h
    refine ⟨hlen, ?_⟩
    simp only [Option.toList_some, Option.toList_none, List.length_cons, List.length_nil] at hbound ⊢
    omega
  | case6 c cs out hsep val hval nibble hfull => exact absurd h (by simp)
  | case7 c cs out hsep val hval nibble hroom ih =>
    obtain ⟨hlen, hbound⟩ := ih h
    refine ⟨hlen, ?_⟩
    simp only [Option.toList_some, Option.toList_none, List.length_append, List.length_cons,
      List.length_nil] at hbound ⊢
    omega

theorem length_skipHexPrefix_le (cs : List Byte) : (skipHexPrefix cs).length ≤ cs.length := by
  unfold skipHexPrefix
  split
  · split_ifs
    · simp only [List.length_cons]
      omega
    · exact le_rfl
  · exact le_rfl

/-- **What is read successfully has at most half as many bytes as the text has characters.** -/
theorem hexToBytes_ok {hexStr : List Byte} {maxBufSize : ℕ} (h : (hexToBytes hexStr maxBufSize).rc = 0) :
    (hexToBytes hexStr maxBufSize).outLen = (hexToBytes hexStr maxBufSize).outBuf.length ∧
      2 * (hexToBytes hexStr maxBufSize).outBuf.length ≤ hexStr.length := by
  obtain ⟨hlen, hbound⟩ := hexLoop_ok h
  refine ⟨hlen, hbound.trans ?_⟩
  have hskip := length_skipHexPrefix_le (hexStr.dropWhile isspace)
  have hspace := (List.dropWhile_sublist isspace (l := hexStr)).length_le
  simp only [List.length_nil, Option.toList_none]
  omega

theorem unescapeLoop_ok {maxBufSize : ℕ} {cs out : List Byte} (hout : out.length ≤ maxBufSize)
    (h : (unescapeLoop maxBufSize cs out).rc = 0) :
    (unescapeLoop maxBufSize cs out).outLen = some (unescapeLoop maxBufSize cs out).outBuf.length ∧
      (unescapeLoop maxBufSize cs out).outBuf.length ≤ maxBufSize := by
  have hroom : ∀ {out : List Byte} (b : Byte), ¬ maxBufSize ≤ out.length → (out ++ [b]).length ≤ maxBufSize := by
    intro out b hlt
    rw [List.length_append, List.length_singleton]
    omega
  -- one case for each token: the token is stored, or the call fails
  fun_induction unescapeLoop maxBufSize cs out with
  | case1 out => exact ⟨rfl, hout⟩
  | case2 | case5 | case6 => exact absurd h (by simp)
  | case3 out hlt ih => exact ih (hroom _ hlt) h
  | case4 out hlt next hx d₁ d₂ cs h₁ h₂ hd₂ hd₁ ih => exact ih (hroom _ hlt) h
  | case7 out hlt next cs hx ih => exact ih (hroom _ hlt) h
  | case8 c cs out hlt hc ih => exact ih (hroom _ hlt) h

/-- **A string read successfully fits the buffer.** -/
theorem unescapeString_ok {src : List Byte} {maxBufSize : ℕ} (h : (unescapeString src maxBufSize).rc = 0) :
    (unescapeString src maxBufSize).outLen = some (unescapeString src maxBufSize).outBuf.length ∧
      (unescapeString src maxBufSize).outBuf.length ≤ maxBufSize :=
  unescapeLoop_ok (Nat.zero_le _) h

/-- Text without a backslash stands for itself. -/
theorem unescapeLoop_plain {maxBufSize : ℕ} {text out : List Byte} (hplain : 92 ∉ text)
    (hroom : out.length + text.length ≤ maxBufSize) :
    unescapeLoop maxBufSize text out = ⟨0, some (out ++ text).length, out ++ text⟩ := by
  induction text generalizing out with
  | nil => rw [unescapeLoop, List.append_nil]
  | cons c text ih =>
    rw [List.mem_cons, not_or] at hplain
    rw [List.length_cons] at hroom
    have hlen : (out ++ [c]).length + text.length ≤ maxBufSize := by
      rw [List.length_append, List.length_singleton]
      omega
    have hrest := ih hplain.2 hlen
    rw [List.append_assoc, List.singleton_append] at hrest
    rw [unescapeLoop.eq_def]
    dsimp only
    rw [if_neg (by omega), if_neg (Ne.symm hplain.1)]
    exact hrest

theorem unescapeString_plain {maxBufSize : ℕ} {text : List Byte} (hplain : 92 ∉ text)
    (hroom : text.length ≤ maxBufSize) : unescapeString text maxBufSize = ⟨0, some text.length, text⟩ :=
  unescapeLoop_plain hplain (by simpa using hroom)

/-! ### Reading back what was written -/

theorem hexCharToInt_hexChars (uppercase : Bool) :
    ∀ n < 16, hexCharToInt ((hexChars uppercase).getD n 0) = some n ∧
      isHexSeparator ((hexChars uppercase).getD n 0) = false := by
  cases uppercase <;> decide

/-- The two halves of a byte make the byte. -/
theorem ofNat_nibbles (byte : Byte) :
    UInt8.ofNat ((byte.toNat >>> 4 &&& 0x0F) <<< 4 ||| (byte.toNat &&& 0x0F)) = byte := by
  have hlt := byte.toNat_lt
  have key : ∀ n < 256, (n >>> 4 &&& 0x0F) <<< 4 ||| (n &&& 0x0F) = n := by decide +kernel
  rw [key _ hlt, UInt8.ofNat_toNat]

variable (maxBufSize : ℕ) (uppercase addSpaces : Bool)

/-- The digits of one byte add that byte. -/
theorem hexLoop_hexPair (byte : Byte) (cs out : List Byte) (h : out.length < maxBufSize) :
    hexLoop maxBufSize (hexPair uppercase byte ++ cs) none out = hexLoop maxBufSize cs none (out ++ [byte]) := by
  have hhi : byte.toNat >>> 4 &&& 0x0F < 16 := Nat.lt_of_le_of_lt Nat.and_le_right (by decide)
  have hlo : byte.toNat &&& 0x0F < 16 := Nat.lt_of_le_of_lt Nat.and_le_right (by decide)
  obtain ⟨hv, hs⟩ := hexCharToInt_hexChars uppercase _ hhi
  obtain ⟨hv', hs'⟩ := hexCharToInt_hexChars uppercase _ hlo
  simp only [hexPair, List.cons_append, List.nil_append, hexLoop, hs, hv, hs', hv', Bool.false_eq_true,
    if_false, Nat.not_le.mpr h, ofNat_nibbles]

/-- A separator between two bytes adds nothing. -/
theorem hexLoop_separator {c : Byte} (hc : isHexSeparator c = true) (cs out : List Byte) :
    hexLoop maxBufSize (c :: cs) none out = hexLoop maxBufSize cs none out := by
  simp [hexLoop, hc]

/-- **The text of some bytes, wherever it stands, reads as those bytes.** -/
theorem hexLoop_hexText (bytes cs out : List Byte) (h : out.length + bytes.length ≤ maxBufSize) :
    hexLoop maxBufSize (hexText uppercase addSpaces bytes ++ cs) none out =
      hexLoop maxBufSize cs none (out ++ bytes) := by
  induction bytes generalizing out with
  | nil => simp [hexText]
  | cons byte bytes ih =>
    rw [List.length_cons] at h
    rw [hexText, List.append_assoc, List.append_assoc, hexLoop_hexPair _ _ _ _ _ (by omega)]
    have hrest := ih (out ++ [byte]) (by simp only [List.length_append, List.length_singleton]; omega)
    rw [List.append_assoc, List.singleton_append] at hrest
    split_ifs
    · rw [List.singleton_append, hexLoop_separator _ (by decide), hrest]
    · rw [List.nil_append, hrest]

/-- One line of hex. -/
def hexLine (bytes : List Byte) : List Byte := hexText true true bytes ++ [10]

/-- There is no NUL in hex text. -/
theorem nul_not_mem_hexText (bytes : List Byte) : 0 ∉ hexText uppercase addSpaces bytes := by
  have hdigit : ∀ n < 16, (hexChars uppercase).getD n 0 ≠ 0 := by cases uppercase <;> decide
  induction bytes with
  | nil => simp [hexText]
  | cons byte bytes ih =>
    have hhi : byte.toNat >>> 4 &&& 0x0F < 16 := Nat.lt_of_le_of_lt Nat.and_le_right (by decide)
    have hlo : byte.toNat &&& 0x0F < 16 := Nat.lt_of_le_of_lt Nat.and_le_right (by decide)
    have hpair : 0 ∉ hexPair uppercase byte := by
      simp only [hexPair, List.mem_cons, List.not_mem_nil, or_false, not_or]
      exact ⟨(hdigit _ hhi).symm, (hdigit _ hlo).symm⟩
    have hsep : 0 ∉ (if addSpaces && !bytes.isEmpty then [32] else [] : List Byte) := by split_ifs <;> decide
    rw [hexText]
    simp only [List.mem_append, not_or]
    exact ⟨⟨hpair, hsep⟩, ih⟩

/-- A chunk with room for three characters a byte and two more is written as one line. -/
theorem bytesToHex_line (bytes : List Byte) :
    ∃ text, bytesToHex bytes (bytes.length * 3 + 2) true true = some text ∧ cstr text ++ [10] = hexLine bytes := by
  refine ⟨hexText true true bytes ++ [0], ?_, ?_⟩
  · rw [bytesToHex, if_neg (by unfold hexRequired; simp only [if_true]; omega)]
  · rw [show hexText true true bytes ++ [0] = hexText true true bytes ++ 0 :: [] from rfl,
      cstr_of_not_mem (nul_not_mem_hexText true true bytes)]
    rfl

theorem hexLoop_hexLines (chunks : List (List Byte)) (out : List Byte)
    (h : out.length + chunks.flatten.length ≤ maxBufSize) :
    hexLoop maxBufSize (chunks.flatMap hexLine) none out =
      ⟨0, (out ++ chunks.flatten).length, out ++ chunks.flatten⟩ := by
  induction chunks generalizing out with
  | nil => simp [hexLoop]
  | cons chunk chunks ih =>
    rw [List.flatten_cons, List.length_append] at h
    rw [List.flatMap_cons, hexLine, List.append_assoc, hexLoop_hexText _ _ _ _ _ _ (by omega),
      List.singleton_append, hexLoop_separator _ (by decide),
      ih _ (by rw [List.length_append]; omega), List.flatten_cons, List.append_assoc]

/-- A text that starts with a byte's digits has nothing to skip in front. -/
theorem skip_hexPair (byte : Byte) (cs : List Byte) :
    skipHexPrefix ((hexPair uppercase byte ++ cs).dropWhile isspace) = hexPair uppercase byte ++ cs := by
  have hspace : ∀ n < 16, isspace ((hexChars uppercase).getD n 0) = false := by
    cases uppercase <;> decide
  have hx : ∀ n < 16, (hexChars uppercase).getD n 0 ≠ 120 ∧ (hexChars uppercase).getD n 0 ≠ 88 := by
    cases uppercase <;> decide
  have hhi : byte.toNat >>> 4 &&& 0x0F < 16 := Nat.lt_of_le_of_lt Nat.and_le_right (by decide)
  have hlo : byte.toNat &&& 0x0F < 16 := Nat.lt_of_le_of_lt Nat.and_le_right (by decide)
  rw [hexPair, List.cons_append, List.dropWhile_cons, if_neg (by rw [hspace _ hhi]; decide)]
  unfold skipHexPrefix
  split
  · rename_i heq
    simp only [List.cons_append, List.nil_append, List.cons.injEq] at heq
    rw [if_neg (by rw [← heq.2.1]; exact not_or.mpr (hx _ hlo))]
    rw [← heq.1, ← heq.2.1, ← heq.2.2]
    rfl
  · rfl

/-- **Lines of hex decode to what they were written from.** -/
theorem hexToBytes_hexLines (chunks : List (List Byte)) (hne : ∀ chunk ∈ chunks, chunk ≠ [])
    (h : chunks.flatten.length ≤ maxBufSize) :
    hexToBytes (chunks.flatMap hexLine) maxBufSize = ⟨0, chunks.flatten.length, chunks.flatten⟩ := by
  have hskip : skipHexPrefix ((chunks.flatMap hexLine).dropWhile isspace) = chunks.flatMap hexLine := by
    cases chunks with
    | nil => rfl
    | cons chunk chunks =>
      obtain ⟨byte, bytes, rfl⟩ := List.exists_cons_of_ne_nil (hne chunk List.mem_cons_self)
      simp only [List.flatMap_cons, hexLine, hexText, List.append_assoc]
      exact skip_hexPair _ _ _
  rw [hexToBytes, hskip, hexLoop_hexLines _ _ _ (by simpa using h)]
  rfl

end TcpClient
