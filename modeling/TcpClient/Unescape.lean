import TcpClient.HexGrammar

/-!
# The escape language

What `unescape_string` decodes, said without its loop: a text is read from the left as tokens, each
of which stands for one byte (`Token`), and the only text at which no token can be read is a
malformed `\x` (`Malformed`).

The loop is modelled twice. `unescapeLoop` reads a list of characters; `unescapeMem` is the same loop
on memory, where every look ahead at `src[i + 1]`, `src[i + 2]` and `src[i + 3]` and every store into
`out_buf` is checked. The second never fails and does what the first does (`unescapeMem_eq`), and the
first follows the tokens (`unescapeLoop_tokens`).
-/

namespace TcpClient

open CString

/-! ### The loop on memory -/

/-- How `unescape_string` leaves `out_buf` behind, with its result and `*out_len` where it is set. -/
structure UnescapeExit where
  rc : ℤ
  outLen : Option ℕ
  outBuf : List Byte
  deriving DecidableEq, Repr

/-- The body of the loop at `src[i]`, which is `c`: the byte to store and how far `i` is moved
beyond it, or `none` for a malformed `\xHH` sequence. The whole is `none` where a read is outside `src`. -/
def unescapeAt (src : List Byte) (i : ℕ) (c : Byte) : Option (Option (Byte × ℕ)) :=
  if c = 92 then do
    let next ← src[i + 1]?
    if next = 0 then some (some (c, 0))
    else if next = 120 ∨ next = 88 then do
      let d₁ ← src[i + 2]?
      if d₁ = 0 then some none
      else do
        let d₂ ← src[i + 3]?
        if d₂ = 0 then some none
        else
          match hexCharToInt d₁, hexCharToInt d₂ with
          | some h₁, some h₂ => some (some (UInt8.ofNat (h₁ <<< 4 ||| h₂), 3))
          | _, _ => some none
    else some (some (escapedByte next, 1))
  else some (some (c, 0))

/-- The loop of `unescape_string` on the memory `src` and the array `outBuf`, from `i` and `count`.
`none` where a byte outside either would be touched. -/
def unescapeMem (src : List Byte) (maxBufSize i count : ℕ) (outBuf : List Byte) : Option UnescapeExit :=
  match _hi : src[i]? with
  | none => none
  | some c =>
    if c = 0 then some ⟨0, some count, outBuf⟩
    else if maxBufSize ≤ count then some ⟨-2, none, outBuf⟩
    else
      match unescapeAt src i c with
      | none => none
      | some none => some ⟨-1, none, outBuf⟩
      | some (some (b, bump)) =>
        match store outBuf count b with
        | none => none
        | some outBuf => unescapeMem src maxBufSize (i + bump + 1) (count + 1) outBuf
termination_by src.length - i
decreasing_by
  have hlt := (List.getElem?_eq_some_iff.mp _hi).1
  omega

/-! ### Tokens -/

/-- `Token text b rest`: at the front of `text` stands a token for the byte `b`, with `rest` behind it. -/
inductive Token : List Byte → Byte → List Byte → Prop where
  /-- `\xHH` or `\XHH`. -/
  | hex {x d₁ d₂ : Byte} {h₁ h₂ : ℕ} {rest : List Byte} : x = 120 ∨ x = 88 →
      Hex.value d₁ = some h₁ → Hex.value d₂ = some h₂ →
      Token (92 :: x :: d₁ :: d₂ :: rest) (UInt8.ofNat (16 * h₁ + h₂)) rest
  /-- `\r`. -/
  | carriageReturn {rest : List Byte} : Token (92 :: 114 :: rest) 13 rest
  /-- `\n`. -/
  | newline {rest : List Byte} : Token (92 :: 110 :: rest) 10 rest
  /-- `\t`. -/
  | tab {rest : List Byte} : Token (92 :: 116 :: rest) 9 rest
  /-- `\0`. -/
  | nul {rest : List Byte} : Token (92 :: 48 :: rest) 0 rest
  /-- `\\`. -/
  | backslash {rest : List Byte} : Token (92 :: 92 :: rest) 92 rest
  /-- A backslash and any other character mean that character. -/
  | other {c : Byte} {rest : List Byte} : c ∉ str "xXrnt0\\" → Token (92 :: c :: rest) c rest
  /-- A backslash that ends the text. -/
  | final : Token [92] 92 []
  /-- Any character but a backslash. -/
  | plain {c : Byte} {rest : List Byte} : c ≠ 92 → Token (c :: rest) c rest

/-- `\x` or `\X`, and no two hex digits behind it. -/
def Malformed (text : List Byte) : Prop :=
  ∃ x rest, text = 92 :: x :: rest ∧ (x = 120 ∨ x = 88) ∧
    ¬ ∃ d₁ d₂ tail, rest = d₁ :: d₂ :: tail ∧ IsHexDigit d₁ ∧ IsHexDigit d₂

/-- `Tokens text bytes rest`: `text` begins with tokens for `bytes`, with `rest` behind them. -/
inductive Tokens : List Byte → List Byte → List Byte → Prop where
  | nil {text : List Byte} : Tokens text [] text
  | cons {text rest last bytes : List Byte} {b : Byte} :
      Token text b rest → Tokens rest bytes last → Tokens text (b :: bytes) last

/-- The bytes `bytes` written as `\xHH`, one after another, the digits and the `x` in either case. -/
inductive HexEscapes : List Byte → List Byte → Prop where
  | nil : HexEscapes [] []
  | cons {x d₁ d₂ : Byte} {h₁ h₂ : ℕ} {text bytes : List Byte} : x = 120 ∨ x = 88 →
      Hex.value d₁ = some h₁ → Hex.value d₂ = some h₂ → HexEscapes text bytes →
      HexEscapes (92 :: x :: d₁ :: d₂ :: text) (UInt8.ofNat (16 * h₁ + h₂) :: bytes)

/-! ### The loop follows the tokens -/

variable {text rest bytes out : List Byte} {b : Byte} {n : ℕ}

/-- Where a text does not end, there is a token, or a malformed `\x`. -/
theorem token_or_malformed (h : text ≠ []) : (∃ b rest, Token text b rest) ∨ Malformed text := by
  obtain ⟨c, cs, rfl⟩ := List.exists_cons_of_ne_nil h
  by_cases hc : c = 92
  · subst hc
    cases cs with
    | nil => exact Or.inl ⟨_, _, Token.final⟩
    | cons next cs =>
      by_cases hx : next = 120 ∨ next = 88
      · by_cases hdigits : ∃ d₁ d₂ tail, cs = d₁ :: d₂ :: tail ∧ IsHexDigit d₁ ∧ IsHexDigit d₂
        · obtain ⟨d₁, d₂, tail, rfl, hd₁, hd₂⟩ := hdigits
          obtain ⟨h₁, hd₁⟩ := Option.isSome_iff_exists.mp ((isHexDigit_iff d₁).mp hd₁)
          obtain ⟨h₂, hd₂⟩ := Option.isSome_iff_exists.mp ((isHexDigit_iff d₂).mp hd₂)
          rw [hexCharToInt_eq] at hd₁ hd₂
          exact Or.inl ⟨_, _, Token.hex hx hd₁ hd₂⟩
        · exact Or.inr ⟨next, cs, rfl, hx, hdigits⟩
      · by_cases hother : next ∉ str "xXrnt0\\"
        · exact Or.inl ⟨_, _, Token.other hother⟩
        · have hnext : next = 114 ∨ next = 110 ∨ next = 116 ∨ next = 48 ∨ next = 92 := by
            have hmem : next ∈ ([120, 88, 114, 110, 116, 48, 92] : List Byte) := not_not.mp hother
            simpa [or_assoc.symm, hx] using hmem
          rcases hnext with rfl | rfl | rfl | rfl | rfl
          · exact Or.inl ⟨_, _, Token.carriageReturn⟩
          · exact Or.inl ⟨_, _, Token.newline⟩
          · exact Or.inl ⟨_, _, Token.tab⟩
          · exact Or.inl ⟨_, _, Token.nul⟩
          · exact Or.inl ⟨_, _, Token.backslash⟩
  · exact Or.inl ⟨_, _, Token.plain hc⟩

/-- A character that is no letter of an escape stands for itself behind a backslash. -/
theorem escapedByte_other {c : Byte} (h : c ∉ str "xXrnt0\\") : ¬ (c = 120 ∨ c = 88) ∧ escapedByte c = c := by
  have hmem : c ∉ ([120, 88, 114, 110, 116, 48, 92] : List Byte) := h
  simp only [List.mem_cons, List.not_mem_nil, or_false, not_or] at hmem
  obtain ⟨hx, hX, hr, hn, ht, h0, hb⟩ := hmem
  refine ⟨not_or.mpr ⟨hx, hX⟩, ?_⟩
  rw [escapedByte, if_neg hr, if_neg hn, if_neg ht, if_neg h0, if_neg hb]

/-- **A token is read and its byte stored.** -/
theorem unescapeLoop_token (h : Token text b rest) (hroom : out.length < n) :
    unescapeLoop n text out = unescapeLoop n rest (out ++ [b]) := by
  have hfull : ¬ n ≤ out.length := not_le.mpr hroom
  cases h with
  | hex hx hd₁ hd₂ =>
    rw [← hexCharToInt_eq] at hd₁ hd₂
    rw [unescapeLoop.eq_def]
    simp only [if_neg hfull, if_true, if_pos hx, hd₁, hd₂]
    rw [Hex.shiftLeft_or _ (hexCharToInt_lt hd₂)]
  | carriageReturn | newline | tab | nul | backslash =>
    rw [unescapeLoop.eq_def]
    simp only [if_neg hfull, if_true]
    rfl
  | other hc =>
    obtain ⟨hx, hself⟩ := escapedByte_other hc
    rw [unescapeLoop.eq_def]
    simp only [if_neg hfull, if_true, if_neg hx, hself]
  | final =>
    rw [unescapeLoop.eq_def]
    simp only [if_neg hfull, if_true]
  | plain hc =>
    rw [unescapeLoop.eq_def]
    simp only [if_neg hfull, if_neg hc]

/-- What is behind a malformed `\x` has no two digits to read. -/
theorem Malformed.no_digits {x d₁ d₂ : Byte} {tail : List Byte} (h : Malformed (92 :: x :: d₁ :: d₂ :: tail)) :
    hexCharToInt d₁ = none ∨ hexCharToInt d₂ = none := by
  obtain ⟨_, _, heq, -, hdigits⟩ := h
  cases heq
  by_contra hboth
  rw [not_or, ← ne_eq, ← ne_eq, Option.ne_none_iff_isSome, Option.ne_none_iff_isSome, ← isHexDigit_iff,
    ← isHexDigit_iff] at hboth
  exact hdigits ⟨d₁, d₂, tail, rfl, hboth⟩

theorem unescapeLoop_malformed (h : Malformed text) (hroom : out.length < n) :
    unescapeLoop n text out = ⟨-1, none, out⟩ := by
  have hfull : ¬ n ≤ out.length := not_le.mpr hroom
  obtain ⟨x, rest, rfl, hx, -⟩ := id h
  rw [unescapeLoop.eq_def]
  simp only [if_neg hfull, if_true, if_pos hx]
  split
  · next d₁ d₂ tail =>
    rcases h.no_digits with hd | hd
    · rw [hd]
    · rw [hd]
      split <;> simp_all
  · rfl

theorem unescapeLoop_full (htext : text ≠ []) (hfull : n ≤ out.length) :
    unescapeLoop n text out = ⟨-2, none, out⟩ := by
  obtain ⟨c, cs, rfl⟩ := List.exists_cons_of_ne_nil htext
  rw [unescapeLoop.eq_def]
  simp only [if_pos hfull]

theorem Token.length_lt (h : Token text b rest) : rest.length < text.length := by
  cases h <;> simp only [List.length_cons, List.length_nil] <;> omega

/-- **The loop follows the tokens**, as long as there is room for what they stand for. -/
theorem unescapeLoop_tokens (h : Tokens text bytes rest) (hroom : out.length + bytes.length ≤ n) :
    unescapeLoop n text out = unescapeLoop n rest (out ++ bytes) := by
  induction h generalizing out with
  | nil => rw [List.append_nil]
  | @cons text rest last bytes b htoken _ ih =>
    rw [List.length_cons] at hroom
    have hroom' : (out ++ [b]).length + bytes.length ≤ n := by
      rw [List.length_append, List.length_singleton]
      omega
    rw [unescapeLoop_token htoken (by omega), ih hroom', List.append_assoc, List.singleton_append]

/-- **Where the loop stops**: behind some tokens, at the end of the text, at the first token too
many, or at a malformed `\x`. -/
theorem unescapeLoop_stop (text out : List Byte) (hout : out.length ≤ n) :
    ∃ bytes rest, Tokens text bytes rest ∧ out.length + bytes.length ≤ n ∧
      (rest = [] ∨ (rest ≠ [] ∧ out.length + bytes.length = n) ∨
        (Malformed rest ∧ out.length + bytes.length < n)) := by
  -- induction on the text; a token that fits takes one step
  induction hlen : text.length using Nat.strong_induction_on generalizing text out with
  | _ len ih =>
    by_cases htext : text = []
    · exact ⟨[], text, Tokens.nil, hout, Or.inl htext⟩
    · rcases hout.lt_or_eq with hlt | hfull
      · rcases token_or_malformed htext with ⟨b, rest, htoken⟩ | hbad
        · have hout' : (out ++ [b]).length ≤ n := by
            rw [List.length_append, List.length_singleton]
            omega
          obtain ⟨bytes, last, htokens, hroom, hstop⟩ := ih _ (hlen ▸ htoken.length_lt) rest _ hout' rfl
          have hcount : (out ++ [b]).length + bytes.length = out.length + (b :: bytes).length := by
            rw [List.length_append, List.length_singleton, List.length_cons]
            omega
          rw [hcount] at hroom hstop
          exact ⟨b :: bytes, last, Tokens.cons htoken htokens, hroom, hstop⟩
        · exact ⟨[], text, Tokens.nil, hout, Or.inr (Or.inr ⟨hbad, hlt⟩)⟩
      · exact ⟨[], text, Tokens.nil, hout, Or.inr (Or.inl ⟨htext, hfull⟩)⟩

/-! ### Nothing outside the memory is touched -/

/-- What is read at `src[i + j]`, when `text` and the terminator stand at `src[i]`. -/
theorem getElem?_text (pre text : List Byte) (j : ℕ) : (pre ++ text ++ [0])[pre.length + j]? = (text ++ [0])[j]? := by
  rw [List.append_assoc, List.getElem?_append_right (Nat.le_add_right _ _), Nat.add_sub_cancel_left]

/-- A token is read inside the text and its terminator, and `i` is moved to its end. -/
theorem unescapeAt_token (h : Token text b rest) (h0 : 0 ∉ text) (pre : List Byte) :
    ∃ c front bump, text.head? = some c ∧ text = front ++ rest ∧ front.length = bump + 1 ∧
      unescapeAt (pre ++ text ++ [0]) pre.length c = some (some (b, bump)) := by
  cases h with
  | @hex x d₁ d₂ h₁ h₂ _ hx hd₁ hd₂ =>
    rw [← hexCharToInt_eq] at hd₁ hd₂
    simp only [List.mem_cons, not_or] at h0
    refine ⟨92, [92, x, d₁, d₂], 3, rfl, rfl, rfl, ?_⟩
    simp only [unescapeAt, if_true, getElem?_text, List.cons_append, List.getElem?_cons_succ,
      List.getElem?_cons_zero, Option.bind_eq_bind, Option.bind_some, if_pos hx, hd₁, hd₂]
    rw [if_neg (Ne.symm h0.2.1), if_neg (Ne.symm h0.2.2.1), if_neg (Ne.symm h0.2.2.2.1),
      Hex.shiftLeft_or _ (hexCharToInt_lt hd₂)]
  | carriageReturn | newline | tab | nul | backslash =>
    refine ⟨92, [92, _], 1, rfl, rfl, rfl, ?_⟩
    simp only [unescapeAt, if_true, getElem?_text, List.cons_append, List.getElem?_cons_succ,
      List.getElem?_cons_zero, Option.bind_eq_bind, Option.bind_some]
    rfl
  | other hc =>
    obtain ⟨hx, hself⟩ := escapedByte_other hc
    simp only [List.mem_cons, not_or] at h0
    refine ⟨92, [92, b], 1, rfl, rfl, rfl, ?_⟩
    simp only [unescapeAt, if_true, getElem?_text, List.cons_append, List.getElem?_cons_succ,
      List.getElem?_cons_zero, Option.bind_eq_bind, Option.bind_some, if_neg hx, hself]
    rw [if_neg (Ne.symm h0.2.1)]
  | final =>
    refine ⟨92, [92], 0, rfl, rfl, rfl, ?_⟩
    simp only [unescapeAt, if_true, getElem?_text, List.cons_append, List.nil_append, List.getElem?_cons_succ,
      List.getElem?_cons_zero, Option.bind_eq_bind, Option.bind_some]
  | plain hc =>
    refine ⟨b, [b], 0, rfl, rfl, rfl, ?_⟩
    rw [unescapeAt, if_neg hc]

theorem unescapeAt_malformed (h : Malformed text) (h0 : 0 ∉ text) (pre : List Byte) :
    text.head? = some 92 ∧ unescapeAt (pre ++ text ++ [0]) pre.length 92 = some none := by
  obtain ⟨x, rest, rfl, hx, -⟩ := id h
  refine ⟨rfl, ?_⟩
  simp only [List.mem_cons, not_or] at h0
  simp only [unescapeAt, if_true, getElem?_text, List.cons_append, List.getElem?_cons_succ,
    List.getElem?_cons_zero, Option.bind_eq_bind, Option.bind_some, if_pos hx]
  rw [if_neg (Ne.symm h0.2.1)]
  cases rest with
  | nil => rfl
  | cons d₁ rest =>
    simp only [List.mem_cons, not_or] at h0
    simp only [List.cons_append, List.getElem?_cons_zero, List.getElem?_cons_succ, Option.bind_some]
    rw [if_neg (Ne.symm h0.2.2.1)]
    cases rest with
    | nil => rfl
    | cons d₂ tail =>
      simp only [List.mem_cons, not_or] at h0
      simp only [List.cons_append, List.getElem?_cons_zero, Option.bind_some]
      rw [if_neg (Ne.symm h0.2.2.2.1)]
      rcases h.no_digits with hd | hd
      · rw [hd]
      · rw [hd]
        cases hexCharToInt d₁ <;> rfl

/-- What the loop on the characters leaves behind, with the rest of the array as it was. -/
def UnescapeResult.inArray (r : UnescapeResult) (outBuf : List Byte) : UnescapeExit :=
  ⟨r.rc, r.outLen, r.outBuf ++ outBuf.drop r.outBuf.length⟩

theorem store_next (out junk : List Byte) (j b : Byte) :
    store (out ++ j :: junk) out.length b = some (out ++ [b] ++ junk) := by
  rw [store, if_pos (by simp), List.set_append_right _ _ le_rfl, Nat.sub_self, List.set_cons_zero,
    List.append_assoc, List.singleton_append]

/-- The loop stores behind what is stored already. -/
theorem unescapeLoop_extends (n : ℕ) (text out : List Byte) : out <+: (unescapeLoop n text out).outBuf := by
  fun_induction unescapeLoop n text out with
  | case1 | case2 | case5 | case6 => exact List.prefix_rfl
  | case3 | case4 | case7 | case8 =>
    rename_i ih
    exact (List.prefix_append _ _).trans ih

/-- Storing one byte more leaves what is behind it as it was. -/
theorem inArray_next {r : UnescapeResult} {out : List Byte} {b : Byte} (h : out ++ [b] <+: r.outBuf) (j : Byte)
    (junk : List Byte) : r.inArray (out ++ [b] ++ junk) = r.inArray (out ++ j :: junk) := by
  have hlen : out.length + 1 ≤ r.outBuf.length := by
    have := h.length_le
    rwa [List.length_append, List.length_singleton] at this
  have hleft : (out ++ [b] ++ junk).drop r.outBuf.length = junk.drop (r.outBuf.length - (out.length + 1)) := by
    rw [List.drop_append, List.drop_eq_nil_of_le (by simpa using hlen), List.nil_append, List.length_append,
      List.length_singleton]
  have hright : (out ++ j :: junk).drop r.outBuf.length = junk.drop (r.outBuf.length - (out.length + 1)) := by
    rw [← List.singleton_append, ← List.append_assoc, List.drop_append, List.drop_eq_nil_of_le (by simpa using hlen),
      List.nil_append, List.length_append, List.length_singleton]
  rw [UnescapeResult.inArray, UnescapeResult.inArray, hleft, hright]

/-- Where nothing more is stored the array stays as it is. -/
theorem inArray_done (rc : ℤ) (outLen : Option ℕ) (out junk : List Byte) :
    (⟨rc, outLen, out⟩ : UnescapeResult).inArray (out ++ junk) = ⟨rc, outLen, out ++ junk⟩ := by
  rw [UnescapeResult.inArray, List.drop_left]

section Memory

variable {pre outBuf outBuf' : List Byte} {count : ℕ}

/-- At the terminator the loop ends. -/
theorem unescapeMem_end : unescapeMem (pre ++ [] ++ [0]) n pre.length count outBuf = some ⟨0, some count, outBuf⟩ := by
  have hat : (pre ++ [] ++ [0])[pre.length]? = some 0 := by
    rw [← Nat.add_zero pre.length, getElem?_text]
    rfl
  rw [unescapeMem]
  split
  · next hnone =>
    rw [hat] at hnone
    cases hnone
  · next c hsome =>
    rw [hat] at hsome
    cases hsome
    rw [if_pos rfl]

/-- A round of the loop in front of the terminator. -/
theorem unescapeMem_char {c : Byte} {cs : List Byte} (htext : text = c :: cs) (h0 : 0 ∉ text) :
    unescapeMem (pre ++ text ++ [0]) n pre.length count outBuf =
      if n ≤ count then some ⟨-2, none, outBuf⟩
      else
        match unescapeAt (pre ++ text ++ [0]) pre.length c with
        | none => none
        | some none => some ⟨-1, none, outBuf⟩
        | some (some (b, bump)) =>
          match store outBuf count b with
          | none => none
          | some outBuf => unescapeMem (pre ++ text ++ [0]) n (pre.length + bump + 1) (count + 1) outBuf := by
  have hat : (pre ++ text ++ [0])[pre.length]? = some c := by
    rw [← Nat.add_zero pre.length, getElem?_text, htext]
    rfl
  have hc : c ≠ 0 := by
    rintro rfl
    exact h0 (by rw [htext]; exact List.mem_cons_self)
  rw [unescapeMem]
  split
  · next hnone =>
    rw [hat] at hnone
    cases hnone
  · next d hsome =>
    rw [hat] at hsome
    cases hsome
    rw [if_neg hc]

theorem unescapeMem_full (htext : text ≠ []) (h0 : 0 ∉ text) (hfull : n ≤ count) :
    unescapeMem (pre ++ text ++ [0]) n pre.length count outBuf = some ⟨-2, none, outBuf⟩ := by
  obtain ⟨c, cs, hcons⟩ := List.exists_cons_of_ne_nil htext
  rw [unescapeMem_char hcons h0, if_pos hfull]

theorem unescapeMem_malformed (h : Malformed text) (h0 : 0 ∉ text) (hroom : count < n) :
    unescapeMem (pre ++ text ++ [0]) n pre.length count outBuf = some ⟨-1, none, outBuf⟩ := by
  obtain ⟨hfirst, hat⟩ := unescapeAt_malformed h h0 pre
  obtain ⟨cs, hcons⟩ := List.head?_eq_some_iff.mp hfirst
  rw [unescapeMem_char hcons h0, if_neg (not_le.mpr hroom), hat]

/-- A token is passed, and its byte stored. -/
theorem unescapeMem_token (pre : List Byte) (h : Token text b rest) (h0 : 0 ∉ text) (hroom : count < n)
    (hstore : store outBuf count b = some outBuf') :
    ∃ front, text = front ++ rest ∧
      unescapeMem (pre ++ text ++ [0]) n pre.length count outBuf =
        unescapeMem (pre ++ front ++ rest ++ [0]) n (pre ++ front).length (count + 1) outBuf' := by
  obtain ⟨c, front, bump, hfirst, hfront, hbump, hat⟩ := unescapeAt_token h h0 pre
  obtain ⟨cs, hcons⟩ := List.head?_eq_some_iff.mp hfirst
  have hmem : pre ++ front ++ rest ++ [0] = pre ++ text ++ [0] := by rw [List.append_assoc pre, ← hfront]
  have hnext : (pre ++ front).length = pre.length + bump + 1 := by rw [List.length_append, hbump, add_assoc]
  refine ⟨front, hfront, ?_⟩
  rw [unescapeMem_char hcons h0, if_neg (not_le.mpr hroom), hat]
  dsimp only
  rw [hstore, hmem, hnext]

end Memory

/-- **On memory the loop does what it does on the characters**: no read is outside the string and
its terminator, and no store outside an array of `max_buf_size` bytes. -/
theorem unescapeMem_eq (text pre out junk : List Byte) (h0 : 0 ∉ text) :
    unescapeMem (pre ++ text ++ [0]) (out.length + junk.length) pre.length out.length (out ++ junk) =
      some ((unescapeLoop (out.length + junk.length) text out).inArray (out ++ junk)) := by
  induction hlen : text.length using Nat.strong_induction_on generalizing text pre out junk with
  | _ len ih =>
    by_cases htext : text = []
    · rw [htext, unescapeMem_end, unescapeLoop, inArray_done]
    · cases junk with
      | nil =>
        have hfull : out.length + ([] : List Byte).length ≤ out.length := le_rfl
        rw [unescapeMem_full htext h0 hfull, unescapeLoop_full htext hfull, inArray_done]
      | cons j junk =>
        have hroom : out.length < out.length + (j :: junk).length := Nat.lt_add_of_pos_right (Nat.succ_pos _)
        rcases token_or_malformed htext with ⟨b, rest, htoken⟩ | hbad
        · obtain ⟨front, hfront, hmem⟩ := unescapeMem_token pre htoken h0 hroom (store_next out junk j b)
          have hrest : 0 ∉ rest := fun h => h0 (hfront ▸ List.mem_append_right _ h)
          have hcount : (out ++ [b]).length = out.length + 1 := List.length_append
          have hcap : out.length + 1 + junk.length = out.length + (j :: junk).length := by
            rw [List.length_cons]
            omega
          have hrun := ih _ (hlen ▸ htoken.length_lt) rest (pre ++ front) (out ++ [b]) junk hrest rfl
          rw [hcount, hcap] at hrun
          rw [hmem, hrun, unescapeLoop_token htoken hroom, inArray_next (unescapeLoop_extends _ _ _)]
        · rw [unescapeMem_malformed hbad h0 hroom, unescapeLoop_malformed hbad hroom, inArray_done]

/-! ### The decoder of the escape language -/

/-- `unescape_string(src, out_buf, max_buf_size, &out_len)` with an array of `max_buf_size` bytes. -/
def unescapeStringMem (src : CStr) (outBuf : List Byte) : Option UnescapeExit :=
  unescapeMem (src.chars ++ [0]) outBuf.length 0 0 outBuf

theorem unescapeStringMem_eq (src : CStr) (outBuf : List Byte) :
    unescapeStringMem src outBuf = some ((unescapeString src.chars outBuf.length).inArray outBuf) := by
  have hmem := unescapeMem_eq src.chars [] [] outBuf src.nul_free
  rw [List.nil_append, List.length_nil, Nat.zero_add, List.nil_append] at hmem
  exact hmem

/-- Tokens for what fits, up to the end of the text, are decoded. -/
theorem unescapeString_tokens (h : Tokens text bytes []) (hroom : bytes.length ≤ n) :
    unescapeString text n = ⟨0, some bytes.length, bytes⟩ := by
  rw [unescapeString, unescapeLoop_tokens h (by simpa using hroom), List.nil_append, unescapeLoop]

/-- What the call leaves is one of three results, told apart by where the loop stops. -/
theorem unescapeString_stop (text : List Byte) (n : ℕ) :
    ∃ bytes rest, Tokens text bytes rest ∧ bytes.length ≤ n ∧
      ((rest = [] ∧ unescapeString text n = ⟨0, some bytes.length, bytes⟩) ∨
        (rest ≠ [] ∧ bytes.length = n ∧ unescapeString text n = ⟨-2, none, bytes⟩) ∨
        (Malformed rest ∧ bytes.length < n ∧ unescapeString text n = ⟨-1, none, bytes⟩)) := by
  obtain ⟨bytes, rest, htokens, hroom, hstop⟩ := unescapeLoop_stop text [] (Nat.zero_le n)
  have hloop : unescapeString text n = unescapeLoop n rest bytes := unescapeLoop_tokens htokens hroom
  rw [List.length_nil, Nat.zero_add] at hroom hstop
  refine ⟨bytes, rest, htokens, hroom, ?_⟩
  rcases hstop with rfl | ⟨hrest, hfull⟩ | ⟨hbad, hlt⟩
  · exact Or.inl ⟨rfl, unescapeString_tokens htokens hroom⟩
  · exact Or.inr (Or.inl ⟨hrest, hfull, hloop.trans (unescapeLoop_full hrest hfull.ge)⟩)
  · exact Or.inr (Or.inr ⟨hbad, hlt, hloop.trans (unescapeLoop_malformed hbad hlt)⟩)

theorem unescapeString_within (text : List Byte) (n : ℕ) : (unescapeString text n).outBuf.length ≤ n := by
  obtain ⟨bytes, rest, -, hroom, ⟨-, heq⟩ | ⟨-, -, heq⟩ | ⟨-, -, heq⟩⟩ := unescapeString_stop text n <;>
    rwa [heq]

theorem unescapeString_rc_zero (text : List Byte) (n : ℕ) (bytes : List Byte) :
    unescapeString text n = ⟨0, some bytes.length, bytes⟩ ↔ Tokens text bytes [] ∧ bytes.length ≤ n := by
  constructor
  · intro h
    obtain ⟨bytes', rest, htokens, hroom, ⟨rfl, heq⟩ | ⟨-, -, heq⟩ | ⟨-, -, heq⟩⟩ := unescapeString_stop text n
    · obtain rfl : bytes' = bytes := congrArg UnescapeResult.outBuf (heq.symm.trans h)
      exact ⟨htokens, hroom⟩
    · rw [heq] at h
      cases h
    · rw [heq] at h
      cases h
  · rintro ⟨htokens, hroom⟩
    exact unescapeString_tokens htokens hroom

theorem unescapeString_rc_malformed (text : List Byte) (n : ℕ) :
    (unescapeString text n).rc = -1 ↔
      ∃ bytes rest, Tokens text bytes rest ∧ bytes.length < n ∧ Malformed rest := by
  constructor
  · intro h
    obtain ⟨bytes, rest, htokens, -, ⟨-, heq⟩ | ⟨-, -, heq⟩ | ⟨hbad, hlt, -⟩⟩ := unescapeString_stop text n
    · rw [heq] at h
      cases h
    · rw [heq] at h
      cases h
    · exact ⟨bytes, rest, htokens, hlt, hbad⟩
  · rintro ⟨bytes, rest, htokens, hlt, hbad⟩
    rw [unescapeString, unescapeLoop_tokens htokens (by simpa using hlt.le), List.nil_append,
      unescapeLoop_malformed hbad hlt]

theorem unescapeString_rc_overflow (text : List Byte) (n : ℕ) :
    (unescapeString text n).rc = -2 ↔
      ∃ bytes rest, Tokens text bytes rest ∧ bytes.length = n ∧ rest ≠ [] := by
  constructor
  · intro h
    obtain ⟨bytes, rest, htokens, -, ⟨-, heq⟩ | ⟨hrest, hfull, -⟩ | ⟨-, -, heq⟩⟩ := unescapeString_stop text n
    · rw [heq] at h
      cases h
    · exact ⟨bytes, rest, htokens, hfull, hrest⟩
    · rw [heq] at h
      cases h
  · rintro ⟨bytes, rest, htokens, hfull, hrest⟩
    rw [unescapeString, unescapeLoop_tokens htokens (by simpa using hfull.le), List.nil_append,
      unescapeLoop_full hrest hfull.ge]

theorem HexEscapes.tokens (h : HexEscapes text bytes) : Tokens text bytes [] := by
  induction h with
  | nil => exact Tokens.nil
  | cons hx hd₁ hd₂ _ ih => exact Tokens.cons (Token.hex hx hd₁ hd₂) ih

/-- Every byte string, whatever bytes are in it, can be written so. -/
theorem exists_hexEscapes (bytes : List Byte) : ∃ src : CStr, HexEscapes src.chars bytes := by
  induction bytes with
  | nil => exact ⟨CStr.empty, HexEscapes.nil⟩
  | cons byte bytes ih =>
    obtain ⟨⟨text, h0⟩, htext⟩ := ih
    have hdigit : ∀ d < 16, ∃ c, c ≠ 0 ∧ Hex.value c = some d := by
      intro d hd
      have hval := Hex.value_digit false d hd
      refine ⟨_, fun h0 => ?_, hval⟩
      rw [h0] at hval
      cases hval
    obtain ⟨d₁, hne₁, hd₁⟩ := hdigit (byte.toNat / 16) (by have := byte.toNat_lt; omega)
    obtain ⟨d₂, hne₂, hd₂⟩ := hdigit (byte.toNat % 16) (Nat.mod_lt _ (by omega))
    have hbyte : UInt8.ofNat (16 * (byte.toNat / 16) + byte.toNat % 16) = byte := by
      rw [Nat.div_add_mod, UInt8.ofNat_toNat]
    refine ⟨⟨92 :: 120 :: d₁ :: d₂ :: text, ?_⟩, ?_⟩
    · simp only [List.mem_cons, not_or]
      exact ⟨by decide, by decide, hne₁.symm, hne₂.symm, h0⟩
    · have hcons := HexEscapes.cons (Or.inl rfl) hd₁ hd₂ htext
      rwa [hbyte] at hcons

/-- The bytes in the array, read up to `*out_len`, are those the loop stored. -/
theorem inArray_ok_iff {r : UnescapeResult} (hok : r.rc = 0 → r.outLen = some r.outBuf.length)
    (outBuf bytes : List Byte) :
    ((r.inArray outBuf).rc = 0 ∧ (r.inArray outBuf).outLen = some bytes.length ∧
      (r.inArray outBuf).outBuf.take bytes.length = bytes) ↔ r = ⟨0, some bytes.length, bytes⟩ := by
  constructor
  · rintro ⟨hrc, hlen, htake⟩
    have hbytes : r.outBuf.length = bytes.length := Option.some.inj ((hok hrc).symm.trans hlen)
    rw [UnescapeResult.inArray, ← hbytes, List.take_left] at htake
    rw [← hlen, ← htake, ← hrc]
    rfl
  · rintro rfl
    exact ⟨rfl, rfl, List.take_left⟩

/-- **`unescape_string` is the decoder of its escape language**, never reads behind the terminator
and never stores behind the array. -/
theorem unescapeString_grammar (outBuf : List Byte) :
    (∀ src : CStr, ∃ r, unescapeStringMem src outBuf = some r ∧ r.outBuf.length = outBuf.length ∧
      (∀ bytes, (r.rc = 0 ∧ r.outLen = some bytes.length ∧ r.outBuf.take bytes.length = bytes) ↔
        Tokens src.chars bytes [] ∧ bytes.length ≤ outBuf.length) ∧
      (r.rc = -1 ↔ ∃ bytes rest, Tokens src.chars bytes rest ∧ bytes.length < outBuf.length ∧ Malformed rest) ∧
      (r.rc = -2 ↔ ∃ bytes rest, Tokens src.chars bytes rest ∧ bytes.length = outBuf.length ∧ rest ≠ [])) ∧
    (∀ bytes : List Byte, bytes.length ≤ outBuf.length → (∃ src : CStr, HexEscapes src.chars bytes) ∧
      ∀ src : CStr, HexEscapes src.chars bytes →
        unescapeStringMem src outBuf = some ⟨0, some bytes.length, bytes ++ outBuf.drop bytes.length⟩) := by
  constructor
  · intro src
    refine ⟨_, unescapeStringMem_eq src outBuf, ?_, ?_, ?_, ?_⟩
    · have hwithin := unescapeString_within src.chars outBuf.length
      rw [UnescapeResult.inArray, List.length_append, List.length_drop]
      omega
    · intro bytes
      rw [inArray_ok_iff fun hrc => (unescapeString_ok hrc).1]
      exact unescapeString_rc_zero src.chars outBuf.length bytes
    · exact unescapeString_rc_malformed src.chars outBuf.length
    · exact unescapeString_rc_overflow src.chars outBuf.length
  · intro bytes hroom
    refine ⟨exists_hexEscapes bytes, fun src hsrc => ?_⟩
    rw [unescapeStringMem_eq, unescapeString_tokens hsrc.tokens hroom]
    rfl

end TcpClient
