import TcpClient.HsmFormat

/-!
# How far a decoded packet can be trusted

`hsm_parse_response` guesses whether a packet starts with its length, and from then on
looks at the whole buffer. This module says what the guess and the silent cases of
the parser come to, for every packet:

* printable text is decoded alike with and without its length in front when its first
  two bytes are a number larger than it is long, and is not when they declare a frame
  that it holds (`tcpLen_immaterial`);
* the fields are what the buffer holds where they were read, and stay inside the frame
  the length declares exactly when the buffer ends with that frame, or the delimiter is
  met early enough in it (`inside_declared_frame`);
* the header of the configured length is read exactly when it fits the array for it,
  and the packet is not so short that the header is passed over (`header_honoured`).
-/

namespace TcpClient

open TcpClient.Frame

/-! ### The length in front -/

/-- The parser says what it took the first two bytes for. -/
theorem hsmParseResponse_tcpLen {buf : List Byte} {headerLen : ℕ} {resp : HsmResponse}
    (h : hsmParseResponse buf headerLen = some resp) :
    resp.hasTcpLen = (hsmTcpLen buf).isSome ∧ resp.tcpLen = (hsmTcpLen buf).getD 0 := by
  obtain ⟨tcp, header, code, err, payload, delim, -, htcp, -, -, -, -, rfl⟩ := hsmParseResponse_layout h
  rw [htcp]
  exact ⟨rfl, rfl⟩

/-- A body with its length in front is taken for one. -/
theorem hsmTcpLen_frame {body : List Byte} (h : body.length ≤ 65535) :
    hsmTcpLen (tcpField (some body.length) ++ body) = some body.length := by
  obtain ⟨hi, lo, hb, hl⟩ := be16_be16Bytes (Nat.lt_succ_of_le h)
  rw [tcpField, hb]
  simp [hsmTcpLen, hl]

/-- Of a text, the first two bytes are taken for its length when the number is not larger than
the text is long. -/
theorem hsmTcpLen_text {hi : Byte} (hhi : 32 ≤ hi) (lo : Byte) (rest : List Byte) :
    hsmTcpLen (hi :: lo :: rest) =
      if be16 hi lo ≤ (hi :: lo :: rest).length then some (be16 hi lo) else none := by
  have hlarge : 8192 ≤ be16 hi lo := by
    have hhi' : 32 ≤ hi.toNat := hhi
    rw [be16_eq]
    omega
  simp only [hsmTcpLen, List.length_cons]
  congr 1
  simp only [eq_iff_iff]
  constructor
  · intro h
    cases h with
    | inl heq => omega
    | inr hle => exact hle.2
  · intro h
    exact .inr ⟨by omega, h⟩

/-- A packet with room for the header and the codes is laid out in fields. -/
theorem exists_fields {body : List Byte} {headerLen : ℕ} (h : 4 + headerLen ≤ body.length) :
    ∃ header code err payload delim,
      body = header ++ (code ++ (err ++ (payload ++ delimited delim))) ∧ header.length = headerLen ∧
        code.length = 2 ∧ err.length = 2 ∧ hsmDelimiter ∉ payload := by
  obtain ⟨payload, delim, hp, hrest⟩ := exists_delimited (((body.drop headerLen).drop 2).drop 2)
  refine ⟨body.take headerLen, (body.drop headerLen).take 2, ((body.drop headerLen).drop 2).take 2, payload, delim,
    ?_, ?_, ?_, ?_, hp⟩
  · rw [← hrest, List.take_append_drop, List.take_append_drop, List.take_append_drop]
  · exact List.length_take_of_le (by omega)
  · exact List.length_take_of_le (by rw [List.length_drop]; omega)
  · exact List.length_take_of_le (by rw [List.length_drop, List.length_drop]; omega)

/-- Two responses say the same, each of the buffer it was decoded from. -/
structure SameReport (resp : HsmResponse) (buf : List Byte) (resp' : HsmResponse) (buf' : List Byte) : Prop where
  header : resp.header = resp'.header
  responseCode : resp.responseCode = resp'.responseCode
  errorCode : resp.errorCode = resp'.errorCode
  isSuccess : resp.isSuccess = resp'.isSuccess
  payload : resp.payloadBytes buf = resp'.payloadBytes buf'
  hasDelimiter : resp.hasDelimiter = resp'.hasDelimiter
  trailer : resp.trailer = resp'.trailer

/-- The packet is decoded with and without its length in front, and says the same. -/
def DecodesAlike (b : List Byte) (headerLen : ℕ) : Prop :=
  ∃ resp resp', hsmParseResponse b headerLen = some resp ∧ hsmParseResponse (frame b) headerLen = some resp' ∧
    resp.hasTcpLen = false ∧ resp'.hasTcpLen = true ∧ SameReport resp b resp' (frame b)

/-- A packet not taken to start with its length is decoded alike. -/
theorem decodesAlike_of_tcpLen {b : List Byte} {headerLen : ℕ} (hlen : 4 + headerLen ≤ b.length)
    (hmax : b.length ≤ 65535) (htcp : hsmTcpLen b = none) : DecodesAlike b headerLen := by
  have hframe := hsmTcpLen_frame hmax
  obtain ⟨header, code, err, payload, delim, rfl, hheader, hcode, herr, hp⟩ := exists_fields hlen
  have hplain : hsmParseResponse (tcpField none ++ (header ++ (code ++ (err ++ (payload ++ delimited delim)))))
      headerLen = _ := hsmParseResponse_fields hcode herr hp htcp (.inl hheader)
  have hframed := hsmParseResponse_fields hcode herr hp hframe (.inl hheader)
  refine ⟨_, _, hplain, hframed, rfl, rfl, ?_⟩
  constructor
  case payload =>
    exact (payloadBytes_hsmFields none hcode herr).trans (payloadBytes_hsmFields (some _) hcode herr).symm
  all_goals rfl

/-- A packet taken to start with its length is not. -/
theorem not_decodesAlike {b : List Byte} {n : ℕ} (htcp : hsmTcpLen b = some n) (headerLen : ℕ) :
    ¬ DecodesAlike b headerLen := by
  rintro ⟨resp, resp', hparse, -, hno, -, -⟩
  rw [(hsmParseResponse_tcpLen hparse).1, htcp] at hno
  cases hno

/-- Printable text is decoded alike unless its first two bytes are a number not larger than it is long. -/
theorem decodesAlike_iff {hi lo : Byte} {rest : List Byte} {headerLen : ℕ}
    (hlen : 4 + headerLen ≤ (hi :: lo :: rest).length) (hmax : (hi :: lo :: rest).length ≤ 65535)
    (htext : ∀ c ∈ hi :: lo :: rest, isprint c = true ∨ c = hsmDelimiter)
    (hfirst : (hi :: lo :: rest).head? ≠ some hsmDelimiter) :
    DecodesAlike (hi :: lo :: rest) headerLen ↔ (hi :: lo :: rest).length < be16 hi lo := by
  have hhi : 32 ≤ hi := by
    cases htext hi List.mem_cons_self with
    | inl hprint =>
      simp only [isprint, Bool.and_eq_true, decide_eq_true_eq] at hprint
      exact hprint.1
    | inr heq => exact absurd (congrArg some heq) hfirst
  have htcp := hsmTcpLen_text hhi lo rest
  constructor
  · intro halike
    by_contra hle
    rw [if_pos (Nat.not_lt.mp hle)] at htcp
    exact not_decodesAlike htcp headerLen halike
  · intro hlarge
    rw [if_neg (Nat.not_le.mpr hlarge)] at htcp
    exact decodesAlike_of_tcpLen hlen hmax htcp

/-- **Printable text is decoded alike with and without its length in front when its first two bytes are a number
larger than it is long**, and not when they declare a frame that it holds. -/
theorem tcpLen_immaterial (b : List Byte) (headerLen : ℕ) (hlen : 4 + headerLen ≤ b.length)
    (hmax : b.length ≤ 65535) (htext : ∀ c ∈ b, isprint c = true ∨ c = hsmDelimiter)
    (hfirst : b.head? ≠ some hsmDelimiter) :
    ∃ n, declared b = some (2 + n) ∧ (b.length < n → DecodesAlike b headerLen) ∧
      (2 + n ≤ b.length → ¬ DecodesAlike b headerLen) := by
  obtain ⟨hi, lo, rest, rfl⟩ : ∃ hi lo rest, b = hi :: lo :: rest := by
    have htwo : 2 ≤ b.length := by omega
    rcases b with _ | ⟨hi, _ | ⟨lo, rest⟩⟩
    · exact absurd htwo (by simp)
    · exact absurd htwo (by simp)
    · exact ⟨hi, lo, rest, rfl⟩
  have halike := decodesAlike_iff hlen hmax htext hfirst
  refine ⟨be16 hi lo, rfl, halike.mpr, fun hheld h => ?_⟩
  have hlarge := halike.mp h
  omega

/-- The answer `ND0000`. -/
theorem tcpLen_immaterial_ND00 : DecodesAlike (str "ND0000") 0 := by
  obtain ⟨n, hn, hlarge, -⟩ :=
    tcpLen_immaterial (str "ND0000") 0 (by decide) (by decide) (by decide +kernel) (by decide)
  have hn' : declared (str "ND0000") = some (2 + 20036) := by decide
  obtain rfl : n = 20036 := by
    have := Option.some.inj (hn.symm.trans hn')
    omega
  exact hlarge (by decide)

/-- Blanks are printable, and a text of 8230 of them is taken to start with the length 8224. -/
theorem tcpLen_mistaken :
    ¬ ∀ (b : List Byte) (headerLen : ℕ), headerLen ≤ 63 → 4 + headerLen ≤ b.length → b.length ≤ 65535 →
      (∀ c ∈ b, isprint c = true ∨ c = hsmDelimiter) → b.head? ≠ some hsmDelimiter → DecodesAlike b headerLen := by
  intro hall
  obtain ⟨n, hn⟩ : ∃ n, n = 8228 := ⟨_, rfl⟩
  have htcp : hsmTcpLen (32 :: 32 :: List.replicate n 32) = some 8224 := by
    rw [hsmTcpLen_text (by decide), if_pos]
    · rfl
    · simp only [List.length_cons, List.length_replicate]
      exact (by decide : be16 32 32 ≤ 8230).trans_eq (by omega)
  refine not_decodesAlike htcp 0 (hall _ 0 (by decide) ?_ ?_ ?_ (by simp [hsmDelimiter]))
  · simp only [List.length_cons, List.length_replicate]; omega
  · simp only [List.length_cons, List.length_replicate]; omega
  · intro c hc
    simp only [List.mem_cons, List.mem_replicate] at hc
    obtain rfl : c = 32 := by tauto
    exact .inl (by decide)

/-! ### The declared frame -/

/-- Where a packet goes on behind the length it is taken to start with. -/
def hsmBodyAt (buf : List Byte) : ℕ := if (hsmTcpLen buf).isSome then 2 else 0

/-- Where the codes are read: behind the header, which is passed over when the packet does not
hold that much. -/
def hsmCodesAt (buf : List Byte) (headerLen : ℕ) : ℕ :=
  if hsmBodyAt buf + headerLen ≤ buf.length then hsmBodyAt buf + headerLen else hsmBodyAt buf

/-- The fields of a response, each with where in the buffer it was read. -/
def hsmSpans (buf : List Byte) (headerLen : ℕ) (resp : HsmResponse) : List (ℕ × List Byte) :=
  let codes := hsmCodesAt buf headerLen
  [(hsmBodyAt buf, resp.header), (codes, resp.responseCode), (codes + 2, resp.errorCode),
    (codes + 4, resp.payloadBytes buf), (codes + 4 + resp.payloadLen + 1, resp.trailer)]

section Layout

variable {tcp : Option ℕ} {header code err payload : List Byte} {delim : Option (List Byte)} {headerLen : ℕ}

/-- In a packet laid out in fields the codes are behind the header. -/
theorem hsmCodesAt_layout {region : List Byte} (htcp : hsmTcpLen (tcpField tcp ++ (header ++ region)) = tcp)
    (hheader : header.length = headerLen ∨ header = [] ∧ region.length < headerLen) :
    hsmCodesAt (tcpField tcp ++ (header ++ region)) headerLen = (tcpField tcp).length + header.length := by
  have hbody : hsmBodyAt (tcpField tcp ++ (header ++ region)) = (tcpField tcp).length := by
    rw [hsmBodyAt, htcp, length_tcpField]
  rw [hsmCodesAt, hbody]
  simp only [List.length_append]
  cases hheader with
  | inl hlen => rw [if_pos (by omega), hlen]
  | inr hshort =>
    obtain ⟨rfl, hlt⟩ := hshort
    rw [if_neg (by simp only [List.length_nil]; omega), List.length_nil, Nat.add_zero]

/-- The spans of a packet laid out in fields. -/
theorem hsmSpans_layout (hcode : code.length = 2) (herr : err.length = 2)
    (htcp : hsmTcpLen (tcpField tcp ++ (header ++ (code ++ (err ++ (payload ++ delimited delim))))) = tcp)
    (hheader : header.length = headerLen ∨
      header = [] ∧ (code ++ (err ++ (payload ++ delimited delim))).length < headerLen) :
    let pos := (tcpField tcp).length + header.length
    hsmSpans (tcpField tcp ++ (header ++ (code ++ (err ++ (payload ++ delimited delim))))) headerLen
        (hsmFields tcp header code err payload delim (pos + 4)) =
      [((tcpField tcp).length, header.take hsmFieldMax), (pos, code), (pos + 2, err), (pos + 4, payload),
        (pos + 4 + payload.length + 1, (delim.getD []).take hsmFieldMax)] := by
  simp only [hsmSpans, hsmCodesAt_layout htcp hheader, payloadBytes_hsmFields tcp hcode herr]
  rw [hsmBodyAt, htcp, ← length_tcpField]
  rfl

/-- Every field is what the buffer holds where the field was read. -/
theorem hsmSpans_read {buf : List Byte} {resp : HsmResponse} (h : hsmParseResponse buf headerLen = some resp) :
    ∀ span ∈ hsmSpans buf headerLen resp, span.2 <+: buf.drop span.1 := by
  obtain ⟨tcp, header, code, err, payload, delim, rfl, htcp, hcode, herr, -, hheader, rfl⟩ :=
    hsmParseResponse_layout h
  rw [hsmSpans_layout hcode herr htcp hheader]
  intro span hspan
  simp only [List.mem_cons, List.not_mem_nil, or_false] at hspan
  rcases hspan with rfl | rfl | rfl | rfl | rfl
  · rw [List.drop_left]
    exact (List.take_prefix _ _).trans (List.prefix_append _ _)
  · rw [← List.drop_drop, List.drop_left, List.drop_left]
    exact List.prefix_append _ _
  · rw [← hcode, ← List.drop_drop, ← List.drop_drop, List.drop_left, List.drop_left, List.drop_left]
    exact List.prefix_append _ _
  · rw [drop_to_payload hcode herr]
    exact List.prefix_append _ _
  · rw [← List.drop_drop, ← List.drop_drop, drop_to_payload hcode herr, List.drop_left]
    cases delim with
    | none => exact List.nil_prefix
    | some trailer => exact List.take_prefix _ _

end Layout

/-- A field read at `span.1` lies within the bytes `[lo, hi)`. -/
def Within (lo hi : ℕ) (span : ℕ × List Byte) : Prop := span.2 ≠ [] → lo ≤ span.1 ∧ span.1 + span.2.length ≤ hi

instance (lo hi : ℕ) (span : ℕ × List Byte) : Decidable (Within lo hi span) :=
  inferInstanceAs (Decidable (_ → _))

/-- The declared frame is there, and all that was decoded is inside it. -/
def InsideFrame (buf : List Byte) (headerLen : ℕ) (resp : HsmResponse) : Prop :=
  2 + resp.tcpLen ≤ buf.length ∧ ∀ span ∈ hsmSpans buf headerLen resp, Within 2 (2 + resp.tcpLen) span

instance (buf : List Byte) (headerLen : ℕ) (resp : HsmResponse) : Decidable (InsideFrame buf headerLen resp) :=
  inferInstanceAs (Decidable (_ ∧ _))

/-- The buffer ends with the frame it declares; or it goes on, and the frame has, behind the
first delimiter after the codes, as many bytes as a trailer can have, or it ends in front
of a delimiter that is the last byte of the buffer. -/
def FrameBounds (buf : List Byte) (headerLen : ℕ) : Prop :=
  ∃ n, declared buf = some n ∧
    (n = buf.length ∨
      n < buf.length ∧ ∃ i, (buf.drop (hsmCodesAt buf headerLen + 4)).findIdx? (· == hsmDelimiter) = some i ∧
        let d := hsmCodesAt buf headerLen + 4 + i
        (d + 1 + hsmFieldMax ≤ n ∨ d = n ∧ d + 1 = buf.length))

/-- A packet that is taken to start with its length declares it. -/
theorem declared_of_tcpLen {buf : List Byte} {n : ℕ} (h : hsmTcpLen buf = some n) : declared buf = some (2 + n) := by
  rcases buf with _ | ⟨hi, _ | ⟨lo, rest⟩⟩
  · cases h
  · cases h
  · simp only [hsmTcpLen] at h
    split_ifs at h
    cases h
    rfl

/-- The spans are inside the frame exactly when the frame bounds them. -/
theorem insideFrame_iff {buf : List Byte} {headerLen : ℕ} {resp : HsmResponse}
    (h : hsmParseResponse buf headerLen = some resp) (hlen : resp.hasTcpLen = true) :
    InsideFrame buf headerLen resp ↔ FrameBounds buf headerLen := by
  obtain ⟨tcp, header, code, err, payload, delim, rfl, htcp, hcode, herr, hp, hheader, rfl⟩ :=
    hsmParseResponse_layout h
  obtain ⟨n, rfl⟩ := Option.isSome_iff_exists.mp hlen
  have hn : (tcpField (some n)).length = 2 := rfl
  have hfields : ∀ pos, (hsmFields (some n) header code err payload delim pos).tcpLen = n := fun _ => rfl
  unfold InsideFrame FrameBounds
  rw [hsmSpans_layout hcode herr htcp hheader, declared_of_tcpLen htcp, hsmCodesAt_layout htcp hheader,
    drop_to_payload hcode herr, findIdx?_delimited hp delim]
  -- every span is now an inequality between lengths
  simp only [Within, List.forall_mem_cons, List.not_mem_nil, false_imp_iff, implies_true, and_true,
    Option.some.injEq, exists_eq_left', List.length_append, hcode, herr, hn, hfields, ← List.length_pos_iff,
    List.length_take, hsmFieldMax]
  cases delim with
  | none =>
    simp only [delimited, Option.map_none, reduceCtorEq, false_and, exists_false, and_false, or_false,
      Option.getD_none, List.length_nil]
    omega
  | some trailer =>
    simp only [delimited, Option.map_some, Option.some.injEq, exists_eq_left', Option.getD_some, List.length_cons]
    omega

/-- **What is decoded is what the buffer holds, and lies inside the declared frame exactly when the frame bounds
it.** -/
theorem inside_declared_frame {buf : List Byte} {headerLen : ℕ} {resp : HsmResponse}
    (h : hsmParseResponse buf headerLen = some resp) (hlen : resp.hasTcpLen = true) :
    (∀ span ∈ hsmSpans buf headerLen resp, span.2 <+: buf.drop span.1) ∧
      (InsideFrame buf headerLen resp ↔ FrameBounds buf headerLen) :=
  ⟨hsmSpans_read h, insideFrame_iff h hlen⟩

/-- The answer `ND0000` with its length in front. -/
theorem inside_declared_frame_ND00 :
    ∃ resp, hsmParseResponse (be16Bytes 6 ++ str "ND0000") 0 = some resp ∧
      InsideFrame (be16Bytes 6 ++ str "ND0000") 0 resp := by
  obtain ⟨resp, hresp⟩ : ∃ resp, hsmParseResponse (be16Bytes 6 ++ str "ND0000") 0 = some resp := ⟨_, rfl⟩
  refine ⟨resp, hresp, (inside_declared_frame hresp ?_).2.mpr ⟨8, rfl, .inl rfl⟩⟩
  exact (hsmParseResponse_tcpLen hresp).1

/-- A frame cut short by two bytes is decoded, and of a frame of four bytes the two bytes behind
it are reported as its payload. -/
theorem outside_declared_frame :
    (∃ resp, hsmParseResponse (be16Bytes 6 ++ str "ND00") 0 = some resp ∧ resp.hasTcpLen = true ∧
      (be16Bytes 6 ++ str "ND00").length < 2 + resp.tcpLen) ∧
    ∃ resp, hsmParseResponse (be16Bytes 4 ++ str "ND00XX") 0 = some resp ∧ resp.hasTcpLen = true ∧
      2 + resp.tcpLen ≤ (be16Bytes 4 ++ str "ND00XX").length ∧
      resp.payloadBytes (be16Bytes 4 ++ str "ND00XX") = str "XX" ∧
      ¬ InsideFrame (be16Bytes 4 ++ str "ND00XX") 0 resp := by
  constructor
  · exact ⟨_, rfl, rfl, by decide⟩
  · exact ⟨_, rfl, rfl, by decide, by decide, by decide⟩

/-! ### The message header -/

/-- The message header of the configured length is read behind the length field, and the codes
behind it; a packet too short for that is rejected. -/
def HeaderHonoured (buf : List Byte) (headerLen : ℕ) : Prop :=
  (∀ resp, hsmParseResponse buf headerLen = some resp →
    let o := if resp.hasTcpLen then 2 else 0
    resp.header.length = headerLen ∧ resp.header = (buf.drop o).take headerLen ∧
      resp.responseCode = (buf.drop (o + headerLen)).take 2 ∧
      resp.errorCode = (buf.drop (o + headerLen + 2)).take 2 ∧
      (resp.isSuccess = true ↔ (buf.drop (o + headerLen + 2)).take 2 = str "00")) ∧
  (buf.length < hsmBodyAt buf + headerLen + 4 → hsmParseResponse buf headerLen = none)

/-- A packet is accepted when the region of the codes has room for them. -/
theorem hsmParseResponse_accepts {tcp : Option ℕ} {header region : List Byte} {headerLen : ℕ}
    (hregion : 4 ≤ region.length) (htcp : hsmTcpLen (tcpField tcp ++ (header ++ region)) = tcp)
    (hheader : header.length = headerLen ∨ header = [] ∧ region.length < headerLen) :
    ∃ resp, hsmParseResponse (tcpField tcp ++ (header ++ region)) headerLen = some resp ∧
      resp.header = header.take hsmFieldMax := by
  obtain ⟨front, code, err, payload, delim, rfl, hfront, hcode, herr, hp⟩ :=
    exists_fields (show 4 + 0 ≤ region.length from hregion)
  obtain rfl : front = [] := List.length_eq_zero_iff.mp hfront
  exact ⟨_, hsmParseResponse_fields hcode herr hp htcp hheader, rfl⟩

/-- How much of a packet there is behind the length it is taken to start with. -/
def hsmRemain (buf : List Byte) : ℕ := buf.length - hsmBodyAt buf

theorem hsmRemain_layout {tcp : Option ℕ} {body : List Byte} (htcp : hsmTcpLen (tcpField tcp ++ body) = tcp) :
    hsmBodyAt (tcpField tcp ++ body) = (tcpField tcp).length ∧ hsmRemain (tcpField tcp ++ body) = body.length := by
  have hbody : hsmBodyAt (tcpField tcp ++ body) = (tcpField tcp).length := by
    rw [hsmBodyAt, htcp, length_tcpField]
  rw [hsmRemain, hbody, List.length_append, Nat.add_sub_cancel_left]
  exact ⟨rfl, rfl⟩

/-- Where the header is honoured, it fits, and no packet that holds the codes is too short for it. -/
theorem HeaderHonoured.fits {buf : List Byte} {headerLen : ℕ} (h : HeaderHonoured buf headerLen) :
    (headerLen + 4 ≤ hsmRemain buf → headerLen ≤ hsmFieldMax) ∧ (hsmRemain buf < headerLen → hsmRemain buf < 4) := by
  obtain ⟨hfields, hreject⟩ := h
  obtain ⟨header, region, hbuf, hheader⟩ := exists_region buf headerLen
  generalize htcp : hsmTcpLen buf = tcp at hbuf
  subst hbuf
  obtain ⟨hbody, hremain⟩ := hsmRemain_layout htcp
  have haccepts := fun hregion => hsmParseResponse_accepts hregion htcp hheader
  rw [hremain, List.length_append]
  rw [hbody, List.length_append, List.length_append] at hreject
  constructor
  · intro hroom
    have hlen : header.length = headerLen := by
      cases hheader with
      | inl hlen => exact hlen
      | inr hshort => rw [hshort.1, List.length_nil] at hroom; omega
    obtain ⟨resp, hresp, hread⟩ := haccepts (by omega)
    have hcopied := (hfields resp hresp).1
    rw [hread, List.length_take] at hcopied
    omega
  · intro hshort
    by_contra hregion
    obtain rfl : header = [] := by
      cases hheader with
      | inl hlen => omega
      | inr hshort => exact hshort.1
    rw [List.length_nil] at hshort hregion hreject
    obtain ⟨resp, hresp, -⟩ := haccepts (by omega)
    rw [hreject (by omega)] at hresp
    cases hresp

/-- Where no packet that holds the codes is too short for the header, an accepted packet holds the
whole header, and the codes behind it. -/
theorem hsmParseResponse_whole {buf : List Byte} {headerLen : ℕ} {resp : HsmResponse}
    (hshort : hsmRemain buf < headerLen → hsmRemain buf < 4) (h : hsmParseResponse buf headerLen = some resp) :
    ∃ tcp header code err rest, buf = tcpField tcp ++ (header ++ (code ++ (err ++ rest))) ∧
      hsmTcpLen buf = tcp ∧ header.length = headerLen ∧ code.length = 2 ∧ err.length = 2 ∧
      resp.hasTcpLen = tcp.isSome ∧ resp.header = header.take hsmFieldMax ∧ resp.responseCode = code ∧
      resp.errorCode = err ∧ resp.isSuccess = (err == str "00") := by
  obtain ⟨tcp, header, code, err, payload, delim, rfl, htcp, hcode, herr, -, hheader, rfl⟩ :=
    hsmParseResponse_layout h
  refine ⟨tcp, header, code, err, _, rfl, htcp, ?_, hcode, herr, rfl, rfl, rfl, rfl, rfl⟩
  cases hheader with
  | inl hlen => exact hlen
  | inr hnone =>
    rw [(hsmRemain_layout htcp).2] at hshort
    obtain ⟨rfl, hlt⟩ := hnone
    have hcodes := hshort hlt
    simp only [List.nil_append, List.length_append, hcode, herr] at hcodes
    omega

/-- **The configured header is honoured exactly when it fits the array it is copied to, and the
packet is not one that holds the codes and not the header.** -/
theorem header_honoured (buf : List Byte) (headerLen : ℕ) :
    HeaderHonoured buf headerLen ↔
      (headerLen + 4 ≤ hsmRemain buf → headerLen ≤ hsmFieldMax) ∧
        (hsmRemain buf < headerLen → hsmRemain buf < 4) := by
  refine ⟨HeaderHonoured.fits, ?_⟩
  rintro ⟨hfit, hshort⟩
  constructor
  · intro resp hresp
    obtain ⟨tcp, header, code, err, rest, rfl, htcp, rfl, hcode, herr, ho, hheader, hrc, hec, hs⟩ :=
      hsmParseResponse_whole hshort hresp
    have hlen : header.length ≤ hsmFieldMax := by
      apply hfit
      rw [(hsmRemain_layout htcp).2]
      simp only [List.length_append, hcode, herr]
      omega
    have herror : ((tcpField tcp ++ (header ++ (code ++ (err ++ rest)))).drop
        ((tcpField tcp).length + header.length + 2)).take 2 = err := by
      rw [← hcode, ← List.drop_drop, ← List.drop_drop, List.drop_left, List.drop_left, List.drop_left, hcode,
        ← herr, List.take_left]
    simp only [ho, ← length_tcpField, hheader, hrc, hec, hs, herror, List.take_of_length_le hlen, true_and]
    refine ⟨?_, ?_, beq_iff_eq⟩
    · rw [List.drop_left, List.take_left]
    · rw [← List.drop_drop, List.drop_left, List.drop_left, ← hcode, List.take_left]
  · intro htooShort
    by_contra haccepted
    obtain ⟨resp, hresp⟩ := Option.ne_none_iff_exists'.mp haccepted
    obtain ⟨tcp, header, code, err, rest, rfl, htcp, rfl, hcode, herr, -⟩ := hsmParseResponse_whole hshort hresp
    rw [(hsmRemain_layout htcp).1] at htooShort
    simp only [List.length_append, hcode, herr] at htooShort
    omega

/-- A header of 64 bytes is cut to the 63 there is room for, and `ND0000`, too short for a header
of 8, is decoded as if none were configured. -/
theorem header_not_honoured :
    ¬ HeaderHonoured (List.replicate 64 72 ++ str "ND00") 64 ∧ ¬ HeaderHonoured (str "ND0000") 8 := by
  constructor
  · intro hhonoured
    obtain ⟨resp, hresp, hheader⟩ : ∃ resp, hsmParseResponse (List.replicate 64 72 ++ str "ND00") 64 = some resp ∧
        resp.header.length = 63 := ⟨_, rfl, rfl⟩
    have hlen := (hhonoured.1 resp hresp).1
    omega
  · intro hhonoured
    have hrejected := hhonoured.2 (by decide)
    cases hrejected

end TcpClient
