import TcpClient.HexGrammar
import TcpClient.HsmKeys
import TcpClient.Lib.Lines
import Mathlib.Data.Nat.Digits.Defs

/-!
# What the report shows of a key block

The lines of the breakdown go into a buffer of 1024 bytes, and what does not fit is dropped without
a word (`hsmBreakdown_eq`); the report around it always fits the 4096 bytes of the caller
(`length_reportText`). So a key block is shown in full, with its check value behind it, as long as
the breakdown has at most 1023 bytes, and not beyond (`keyBlock_reported_iff`).
-/

namespace TcpClient

open CString TcpClient.Frame Lines

/-! ### The buffer of the breakdown -/

/-- The buffer of the breakdown holds `text`. -/
structure Breakdown.Held (b : Breakdown) (size : ℕ) (text : List Byte) : Prop where
  size_eq : b.buf.length = size
  off_eq : b.off = text.length
  room : text.length < size
  layout : ∃ junk, b.buf = text ++ 0 :: junk

/-- A line is appended as far as it fits. -/
theorem Breakdown.Held.append {b : Breakdown} {size : ℕ} {text : List Byte} (h : b.Held size text)
    (line : List Byte) : (appendBreakdownLine b line).Held size ((text ++ line).take (size - 1)) := by
  obtain ⟨hsize, hoff, hroom, junk, hbuf⟩ := h
  have htake : (text ++ line).take (size - 1) = text ++ line.take (size - 1 - text.length) := by
    rw [List.take_append, List.take_of_length_le (by omega)]
  have hstored : (line.take (size - text.length - 1) ++ [(0 : Byte)]).length =
      min line.length (size - text.length - 1) + 1 := by
    rw [List.length_append, List.length_take, List.length_singleton, Nat.min_comm]
  have hjunk : size = text.length + (junk.length + 1) := by
    rw [← hsize, hbuf, List.length_append, List.length_cons]
  have hleft : b.buf.take text.length = text := by rw [hbuf, List.take_left]
  rw [appendBreakdownLine, hsize, hoff, if_neg (by omega), hleft, htake]
  constructor
  · dsimp only
    rw [List.length_append, List.length_append, List.length_drop, hstored, hsize]
    omega
  · dsimp only
    rw [List.length_append, List.length_take]
    split_ifs <;> omega
  · rw [List.length_append, List.length_take]
    omega
  · refine ⟨b.buf.drop (text.length + (line.take (size - text.length - 1) ++ [(0 : Byte)]).length), ?_⟩
    dsimp only
    rw [List.append_assoc, List.append_assoc, List.singleton_append, Nat.sub_right_comm]

/-- What is cut twice at the same place is cut once. -/
theorem take_take_append (text more : List Byte) (n : ℕ) : (text.take n ++ more).take n = (text ++ more).take n := by
  rw [List.take_append, List.take_append, List.take_take, Nat.min_self, List.length_take]
  congr 2
  omega

/-- Any number of lines, one after another. -/
theorem Breakdown.Held.appendAll {b : Breakdown} {size : ℕ} {text : List Byte} (h : b.Held size text)
    (lines : List (List Byte)) :
    (lines.foldl appendBreakdownLine b).Held size ((text ++ lines.flatten).take (size - 1)) := by
  induction lines generalizing b text with
  | nil =>
    have hroom := h.room
    rwa [List.flatten_nil, List.append_nil, List.take_of_length_le (by omega)]
  | cons line lines ih =>
    have hrest := ih (h.append line)
    rw [List.foldl_cons, List.flatten_cons, ← List.append_assoc]
    rwa [take_take_append] at hrest

/-- `vsnprintf(buf + off, n, …)`, the text already formatted: a terminator and as much of the text as
leaves room for it, and how long the text was. `none` where a byte outside `buf` would be written. -/
def vsnprintf (buf : List Byte) (off n : ℕ) (text : List Byte) : Option (List Byte × ℕ) :=
  if n = 0 then some (buf, text.length)
  else
    let stored := text.take (n - 1) ++ [0]
    if off + stored.length ≤ buf.length then
      some (buf.take off ++ (stored ++ buf.drop (off + stored.length)), text.length)
    else none

/-- `append_breakdown_line(buf, buf_size, &off, …)` on memory. -/
def appendBreakdownLineMem (bufSize : ℕ) (b : Breakdown) (text : List Byte) : Option Breakdown :=
  if bufSize ≤ b.off then some b
  else do
    let (buf, written) ← vsnprintf b.buf b.off (bufSize - b.off) text
    if 0 < written then
      let off := b.off + written
      some ⟨buf, if bufSize ≤ off then bufSize - 1 else off⟩
    else some ⟨buf, b.off⟩

/-- No byte outside the buffer is written. -/
theorem appendBreakdownLineMem_eq (b : Breakdown) (text : List Byte) :
    appendBreakdownLineMem b.buf.length b text = some (appendBreakdownLine b text) := by
  rw [appendBreakdownLineMem, appendBreakdownLine]
  split_ifs with hfull
  · rfl
  · have hstored : b.off + (text.take (b.buf.length - b.off - 1) ++ [(0 : Byte)]).length ≤ b.buf.length := by
      rw [List.length_append, List.length_take, List.length_singleton]
      omega
    rw [vsnprintf, if_neg (by omega)]
    dsimp only
    rw [if_pos hstored, Option.bind_eq_bind, Option.bind_some]
    dsimp only
    -- a call that writes no text leaves the offset where it is
    by_cases hwritten : 0 < text.length
    · rw [if_pos hwritten]
    · have hkeep : ¬ b.buf.length ≤ b.off + text.length := by omega
      have hoff : b.off + text.length = b.off := by omega
      rw [if_neg hwritten, if_neg hkeep, hoff]

theorem Breakdown.Held.foldlM {b : Breakdown} {size : ℕ} {text : List Byte} (h : b.Held size text)
    (lines : List (List Byte)) :
    lines.foldlM (appendBreakdownLineMem size) b = some (lines.foldl appendBreakdownLine b) := by
  induction lines generalizing b text with
  | nil => rfl
  | cons line lines ih =>
    obtain rfl := h.size_eq
    rw [List.foldlM_cons, appendBreakdownLineMem_eq, Option.bind_eq_bind, Option.bind_some, List.foldl_cons]
    exact ih (h.append line)

/-- **Assembling the breakdown is a bounded append**: a buffer of any size, empty at first and with
anything behind its terminator, holds as much of the lines as fits, and is never left. -/
theorem breakdown_bounded (junk : List Byte) (lines : List (List Byte)) :
    ∃ b, lines.foldlM (appendBreakdownLineMem (junk.length + 1)) ⟨0 :: junk, 0⟩ = some b ∧
      b.buf.length = junk.length + 1 ∧ b.off < junk.length + 1 ∧ b.buf[b.off]? = some 0 ∧
      b.buf.take b.off = lines.flatten.take junk.length := by
  have hstart : (⟨0 :: junk, 0⟩ : Breakdown).Held (junk.length + 1) [] :=
    ⟨rfl, rfl, Nat.succ_pos _, junk, rfl⟩
  obtain ⟨hsize, hoff, hroom, rest, hbuf⟩ := hstart.appendAll lines
  rw [List.nil_append, Nat.add_sub_cancel] at hoff hroom hbuf
  refine ⟨_, hstart.foldlM lines, hsize, hoff ▸ hroom, ?_, ?_⟩
  · rw [hbuf, hoff, List.getElem?_append_right le_rfl, Nat.sub_self, List.getElem?_cons_zero]
  · rw [hbuf, hoff, List.take_left]

/-- **The breakdown is its lines, cut to 1023 bytes.** -/
theorem hsmBreakdown_eq {resp : HsmResponse} {payload : List Byte} (h : 0 ∉ (breakdownLines resp payload).flatten) :
    hsmBreakdown resp payload = (breakdownLines resp payload).flatten.take 1023 := by
  have hstart : (⟨List.replicate 1024 0, 0⟩ : Breakdown).Held 1024 [] :=
    ⟨List.length_replicate, rfl, by decide, List.replicate 1023 0, by rw [List.nil_append, ← List.replicate_succ]⟩
  obtain ⟨-, -, -, junk, hbuf⟩ := hstart.appendAll (breakdownLines resp payload)
  rw [hsmBreakdown, hbuf, List.nil_append]
  exact cstr_of_not_mem (fun h0 => h (List.mem_of_mem_take h0)) junk

/-! ### The pieces of the report -/

/-- A line of the breakdown, without its newline. -/
def fieldLine (label text : List Byte) : List Byte := label ++ str " = [" ++ text ++ [93]

/-- The lines in front of the breakdown. -/
def reportHead (resp : HsmResponse) (rawBuf : List Byte) : List (List Byte) :=
  [List.replicate 70 61,
    str "             payShield 10K HSM RESPONSE DECODER ANALYSIS              ",
    List.replicate 70 61,
    str "Raw Packet Length : " ++ (decimal rawBuf.length ++ str " bytes"),
    str "Raw Hex Packet    : " ++ (if (hexDump rawBuf).isEmpty then str "(None)" else hexDump rawBuf),
    List.replicate 70 45,
    str "TCP Length Header : " ++
      (if resp.hasTcpLen then str "2 Bytes (Binary Big-Endian)" else str "None / Omitted"),
    str "Message Header    : " ++ (if 0 < resp.header.length then cstr resp.header else str "(None)"),
    str "Response Code     : '" ++ (orNA (cstr resp.responseCode) ++ (str "' -> [" ++ (resp.responseName ++ [93]))),
    str "Error Code        : '" ++ (orNA (cstr resp.errorCode) ++ (str "' -> [" ++
      ((if resp.isSuccess then str "SUCCESS / OK" else str "ERROR / FAILED") ++ [93]))),
    str "                    Error Description: " ++ resp.errorDescription,
    List.replicate 70 45]

/-- The lines behind the rule that ends the breakdown. -/
def reportFoot (resp : HsmResponse) (payload : List Byte) : List (List Byte) :=
  (str "Response Payload  : " ++ (decimal resp.payloadLen ++ (str " bytes " ++
    (if resp.isSuccess then [] else str "(Truncated by HSM due to error)")))) ::
  ((if 0 < resp.payloadLen then
    [str "Payload HEX       : " ++ hexDump payload, str "Payload ASCII     : " ++ asciiDump payload] else []) ++
  [List.replicate 70 61])

/-- The lines of the breakdown in front of those about the payload, each without its newline. -/
def breakdownHead (resp : HsmResponse) : List (List Byte) :=
  [str "DETAILED FIELD BREAKDOWN:"] ++
  (if resp.hasTcpLen then
    [str "TCP/IP Header............ = [" ++
      (hexText true false [UInt8.ofNat (resp.tcpLen / 256), UInt8.ofNat (resp.tcpLen % 256)] ++
      (str "] " ++ (decimal resp.tcpLen ++ str " Bytes")))]
  else []) ++
  (if 0 < resp.header.length then [fieldLine (str "Message Header...........") (cstr resp.header)] else []) ++
  [str "Command Code............. = [" ++ (orNA (cstr resp.responseCode) ++ (str "] " ++ resp.responseName)),
    str "Error Code............... = [" ++ (orNA (cstr resp.errorCode) ++ (str "] " ++ resp.errorDescription))]

/-- The text of the report, before it is cut to the caller's buffer. -/
def reportText (resp : HsmResponse) (rawBuf : List Byte) : List Byte :=
  unlines 10 (reportHead resp rawBuf) ++ hsmBreakdown resp (resp.payloadBytes rawBuf) ++
    unlines 10 (List.replicate 70 45 :: reportFoot resp (resp.payloadBytes rawBuf))

theorem hsmFormatAnalysis_eq (resp : HsmResponse) (rawBuf : List Byte) (maxLen : ℕ) :
    hsmFormatAnalysis resp rawBuf maxLen = (reportText resp rawBuf).take (maxLen - 1) := by
  rw [hsmFormatAnalysis]
  refine congrArg (List.take (maxLen - 1)) ?_
  have hsplit : ∀ (p : Prop) [Decidable p] (a b : List (List Byte)),
      unlines 10 (if p then a else b) = if p then unlines 10 a else unlines 10 b :=
    fun p _ a b => apply_ite (unlines 10) p a b
  have htitle : str "             payShield 10K HSM RESPONSE DECODER ANALYSIS              \n" =
      str "             payShield 10K HSM RESPONSE DECODER ANALYSIS              " ++ [10] := by decide +kernel
  have hbytes : str " bytes\n" = str " bytes" ++ [10] := rfl
  have hnewline : str "\n" = [10] := rfl
  have hbracket : str "]\n" = [93, 10] := rfl
  have hascii : str "\nPayload ASCII     : " = 10 :: str "Payload ASCII     : " := rfl
  simp only [reportText, reportHead, reportFoot, doubleRule, singleRule, unlines_append, unlines_cons, unlines_nil,
    hsplit, htitle, hbytes, hnewline, hbracket, hascii, List.append_assoc, List.cons_append, List.nil_append]

/-! ### What the pieces are made of -/

/-- Text of printable characters. -/
def Printable (text : List Byte) : Prop := ∀ c ∈ text, isprint c = true

instance (text : List Byte) : Decidable (Printable text) := List.decidableBAll _ _

@[simp]
theorem printable_append {a b : List Byte} : Printable (a ++ b) ↔ Printable a ∧ Printable b := List.forall_mem_append

/-- A newline does not print, and neither does a NUL. -/
theorem Printable.not_mem {text : List Byte} (h : Printable text) {c : Byte} (hc : isprint c = false) : c ∉ text := by
  intro hmem
  rw [h c hmem] at hc
  exact Bool.noConfusion hc

theorem printable_ite {p : Prop} [Decidable p] {a b : List Byte} (ha : Printable a) (hb : Printable b) :
    Printable (if p then a else b) := by
  split_ifs <;> assumption

theorem printable_decimal (n : ℕ) : Printable (decimal n) := by
  intro c hc
  obtain ⟨hlow, hhigh⟩ := byte_of_mem_toDigits hc
  rw [isprint, Bool.and_eq_true, decide_eq_true_eq, decide_eq_true_eq]
  exact ⟨UInt8.le_trans (by decide) hlow, UInt8.le_trans hhigh (by decide)⟩

theorem length_decimal_le {n e : ℕ} (he : 0 < e) (h : n < 10 ^ e) : (decimal n).length ≤ e := by
  rw [decimal, List.length_map]
  exact Nat.toDigits_length 10 n e he h

theorem printable_hexText (uppercase addSpaces : Bool) (bytes : List Byte) :
    Printable (hexText uppercase addSpaces bytes) := by
  have hdigit : ∀ n < 16, isprint ((hexChars uppercase).getD n 0) = true := by cases uppercase <;> decide
  induction bytes with
  | nil => exact List.forall_mem_nil _
  | cons byte bytes ih =>
    have hhi : byte.toNat >>> 4 &&& 0x0F < 16 := Nat.lt_of_le_of_lt Nat.and_le_right (by decide)
    have hlo : byte.toNat &&& 0x0F < 16 := Nat.lt_of_le_of_lt Nat.and_le_right (by decide)
    have hpair : Printable (hexPair uppercase byte) :=
      List.forall_mem_cons.mpr ⟨hdigit _ hhi, List.forall_mem_singleton.mpr (hdigit _ hlo)⟩
    rw [hexText, printable_append, printable_append]
    exact ⟨⟨hpair, printable_ite (by decide) (by decide)⟩, ih⟩

/-- The dump of up to 64 bytes is hex text, and fits. -/
theorem hexDump_spec (bytes : List Byte) : Printable (hexDump bytes) ∧ (hexDump bytes).length ≤ 195 := by
  have htext : ∀ text, bytesToHex (bytes.take 64) 512 true true = some text →
      Printable (cstr text) ∧ (cstr text).length ≤ 191 := by
    intro text h
    obtain rfl := bytesToHex_eq_some true true h
    rw [cstr_of_not_mem (nul_not_mem_hexText true true _) [], length_hexText, List.length_take]
    refine ⟨printable_hexText true true _, ?_⟩
    rw [hexTextLength]
    split_ifs <;> omega
  rw [hexDump]
  split_ifs with hnil hlong
  · exact ⟨List.forall_mem_nil _, Nat.zero_le _⟩
  · cases h : bytesToHex (bytes.take 64) 512 true true with
    | none => exact ⟨by decide, by decide⟩
    | some text =>
      obtain ⟨hprint, hlen⟩ := htext text h
      have hdots : (str " ...").length = 4 := rfl
      refine ⟨printable_append.mpr ⟨hprint, by decide⟩, ?_⟩
      rw [List.length_append, hdots]
      dsimp only
      omega
  · cases h : bytesToHex (bytes.take 64) 512 true true with
    | none => exact ⟨by decide, by decide⟩
    | some text =>
      obtain ⟨hprint, hlen⟩ := htext text h
      rw [List.append_nil]
      exact ⟨hprint, hlen.trans (by decide)⟩

theorem asciiDump_spec (payload : List Byte) : Printable (asciiDump payload) ∧ (asciiDump payload).length ≤ 255 := by
  constructor
  · intro c hc
    obtain ⟨b, -, rfl⟩ := List.mem_map.mp hc
    split_ifs with hb
    · exact hb
    · rfl
  · rw [asciiDump, List.length_map, List.length_take]
    exact Nat.min_le_left _ _

/-! ### The lines that are not about the payload -/

/-- What the tables and the packet say of a successful `A1` response. -/
structure KeyFields (resp : HsmResponse) (buf : List Byte) : Prop where
  success : resp.isSuccess = true
  code : resp.responseCode = str "A1"
  name : resp.responseName = str "Generate a Key Response"
  error : resp.errorCode = str "00"
  description : resp.errorDescription = str "No error"
  header_le : resp.header.length ≤ 63
  tcpLen_lt : resp.tcpLen < 65536
  payloadLen_eq : (resp.payloadBytes buf).length = resp.payloadLen
  payloadLen_le : resp.payloadLen ≤ buf.length

theorem hsmTcpLen_lt {buf : List Byte} {len : ℕ} (h : hsmTcpLen buf = some len) : len < 65536 := by
  rcases buf with _ | ⟨hi, _ | ⟨lo, rest⟩⟩
  · exact absurd h (by simp [hsmTcpLen])
  · exact absurd h (by simp [hsmTcpLen])
  · simp only [hsmTcpLen] at h
    split_ifs at h
    obtain rfl := Option.some.inj h
    have hhi := hi.toNat_lt
    have hlo := lo.toNat_lt
    rw [be16_eq]
    omega

theorem IsKeyResponse.fields {buf : List Byte} {headerLen : ℕ} {resp : HsmResponse}
    (h : IsKeyResponse buf headerLen resp) : KeyFields resp buf := by
  obtain ⟨hparsed, hsuccess, hcode⟩ := h
  obtain ⟨hslice, hlen⟩ := payloadBytes_infix hparsed
  obtain ⟨tcp, header, code, err, payload, delim, -, htcp, -, -, -, -, hresp⟩ := hsmParseResponse_layout hparsed
  have herror : resp.errorCode = str "00" := by
    rw [hresp] at hsuccess ⊢
    exact eq_of_beq hsuccess
  constructor
  · exact hsuccess
  · exact hcode
  · have hname : resp.responseName = hsmLookupCommandName resp.responseCode := by rw [hresp]; rfl
    rw [hname, hcode]
    decide
  · exact herror
  · have hdescription : resp.errorDescription = hsmLookupErrorCode resp.errorCode := by rw [hresp]; rfl
    rw [hdescription, herror]
    decide
  · rw [hresp]
    exact (List.length_take_le _ _).trans (by decide)
  · rw [hresp]
    cases tcp with
    | none => exact Nat.zero_lt_succ _
    | some len => exact hsmTcpLen_lt htcp
  · exact hlen
  · exact hlen ▸ hslice.length_le

/-- Where the message header is shown. -/
def headerPieces (resp : HsmResponse) : List (List Byte) :=
  if 0 < resp.header.length then
    [str "Message Header    : " ++ cstr resp.header, fieldLine (str "Message Header...........") (cstr resp.header)]
  else []

/-- A line that prints and does not start as those about a key do. -/
def Aside (piece : List Byte) : Prop := Printable piece ∧ piece.head? ≠ some 75

instance (piece : List Byte) : Decidable (Aside piece) := inferInstanceAs (Decidable (_ ∧ _))

/-- What such a line can start with. -/
def IsLabel (label : List Byte) : Prop := label ≠ [] ∧ Aside label

instance (label : List Byte) : Decidable (IsLabel label) := inferInstanceAs (Decidable (_ ∧ _))

theorem IsLabel.append {label text : List Byte} (hlabel : IsLabel label) (htext : Printable text) :
    Aside (label ++ text) := by
  obtain ⟨hne, hprint, hhead⟩ := hlabel
  refine ⟨printable_append.mpr ⟨hprint, htext⟩, ?_⟩
  rw [List.head?_append_of_ne_nil _ hne]
  exact hhead

/-- The lines of the report around those about the payload. -/
def otherPieces (resp : HsmResponse) (buf : List Byte) : List (List Byte) :=
  reportHead resp buf ++ breakdownHead resp ++ List.replicate 70 45 :: reportFoot resp (resp.payloadBytes buf)

theorem KeyFields.printable {resp : HsmResponse} {buf : List Byte} (h : KeyFields resp buf) :
    Printable (orNA (cstr resp.responseCode)) ∧ Printable (orNA (cstr resp.errorCode)) ∧
      Printable resp.responseName ∧ Printable resp.errorDescription := by
  rw [h.code, h.error, h.name, h.description]
  decide

theorem aside_replicate {c : Byte} (hc : isprint c = true) (hne : c ≠ 75) : Aside (List.replicate 70 c) := by
  refine ⟨fun b hb => List.eq_of_mem_replicate hb ▸ hc, ?_⟩
  rw [List.replicate_succ, List.head?_cons]
  exact fun heq => hne (Option.some.inj heq)

theorem mem_headerPieces {resp : HsmResponse} {piece : List Byte} :
    piece ∈ headerPieces resp ↔ 0 < resp.header.length ∧
      (piece = str "Message Header    : " ++ cstr resp.header ∨
        piece = fieldLine (str "Message Header...........") (cstr resp.header)) := by
  unfold headerPieces
  split_ifs with hpos <;> simp [hpos]

section Around

variable {resp : HsmResponse} {buf : List Byte}

theorem reportHead_aside (h : KeyFields resp buf) :
    ∀ piece ∈ reportHead resp buf, Aside piece ∨ piece ∈ headerPieces resp := by
  obtain ⟨hcode, herror, hname, hdescription⟩ := h.printable
  have hdouble : Aside (List.replicate 70 61) := aside_replicate rfl (by decide)
  have hsingle : Aside (List.replicate 70 45) := aside_replicate rfl (by decide)
  simp only [reportHead, List.forall_mem_cons]
  refine ⟨.inl hdouble, .inl (by decide), .inl hdouble, .inl ?_, .inl ?_, .inl hsingle, .inl ?_, ?_, .inl ?_, .inl ?_,
    .inl ?_, .inl hsingle, List.forall_mem_nil _⟩
  · exact IsLabel.append (by decide) (printable_append.mpr ⟨printable_decimal _, by decide⟩)
  · exact IsLabel.append (by decide) (printable_ite (by decide) (hexDump_spec _).1)
  · exact IsLabel.append (by decide) (printable_ite (by decide) (by decide))
  · split_ifs with hpos
    · exact .inr (mem_headerPieces.mpr ⟨hpos, .inl rfl⟩)
    · exact .inl (by decide)
  · refine IsLabel.append (by decide) (printable_append.mpr ⟨hcode, printable_append.mpr ⟨by decide, ?_⟩⟩)
    exact printable_append.mpr ⟨hname, by decide⟩
  · refine IsLabel.append (by decide) (printable_append.mpr ⟨herror, printable_append.mpr ⟨by decide, ?_⟩⟩)
    exact printable_append.mpr ⟨printable_ite (by decide) (by decide), by decide⟩
  · exact IsLabel.append (by decide) hdescription

theorem breakdownHead_aside (h : KeyFields resp buf) :
    ∀ piece ∈ breakdownHead resp, Aside piece ∨ piece ∈ headerPieces resp := by
  obtain ⟨hcode, herror, hname, hdescription⟩ := h.printable
  simp only [breakdownHead, List.forall_mem_append, List.forall_mem_singleton, List.forall_mem_cons]
  refine ⟨⟨⟨.inl (by decide), ?_⟩, ?_⟩, .inl ?_, .inl ?_⟩
  · split_ifs with htcp
    · refine List.forall_mem_singleton.mpr (.inl (IsLabel.append (by decide) ?_))
      rw [printable_append, printable_append, printable_append]
      exact ⟨printable_hexText _ _ _, by decide, printable_decimal _, by decide⟩
    · exact List.forall_mem_nil _
  · split_ifs with hpos
    · exact List.forall_mem_singleton.mpr (.inr (mem_headerPieces.mpr ⟨hpos, .inr rfl⟩))
    · exact List.forall_mem_nil _
  · exact IsLabel.append (by decide) (printable_append.mpr ⟨hcode, printable_append.mpr ⟨by decide, hname⟩⟩)
  · refine IsLabel.append (by decide) (printable_append.mpr ⟨herror, printable_append.mpr ⟨by decide, ?_⟩⟩)
    exact hdescription

theorem reportFoot_aside (payload : List Byte) : ∀ piece ∈ reportFoot resp payload, Aside piece := by
  simp only [reportFoot, List.forall_mem_append, List.forall_mem_singleton, List.forall_mem_cons]
  refine ⟨?_, ?_, aside_replicate rfl (by decide)⟩
  · refine IsLabel.append (by decide) ?_
    rw [printable_append, printable_append]
    exact ⟨printable_decimal _, by decide, printable_ite (by decide) (by decide)⟩
  · split_ifs with hpos
    · refine List.forall_mem_cons.mpr ⟨?_, List.forall_mem_singleton.mpr ?_⟩
      · exact IsLabel.append (by decide) (hexDump_spec _).1
      · exact IsLabel.append (by decide) (asciiDump_spec _).1
    · exact List.forall_mem_nil _

/-- Each of them prints and starts unlike a line about the payload, or shows the message header. -/
theorem aside_or_header (h : KeyFields resp buf) :
    ∀ piece ∈ otherPieces resp buf, Aside piece ∨ piece ∈ headerPieces resp := by
  rw [otherPieces, List.forall_mem_append, List.forall_mem_append, List.forall_mem_cons]
  refine ⟨⟨reportHead_aside h, breakdownHead_aside h⟩, .inl (aside_replicate rfl (by decide)), ?_⟩
  exact fun piece hpiece => .inl (reportFoot_aside _ piece hpiece)

end Around

/-! ### How long they are -/

/-- How many bytes of the breakdown are used when the lines about the payload come. -/
def breakdownUsed (resp : HsmResponse) : ℕ :=
  125 + (if resp.hasTcpLen then 42 + (decimal resp.tcpLen).length else 0) +
    if 0 < resp.header.length then 31 + (cstr resp.header).length else 0

theorem length_fieldLine (label text : List Byte) (hlabel : label.length = 25) :
    (fieldLine label text).length = 30 + text.length := by
  have hequals : (str " = [").length = 4 := rfl
  rw [fieldLine, List.length_append, List.length_append, List.length_append, hlabel, hequals, List.length_singleton]
  omega

/-- The fields of a response to a key request have one length each. -/
theorem KeyFields.lengths {resp : HsmResponse} {buf : List Byte} (h : KeyFields resp buf) :
    (orNA (cstr resp.responseCode)).length = 2 ∧ (orNA (cstr resp.errorCode)).length = 2 ∧
      resp.responseName.length = 23 ∧ resp.errorDescription.length = 8 := by
  rw [h.code, h.error, h.name, h.description]
  exact ⟨rfl, rfl, rfl, rfl⟩

theorem length_breakdownHead {resp : HsmResponse} {buf : List Byte} (h : KeyFields resp buf) :
    (unlines 10 (breakdownHead resp)).length = breakdownUsed resp := by
  obtain ⟨hcode, herror, hname, hdescription⟩ := h.lengths
  have hhex : ∀ a b : Byte, (hexText true false [a, b]).length = 4 := fun a b => rfl
  have hheader := length_fieldLine (str "Message Header...........") (cstr resp.header) rfl
  have hwords : (str "DETAILED FIELD BREAKDOWN:").length = 25 ∧
      (str "TCP/IP Header............ = [").length = 29 ∧ (str "] ").length = 2 ∧ (str " Bytes").length = 6 ∧
      (str "Command Code............. = [").length = 29 ∧ (str "Error Code............... = [").length = 29 :=
    ⟨rfl, rfl, rfl, rfl, rfl, rfl⟩
  simp only [breakdownHead, breakdownUsed, unlines_append, List.length_append]
  split_ifs <;>
    simp only [unlines_cons, unlines_nil, List.length_append, List.length_cons, List.length_nil, hcode, herror, hname,
      hdescription, hhex, hheader, hwords] <;>
    omega

theorem breakdownUsed_le {resp : HsmResponse} {buf : List Byte} (h : KeyFields resp buf) :
    breakdownUsed resp ≤ 266 := by
  have htcp : (decimal resp.tcpLen).length ≤ 5 :=
    length_decimal_le (by decide) (h.tcpLen_lt.trans (by decide))
  have hheader : (cstr resp.header).length ≤ 63 :=
    (List.takeWhile_prefix _).length_le.trans h.header_le
  rw [breakdownUsed]
  split_ifs <;> omega

/-- The report always fits the caller's buffer. -/
theorem length_reportText {resp : HsmResponse} {buf : List Byte} (h : KeyFields resp buf) (hlen : buf.length ≤ 65537)
    (hbreakdown : (hsmBreakdown resp (resp.payloadBytes buf)).length ≤ 1023) :
    (reportText resp buf).length ≤ 4095 := by
  obtain ⟨hcode, herror, hname, hdescription⟩ := h.lengths
  have hheader : (cstr resp.header).length ≤ 63 :=
    (List.takeWhile_prefix _).length_le.trans h.header_le
  have hraw : (decimal buf.length).length ≤ 5 := length_decimal_le (by decide) (hlen.trans_lt (by decide))
  have hpayload : (decimal resp.payloadLen).length ≤ 5 :=
    length_decimal_le (by decide) (h.payloadLen_le.trans_lt (hlen.trans_lt (by decide)))
  have hdump := (hexDump_spec buf).2
  have hdump' := (hexDump_spec (resp.payloadBytes buf)).2
  have hascii := (asciiDump_spec (resp.payloadBytes buf)).2
  have hwords : (str "             payShield 10K HSM RESPONSE DECODER ANALYSIS              ").length = 70 ∧
      (str "Raw Packet Length : ").length = 20 ∧ (str " bytes").length = 6 ∧
      (str "Raw Hex Packet    : ").length = 20 ∧ (str "(None)").length = 6 ∧
      (str "TCP Length Header : ").length = 20 ∧ (str "2 Bytes (Binary Big-Endian)").length = 27 ∧
      (str "None / Omitted").length = 14 ∧ (str "Message Header    : ").length = 20 ∧
      (str "Response Code     : '").length = 21 ∧ (str "' -> [").length = 6 ∧
      (str "Error Code        : '").length = 21 ∧ (str "SUCCESS / OK").length = 12 ∧
      (str "                    Error Description: ").length = 39 :=
    by decide +kernel
  have hwords' : (str "Response Payload  : ").length = 20 ∧ (str " bytes ").length = 7 ∧
      (str "Payload HEX       : ").length = 20 ∧ (str "Payload ASCII     : ").length = 20 :=
    ⟨rfl, rfl, rfl, rfl⟩
  have hhead : (unlines 10 (reportHead resp buf)).length ≤ 900 := by
    simp only [reportHead, unlines_cons, unlines_nil, List.length_append, List.length_cons, List.length_nil,
      List.length_replicate, h.success, if_true, hcode, herror, hname, hdescription, hwords, apply_ite List.length]
    split_ifs <;> omega
  have hfoot : (unlines 10 (List.replicate 70 45 :: reportFoot resp (resp.payloadBytes buf))).length ≤ 700 := by
    rw [reportFoot, unlines_cons, unlines_cons, unlines_append]
    simp only [unlines_cons, unlines_nil, List.length_append, List.length_cons, List.length_nil,
      List.length_replicate, h.success, if_true, hwords', apply_ite (unlines (10 : Byte)), apply_ite List.length]
    split_ifs <;> omega
  rw [reportText, List.length_append, List.length_append]
  omega

/-! ### The lines about the payload -/

/-- The line that shows a key block. -/
def keyBlockLine (block : List Byte) : List Byte := fieldLine (str "Key Block (TR-31)........") block

/-- The line that shows a check value. -/
def checkValueLine (kcv : List Byte) : List Byte := fieldLine (str "Key Check Value (KCV)....") kcv

/-- The message header has the line among its own, once it is shown. -/
def HeaderShows (resp : HsmResponse) (line : List Byte) : Prop :=
  line ∈ ((cstr resp.header).splitOn 10).tail ∨ line ∈ ((cstr resp.header ++ [93]).splitOn 10).tail

/-- A line about a key: it prints, and starts and ends as those lines do. -/
structure IsKeyLine (line : List Byte) : Prop where
  printable : Printable line
  starts : line.head? = some 75
  ends : line.getLast? = some 93

theorem isKeyLine_fieldLine {label text : List Byte} (hlabel : Printable label) (hK : label.head? = some 75)
    (htext : Printable text) : IsKeyLine (fieldLine label text) := by
  constructor
  · rw [fieldLine, printable_append, printable_append, printable_append]
    exact ⟨⟨⟨hlabel, by decide⟩, htext⟩, by decide⟩
  · cases label with
    | nil => cases hK
    | cons c label => exact hK
  · rw [fieldLine, List.getLast?_append]
    rfl

/-- Behind the name of the message header it can only stand on a later line. -/
theorem IsKeyLine.mem_front_append {line front : List Byte} (hline : IsKeyLine line)
    (hfront : front.head? = some 77 ∧ 10 ∉ front) (text : List Byte) :
    line ∈ (front ++ text).splitOn 10 ↔ line ∈ (text.splitOn 10).tail := by
  refine mem_splitOn_append 10 hfront.2 ?_ text
  rintro ⟨rest, rfl⟩
  have hstarts := hline.starts
  rw [List.head?_append, hfront.1, Option.some_or] at hstarts
  exact absurd (Option.some.inj hstarts) (by decide)

/-- The other lines of the report show such a line only in the message header. -/
theorem headerShows_of_mem {resp : HsmResponse} {buf line : List Byte} (h : KeyFields resp buf)
    (hline : IsKeyLine line) {piece : List Byte} (hpiece : piece ∈ otherPieces resp buf)
    (hmem : line ∈ piece.splitOn 10) : HeaderShows resp line := by
  rcases aside_or_header h piece hpiece with haside | hheader
  · -- the piece is one line, and starts otherwise
    rw [List.splitOn_eq_singleton (haside.1.not_mem rfl), List.mem_singleton] at hmem
    rw [hmem] at hline
    exact absurd hline.starts haside.2
  · rcases mem_headerPieces.mp hheader with ⟨-, rfl | rfl⟩
    · exact .inl ((hline.mem_front_append (by decide) _).mp hmem)
    · rw [fieldLine, List.append_assoc] at hmem
      exact .inr ((hline.mem_front_append (by decide) _).mp hmem)

/-- And what the message header has among its lines is among those of the report. -/
theorem mem_of_headerShows {resp : HsmResponse} {line : List Byte} (hline : IsKeyLine line)
    (hshows : HeaderShows resp line) (buf : List Byte) :
    ∃ piece ∈ reportHead resp buf ++ breakdownHead resp, line ∈ piece.splitOn 10 := by
  have hpos : 0 < resp.header.length := by
    rw [List.length_pos_iff]
    intro hnil
    rw [HeaderShows, hnil] at hshows
    rcases hshows with h | h <;> cases h
  rcases hshows with h | h
  · refine ⟨str "Message Header    : " ++ cstr resp.header, List.mem_append_left _ ?_, ?_⟩
    · simp [reportHead, hpos]
    · exact (hline.mem_front_append (by decide) _).mpr h
  · refine ⟨fieldLine (str "Message Header...........") (cstr resp.header), List.mem_append_right _ ?_, ?_⟩
    · simp [breakdownHead, hpos]
    · rw [fieldLine, List.append_assoc]
      exact (hline.mem_front_append (by decide) _).mpr h

/-! ### A key block, reported -/

/-- The lines about a key block of `n` bytes. -/
def blockPieces (payload : List Byte) (n : ℕ) : List (List Byte) :=
  keyBlockLine (payload.take n) :: if n < payload.length then [checkValueLine (payload.drop n)] else []

theorem atoi_digits {digits : List Byte} (h : ∀ c ∈ digits, isdigit c = true) :
    atoi digits = (decimalValue digits : ℤ) := by
  have hspace : ∀ c : Byte, isdigit c = true → isspace c = false :=
    Hex.forall_byte (p := fun c => isdigit c = true → isspace c = false) (by decide +kernel)
  have hsign : ∀ c : Byte, isdigit c = true → c ≠ 45 ∧ c ≠ 43 :=
    Hex.forall_byte (p := fun c => isdigit c = true → c ≠ 45 ∧ c ≠ 43) (by decide +kernel)
  have hvalue : ∀ (digits : List Byte) (n : ℕ),
      digits.foldl (fun (m : ℤ) c => m * 10 + (c.toNat - 48 : ℕ)) n =
        (digits.foldl (fun m c => m * 10 + (c.toNat - 48)) n : ℕ) := by
    intro digits
    induction digits with
    | nil => intro n; rfl
    | cons c digits ih =>
      intro n
      rw [List.foldl_cons, List.foldl_cons, ← ih]
      push_cast
      rfl
  have htake : digits.takeWhile isdigit = digits := List.takeWhile_eq_self_iff.mpr h
  cases digits with
  | nil => rfl
  | cons c digits =>
    have hc := h c List.mem_cons_self
    rw [atoi, List.dropWhile_cons, if_neg (by rw [hspace c hc]; exact Bool.false_ne_true)]
    dsimp only
    split
    · rename_i heq
      exact absurd (List.cons.inj heq).1 (hsign c hc).1
    · rename_i heq
      exact absurd (List.cons.inj heq).1 (hsign c hc).2
    · rw [htake]
      exact hvalue (c :: digits) 0

/-- The length a key block says it has, when the payload is that long. -/
theorem blockKeyLen_digits {digits rest : List Byte} (hlen : digits.length = 4)
    (hdigits : ∀ c ∈ digits, isdigit c = true) (hpos : 0 < decimalValue digits)
    (hle : decimalValue digits ≤ (83 :: digits ++ rest).length) (hsmall : (83 :: digits ++ rest).length < 2 ^ 64) :
    blockKeyLen (83 :: digits ++ rest) = decimalValue digits := by
  have htake : ((83 :: digits ++ rest).drop 1).take 4 = digits := by
    rw [List.cons_append, List.drop_one, List.tail_cons, ← hlen, List.take_left]
  have hnul : cstr digits = digits := by
    refine List.takeWhile_eq_self_iff.mpr fun c hc => ?_
    have hdigit := hdigits c hc
    simp only [decide_eq_true_eq]
    rintro rfl
    exact absurd hdigit (by decide)
  have hfive : 5 ≤ (83 :: digits ++ rest).length := by
    rw [List.length_append, List.length_cons, hlen]
    omega
  have hsize : sizeOfInt (decimalValue digits : ℤ) = decimalValue digits := by
    rw [sizeOfInt, Int.emod_eq_of_lt (by omega) (by omega), Int.toNat_natCast]
  rw [blockKeyLen, htake, hnul, atoi_digits hdigits, hsize, if_pos hfive]
  exact if_neg (by omega)

section Report

variable {buf : List Byte} {headerLen : ℕ} {resp : HsmResponse} {digits rest : List Byte}

/-- What is assumed of the packet: a successful `A1` response with a key block for a payload, which
says in four digits how long it is. -/
structure IsBlockResponse (buf : List Byte) (headerLen : ℕ) (resp : HsmResponse) (digits rest : List Byte) :
    Prop where
  response : IsKeyResponse buf headerLen resp
  frame_le : buf.length ≤ 65537
  payload_eq : resp.payloadBytes buf = 83 :: digits ++ rest
  printable : Printable (resp.payloadBytes buf)
  digits_len : digits.length = 4
  digits_all : ∀ c ∈ digits, isdigit c = true
  block_ge : 5 ≤ decimalValue digits
  block_le : decimalValue digits ≤ (resp.payloadBytes buf).length

/-- The lines about the payload are those of a key block of the length it says. -/
theorem generateKeyLines_block (h : IsBlockResponse buf headerLen resp digits rest) :
    (generateKeyLines (resp.payloadBytes buf)).flatten =
      unlines 10 (blockPieces (resp.payloadBytes buf) (decimalValue digits)) := by
  have hpayload := h.payload_eq
  have hle := h.block_le
  have hsmall : (resp.payloadBytes buf).length < 2 ^ 64 :=
    (h.response.fields.payloadLen_eq.trans_le h.response.fields.payloadLen_le).trans_lt
      (h.frame_le.trans_lt (by decide))
  rw [hpayload] at hle hsmall
  have hlen := blockKeyLen_digits h.digits_len h.digits_all (lt_of_lt_of_le (by decide) h.block_ge) hle hsmall
  have hline : ∀ label text : List Byte, breakdownLine label text = fieldLine label text ++ [10] := by
    intro label text
    simp only [breakdownLine, fieldLine, List.append_assoc]
    rfl
  have hcstr : ∀ text, Printable text → cstr text = text := fun text => cstr_of_isprint
  have hprint := h.printable
  rw [hpayload] at hprint
  have hkey : cstr ((83 :: digits ++ rest).take (decimalValue digits)) =
      (83 :: digits ++ rest).take (decimalValue digits) :=
    hcstr _ fun c hc => hprint c (List.mem_of_mem_take hc)
  have hkcv : cstr ((83 :: digits ++ rest).drop (decimalValue digits)) =
      (83 :: digits ++ rest).drop (decimalValue digits) :=
    hcstr _ fun c hc => hprint c (List.mem_of_mem_drop hc)
  rw [hpayload, List.cons_append, generateKeyLines, if_pos rfl, ← List.cons_append, hlen, keyLines, hkey, hkcv,
    blockPieces]
  split_ifs with hlt <;>
    simp [hline, keyBlockLine, checkValueLine]

/-- The breakdown, before it is cut. -/
theorem breakdownLines_block (h : IsBlockResponse buf headerLen resp digits rest) :
    (breakdownLines resp (resp.payloadBytes buf)).flatten =
      unlines 10 (breakdownHead resp ++ blockPieces (resp.payloadBytes buf) (decimalValue digits)) := by
  have hempty : (breakdownLines resp []).flatten = unlines 10 (breakdownHead resp) := by
    have hfields := h.response.fields
    have hsplit : ∀ (p : Prop) [Decidable p] (a b : List (List Byte)),
        unlines 10 (if p then a else b) = if p then unlines 10 a else unlines 10 b :=
      fun p _ a b => apply_ite (unlines 10) p a b
    have htitle : str "DETAILED FIELD BREAKDOWN:\n" = str "DETAILED FIELD BREAKDOWN:" ++ [10] := rfl
    have hbytes : str " Bytes\n" = str " Bytes" ++ [10] := rfl
    have hnewline : str "\n" = [10] := rfl
    have hbracket : str "]\n" = [93, 10] := rfl
    simp only [breakdownLines, breakdownHead, hfields.success, hfields.code, if_true, generateKeyLines, unlines_append,
      unlines_cons, unlines_nil, List.flatten_append, List.flatten_cons, List.flatten_nil, apply_ite List.flatten,
      hsplit, htitle, hbytes, hnewline, hbracket, breakdownLine, fieldLine, List.append_assoc, List.cons_append,
      List.nil_append, List.append_nil]
  rw [breakdownLines_key h.response.success h.response.generated, List.flatten_append, hempty,
    generateKeyLines_block h, unlines_append]

/-- The lines about the payload are such lines. -/
theorem isKeyLine_block (h : IsBlockResponse buf headerLen resp digits rest) :
    IsKeyLine (keyBlockLine ((resp.payloadBytes buf).take (decimalValue digits))) ∧
      IsKeyLine (checkValueLine ((resp.payloadBytes buf).drop (decimalValue digits))) :=
  ⟨isKeyLine_fieldLine (by decide) (by decide) fun c hc => h.printable c (List.mem_of_mem_take hc),
    isKeyLine_fieldLine (by decide) (by decide) fun c hc => h.printable c (List.mem_of_mem_drop hc)⟩

theorem mem_blockPieces {payload line : List Byte} {n : ℕ} (hmem : line ∈ blockPieces payload n) :
    line = keyBlockLine (payload.take n) ∨ line = checkValueLine (payload.drop n) := by
  rw [blockPieces, List.mem_cons] at hmem
  rcases hmem with hkey | hkcv
  · exact .inl hkey
  · split_ifs at hkcv
    · exact .inr (List.mem_singleton.mp hkcv)
    · exact absurd hkcv List.not_mem_nil

/-- There is no NUL in the breakdown, so that none of it is lost in reading it back. -/
theorem nul_not_mem_breakdown (h : IsBlockResponse buf headerLen resp digits rest) :
    0 ∉ (breakdownLines resp (resp.payloadBytes buf)).flatten := by
  rw [breakdownLines_block h, unlines, List.mem_flatMap]
  rintro ⟨piece, hpiece, hmem⟩
  have hpiece0 : 0 ∈ piece := by
    rcases List.mem_append.mp hmem with hmem | hmem
    · exact hmem
    · exact absurd hmem (by decide)
  rcases List.mem_append.mp hpiece with hhead | hblock
  · have hother : piece ∈ otherPieces resp buf := List.mem_append_left _ (List.mem_append_right _ hhead)
    rcases aside_or_header h.response.fields piece hother with haside | hheader
    · exact haside.1.not_mem rfl hpiece0
    · have hcstr := nul_not_mem_cstr resp.header
      rcases mem_headerPieces.mp hheader with ⟨-, rfl | rfl⟩
      · rcases List.mem_append.mp hpiece0 with h0 | h0
        · exact absurd h0 (by decide)
        · exact hcstr h0
      · simp only [fieldLine, List.mem_append, hcstr, or_false] at hpiece0
        exact absurd hpiece0 (by decide)
  · obtain ⟨hkey, hkcv⟩ := isKeyLine_block h
    rcases mem_blockPieces hblock with rfl | rfl
    · exact hkey.printable.not_mem rfl hpiece0
    · exact hkcv.printable.not_mem rfl hpiece0

/-- The report, the breakdown in it cut to 1023 bytes and nothing else lost. -/
theorem report_eq (h : IsBlockResponse buf headerLen resp digits rest) :
    hsmFormatAnalysis resp buf 4096 =
      unlines 10 (reportHead resp buf) ++
        (unlines 10 (breakdownHead resp ++ blockPieces (resp.payloadBytes buf) (decimalValue digits))).take 1023 ++
        unlines 10 (List.replicate 70 45 :: reportFoot resp (resp.payloadBytes buf)) := by
  have hbreakdown := hsmBreakdown_eq (nul_not_mem_breakdown h)
  have hlen := length_reportText h.response.fields h.frame_le (by rw [hbreakdown]; exact List.length_take_le _ _)
  rw [hsmFormatAnalysis_eq, List.take_of_length_le hlen, reportText, hbreakdown, breakdownLines_block h]

/-- A breakdown that fits is shown with all its lines. -/
theorem shown_whole (h : IsBlockResponse buf headerLen resp digits rest)
    (hfits : (unlines 10 (breakdownHead resp ++
      blockPieces (resp.payloadBytes buf) (decimalValue digits))).length ≤ 1023)
    {line : List Byte} (hline : line ∈ blockPieces (resp.payloadBytes buf) (decimalValue digits)) :
    line ∈ completeLines 10 (hsmFormatAnalysis resp buf 4096) := by
  have hprint : Printable line := by
    obtain ⟨hkey, hkcv⟩ := isKeyLine_block h
    rcases mem_blockPieces hline with rfl | rfl
    · exact hkey.printable
    · exact hkcv.printable
  rw [report_eq h, List.take_of_length_le hfits, ← unlines_append, ← unlines_append, mem_completeLines_unlines]
  refine ⟨line, List.mem_append_left _ (List.mem_append_right _ (List.mem_append_right _ hline)), ?_⟩
  rw [List.splitOn_eq_singleton (hprint.not_mem rfl)]
  exact List.mem_singleton_self line

/-- A breakdown cut in one of its lines is shown with the lines in front of that: what is left of
the line runs into the rule below. -/
theorem shown_cut (h : IsBlockResponse buf headerLen resp digits rest) {front behind : List (List Byte)}
    {piece line : List Byte}
    (hpieces : breakdownHead resp ++ blockPieces (resp.payloadBytes buf) (decimalValue digits) =
      front ++ piece :: behind)
    (hle : (unlines 10 front).length ≤ 1023) (hlt : 1023 ≤ (unlines 10 front).length + piece.length)
    (hpiece : Printable piece) (hline : IsKeyLine line) :
    line ∈ completeLines 10 (hsmFormatAnalysis resp buf 4096) ↔
      ∃ shown ∈ reportHead resp buf ++ front ++ reportFoot resp (resp.payloadBytes buf), line ∈ shown.splitOn 10 := by
  -- what is left of the line, and the rule behind it
  generalize hm : 1023 - (unlines 10 front).length = m
  have hglued : unlines 10 (reportHead resp buf) ++ (unlines 10 front ++ piece.take m) ++
      unlines 10 (List.replicate 70 45 :: reportFoot resp (resp.payloadBytes buf)) =
      unlines 10 (reportHead resp buf ++ front ++
        (piece.take m ++ List.replicate 70 45) :: reportFoot resp (resp.payloadBytes buf)) := by
    simp only [unlines_append, unlines_cons, List.append_assoc]
  have hrest : line ∉ (piece.take m ++ List.replicate 70 45).splitOn 10 := by
    have hprint : Printable (piece.take m ++ List.replicate 70 45) := by
      refine printable_append.mpr ⟨fun c hc => hpiece c (List.mem_of_mem_take hc), fun c hc => ?_⟩
      rw [List.eq_of_mem_replicate hc]
      rfl
    rw [List.splitOn_eq_singleton (hprint.not_mem rfl), List.mem_singleton]
    rintro rfl
    have hends := hline.ends
    rw [List.getLast?_append, List.replicate_succ', List.getLast?_concat, Option.some_or] at hends
    exact absurd (Option.some.inj hends) (by decide)
  rw [report_eq h, hpieces, take_unlines 10 hle hlt, hm, hglued, mem_completeLines_unlines]
  constructor
  · rintro ⟨shown, hmem, hsplit⟩
    rw [List.mem_append, List.mem_cons] at hmem
    rcases hmem with hmem | rfl | hmem
    · exact ⟨shown, List.mem_append_left _ hmem, hsplit⟩
    · exact absurd hsplit hrest
    · exact ⟨shown, List.mem_append_right _ hmem, hsplit⟩
  · rintro ⟨shown, hmem, hsplit⟩
    refine ⟨shown, ?_, hsplit⟩
    rw [List.mem_append, List.mem_cons]
    rcases List.mem_append.mp hmem with hmem | hmem
    · exact .inl hmem
    · exact .inr (.inr hmem)

/-- The report shows the first `n` bytes of the payload as the key block and the others, if there
are any, as its check value. -/
def BlockReported (resp : HsmResponse) (buf : List Byte) (n : ℕ) : Prop :=
  keyBlockLine ((resp.payloadBytes buf).take n) ∈ completeLines 10 (hsmFormatAnalysis resp buf 4096) ∧
    (n < (resp.payloadBytes buf).length →
      checkValueLine ((resp.payloadBytes buf).drop n) ∈ completeLines 10 (hsmFormatAnalysis resp buf 4096))

theorem length_headerShows {resp : HsmResponse} {line : List Byte} (hheader : resp.header.length ≤ 63)
    (hshows : HeaderShows resp line) : line.length ≤ 64 := by
  have hcstr : (cstr resp.header).length ≤ 63 := (List.takeWhile_prefix _).length_le.trans hheader
  rcases hshows with h | h
  · have := length_le_of_mem_splitOn 10 (List.mem_of_mem_tail h)
    omega
  · have := length_le_of_mem_splitOn 10 (List.mem_of_mem_tail h)
    rw [List.length_append, List.length_singleton] at this
    omega

/-- How long the breakdown is, its last line included. -/
theorem length_breakdown (h : IsBlockResponse buf headerLen resp digits rest) :
    (unlines 10 (breakdownHead resp ++ blockPieces (resp.payloadBytes buf) (decimalValue digits))).length =
      breakdownUsed resp + 31 + (resp.payloadBytes buf).length +
        if decimalValue digits < (resp.payloadBytes buf).length then 31 else 0 := by
  have hle := h.block_le
  rw [unlines_append, List.length_append, length_breakdownHead h.response.fields, blockPieces, keyBlockLine,
    checkValueLine]
  split_ifs with hlt
  · simp only [unlines_cons, unlines_nil, List.length_append, List.length_cons, List.length_nil,
      length_fieldLine _ _ (rfl : (str "Key Block (TR-31)........").length = 25),
      length_fieldLine _ _ (rfl : (str "Key Check Value (KCV)....").length = 25), List.length_take_of_le hle,
      List.length_drop]
    omega
  · simp only [unlines_cons, unlines_nil, List.length_append, List.length_cons, List.length_nil,
      length_fieldLine _ _ (rfl : (str "Key Block (TR-31)........").length = 25), List.length_take_of_le hle]
    omega

/-- The breakdown fits. -/
theorem blockReported_of_fits (h : IsBlockResponse buf headerLen resp digits rest)
    (hfits : (unlines 10 (breakdownHead resp ++
      blockPieces (resp.payloadBytes buf) (decimalValue digits))).length ≤ 1023) :
    BlockReported resp buf (decimalValue digits) := by
  constructor
  · exact shown_whole h hfits List.mem_cons_self
  · intro hlt
    refine shown_whole h hfits (List.mem_cons_of_mem _ ?_)
    rw [if_pos hlt]
    exact List.mem_singleton_self _

/-- The two lines have different names. -/
theorem checkValueLine_ne (kcv block : List Byte) : checkValueLine kcv ≠ keyBlockLine block := by
  intro h
  have hC : (checkValueLine kcv)[4]? = some 67 := rfl
  have hB : (keyBlockLine block)[4]? = some 66 := rfl
  rw [h, hB] at hC
  exact absurd (Option.some.inj hC) (by decide)

/-- The line of the key fits, that of the check value does not. -/
theorem blockReported_of_kcv_cut (h : IsBlockResponse buf headerLen resp digits rest)
    (hlt : decimalValue digits < (resp.payloadBytes buf).length)
    (hkey : breakdownUsed resp + 31 + decimalValue digits ≤ 1023)
    (hcut : 1023 < breakdownUsed resp + 31 + (resp.payloadBytes buf).length + 31) :
    BlockReported resp buf (decimalValue digits) ↔
      HeaderShows resp (checkValueLine ((resp.payloadBytes buf).drop (decimalValue digits))) := by
  have hfields := h.response.fields
  obtain ⟨hkeyLine, hkcvLine⟩ := isKeyLine_block h
  have hpieces : breakdownHead resp ++ blockPieces (resp.payloadBytes buf) (decimalValue digits) =
      (breakdownHead resp ++ [keyBlockLine ((resp.payloadBytes buf).take (decimalValue digits))]) ++
        [checkValueLine ((resp.payloadBytes buf).drop (decimalValue digits))] := by
    rw [blockPieces, if_pos hlt, List.append_assoc, List.singleton_append]
  have hfront : (unlines 10 (breakdownHead resp ++
      [keyBlockLine ((resp.payloadBytes buf).take (decimalValue digits))])).length =
      breakdownUsed resp + 31 + decimalValue digits := by
    rw [unlines_append, List.length_append, length_breakdownHead hfields, unlines_cons, unlines_nil, keyBlockLine,
      List.length_append, length_fieldLine _ _ rfl, List.length_take_of_le hlt.le, List.length_singleton]
    omega
  have hkcvLen : (checkValueLine ((resp.payloadBytes buf).drop (decimalValue digits))).length =
      30 + ((resp.payloadBytes buf).length - decimalValue digits) := by
    rw [checkValueLine, length_fieldLine _ _ rfl, List.length_drop]
  have hshown := fun (line : List Byte) (hline : IsKeyLine line) =>
    shown_cut h hpieces (by omega) (by omega) hkcvLine.printable hline
  have hkeyMem : keyBlockLine ((resp.payloadBytes buf).take (decimalValue digits)) ∈
      completeLines 10 (hsmFormatAnalysis resp buf 4096) := by
    refine (hshown _ hkeyLine).mpr ⟨keyBlockLine ((resp.payloadBytes buf).take (decimalValue digits)), by simp, ?_⟩
    rw [List.splitOn_eq_singleton (hkeyLine.printable.not_mem rfl)]
    exact List.mem_singleton_self _
  constructor
  · intro hreported
    obtain ⟨piece, hpiece, hmem⟩ := (hshown _ hkcvLine).mp (hreported.2 hlt)
    rcases List.mem_append.mp hpiece with hpiece | hfoot
    · rw [List.mem_append, List.mem_append, List.mem_singleton, ← or_assoc, ← List.mem_append] at hpiece
      rcases hpiece with hother | rfl
      · exact headerShows_of_mem hfields hkcvLine (List.mem_append_left _ hother) hmem
      · -- the line of the key has another name
        rw [List.splitOn_eq_singleton (hkeyLine.printable.not_mem rfl), List.mem_singleton] at hmem
        exact absurd hmem (checkValueLine_ne _ _)
    · exact headerShows_of_mem hfields hkcvLine (List.mem_append_right _ (List.mem_cons_of_mem _ hfoot)) hmem
  · intro hshows
    obtain ⟨piece, hpiece, hmem⟩ := mem_of_headerShows hkcvLine hshows buf
    refine ⟨hkeyMem, fun _ => (hshown _ hkcvLine).mpr ⟨piece, List.mem_append_left _ ?_, hmem⟩⟩
    rw [List.mem_append, List.mem_append, ← or_assoc, ← List.mem_append]
    exact .inl hpiece

/-- Not even the line of the key fits. -/
theorem not_blockReported_of_key_cut (h : IsBlockResponse buf headerLen resp digits rest)
    (hcut : 1023 < breakdownUsed resp + 31 + decimalValue digits) :
    ¬ BlockReported resp buf (decimalValue digits) := by
  have hfields := h.response.fields
  have hused := breakdownUsed_le hfields
  obtain ⟨hkeyLine, -⟩ := isKeyLine_block h
  have hkeyLen : (keyBlockLine ((resp.payloadBytes buf).take (decimalValue digits))).length =
      30 + decimalValue digits := by
    rw [keyBlockLine, length_fieldLine _ _ rfl, List.length_take_of_le h.block_le]
  have hfront := length_breakdownHead hfields
  have hpieces : breakdownHead resp ++ blockPieces (resp.payloadBytes buf) (decimalValue digits) =
      breakdownHead resp ++ keyBlockLine ((resp.payloadBytes buf).take (decimalValue digits)) :: _ := rfl
  rintro ⟨hkey, -⟩
  rw [shown_cut h hpieces (by omega) (by omega) hkeyLine.printable hkeyLine] at hkey
  obtain ⟨piece, hpiece, hmem⟩ := hkey
  have hother : piece ∈ otherPieces resp buf := by
    rw [otherPieces, List.mem_append, List.mem_cons]
    rcases List.mem_append.mp hpiece with hpiece | hpiece
    · exact .inl hpiece
    · exact .inr (.inr hpiece)
  -- the message header is too short to hold that line
  have hshort := length_headerShows hfields.header_le (headerShows_of_mem hfields hkeyLine hother hmem)
  omega

/-- **A key block is reported in full as long as the breakdown has at most 1023 bytes**; beyond that
the key is cut, or the check value is, unless the message header happens to show the same line. -/
theorem keyBlock_reported_iff (h : IsBlockResponse buf headerLen resp digits rest) :
    BlockReported resp buf (decimalValue digits) ↔
      breakdownUsed resp + 31 + (resp.payloadBytes buf).length +
          (if decimalValue digits < (resp.payloadBytes buf).length then 31 else 0) ≤ 1023 ∨
        (decimalValue digits < (resp.payloadBytes buf).length ∧
          breakdownUsed resp + 31 + decimalValue digits ≤ 1023 ∧
          HeaderShows resp (checkValueLine ((resp.payloadBytes buf).drop (decimalValue digits)))) := by
  have hlen := length_breakdown h
  have hle := h.block_le
  rw [← hlen]
  by_cases hfits : (unlines 10 (breakdownHead resp ++
      blockPieces (resp.payloadBytes buf) (decimalValue digits))).length ≤ 1023
  · exact iff_of_true (blockReported_of_fits h hfits) (.inl hfits)
  · rw [or_iff_right hfits]
    rw [hlen] at hfits
    by_cases hkey : breakdownUsed resp + 31 + decimalValue digits ≤ 1023
    · have hlt : decimalValue digits < (resp.payloadBytes buf).length := by
        split_ifs at hfits with hlt
        · exact hlt
        · omega
      rw [if_pos hlt] at hfits
      rw [blockReported_of_kcv_cut h hlt hkey (not_le.mp hfits)]
      exact ⟨fun hshows => ⟨hlt, hkey, hshows⟩, fun hshows => hshows.2.2⟩
    · exact iff_of_false (not_blockReported_of_key_cut h (not_le.mp hkey)) fun hshows => hkey hshows.2.1

end Report

/-- A packet without length field and header, with a key block for a payload. -/
theorem isBlockResponse_plain (digits rest : List Byte) (hdigits : digits.length = 4)
    (hall : ∀ c ∈ digits, isdigit c = true) (hprint : Printable rest) (hge : 5 ≤ decimalValue digits)
    (hle : decimalValue digits ≤ (83 :: digits ++ rest).length) (hshort : (83 :: digits ++ rest).length ≤ 10000) :
    ∃ resp, IsBlockResponse (str "A100" ++ (83 :: digits ++ rest)) 0 resp digits rest ∧ resp.hasTcpLen = false ∧
      resp.header = [] := by
  have hdigit : ∀ c : Byte, isdigit c = true → isprint c = true :=
    Hex.forall_byte (p := fun c => isdigit c = true → isprint c = true) (by decide +kernel)
  have hpayload : Printable (83 :: digits ++ rest) := by
    rw [List.cons_append]
    refine List.forall_mem_cons.mpr ⟨by decide, printable_append.mpr ⟨fun c hc => hdigit c (hall c hc), hprint⟩⟩
  have hbuf : str "A100" ++ (83 :: digits ++ rest) =
      tcpField none ++ ([] ++ (str "A1" ++ (str "00" ++ ((83 :: digits ++ rest) ++ delimited none)))) := by
    rw [delimited, List.append_nil]
    rfl
  have hfront : (str "A100" ++ (83 :: digits ++ rest)) = 65 :: 49 :: (str "00" ++ (83 :: digits ++ rest)) := rfl
  have htcp : hsmTcpLen (str "A100" ++ (83 :: digits ++ rest)) = none := by
    have hlen : (str "00" ++ (83 :: digits ++ rest)).length ≤ 10002 := by
      rw [List.length_append]
      exact Nat.add_comm 2 _ ▸ Nat.add_le_add_right hshort 2
    have hvalue : be16 65 49 = 16689 := rfl
    rw [hfront, hsmTcpLen, hvalue, if_neg (by omega)]
  have hparsed : hsmParseResponse (str "A100" ++ (83 :: digits ++ rest)) 0 = some (hsmFields none [] (str "A1")
      (str "00") (83 :: digits ++ rest) none ((tcpField none).length + ([] : List Byte).length + 4)) := by
    rw [hbuf] at htcp ⊢
    exact hsmParseResponse_fields rfl rfl (hpayload.not_mem rfl) htcp (.inl rfl)
  have hbytes : (hsmFields none [] (str "A1") (str "00") (83 :: digits ++ rest) none
      ((tcpField none).length + ([] : List Byte).length + 4)).payloadBytes (str "A100" ++ (83 :: digits ++ rest)) =
        83 :: digits ++ rest := by
    rw [hbuf]
    exact payloadBytes_hsmFields none rfl rfl
  refine ⟨_, ⟨⟨hparsed, rfl, rfl⟩, ?_, hbytes, by rwa [hbytes], hdigits, hall, hge, by rwa [hbytes]⟩, rfl, rfl⟩
  have hfour : (str "A100").length = 4 := rfl
  rw [List.length_append, hfour]
  omega

/-- A key block of eight bytes and a check value of three are reported. -/
theorem keyBlock_reported_short :
    ∃ resp, resp.payloadBytes (str "A100S0008ABCXYZ") = str "S0008ABCXYZ" ∧
      BlockReported resp (str "A100S0008ABCXYZ") 8 := by
  obtain ⟨resp, h, htcp, hheader⟩ := isBlockResponse_plain (str "0008") (str "ABCXYZ") rfl
    (by decide +kernel) (by decide +kernel) (by decide) (by decide) (by decide)
  have hused : breakdownUsed resp = 125 := by
    rw [breakdownUsed, htcp, hheader]
    rfl
  have hlen : (resp.payloadBytes (str "A100" ++ (83 :: str "0008" ++ str "ABCXYZ"))).length = 11 := by
    rw [h.payload_eq]
    rfl
  refine ⟨resp, h.payload_eq, (keyBlock_reported_iff h).mpr (.inl ?_)⟩
  rw [hused, hlen]
  decide

/-- Behind a key block of 850 bytes there is no room for a check value. -/
theorem keyBlock_850_not_reported :
    ∃ resp, IsBlockResponse (str "A100" ++ (83 :: str "0850" ++ (List.replicate 845 65 ++ str "A1B2C3"))) 0 resp
        (str "0850") (List.replicate 845 65 ++ str "A1B2C3") ∧
      ¬ BlockReported resp (str "A100" ++ (83 :: str "0850" ++ (List.replicate 845 65 ++ str "A1B2C3"))) 850 := by
  have hprint : Printable (List.replicate 845 65 ++ str "A1B2C3") :=
    printable_append.mpr ⟨fun c hc => List.eq_of_mem_replicate hc ▸ rfl, by decide⟩
  have hlen : (83 :: str "0850" ++ (List.replicate 845 (65 : Byte) ++ str "A1B2C3")).length = 856 := by
    rw [List.length_append, List.length_append, List.length_replicate]
    rfl
  obtain ⟨resp, h, htcp, hheader⟩ := isBlockResponse_plain (str "0850") _ rfl (by decide +kernel) hprint (by decide)
    (by rw [hlen]; decide) (by rw [hlen]; decide)
  have hused : breakdownUsed resp = 125 := by
    rw [breakdownUsed, htcp, hheader]
    rfl
  have hvalue : decimalValue (str "0850") = 850 := by decide
  have hpayload := congrArg List.length h.payload_eq
  rw [hlen] at hpayload
  refine ⟨resp, h, ?_⟩
  rw [← hvalue, blockReported_of_kcv_cut h (by omega) (by omega) (by omega), HeaderShows, hheader]
  rintro (hshows | hshows) <;> cases hshows

end TcpClient
