import TcpClient.Compat
import TcpClient.Lib.Frame
import Mathlib.Data.List.TakeWhile

/-!
# The HSM response parser

`hsm_decoder.c` up to `hsm_parse_response`: the tables of response and error codes,
and the parser that takes a packet apart into an optional length field, a message
header, two codes, a payload and what follows the delimiter `0x19`.

`hsmParseResponse_layout` says once what an accepted packet looks like; the packet
rebuilt from the decoded fields is the packet decoded, and a packet built from
fields is decoded into them (`hsmParseResponse_inverse`).
-/

namespace TcpClient

open TcpClient.Frame

/-- `ERROR_TABLE`. -/
def errorTable : List (List Byte × List Byte) :=
  [(str "00", str "No error"),
   (str "01", str "Verification failure (PIN/CVV/MAC)"),
   (str "02", str "Key inappropriate length / Hash validation failure"),
   (str "03", str "Invalid message type / Secret key / Zero PIN block"),
   (str "04", str "Invalid key type code / Public key encoding error"),
   (str "05", str "Invalid key length flag / Hash ID / Odd input pairs"),
   (str "06", str "Invalid signature ID / Public key algorithm ID"),
   (str "07", str "Public exponent length error / Key length mismatch"),
   (str "08", str "Invalid public exponent"),
   (str "09", str "Secret key error"),
   (str "10", str "Source key parity error (ZMK, TPK, BDK)"),
   (str "11", str "Destination key parity error or key all zeros"),
   (str "12", str "User storage not available"),
   (str "13", str "Invalid LMK Identifier"),
   (str "14", str "PIN encrypted under LMK pair 02-03 invalid"),
   (str "15", str "Invalid input data format / Missing delimiter"),
   (str "16", str "Console or printer not ready"),
   (str "17", str "HSM not authorized or operation prohibited"),
   (str "18", str "Document format definition not loaded"),
   (str "19", str "Specified Diebold table invalid"),
   (str "20", str "PIN block does not contain valid values"),
   (str "21", str "Invalid index value or overflow"),
   (str "22", str "Invalid account number"),
   (str "23", str "Invalid PIN block format code / PCI HSM limitation"),
   (str "24", str "PIN is fewer than 4 or more than 12 digits"),
   (str "25", str "Decimalization Table error"),
   (str "26", str "Invalid key scheme indicator"),
   (str "27", str "Incompatible key length"),
   (str "28", str "Invalid key type"),
   (str "29", str "Key function not permitted / Key separation violation"),
   (str "30", str "Invalid reference number"),
   (str "31", str "Insufficient solicitation entries for batch"),
   (str "32", str "AES not licensed"),
   (str "33", str "LMK key change storage corrupted"),
   (str "40", str "Invalid firmware checksum"),
   (str "41", str "Internal hardware/software error"),
   (str "42", str "DES failure"),
   (str "43", str "RSA Key Generation failure"),
   (str "47", str "Hardware failure"),
   (str "51", str "Invalid message header"),
   (str "65", str "Transaction Key Scheme set to None"),
   (str "67", str "Command not licensed"),
   (str "68", str "Command disabled in security settings"),
   (str "69", str "PIN block format disabled"),
   (str "80", str "Data length error"),
   (str "A1", str "Incompatible LMK schemes"),
   (str "A2", str "Incompatible LMK identifiers"),
   (str "A3", str "Incompatible key block LMK identifiers"),
   (str "A4", str "Key block authentication failure"),
   (str "A5", str "Incompatible key length in Key Block"),
   (str "A6", str "TR-31: Invalid key usage attribute"),
   (str "A7", str "TR-31: Invalid algorithm attribute"),
   (str "A8", str "TR-31: Invalid mode of use attribute"),
   (str "A9", str "TR-31: Invalid key version number"),
   (str "AA", str "TR-31: Invalid export field"),
   (str "AB", str "TR-31: Invalid number of optional blocks"),
   (str "BB", str "TR-31: Invalid wrapping key (ZMK)"),
   (str "BC", str "TR-31: Repeated optional block")]

/-- The response codes `hsm_lookup_command_name` knows. -/
def commandTable : List (List Byte × List Byte) :=
  [(str "A1", str "Generate a Key Response"),
   (str "ND", str "Diagnostics Response"),
   (str "CC", str "Generate MAC Response"),
   (str "EF", str "Translate PIN Block Response"),
   (str "FB", str "Generate CVV Response"),
   (str "DH", str "Generate Dynamic CVV Response"),
   (str "CB", str "Cancel Command Response"),
   (str "BV", str "Generate RSA Key Pair Response"),
   (str "N1", str "Generate HMK Key Response")]

/-- `hsm_lookup_command_name`. -/
def hsmLookupCommandName (responseCode : List Byte) : List Byte :=
  match commandTable.find? fun entry => entry.1 == responseCode with
  | some entry => entry.2
  | none => str "Unknown Response Code"

/-- `hsm_lookup_error_code`. -/
def hsmLookupErrorCode (errorCode : List Byte) : List Byte :=
  match errorTable.find? fun entry => entry.1 == errorCode with
  | some entry => entry.2
  | none => str "Unrecognized HSM Error Code"

/-- `hsm_response_t`. The character arrays are the bytes copied into them, without the
terminator; `header_len` and `trailer_len` are their lengths. -/
structure HsmResponse where
  tcpLen : ℕ
  hasTcpLen : Bool
  header : List Byte
  responseCode : List Byte
  responseName : List Byte
  errorCode : List Byte
  errorDescription : List Byte
  isSuccess : Bool
  /-- Where in the buffer `payload` points; `none` for the null pointer. -/
  payload : Option ℕ
  payloadLen : ℕ
  hasDelimiter : Bool
  trailer : List Byte
  deriving DecidableEq, Repr

/-- `payload[0 .. payload_len)`. -/
def HsmResponse.payloadBytes (resp : HsmResponse) (buf : List Byte) : List Byte :=
  match resp.payload with
  | some pos => (buf.drop pos).take resp.payloadLen
  | none => []

/-- `sizeof(resp->header) - 1`, and the same of `trailer`. -/
def hsmFieldMax : ℕ := 63

/-- The end message delimiter. -/
def hsmDelimiter : Byte := 0x19

/-- The length field, when the first two bytes are taken for one. -/
def hsmTcpLen : List Byte → Option ℕ
  | hi :: lo :: rest =>
    let len := rest.length + 2
    if be16 hi lo = len - 2 ∨ (4 < len ∧ be16 hi lo ≤ len) then some (be16 hi lo) else none
  | _ => none

/-- The message header at `pos`, as much of it as is copied, and where the packet goes on. -/
def hsmHeader (buf : List Byte) (headerLen pos : ℕ) : List Byte × ℕ :=
  if 0 < headerLen ∧ headerLen ≤ buf.length - pos then
    ((buf.drop pos).take (min headerLen hsmFieldMax), pos + headerLen)
  else ([], pos)

/-- `hsm_parse_response(buf, len, header_len, resp)`; `none` when it returns `-1`. -/
def hsmParseResponse (buf : List Byte) (headerLen : ℕ) : Option HsmResponse :=
  let tcpLen := hsmTcpLen buf
  let (header, pos) := hsmHeader buf headerLen (if tcpLen.isSome then 2 else 0)
  match buf.drop pos with
  | r₀ :: r₁ :: e₀ :: e₁ :: rest =>
    let delimiter := rest.findIdx? (· == hsmDelimiter)
    some
      { tcpLen := tcpLen.getD 0
        hasTcpLen := tcpLen.isSome
        header := header
        responseCode := [r₀, r₁]
        responseName := hsmLookupCommandName [r₀, r₁]
        errorCode := [e₀, e₁]
        errorDescription := hsmLookupErrorCode [e₀, e₁]
        isSuccess := e₀ == 48 && e₁ == 48
        payload := if rest.isEmpty then none else some (pos + 4)
        payloadLen := delimiter.getD rest.length
        hasDelimiter := delimiter.isSome
        trailer :=
          match delimiter with
          | some i => (rest.drop (i + 1)).take hsmFieldMax
          | none => [] }
  | _ => none

/-! ### The delimiter -/

/-- What follows the payload: nothing, or the delimiter and a trailer. -/
def delimited : Option (List Byte) → List Byte
  | none => []
  | some trailer => hsmDelimiter :: trailer

/-- The delimiter is found where the payload ends. -/
theorem findIdx?_delimited {payload : List Byte} (hp : hsmDelimiter ∉ payload) (delim : Option (List Byte)) :
    (payload ++ delimited delim).findIdx? (· == hsmDelimiter) = delim.map fun _ => payload.length := by
  have hnone : payload.findIdx? (· == hsmDelimiter) = none := by
    rw [List.findIdx?_eq_none_iff]
    intro b hb
    simpa using fun h : b = hsmDelimiter => hp (h ▸ hb)
  rw [List.findIdx?_append, hnone]
  cases delim with
  | none => rfl
  | some trailer => simp [delimited, List.findIdx?_cons]

/-- Every text is a payload without the delimiter, and what follows it. -/
theorem exists_delimited (rest : List Byte) :
    ∃ payload delim, hsmDelimiter ∉ payload ∧ rest = payload ++ delimited delim := by
  refine ⟨rest.takeWhile (· != hsmDelimiter), (rest.dropWhile (· != hsmDelimiter)).tail?, ?_, ?_⟩
  · intro h
    simpa using List.mem_takeWhile_imp h
  · conv_lhs => rw [← List.takeWhile_append_dropWhile (p := (· != hsmDelimiter)) (l := rest)]
    congr 1
    cases hd : rest.dropWhile (· != hsmDelimiter) with
    | nil => rfl
    | cons b trailer =>
      have := List.head_dropWhile_not (· != hsmDelimiter) (l := rest) (by rw [hd]; simp)
      simp only [hd, List.head_cons, bne_eq_false_iff_eq] at this
      rw [this]
      rfl

/-! ### What is accepted, and what is read off it -/

/-- The fields read off a packet with the length field `tcp`, the header `header` and,
behind the codes, `payload` and `delim`; `pos` is where the payload starts. -/
def hsmFields (tcp : Option ℕ) (header code err payload : List Byte) (delim : Option (List Byte)) (pos : ℕ) :
    HsmResponse where
  tcpLen := tcp.getD 0
  hasTcpLen := tcp.isSome
  header := header.take hsmFieldMax
  responseCode := code
  responseName := hsmLookupCommandName code
  errorCode := err
  errorDescription := hsmLookupErrorCode err
  isSuccess := err == str "00"
  payload := if (payload ++ delimited delim).isEmpty then none else some pos
  payloadLen := payload.length
  hasDelimiter := delim.isSome
  trailer := (delim.getD []).take hsmFieldMax

/-- The bytes in front of the header. -/
def tcpField : Option ℕ → List Byte
  | none => []
  | some len => be16Bytes len

theorem length_tcpField (tcp : Option ℕ) : (tcpField tcp).length = if tcp.isSome then 2 else 0 := by
  cases tcp <;> rfl

/-- The header is what stands in front of the region of the codes: of the length asked
for, or missing when there is not that much. -/
theorem hsmHeader_eq {front header region : List Byte} {headerLen : ℕ}
    (hheader : header.length = headerLen ∨ header = [] ∧ region.length < headerLen) :
    hsmHeader (front ++ (header ++ region)) headerLen front.length =
      (header.take hsmFieldMax, front.length + header.length) := by
  rw [hsmHeader, List.drop_left]
  simp only [List.length_append, Nat.add_sub_cancel_left]
  rcases hheader with rfl | ⟨rfl, hshort⟩
  · rcases Nat.eq_zero_or_pos header.length with h0 | hpos
    · rw [List.length_eq_zero_iff.mp h0]
      rfl
    · rw [if_pos ⟨hpos, Nat.le_add_right _ _⟩, Nat.min_comm, ← List.take_take, List.take_left]
  · rw [if_neg (by simp only [List.length_nil]; omega)]
    rfl

/-- Any packet is the length field it is taken to have, a header and a region for the codes. -/
theorem exists_region (buf : List Byte) (headerLen : ℕ) :
    ∃ header region, buf = tcpField (hsmTcpLen buf) ++ (header ++ region) ∧
      (header.length = headerLen ∨ header = [] ∧ region.length < headerLen) := by
  obtain ⟨body, hbody⟩ : ∃ body, buf = tcpField (hsmTcpLen buf) ++ body := by
    rcases buf with _ | ⟨hi, _ | ⟨lo, rest⟩⟩
    · exact ⟨[], rfl⟩
    · exact ⟨[hi], rfl⟩
    · simp only [hsmTcpLen]
      split_ifs
      · exact ⟨rest, by rw [tcpField, be16Bytes_be16]; rfl⟩
      · exact ⟨hi :: lo :: rest, rfl⟩
  cases Nat.lt_or_ge body.length headerLen with
  | inl hlt => exact ⟨[], body, hbody, .inr ⟨rfl, hlt⟩⟩
  | inr hge =>
    refine ⟨body.take headerLen, body.drop headerLen, ?_, .inl (List.length_take_of_le hge)⟩
    rw [List.take_append_drop]
    exact hbody

/-- **A packet laid out in fields is decoded into them**, when its first bytes are taken for
the length field there is and the header has the length asked for, or the packet is
too short to hold one. -/
theorem hsmParseResponse_fields {tcp : Option ℕ} {header code err payload : List Byte}
    {delim : Option (List Byte)} {headerLen : ℕ} (hcode : code.length = 2) (herr : err.length = 2)
    (hp : hsmDelimiter ∉ payload)
    (htcp : hsmTcpLen (tcpField tcp ++ (header ++ (code ++ (err ++ (payload ++ delimited delim))))) = tcp)
    (hheader : header.length = headerLen ∨
      header = [] ∧ (code ++ (err ++ (payload ++ delimited delim))).length < headerLen) :
    hsmParseResponse (tcpField tcp ++ (header ++ (code ++ (err ++ (payload ++ delimited delim))))) headerLen =
      some (hsmFields tcp header code err payload delim ((tcpField tcp).length + header.length + 4)) := by
  obtain ⟨r₀, r₁, rfl⟩ := List.length_eq_two.mp hcode
  obtain ⟨e₀, e₁, rfl⟩ := List.length_eq_two.mp herr
  have hfound := findIdx?_delimited hp delim
  have hsuccess : (e₀ == 48 && e₁ == 48) = ([e₀, e₁] == str "00") := by
    rw [show str "00" = [48, 48] by decide]
    simp
  simp only [hsmParseResponse, htcp, ← length_tcpField, hsmHeader_eq hheader]
  rw [← List.drop_drop, List.drop_left, List.drop_left]
  simp only [List.cons_append, List.nil_append, hfound, hsmFields, hsuccess]
  cases delim with
  | none => simp [delimited]
  | some trailer => simp [delimited]

/-- **An accepted packet is laid out in fields**, and they are the fields decoded. -/
theorem hsmParseResponse_layout {buf : List Byte} {headerLen : ℕ} {resp : HsmResponse}
    (h : hsmParseResponse buf headerLen = some resp) :
    ∃ tcp header code err payload delim,
      buf = tcpField tcp ++ (header ++ (code ++ (err ++ (payload ++ delimited delim)))) ∧
      hsmTcpLen buf = tcp ∧ code.length = 2 ∧ err.length = 2 ∧ hsmDelimiter ∉ payload ∧
      (header.length = headerLen ∨
        header = [] ∧ (code ++ (err ++ (payload ++ delimited delim))).length < headerLen) ∧
      resp = hsmFields tcp header code err payload delim ((tcpField tcp).length + header.length + 4) := by
  obtain ⟨header, region, hbuf, hheader⟩ := exists_region buf headerLen
  generalize htcp : hsmTcpLen buf = tcp at hbuf
  have hdrop : buf.drop ((tcpField tcp).length + header.length) = region := by
    rw [hbuf, ← List.drop_drop, List.drop_left, List.drop_left]
  obtain ⟨r₀, r₁, e₀, e₁, rest, rfl⟩ : ∃ r₀ r₁ e₀ e₁ rest, region = [r₀, r₁] ++ ([e₀, e₁] ++ rest) := by
    have hpos : hsmHeader buf headerLen (if tcp.isSome then 2 else 0) =
        (header.take hsmFieldMax, (tcpField tcp).length + header.length) := by
      rw [← length_tcpField, hbuf, hsmHeader_eq hheader]
    simp only [hsmParseResponse, htcp, hpos, hdrop] at h
    split at h
    · rename_i r₀ r₁ e₀ e₁ rest
      exact ⟨r₀, r₁, e₀, e₁, rest, rfl⟩
    · cases h
  obtain ⟨payload, delim, hp, rfl⟩ := exists_delimited rest
  refine ⟨tcp, header, _, _, payload, delim, hbuf, rfl, rfl, rfl, hp, hheader, ?_⟩
  rw [hbuf] at htcp h
  rw [hsmParseResponse_fields rfl rfl hp htcp hheader] at h
  exact (Option.some.inj h).symm

/-- Where the payload starts. -/
theorem drop_to_payload {front header code err : List Byte} (hcode : code.length = 2) (herr : err.length = 2)
    (rest : List Byte) :
    (front ++ (header ++ (code ++ (err ++ rest)))).drop (front.length + header.length + 4) = rest := by
  rw [show front.length + header.length + 4 = front.length + (header.length + (code.length + err.length)) by omega,
    ← List.drop_drop, List.drop_left, ← List.drop_drop, List.drop_left, ← List.drop_drop, List.drop_left,
    List.drop_left]

/-- The payload pointer leads to the payload. -/
theorem payloadBytes_hsmFields (tcp : Option ℕ) {front code err payload : List Byte} {header : List Byte}
    {delim : Option (List Byte)} (hcode : code.length = 2) (herr : err.length = 2) :
    (hsmFields tcp header code err payload delim (front.length + header.length + 4)).payloadBytes
      (front ++ (header ++ (code ++ (err ++ (payload ++ delimited delim))))) = payload := by
  unfold HsmResponse.payloadBytes hsmFields
  split_ifs with hempty
  · simp only [List.isEmpty_iff, List.append_eq_nil_iff] at hempty
    rw [hempty.1]
  · simp only [drop_to_payload hcode herr, List.take_left]

/-- The packet the decoded fields make up. -/
def HsmResponse.packet (resp : HsmResponse) (buf : List Byte) : List Byte :=
  (if resp.hasTcpLen then be16Bytes resp.tcpLen else []) ++ resp.header ++ resp.responseCode ++ resp.errorCode ++
    resp.payloadBytes buf ++ (if resp.hasDelimiter then hsmDelimiter :: resp.trailer else [])

/-- **Parsing and layout are inverse.** A packet with its length in front is decoded into the
fields it was built from, the trailer as far as there is room for it; and the fields
decoded from any packet, when header and trailer fit, make up that packet. -/
theorem hsmParseResponse_inverse :
    (∀ (header code err payload : List Byte) (delim : Option (List Byte)),
      let body := header ++ (code ++ (err ++ (payload ++ delimited delim)))
      let buf := be16Bytes body.length ++ body
      header.length ≤ 63 → code.length = 2 → err.length = 2 → hsmDelimiter ∉ payload →
      body.length ≤ 65535 →
      ∃ resp, hsmParseResponse buf header.length = some resp ∧ resp.hasTcpLen = true ∧
        resp.tcpLen = body.length ∧ resp.header = header ∧ resp.responseCode = code ∧
        resp.errorCode = err ∧ (resp.isSuccess = true ↔ err = str "00") ∧
        resp.payloadBytes buf = payload ∧ resp.payloadLen = payload.length ∧
        resp.hasDelimiter = delim.isSome ∧ resp.trailer = (delim.getD []).take 63) ∧
    ∀ (buf : List Byte) (headerLen : ℕ) (resp : HsmResponse), headerLen ≤ 63 →
      hsmParseResponse buf headerLen = some resp →
      (∀ pos, resp.payload = some pos → ((buf.drop pos).dropWhile (· != hsmDelimiter)).length ≤ 64) →
      resp.packet buf = buf := by
  constructor
  · intro header code err payload delim body buf hheader hcode herr hp hlen
    have htcp : hsmTcpLen (tcpField (some body.length) ++ body) = some body.length := by
      obtain ⟨hi, lo, hb, hl⟩ := be16_be16Bytes (Nat.lt_succ_of_le hlen)
      rw [tcpField, hb]
      simp [hsmTcpLen, hl]
    refine ⟨_, hsmParseResponse_fields hcode herr hp htcp (.inl rfl), rfl, rfl, List.take_of_length_le hheader,
      rfl, rfl, ?_, payloadBytes_hsmFields _ hcode herr, rfl, rfl, rfl⟩
    simp [hsmFields]
  · intro buf headerLen resp hheaderLen hparse htrailer
    obtain ⟨tcp, header, code, err, payload, delim, hbuf, htcp, hcode, herr, hp, hheader, rfl⟩ :=
      hsmParseResponse_layout hparse
    have hheader' : header.take hsmFieldMax = header := by
      apply List.take_of_length_le
      rcases hheader with hlen | ⟨rfl, -⟩
      · rw [hlen]; exact hheaderLen
      · exact Nat.zero_le _
    have htcp' : (if tcp.isSome then be16Bytes (tcp.getD 0) else []) = tcpField tcp := by
      cases tcp <;> rfl
    have htrailer' : (if delim.isSome then hsmDelimiter :: (delim.getD []).take hsmFieldMax else []) =
        delimited delim := by
      cases delim with
      | none => rfl
      | some trailer =>
        have hpos := htrailer ((tcpField tcp).length + header.length + 4) (by simp [hsmFields, delimited])
        have hne : ∀ b ∈ payload, (b != hsmDelimiter) = true := fun b hb => by
          simpa using fun h : b = hsmDelimiter => hp (h ▸ hb)
        rw [hbuf, drop_to_payload hcode herr, delimited, List.dropWhile_append_of_pos hne, List.dropWhile_cons,
          if_neg (by simp), List.length_cons] at hpos
        have hle : trailer.length ≤ hsmFieldMax := Nat.le_of_succ_le_succ hpos
        simp [delimited, List.take_of_length_le hle]
    rw [HsmResponse.packet, hbuf, payloadBytes_hsmFields tcp hcode herr]
    simp only [hsmFields, hheader', htcp', htrailer', List.append_assoc]

/-- The answer `HDR1 ND 00 00` to a diagnostics request, and the same followed by a trailer. -/
theorem hsmParseResponse_inverse_ND00 :
    (∃ resp, hsmParseResponse (be16Bytes 10 ++ str "HDR1ND0000") 4 = some resp ∧ resp.header = str "HDR1" ∧
      resp.isSuccess = true) ∧
      ∃ resp, hsmParseResponse (str "ND0000\x19OK") 0 = some resp ∧
        resp.packet (str "ND0000\x19OK") = str "ND0000\x19OK" := by
  constructor
  · obtain ⟨resp, hparse, -, -, hheader, -, -, hsuccess, -⟩ :=
      hsmParseResponse_inverse.1 (str "HDR1") (str "ND") (str "00") (str "00") none (by decide) rfl rfl
        (by decide) (by decide)
    exact ⟨resp, hparse, hheader, hsuccess.mpr rfl⟩
  · have hparse : ∃ resp, hsmParseResponse (str "ND0000\x19OK") 0 = some resp := ⟨_, rfl⟩
    obtain ⟨resp, hresp⟩ := hparse
    refine ⟨resp, hresp, hsmParseResponse_inverse.2 _ 0 resp (by decide) hresp ?_⟩
    intro pos _
    exact (List.length_dropWhile_le _ _).trans ((List.drop_sublist pos _).length_le.trans (by decide))

end TcpClient
