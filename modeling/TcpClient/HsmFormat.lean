import TcpClient.HexUtils
import TcpClient.HsmDecoder

/-!
# The HSM response report

`hsm_decoder.c` from `append_breakdown_line` on: the report `-D` prints of a decoded
response. The breakdown is assembled line by line in a buffer of 1024 bytes and
becomes one piece of the report, which is cut to the caller's buffer.
-/

namespace TcpClient

open CString

/-- A number in decimal, as `%u` and `%lu` print it. -/
def decimal (n : ℕ) : List Byte := (Nat.toDigits 10 n).map fun c => UInt8.ofNat c.toNat

/-- `isdigit` in the C locale. -/
def isdigit (c : Byte) : Bool := 48 ≤ c && c ≤ 57

/-- `isprint` in the C locale. -/
def isprint (c : Byte) : Bool := 32 ≤ c && c ≤ 126

/-- `atoi`: blanks, a sign, digits, and whatever follows. -/
def atoi (s : List Byte) : ℤ :=
  let value (digits : List Byte) : ℤ :=
    (digits.takeWhile isdigit).foldl (fun n c => n * 10 + (c.toNat - 48 : ℕ)) 0
  match s.dropWhile isspace with
  | 45 :: digits => -value digits
  | 43 :: digits => value digits
  | digits => value digits

/-- `(size_t)n`. -/
def sizeOfInt (n : ℤ) : ℕ := (n % 2 ^ 64).toNat

/-! ### The breakdown -/

/-- The buffer of the breakdown and the offset in it. -/
structure Breakdown where
  buf : List Byte
  off : ℕ
  deriving DecidableEq, Repr

/-- `append_breakdown_line`, the text already formatted: `vsnprintf` stores as much of it as
leaves room for the terminator, and returns how long it was. -/
def appendBreakdownLine (b : Breakdown) (text : List Byte) : Breakdown :=
  if b.buf.length ≤ b.off then b
  else
    let stored := text.take (b.buf.length - b.off - 1) ++ [0]
    let off := b.off + text.length
    { buf := b.buf.take b.off ++ (stored ++ b.buf.drop (b.off + stored.length))
      off := if b.buf.length ≤ off then b.buf.length - 1 else off }

/-- The key length of scheme `S`: the four characters behind the letter as a number, if
that is a length the payload has. -/
def blockKeyLen (payload : List Byte) : ℕ :=
  let blockLen := if 5 ≤ payload.length then sizeOfInt (atoi (cstr ((payload.drop 1).take 4))) else 0
  if blockLen = 0 ∨ payload.length < blockLen then payload.length else blockLen

/-- The key length of the schemes `U`, `T`, `X`, `Z`, `Y` and `M`. -/
def schemeKeyLen (rem : ℕ) : ℕ :=
  if 49 ≤ rem then 49 else if 33 ≤ rem then 33 else if 17 ≤ rem then 17 else rem

/-- A line `label = [text]`. -/
def breakdownLine (label text : List Byte) : List Byte := label ++ str " = [" ++ text ++ str "]\n"

/-- The key of `keyLen` bytes, and the check value behind it if there is one. `%.*s` prints up
to a NUL. -/
def keyLines (label payload : List Byte) (keyLen : ℕ) : List (List Byte) :=
  breakdownLine label (cstr (payload.take keyLen)) ::
    if keyLen < payload.length then
      [breakdownLine (str "Key Check Value (KCV)....") (cstr (payload.drop keyLen))]
    else []

/-- The lines about the payload of a successful `A1` response. -/
def generateKeyLines (payload : List Byte) : List (List Byte) :=
  match payload with
  | [] => []
  | scheme :: _ =>
    if scheme = 83 then keyLines (str "Key Block (TR-31)........") payload (blockKeyLen payload)
    else if scheme ∈ str "UTXZYM" then
      keyLines (str "Key......................") payload (schemeKeyLen payload.length)
    else [breakdownLine (str "Key Data.................") (cstr payload)]

/-- An empty string is shown as `N/A`. -/
def orNA (s : List Byte) : List Byte := if s.isEmpty then str "N/A" else s

/-- The lines appended to the breakdown, in order. -/
def breakdownLines (resp : HsmResponse) (payload : List Byte) : List (List Byte) :=
  [str "DETAILED FIELD BREAKDOWN:\n"] ++
  (if resp.hasTcpLen then
    [str "TCP/IP Header............ = [" ++
      hexText true false [UInt8.ofNat (resp.tcpLen / 256), UInt8.ofNat (resp.tcpLen % 256)] ++
      str "] " ++ decimal resp.tcpLen ++ str " Bytes\n"]
  else []) ++
  (if 0 < resp.header.length then [breakdownLine (str "Message Header...........") (cstr resp.header)] else []) ++
  [str "Command Code............. = [" ++ orNA (cstr resp.responseCode) ++ str "] " ++ resp.responseName ++ str "\n",
    str "Error Code............... = [" ++ orNA (cstr resp.errorCode) ++ str "] " ++ resp.errorDescription ++
      str "\n"] ++
  (if resp.isSuccess then
    if resp.responseCode = str "A1" then generateKeyLines payload
    else if 0 < payload.length then [breakdownLine (str "Data Payload.............") (cstr payload)]
    else []
  else [breakdownLine (str "Error Details............") resp.errorDescription])

/-- The breakdown, in its buffer of 1024 bytes. -/
def hsmBreakdown (resp : HsmResponse) (payload : List Byte) : List Byte :=
  cstr ((breakdownLines resp payload).foldl appendBreakdownLine ⟨List.replicate 1024 0, 0⟩).buf

/-! ### The report -/

/-- The first 64 bytes in hex, and dots if there are more. -/
def hexDump (bytes : List Byte) : List Byte :=
  if bytes.isEmpty then []
  else
    (match bytesToHex (bytes.take 64) 512 true true with
      | some text => cstr text
      | none => []) ++
      if 64 < bytes.length then str " ..." else []

/-- The first 255 bytes, those that do not print as dots. -/
def asciiDump (payload : List Byte) : List Byte :=
  (payload.take 255).map fun c => if isprint c then c else 46

/-- The double and the single rule of the report. -/
def doubleRule : List Byte := List.replicate 70 61 ++ [10]

def singleRule : List Byte := List.replicate 70 45 ++ [10]

/-- `hsm_format_analysis(resp, raw_buf, raw_len, out_str, max_len)`: the string left in `out_str`. -/
def hsmFormatAnalysis (resp : HsmResponse) (rawBuf : List Byte) (maxLen : ℕ) : List Byte :=
  let payload := resp.payloadBytes rawBuf
  let dump := hexDump rawBuf
  let text :=
    doubleRule ++
    str "             payShield 10K HSM RESPONSE DECODER ANALYSIS              \n" ++
    doubleRule ++
    str "Raw Packet Length : " ++ decimal rawBuf.length ++ str " bytes\n" ++
    str "Raw Hex Packet    : " ++ (if dump.isEmpty then str "(None)" else dump) ++ str "\n" ++
    singleRule ++
    str "TCP Length Header : " ++
      (if resp.hasTcpLen then str "2 Bytes (Binary Big-Endian)" else str "None / Omitted") ++ str "\n" ++
    str "Message Header    : " ++ (if 0 < resp.header.length then cstr resp.header else str "(None)") ++ str "\n" ++
    str "Response Code     : '" ++ orNA (cstr resp.responseCode) ++ str "' -> [" ++ resp.responseName ++ str "]\n" ++
    str "Error Code        : '" ++ orNA (cstr resp.errorCode) ++ str "' -> [" ++
      (if resp.isSuccess then str "SUCCESS / OK" else str "ERROR / FAILED") ++ str "]\n" ++
    str "                    Error Description: " ++ resp.errorDescription ++ str "\n" ++
    singleRule ++
    hsmBreakdown resp payload ++
    singleRule ++
    str "Response Payload  : " ++ decimal resp.payloadLen ++ str " bytes " ++
      (if resp.isSuccess then [] else str "(Truncated by HSM due to error)") ++ str "\n" ++
    (if 0 < resp.payloadLen then
      str "Payload HEX       : " ++ hexDump payload ++ str "\nPayload ASCII     : " ++ asciiDump payload ++ str "\n"
    else []) ++
    doubleRule
  text.take (maxLen - 1)

end TcpClient
