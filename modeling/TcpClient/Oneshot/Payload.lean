import TcpClient.ParseCliArgs

/-!
# The request on the wire

What `run_oneshot_mode` puts in `send_buf` for a payload of `-x` or `-a`. Asked for is the
payload, the terminator of `-T` behind it, and under `-L` the length of both in front
(`fullRequest`). The scratch buffer has 65536 bytes and the length two, so a payload can be
too long for that: then the end of it gives way, under `-L`, or the terminator is left
out (`cutBody`).

## What is proved

* `queuePayload_eq` — what is queued, for a payload of any size the scratch buffer holds.
* `request_on_the_wire` — from an accepted command line, what the loop starts with is that
  request, cut exactly where it does not fit; `-x` never is cut, and `-a` queues what
  `-x` does for the same bytes.
* `request_cut` — a payload of 65536 bytes goes out without the terminator asked for.
-/

namespace TcpClient.Oneshot

open CString TcpClient.Frame

/-- The payload of `-x` or `-a`; `-x` goes first. -/
def givenPayload (cfg : CliConfig) : List Byte := if cfg.isHex then hexBytes cfg else cfg.asciiPayload

/-- The payload and the terminator asked for. -/
def fullBody (cfg : CliConfig) (bytes : List Byte) : List Byte :=
  bytes ++ if cfg.hasTermChar then [cfg.termChar] else []

/-- The length in front, if it is asked for. -/
def withLength (cfg : CliConfig) (body : List Byte) : List Byte := if cfg.addTcpLen then frame body else body

/-- The request asked for. -/
def fullRequest (cfg : CliConfig) (bytes : List Byte) : List Byte := withLength cfg (fullBody cfg bytes)

/-- How long the body may be: what two bytes can say, or what the scratch buffer holds. -/
def bodyLimit (cfg : CliConfig) : ℕ := if cfg.addTcpLen then 65535 else bufSize

/-- What is left of a body that is too long: under `-L` the payload is cut to make room for the
terminator, else the terminator is left out. -/
def cutBody (cfg : CliConfig) (bytes : List Byte) : List Byte :=
  if cfg.addTcpLen then
    if cfg.hasTermChar then bytes.take 65534 ++ [cfg.termChar] else bytes.take 65535
  else bytes

variable {cfg : CliConfig} {bytes : List Byte}

theorem length_fullBody (cfg : CliConfig) (bytes : List Byte) :
    (fullBody cfg bytes).length = bytes.length + if cfg.hasTermChar then 1 else 0 := by
  rw [fullBody, List.length_append]
  split_ifs <;> rfl

theorem length_withLength (cfg : CliConfig) (body : List Byte) :
    (withLength cfg body).length = (if cfg.addTcpLen then 2 else 0) + body.length := by
  rw [withLength]
  split_ifs
  · exact length_frame body
  · exact (Nat.zero_add _).symm

/-- What is left of a body is as long as a body may be, or shorter. -/
theorem length_cutBody_le (cfg : CliConfig) (hbytes : bytes.length ≤ bufSize) :
    (cutBody cfg bytes).length ≤ bodyLimit cfg := by
  have htake : ∀ n, (bytes.take n).length ≤ n := fun n => List.length_take_le n bytes
  unfold cutBody bodyLimit
  split_ifs
  · rw [List.length_append, List.length_singleton]
    exact Nat.add_le_add_right (htake 65534) 1
  · exact htake 65535
  · exact hbytes

/-- Where there is room for one more byte, the terminator is added. -/
theorem appendTerm_of_room (hterm : cfg.hasTermChar = true) (hroom : bytes.length < bodyLimit cfg) :
    appendTerm cfg bytes = bytes ++ [cfg.termChar] := by
  rw [bodyLimit] at hroom
  rw [appendTerm, if_pos hterm]
  cases hlen : cfg.addTcpLen with
  | false =>
    rw [hlen, if_neg Bool.false_ne_true] at hroom
    simp only [Bool.false_and, Bool.false_eq_true, if_false]
    exact if_pos hroom
  | true =>
    rw [if_pos hlen] at hroom
    have hshort : ¬ 65535 ≤ bytes.length := Nat.not_le.mpr hroom
    simp only [hshort, decide_false, Bool.and_false, Bool.false_eq_true, if_false]
    exact if_pos (hroom.trans (by decide))

/-- Where there is none, the payload gives way under `-L`, and else the terminator does. -/
theorem appendTerm_of_full (hterm : cfg.hasTermChar = true) (hfull : bodyLimit cfg ≤ bytes.length) :
    appendTerm cfg bytes = cutBody cfg bytes := by
  rw [bodyLimit] at hfull
  rw [appendTerm, cutBody, if_pos hterm, if_pos hterm]
  cases hlen : cfg.addTcpLen with
  | false =>
    rw [hlen, if_neg Bool.false_ne_true] at hfull
    simp only [Bool.false_and, Bool.false_eq_true, if_false]
    exact if_neg (Nat.not_lt.mpr hfull)
  | true =>
    rw [if_pos hlen] at hfull
    have htake : (bytes.take 65534).length = 65534 := List.length_take_of_le (by omega)
    simp only [hfull, decide_true, Bool.and_true, if_true, htake]
    exact if_pos (by decide)

/-- Without `-T` nothing is added. -/
theorem appendTerm_of_none (hterm : cfg.hasTermChar = false) : appendTerm cfg bytes = bytes := by
  rw [appendTerm, hterm, if_neg Bool.false_ne_true]

/-- A body that fits is put together whole. -/
theorem appendTerm_of_le (h : (fullBody cfg bytes).length ≤ bodyLimit cfg) :
    appendTerm cfg bytes = fullBody cfg bytes := by
  rw [length_fullBody] at h
  cases hterm : cfg.hasTermChar with
  | false => rw [appendTerm_of_none hterm, fullBody, hterm, if_neg Bool.false_ne_true, List.append_nil]
  | true =>
    rw [if_pos hterm] at h
    rw [appendTerm_of_room hterm h, fullBody, if_pos hterm]

/-- A body that does not fit is cut. -/
theorem appendTerm_of_lt (hbytes : bytes.length ≤ bufSize) (h : bodyLimit cfg < (fullBody cfg bytes).length) :
    (if cfg.addTcpLen then (appendTerm cfg bytes).take 65535 else appendTerm cfg bytes) = cutBody cfg bytes := by
  rw [length_fullBody] at h
  cases hterm : cfg.hasTermChar with
  | false => simp only [appendTerm_of_none hterm, cutBody, hterm, Bool.false_eq_true, if_false]
  | true =>
    rw [if_pos hterm] at h
    rw [appendTerm_of_full hterm (Nat.le_of_lt_succ h)]
    split_ifs with hlen
    · have hcut := length_cutBody_le cfg hbytes
      rw [bodyLimit, if_pos hlen] at hcut
      exact List.take_of_length_le hcut
    · rfl

/-- **What is queued**: the request, or where it is too long what is left of it. -/
theorem queuePayload_eq (hbytes : bytes.length ≤ bufSize) :
    queuePayload cfg bytes =
      if (fullBody cfg bytes).length ≤ bodyLimit cfg then fullRequest cfg bytes
      else withLength cfg (cutBody cfg bytes) := by
  have hqueue : queuePayload cfg bytes =
      withLength cfg (if cfg.addTcpLen then (appendTerm cfg bytes).take 65535 else appendTerm cfg bytes) := by
    unfold queuePayload withLength
    split_ifs <;> rfl
  rw [hqueue]
  by_cases hfits : (fullBody cfg bytes).length ≤ bodyLimit cfg
  · rw [if_pos hfits, appendTerm_of_le hfits, fullRequest]
    split_ifs with hlen
    · rw [bodyLimit, if_pos hlen] at hfits
      rw [List.take_of_length_le hfits]
    · rfl
  · rw [if_neg hfits, appendTerm_of_lt hbytes (not_le.mp hfits)]

/-- **The request is queued as it was asked for exactly when it fits.** -/
theorem queuePayload_eq_fullRequest (hbytes : bytes.length ≤ bufSize) :
    queuePayload cfg bytes = fullRequest cfg bytes ↔ (fullBody cfg bytes).length ≤ bodyLimit cfg := by
  rw [queuePayload_eq hbytes]
  constructor
  · intro heq
    by_contra hlong
    rw [if_neg hlong] at heq
    have hlen := congrArg List.length heq
    rw [fullRequest, length_withLength, length_withLength] at hlen
    have hcut := length_cutBody_le cfg hbytes
    omega
  · intro hfits
    rw [if_pos hfits]

/-! ### From the command line -/

/-- What is prepared with a configuration that is not rejected: its payload, or standard input. -/
theorem prepare_eq (hnever : NeverRejected cfg) {sockfd : ℤ} (hfd : 0 ≤ sockfd) :
    prepare cfg sockfd =
      .ok (if cfg.isHex || cfg.isAscii then some (queuePayload cfg (givenPayload cfg)) else none) := by
  have hhex := hnever.invalidHex sockfd
  unfold prepare givenPayload hexBytes at *
  rw [if_neg (not_lt.mpr hfd)] at hhex ⊢
  cases hx : cfg.isHex with
  | true =>
    rw [hx] at hhex
    dsimp only at hhex ⊢
    simp only [if_true, Bool.true_or] at hhex ⊢
    split_ifs at hhex ⊢
    · exact absurd rfl hhex
    · rfl
  | false =>
    simp only [Bool.false_eq_true, if_false, Bool.false_or]
    rw [List.take_of_length_le (not_lt.mp hnever.asciiLen)]
    split_ifs <;> rfl

/-- What the loop starts with: nothing when there is no socket, else the queued payload. -/
theorem start_payload (hnever : NeverRejected cfg) (hgiven : cfg.isHex = true ∨ cfg.isAscii = true)
    {sockfd : ℤ} (hfd : 0 ≤ sockfd) (now : UInt64) :
    start cfg sockfd now =
      { sendBuf := queuePayload cfg (givenPayload cfg),
        sendBufLen := (queuePayload cfg (givenPayload cfg)).length,
        stdinEof := true, lastActivity := now } := by
  rw [start, prepare_eq hnever hfd, if_pos ((Bool.or_eq_true _ _).mpr hgiven)]

/-- The scratch buffer holds every payload that is accepted. -/
theorem length_givenPayload_le (ha : Accepted cfg) : (givenPayload cfg).length ≤ bufSize := by
  unfold givenPayload
  split_ifs with hhex
  · exact (ha.length_hexBytes hhex).trans (by decide)
  · exact ha.asciiPayload

/-- A command line with a payload, accepted. -/
structure Asks (cfg : CliConfig) : Prop where
  parsed : ∃ opts positionals, parseCliArgs opts positionals = .accepted cfg
  noHelp : cfg.showHelp = false
  noVersion : cfg.showVersion = false
  given : cfg.isHex = true ∨ cfg.isAscii = true

theorem Asks.accepted (h : Asks cfg) : Accepted cfg := by
  obtain ⟨opts, positionals, hparse⟩ := h.parsed
  obtain ⟨hw, hhost, hport⟩ := parseCliArgs_inRange hparse h.noHelp h.noVersion
  exact hw.accepted hhost hport

theorem Asks.length_givenPayload (h : Asks cfg) : (givenPayload cfg).length ≤ bufSize :=
  length_givenPayload_le h.accepted

/-- The payload of `-x` fits, with or without a terminator. -/
theorem Asks.hex_fits (h : Asks cfg) (hhex : cfg.isHex = true) :
    (fullBody cfg (givenPayload cfg)).length ≤ bodyLimit cfg := by
  have hbytes := h.accepted.length_hexBytes hhex
  have hgiven : givenPayload cfg = hexBytes cfg := by rw [givenPayload, if_pos hhex]
  rw [hgiven, length_fullBody]
  unfold bodyLimit bufSize
  split_ifs <;> omega

/-- What waits to be sent when the loop is entered. -/
theorem Asks.pending_start (h : Asks cfg) {sockfd : ℤ} (hfd : 0 ≤ sockfd) (now : UInt64) :
    (start cfg sockfd now).pc = .loop ∧
      (start cfg sockfd now).pending = queuePayload cfg (givenPayload cfg) := by
  rw [start_payload h.accepted.neverRejected h.given hfd]
  exact ⟨rfl, List.take_of_length_le le_rfl⟩

/-- **The request on the wire**: for every accepted command line with a payload, without a
socket nothing is queued and the result is `5`; else the request asked for is queued, except
that a body that is too long is cut. This never happens to `-x`, and what is queued
depends only on the payload bytes, the terminator and `-L`. -/
theorem request_on_the_wire (h : Asks cfg) (sockfd : ℤ) (now : UInt64) :
    (sockfd < 0 → (start cfg sockfd now).pc = .done 5 ∧ (start cfg sockfd now).pending = []) ∧
      (0 ≤ sockfd →
        (start cfg sockfd now).pc = .loop ∧
        (start cfg sockfd now).pending =
          (if (fullBody cfg (givenPayload cfg)).length ≤ bodyLimit cfg then fullRequest cfg (givenPayload cfg)
          else withLength cfg (cutBody cfg (givenPayload cfg))) ∧
        ((start cfg sockfd now).pending = fullRequest cfg (givenPayload cfg) ↔
          (fullBody cfg (givenPayload cfg)).length ≤ bodyLimit cfg) ∧
        (cfg.isHex = true → (start cfg sockfd now).pending = fullRequest cfg (givenPayload cfg)) ∧
        ∀ cfg', Asks cfg' → givenPayload cfg' = givenPayload cfg → cfg'.hasTermChar = cfg.hasTermChar →
          cfg'.termChar = cfg.termChar → cfg'.addTcpLen = cfg.addTcpLen →
          (start cfg' sockfd now).pending = (start cfg sockfd now).pending) := by
  refine ⟨?_, ?_⟩
  · intro hfd
    have hprepare : prepare cfg sockfd = .error 5 := by rw [prepare, if_pos hfd]
    rw [start, hprepare]
    exact ⟨rfl, rfl⟩
  · intro hfd
    obtain ⟨hpc, hpending⟩ := h.pending_start hfd now
    rw [hpending]
    refine ⟨hpc, queuePayload_eq h.length_givenPayload, queuePayload_eq_fullRequest h.length_givenPayload, ?_, ?_⟩
    · intro hhex
      exact (queuePayload_eq_fullRequest h.length_givenPayload).mpr (h.hex_fits hhex)
    · intro cfg' h' hbytes hterm hchar hlen
      obtain ⟨-, hpending'⟩ := h'.pending_start hfd now
      rw [hpending', hbytes]
      unfold queuePayload appendTerm
      rw [hterm, hchar, hlen]

/-- `-a AB -T 19 -L localhost 8080`. -/
def exampleAB : CliConfig :=
  { host := str "localhost", port := 8080, asciiPayload := str "AB", isAscii := true, addTcpLen := true,
    hasTermChar := true, termChar := 0x19 }

theorem request_on_the_wire_AB :
    (start exampleAB 3 0).pending = [0, 3, 65, 66, 0x19] := by
  have hasks : Asks exampleAB :=
    { parsed := ⟨[.ascii (word "AB"), .term (word "19"), .addTcpLen],
        [word "localhost", word "8080"], by decide +kernel⟩
      noHelp := rfl
      noVersion := rfl
      given := .inr rfl }
  obtain ⟨-, hwire⟩ := request_on_the_wire hasks 3 0
  obtain ⟨-, hpending, -⟩ := hwire (by decide)
  rw [hpending]
  decide

/-- `-a … -T 19 localhost 8080`, the payload without a backslash. -/
theorem parse_plain (text : CStr) (hplain : 92 ∉ text.chars) (hroom : text.chars.length ≤ 65536) :
    parseCliArgs [.ascii text, .term (word "19")]
        [word "localhost", word "8080"] = .accepted
          { host := str "localhost", port := 8080, asciiPayload := text.chars, isAscii := true,
            hasTermChar := true, termChar := 0x19 } := by
  have hascii : parseOption {} (.ascii text) = .ok { asciiPayload := text.chars, isAscii := true } := by
    rw [parseOption, setAscii, unescapeString_plain hplain hroom]
    simp
  rw [parseCliArgs, List.foldlM_cons, hascii]
  rfl

/-- A payload that fills the scratch buffer goes out without the terminator. -/
theorem pending_of_full {cfg : CliConfig} (h : Asks cfg) (hterm : cfg.hasTermChar = true)
    (hlen : cfg.addTcpLen = false) (hfull : (givenPayload cfg).length = bufSize) :
    (start cfg 3 0).pc = .loop ∧ (start cfg 3 0).pending = givenPayload cfg ∧
      (start cfg 3 0).pending ≠ fullRequest cfg (givenPayload cfg) := by
  obtain ⟨hpc, hpending⟩ := h.pending_start (by decide : (0 : ℤ) ≤ 3) 0
  have hlong : ¬ (fullBody cfg (givenPayload cfg)).length ≤ bodyLimit cfg := by
    rw [length_fullBody, bodyLimit, hterm, hlen, hfull]
    simp
  rw [hpending]
  refine ⟨hpc, ?_, fun heq => hlong ((queuePayload_eq_fullRequest hfull.le).mp heq)⟩
  rw [queuePayload_eq hfull.le, if_neg hlong, withLength, cutBody, hlen]
  simp only [Bool.false_eq_true, if_false]

/-- **65536 bytes and a terminator do not go out whole**: neither an error nor the request asked
for. -/
theorem request_cut :
    ∃ cfg, Asks cfg ∧ cfg.asciiPayload = List.replicate 65536 65 ∧ cfg.hasTermChar = true ∧
      (start cfg 3 0).pending = cfg.asciiPayload ∧
      ¬ ((∃ rc, rc ≠ 0 ∧ (start cfg 3 0).pc = .done rc ∧ (start cfg 3 0).pending = []) ∨
        (start cfg 3 0).pending = fullRequest cfg (givenPayload cfg)) := by
  have hletters : ∀ b : Byte, b ≠ 65 → b ∉ List.replicate 65536 65 :=
    fun b hb hmem => hb (List.eq_of_mem_replicate hmem)
  have hparse := parse_plain ⟨List.replicate 65536 65, hletters 0 (by decide)⟩ (hletters 92 (by decide))
    (List.length_replicate).le
  have hasks := Asks.mk ⟨_, _, hparse⟩ rfl rfl (.inr rfl)
  obtain ⟨hpc, hpending, hne⟩ := pending_of_full hasks rfl rfl List.length_replicate
  refine ⟨_, hasks, rfl, rfl, hpending, ?_⟩
  rintro (⟨rc, -, hdone, -⟩ | heq)
  · rw [hpc] at hdone
    cases hdone
  · exact hne heq

end TcpClient.Oneshot
