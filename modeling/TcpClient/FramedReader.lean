import TcpClient.SocketClient

/-!
# The framed reader

`socket_read_framed` on a byte stream that arrives in any pieces. `readFrame` says
what one call does in terms of the stream alone; the call refines it
(`socketReadFramed_stream`), whatever the pieces. From that, a stream of frames is
read back one frame a call, and each way a frame can fail to be read — too long
for the buffer, or cut short — is told from the end of the stream
(`socketReadFramed_frames`).
-/

namespace TcpClient

open TcpClient.Frame

/-- What one call reads off the head of a stream with room for `maxLen` bytes: its
result, and what is left of the stream. -/
def readFrame (maxLen : ℕ) : List Byte → IoResult × List Byte
  | [] => (⟨0, []⟩, [])
  | [b] => (⟨socketErrIo, [b]⟩, [])
  | hi :: lo :: s =>
    if maxLen < 2 + be16 hi lo then (⟨socketErrIo, [hi, lo]⟩, s)
    else if s.length < be16 hi lo then (⟨socketErrIo, hi :: lo :: s⟩, [])
    else (⟨(2 + be16 hi lo : ℕ), hi :: lo :: s.take (be16 hi lo)⟩, s.drop (be16 hi lo))

/-- A whole frame that fits is read, and nothing behind it. -/
theorem readFrame_frame {maxLen : ℕ} {payload : List Byte} (hp : payload.length ≤ 65535)
    (hfit : 2 + payload.length ≤ maxLen) (rest : List Byte) :
    readFrame maxLen (frame payload ++ rest) = (⟨(2 + payload.length : ℕ), frame payload⟩, rest) := by
  obtain ⟨hi, lo, hb, hl⟩ := be16_be16Bytes (Nat.lt_succ_of_le hp)
  have hlen : ¬ (payload ++ rest).length < payload.length := by simp
  simp only [frame, hb, List.cons_append, List.nil_append, readFrame, hl, Nat.not_lt.mpr hfit, hlen,
    if_false, List.take_left, List.drop_left]

/-- Of a frame that does not fit only the length is read. -/
theorem readFrame_oversize {maxLen : ℕ} {payload : List Byte} (hp : payload.length ≤ 65535)
    (hbig : maxLen < 2 + payload.length) (rest : List Byte) :
    (readFrame maxLen (frame payload ++ rest)).1 = ⟨socketErrIo, be16Bytes payload.length⟩ := by
  obtain ⟨hi, lo, hb, hl⟩ := be16_be16Bytes (Nat.lt_succ_of_le hp)
  simp only [frame, hb, List.cons_append, List.nil_append, readFrame, hl, hbig, if_true]

/-- A frame cut short, in its length or in its payload, is an error. -/
theorem readFrame_cut {payload : List Byte} (hp : payload.length ≤ 65535) {n : ℕ} (hn : 0 < n)
    (hcut : n < (frame payload).length) (maxLen : ℕ) :
    (readFrame maxLen ((frame payload).take n)).1.rc = socketErrIo := by
  obtain ⟨hi, lo, hb, hl⟩ := be16_be16Bytes (Nat.lt_succ_of_le hp)
  rw [length_frame] at hcut
  rw [frame, hb]
  obtain rfl | hn : n = 1 ∨ 2 ≤ n := by omega
  · rfl
  · obtain ⟨m, rfl⟩ := Nat.exists_eq_add_of_le' hn
    have hshort : (payload.take m).length < payload.length := by rw [List.length_take]; omega
    simp only [List.cons_append, List.nil_append, List.take_succ_cons, readFrame, hl, hshort, if_true]
    split_ifs <;> rfl

variable (pf : Platform) {sockfd : ℤ}

/-- **A call on a stream is `readFrame` on the stream**, however it is cut. -/
theorem socketReadFramed_stream (hfd : 0 ≤ sockfd) {maxLen : ℕ} (hmax : 2 ≤ maxLen) (c : Conn) :
    ∃ c', socketReadFramed pf streamKernel sockfd maxLen c = ((readFrame maxLen c.rest).1, c') ∧
      c'.rest = (readFrame maxLen c.rest).2 := by
  obtain ⟨c₁, hrest₁, hheader⟩ := socketReadExact_stream pf hfd 2 c
  rw [socketReadFramed, if_neg (by omega), hheader]
  dsimp only
  rcases hs : c.rest with _ | ⟨hi, _ | ⟨lo, s⟩⟩
  · -- the end of the stream
    exact ⟨c₁, rfl, by rw [hrest₁, hs]; rfl⟩
  · -- half a length
    exact ⟨c₁, rfl, by rw [hrest₁, hs]; rfl⟩
  · have hgetD : be16 (([hi, lo] : List Byte).getD 0 0) (([hi, lo] : List Byte).getD 1 0) = be16 hi lo := rfl
    simp only [List.take_succ_cons, List.take_zero, List.length_cons, List.length_nil, hgetD, readFrame]
    rw [hs] at hrest₁
    rw [if_neg (by decide), if_neg (by decide)]
    by_cases hbig : maxLen < 2 + be16 hi lo
    · rw [if_pos hbig, if_pos hbig]
      exact ⟨c₁, rfl, hrest₁⟩
    · rw [if_neg hbig, if_neg hbig]
      by_cases hpos : 0 < be16 hi lo
      · obtain ⟨c₂, hrest₂, hpayload⟩ := socketReadExact_stream pf hfd (be16 hi lo) c₁
        have hrest₁' : c₁.rest = s := hrest₁
        rw [if_pos hpos, hpayload, hrest₁']
        rw [hrest₁'] at hrest₂
        dsimp only
        have hlen : (s.take (be16 hi lo)).length = min (be16 hi lo) s.length := List.length_take
        rw [if_neg (by omega)]
        by_cases hshort : s.length < be16 hi lo
        · rw [if_pos hshort, if_pos (by omega), List.take_of_length_le hshort.le]
          exact ⟨c₂, rfl, by rw [hrest₂, List.drop_eq_nil_of_le hshort.le]⟩
        · rw [if_neg hshort, if_neg (by omega)]
          exact ⟨c₂, rfl, hrest₂⟩
      · have h0 : be16 hi lo = 0 := by omega
        rw [if_neg hpos, if_neg (by omega), h0]
        exact ⟨c₁, rfl, hrest₁⟩

/-- `n` calls, one after another. -/
def framedCalls (sockfd : ℤ) (maxLen : ℕ) : ℕ → Conn → List IoResult × Conn
  | 0, c => ([], c)
  | n + 1, c =>
    let call := socketReadFramed pf streamKernel sockfd maxLen c
    let calls := framedCalls sockfd maxLen n call.2
    (call.1 :: calls.1, calls.2)

/-- One call for each frame that fits. -/
theorem framedCalls_frames (hfd : 0 ≤ sockfd) {maxLen : ℕ} (hmax : 2 ≤ maxLen) (payloads : List (List Byte))
    (hp : ∀ p ∈ payloads, p.length ≤ 65535 ∧ 2 + p.length ≤ maxLen) (rest : List Byte) (c : Conn)
    (hc : c.rest = payloads.flatMap frame ++ rest) :
    (framedCalls pf sockfd maxLen payloads.length c).1 = payloads.map (fun p => ⟨(2 + p.length : ℕ), frame p⟩) ∧
      (framedCalls pf sockfd maxLen payloads.length c).2.rest = rest := by
  induction payloads generalizing c with
  | nil => exact ⟨rfl, hc⟩
  | cons p payloads ih =>
    obtain ⟨hp₁, hp₂⟩ := hp p List.mem_cons_self
    obtain ⟨c', hcall, hrest⟩ := socketReadFramed_stream pf hfd hmax c
    rw [hc, List.flatMap_cons, List.append_assoc, readFrame_frame hp₁ hp₂] at hcall hrest
    obtain ⟨ih₁, ih₂⟩ := ih (fun q hq => hp q (List.mem_cons_of_mem _ hq)) c' hrest
    simp only [List.length_cons, framedCalls, hcall]
    exact ⟨by rw [ih₁]; rfl, ih₂⟩

/-- **Frames are read back, one a call.** Whatever the pieces the stream comes in, the calls
return the frames that fit, each whole and alone; after them, the end of the stream is
`0`, a frame too long for the buffer is an I/O error with only its length in the
buffer, and a frame cut short anywhere is an I/O error. -/
theorem socketReadFramed_frames (hfd : 0 ≤ sockfd) {maxLen : ℕ} (hmax : 2 ≤ maxLen)
    (payloads : List (List Byte)) (hp : ∀ p ∈ payloads, p.length ≤ 65535 ∧ 2 + p.length ≤ maxLen)
    (rest : List Byte) (cuts : List ℕ) :
    let calls := framedCalls pf sockfd maxLen payloads.length ⟨payloads.flatMap frame ++ rest, cuts⟩
    let next := (socketReadFramed pf streamKernel sockfd maxLen calls.2).1
    calls.1 = payloads.map (fun p => ⟨(2 + p.length : ℕ), frame p⟩) ∧ calls.2.rest = rest ∧
      (rest = [] → next = ⟨0, []⟩) ∧
      (∀ p more, p.length ≤ 65535 → maxLen < 2 + p.length → rest = frame p ++ more →
        next = ⟨socketErrIo, be16Bytes p.length⟩) ∧
      (∀ p n, p.length ≤ 65535 → 0 < n → n < (frame p).length → rest = (frame p).take n →
        next.rc = socketErrIo) := by
  intro calls next
  obtain ⟨hcalls, hrest⟩ := framedCalls_frames pf hfd hmax payloads hp rest
    ⟨payloads.flatMap frame ++ rest, cuts⟩ rfl
  obtain ⟨c', hcall, -⟩ := socketReadFramed_stream pf hfd hmax calls.2
  have hnext : next = (readFrame maxLen rest).1 := by
    rw [show next = (readFrame maxLen calls.2.rest).1 from congrArg Prod.fst hcall, hrest]
  refine ⟨hcalls, hrest, ?_, ?_, ?_⟩
  · rintro rfl
    exact hnext
  · rintro p more hlen hbig rfl
    rw [hnext, readFrame_oversize hlen hbig]
  · rintro p n hlen hn hcut rfl
    rw [hnext, readFrame_cut hlen hn hcut]

/-- Two frames that come byte by byte, and the end of the stream. -/
theorem socketReadFramed_frames_two :
    let calls := framedCalls .posix 3 4 2 ⟨[[7, 8], []].flatMap frame ++ [], [1, 1, 1, 1, 1, 1]⟩
    calls.1 = [⟨4, frame [7, 8]⟩, ⟨2, frame []⟩] ∧
      (socketReadFramed .posix streamKernel 3 4 calls.2).1 = ⟨0, []⟩ := by
  obtain ⟨hcalls, -, hend, -⟩ := socketReadFramed_frames .posix (show (0 : ℤ) ≤ 3 by decide)
    (show 2 ≤ 4 by decide) [[7, 8], []] (by decide) [] [1, 1, 1, 1, 1, 1]
  exact ⟨hcalls, hend rfl⟩

end TcpClient
