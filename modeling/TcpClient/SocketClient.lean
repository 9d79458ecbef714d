import TcpClient.Compat
import TcpClient.Lib.Frame
import Mathlib.Tactic.Linarith

/-!
# The blocking socket helpers

`socket_client.c`: `socket_write_all`, `socket_read`, `socket_read_exact` and
`socket_read_framed`. Each waits with `poll` before every `recv` or `send`; the
timeout is only handed to `poll` and does not appear. Of `socket_connect` there is
the check of its arguments.

The world outside is a `Kernel`: what `poll` and `recv` answer, as functions of
its state. A kernel may answer anything; `streamKernel` is one that delivers a
byte stream, cut into pieces at will, and then the end of the stream.

`socket_write_all` retries as long as it would block, so it is run on a script of
answers; after the script the socket takes whatever is left.
-/

namespace TcpClient

open TcpClient.Frame

universe u

variable {ω : Type u}

/-- `SOCKET_ERR_TIMEOUT`. -/
def socketErrTimeout : ℤ := -4

/-- `SOCKET_ERR_IO`. -/
def socketErrIo : ℤ := -5

theorem socketErrTimeout_neg : socketErrTimeout < 0 := by decide

theorem socketErrIo_neg : socketErrIo < 0 := by decide

/-- The argument check of `socket_connect(host, port, …)`: what it returns without connecting. -/
def socketConnectCheck (host : List Byte) (port : ℤ) : Option ℤ :=
  if host = [] ∨ port < 1 ∨ 65535 < port then some socketErrIo else none

/-- What a helper gives back: its result, and the bytes it moved, in order. For a read
these are the bytes stored in `buf` from index `0` on, for a write those the
socket took. -/
structure IoResult where
  rc : ℤ
  bytes : List Byte
  deriving DecidableEq, Repr

/-- What the calls on the socket answer, as functions of the state of the world. -/
structure Kernel (ω : Type u) where
  /-- `poll` on the one socket. -/
  poll : ω → PollAns × ω
  /-- `recv` of at most so many bytes. -/
  recv : ω → ℕ → RecvAns × ω

/-! ### Writing -/

/-- The loop of `socket_write_all`: the answers to come, `remaining` bytes to write, and those taken. -/
def socketWriteLoop (pf : Platform) (len : ℕ) :
    List (PollAns × SendAns) → List Byte → List Byte → IoResult
  | _, [], taken => ⟨len, taken⟩
  | [], remaining, taken => ⟨len, taken ++ remaining⟩
  | (.timeout, _) :: _, _, taken => ⟨socketErrTimeout, taken⟩
  | (.fail err, _) :: script, remaining, taken =>
    if isSocketWouldblock pf err then socketWriteLoop pf len script remaining taken
    else ⟨socketErrIo, taken⟩
  | (.ready, .accept n) :: script, remaining, taken =>
    if n = 0 then ⟨socketErrIo, taken⟩
    else socketWriteLoop pf len script (remaining.drop n) (taken ++ remaining.take n)
  | (.ready, .fail err) :: script, remaining, taken =>
    if isSocketWouldblock pf err then socketWriteLoop pf len script remaining taken
    else ⟨socketErrIo, taken⟩

/-- `socket_write_all(sockfd, buf, len, timeout_ms)`. -/
def socketWriteAll (pf : Platform) (sockfd : ℤ) (script : List (PollAns × SendAns)) (buf : List Byte) :
    IoResult :=
  if sockfd < 0 then ⟨socketErrIo, []⟩ else socketWriteLoop pf buf.length script buf []

/-- A loop that does not fail has written everything. -/
theorem socketWriteLoop_ok {pf : Platform} {len : ℕ} {script : List (PollAns × SendAns)} {remaining taken : List Byte}
    (h : 0 ≤ (socketWriteLoop pf len script remaining taken).rc) :
    (socketWriteLoop pf len script remaining taken).bytes = taken ++ remaining := by
  induction script generalizing remaining taken with
  | nil => cases remaining <;> simp [socketWriteLoop]
  | cons ans script ih =>
    cases remaining with
    | nil => simp [socketWriteLoop]
    | cons b remaining =>
      rcases ans with ⟨err | _ | _, n | err'⟩ <;> simp only [socketWriteLoop] at h ⊢
      case fail.accept | fail.fail | ready.fail =>
        split_ifs at h ⊢
        · exact ih h
        · exact absurd h (not_le.mpr socketErrIo_neg)
      case timeout.accept | timeout.fail => exact absurd h (not_le.mpr socketErrTimeout_neg)
      case ready.accept =>
        split_ifs at h ⊢
        · exact absurd h (not_le.mpr socketErrIo_neg)
        · rw [ih h, List.append_assoc, List.take_append_drop]

/-- **A call that does not fail has written the buffer.** -/
theorem socketWriteAll_ok {pf : Platform} {sockfd : ℤ} {script : List (PollAns × SendAns)} {buf : List Byte}
    (h : 0 ≤ (socketWriteAll pf sockfd script buf).rc) : (socketWriteAll pf sockfd script buf).bytes = buf := by
  unfold socketWriteAll at h ⊢
  split_ifs at h ⊢
  · exact absurd h (by decide)
  · exact socketWriteLoop_ok h

/-! ### Reading -/

/-- `socket_read(sockfd, buf, len, timeout_ms)`. -/
def socketRead (pf : Platform) (k : Kernel ω) (sockfd : ℤ) (len : ℕ) (w : ω) : IoResult × ω :=
  if sockfd < 0 then (⟨socketErrIo, []⟩, w)
  else
    match k.poll w with
    | (.timeout, w) => (⟨socketErrTimeout, []⟩, w)
    | (.fail err, w) => if isSocketWouldblock pf err then (⟨0, []⟩, w) else (⟨socketErrIo, []⟩, w)
    | (.ready, w) =>
      match k.recv w len with
      | (.data bs, w) => (⟨(bs.take len).length, bs.take len⟩, w)
      | (.fail err, w) =>
        if isSocketWouldblock pf err then (⟨socketErrTimeout, []⟩, w) else (⟨socketErrIo, []⟩, w)

variable (pf : Platform) (k : Kernel ω) (sockfd : ℤ)

/-- **`socket_read` in brief**: an error, or no byte and `0`, or as many bytes as it says,
at most `len`. -/
theorem socketRead_spec (len : ℕ) (w : ω) :
    let r := (socketRead pf k sockfd len w).1
    (r.rc < 0 ∧ r.bytes = []) ∨ (r.rc = r.bytes.length ∧ r.bytes.length ≤ len) := by
  unfold socketRead
  split_ifs with hfd
  · exact .inl ⟨socketErrIo_neg, rfl⟩
  · rcases k.poll w with ⟨err | _ | _, w'⟩
    · dsimp only
      split_ifs
      · exact .inr ⟨rfl, Nat.zero_le _⟩
      · exact .inl ⟨socketErrIo_neg, rfl⟩
    · exact .inl ⟨socketErrTimeout_neg, rfl⟩
    · dsimp only
      rcases k.recv w' len with ⟨bs | err, w''⟩
      · exact .inr ⟨rfl, List.length_take_le _ _⟩
      · dsimp only
        split_ifs
        · exact .inl ⟨socketErrTimeout_neg, rfl⟩
        · exact .inl ⟨socketErrIo_neg, rfl⟩

/-- A positive result comes with bytes. -/
theorem socketRead_pos {len : ℕ} {w : ω} (h : 0 < (socketRead pf k sockfd len w).1.rc) :
    0 < (socketRead pf k sockfd len w).1.bytes.length := by
  rcases socketRead_spec pf k sockfd len w with ⟨hneg, -⟩ | ⟨hrc, -⟩ <;> omega

/-- The loop of `socket_read_exact`, with the bytes accumulated. -/
def socketReadExactLoop (len : ℕ) (accumulated : List Byte) (w : ω) : IoResult × ω :=
  if accumulated.length < len then
    let n := socketRead pf k sockfd (len - accumulated.length) w
    if 0 < n.1.rc then socketReadExactLoop len (accumulated ++ n.1.bytes) n.2
    else if n.1.rc = 0 then (⟨accumulated.length, accumulated⟩, n.2)
    else (⟨n.1.rc, accumulated⟩, n.2)
  else (⟨accumulated.length, accumulated⟩, w)
termination_by len - accumulated.length
decreasing_by
  rename_i hlt hpos
  have := socketRead_pos pf k sockfd hpos
  rw [List.length_append]
  omega

/-- `socket_read_exact(sockfd, buf, len, timeout_ms)`. -/
def socketReadExact (len : ℕ) (w : ω) : IoResult × ω :=
  if sockfd < 0 then (⟨socketErrIo, []⟩, w) else socketReadExactLoop pf k sockfd len [] w

/-- `socket_read_framed(sockfd, buf, max_len, timeout_ms)`. -/
def socketReadFramed (maxLen : ℕ) (w : ω) : IoResult × ω :=
  if sockfd < 0 ∨ maxLen < 2 then (⟨socketErrIo, []⟩, w)
  else
    let (header, w) := socketReadExact pf k sockfd 2 w
    if header.rc ≤ 0 then (header, w)
    else if header.rc < 2 then (⟨socketErrIo, header.bytes⟩, w)
    else
      let payloadLen := be16 (header.bytes.getD 0 0) (header.bytes.getD 1 0)
      let totalFrameLen := 2 + payloadLen
      if maxLen < totalFrameLen then (⟨socketErrIo, header.bytes⟩, w)
      else if 0 < payloadLen then
        let (payload, w) := socketReadExact pf k sockfd payloadLen w
        let bytes := header.bytes ++ payload.bytes
        if payload.rc < 0 then (⟨payload.rc, bytes⟩, w)
        else if payload.rc < payloadLen then (⟨socketErrIo, bytes⟩, w)
        else (⟨totalFrameLen, bytes⟩, w)
      else (⟨totalFrameLen, header.bytes⟩, w)

/-! ### A byte stream, cut into pieces -/

/-- What is left of a stream, and how much of it the coming receives ask to deliver. -/
structure Conn where
  rest : List Byte
  cuts : List ℕ
  deriving DecidableEq, Repr

/-- A socket that always is ready. A receive gives the next piece of the stream: the
size is the next cut, but at least one byte and at most what is asked for; when
no cut is left, all that is asked for; at the end of the stream, nothing. Every
splitting of the stream into receives is given by some cuts. -/
def streamKernel : Kernel Conn where
  poll c := (.ready, c)
  recv c len :=
    let size := min (max 1 (c.cuts.headD len)) len
    (.data (c.rest.take size), ⟨c.rest.drop size, c.cuts.tail⟩)

variable {sockfd}

/-- From a stream, `socket_read` takes a piece: at least a byte if there is one. -/
theorem socketRead_stream (hfd : 0 ≤ sockfd) {len : ℕ} (hlen : 0 < len) (c : Conn) :
    ∃ n c', 0 < n ∧ n ≤ len ∧ c'.rest = c.rest.drop n ∧
      socketRead pf streamKernel sockfd len c = (⟨(c.rest.take n).length, c.rest.take n⟩, c') := by
  refine ⟨min (max 1 (c.cuts.headD len)) len, ⟨_, c.cuts.tail⟩, by omega, by omega, rfl, ?_⟩
  have hclip : ∀ n, n ≤ len → (c.rest.take n).take len = c.rest.take n := fun n hn => by
    rw [List.take_take, Nat.min_eq_right hn]
  simp only [socketRead, not_lt.mpr hfd, if_false, streamKernel, hclip _ (Nat.min_le_right _ _)]

/-- **`socket_read_exact` takes what it is asked for from the stream, or all there is.** -/
theorem socketReadExactLoop_stream (hfd : 0 ≤ sockfd) (len : ℕ) (accumulated : List Byte) (c : Conn)
    (hacc : accumulated.length ≤ len) :
    ∃ c', c'.rest = c.rest.drop (len - accumulated.length) ∧
      socketReadExactLoop pf streamKernel sockfd len accumulated c =
        (⟨(accumulated ++ c.rest.take (len - accumulated.length)).length,
          accumulated ++ c.rest.take (len - accumulated.length)⟩, c') := by
  -- induction on the bytes still wanted; each read takes at least one
  induction hm : len - accumulated.length using Nat.strong_induction_on generalizing accumulated c with
  | _ m ih =>
    rw [socketReadExactLoop]
    split_ifs with hlt
    · obtain ⟨n, c₁, hn, hnm, hrest, hread⟩ := socketRead_stream pf hfd (Nat.sub_pos_of_lt hlt) c
      rw [hread]
      dsimp only
      by_cases hnil : c.rest = []
      · rw [hnil] at hrest ⊢
        simp only [List.take_nil, List.length_nil, Nat.cast_zero, lt_irrefl, if_false, if_true,
          List.append_nil]
        exact ⟨c₁, by rw [hrest]; simp, rfl⟩
      · have hpos : 0 < (c.rest.take n).length := by
          rw [List.length_take]
          have := List.length_pos_iff.mpr hnil
          omega
        rw [if_pos (by exact_mod_cast hpos)]
        have hle : (accumulated ++ c.rest.take n).length ≤ len := by
          rw [List.length_append, List.length_take]
          omega
        have hlen : (accumulated ++ c.rest.take n).length = accumulated.length + (c.rest.take n).length :=
          List.length_append
        obtain ⟨c₂, hrest₂, hloop⟩ := ih _ (by omega) (accumulated ++ c.rest.take n) c₁ hle rfl
        have hsplit : c.rest.take n ++ c₁.rest.take (len - (accumulated ++ c.rest.take n).length) =
            c.rest.take m := by
          rw [hrest, hlen, List.length_take]
          cases Nat.le_total n c.rest.length with
          | inl h =>
            rw [Nat.min_eq_left h, ← List.take_add]
            congr 1
            omega
          | inr h =>
            rw [List.drop_eq_nil_of_le h, List.take_nil, List.append_nil, List.take_of_length_le h,
              List.take_of_length_le (by omega)]
        refine ⟨c₂, ?_, ?_⟩
        · rw [hrest₂, hrest, List.drop_drop, hlen, List.length_take]
          cases Nat.le_total n c.rest.length with
          | inl h =>
            congr 1
            omega
          | inr h => rw [List.drop_eq_nil_of_le (by omega), List.drop_eq_nil_of_le (by omega)]
        · rw [hloop, List.append_assoc, hsplit]
    · have h0 : m = 0 := by omega
      subst h0
      exact ⟨c, rfl, by simp⟩

theorem socketReadExact_stream (hfd : 0 ≤ sockfd) (len : ℕ) (c : Conn) :
    ∃ c', c'.rest = c.rest.drop len ∧
      socketReadExact pf streamKernel sockfd len c = (⟨(c.rest.take len).length, c.rest.take len⟩, c') := by
  rw [socketReadExact, if_neg (not_lt.mpr hfd)]
  simpa using socketReadExactLoop_stream pf hfd len [] c (Nat.zero_le _)

end TcpClient
