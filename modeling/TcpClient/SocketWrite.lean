import TcpClient.SocketClient
import TcpClient.Lib.Machine

/-!
# What `socket_write_all` transmits

`socket_write_all` with its own variables: a round of its loop is one step, so that what holds of
every state holds between any two calls of `send`. What is proved is that the bytes taken are at
every moment a prefix of the buffer, and that the result is the first of three events, all of the
buffer taken, a timeout, or an error (`socketWriteAll_rounds`).

`socketWriteAll`, which the rest of the development uses, is this loop on rounds that end with one
in which the socket takes whatever is left (`socketWriteAll_eq_run`).
-/

namespace TcpClient

open Machine

/-! ### The rounds -/

/-- The variables of `socket_write_all`, what each `send` took, and the result once there is one. -/
structure WriteAll where
  /-- `ptr`, counted from `buf`. -/
  ptr : ℕ := 0
  remaining : ℕ
  accepted : List (List Byte) := []
  rc : Option ℤ := none
  deriving DecidableEq, Repr

/-- `return rc`. -/
def WriteAll.ret (s : WriteAll) (rc : ℤ) : WriteAll := { s with rc := some rc }

/-- The loop condition, and what is returned when it fails. -/
def WriteAll.head (len : ℕ) (s : WriteAll) : WriteAll := if s.remaining = 0 then s.ret len else s

/-- `send` took `nsent` bytes. -/
def WriteAll.advance (buf : List Byte) (nsent : ℕ) (s : WriteAll) : WriteAll :=
  { s with
    ptr := s.ptr + nsent
    remaining := s.remaining - nsent
    accepted := s.accepted ++ [(buf.drop s.ptr).take nsent] }

/-- The conversion to `int`. -/
def toInt (n : ℕ) : ℤ := Int.bmod n (2 ^ 32)

/-- A round of the loop: `poll`, and `send(sockfd, ptr, (int)remaining, …)`. -/
def writeRound (pf : Platform) (buf : List Byte) (s : WriteAll) (r : PollAns × SendAns) : WriteAll :=
  match s.rc with
  | some _ => s
  | none =>
    match r with
    | (.timeout, _) => s.ret socketErrTimeout
    | (.fail err, _) => if isSocketWouldblock pf err then s else s.ret socketErrIo
    | (.ready, .accept n) =>
      let nsent := min n (toInt s.remaining).toNat
      if nsent = 0 then s.ret socketErrIo
      else (s.advance buf nsent).head buf.length
    | (.ready, .fail err) => if isSocketWouldblock pf err then s else s.ret socketErrIo

/-- The state in which the loop is entered, or has been returned from before. -/
def writeStart (sockfd : ℤ) (buf : List Byte) : WriteAll :=
  if sockfd < 0 then { remaining := buf.length, rc := some socketErrIo }
  else { remaining := buf.length : WriteAll }.head buf.length

/-! ### The events -/

/-- What a round comes to. -/
inductive RoundEnd where
  /-- Something is taken, or the round would have blocked, in `poll` or in `send`. -/
  | goes
  /-- `poll` times out. -/
  | timesOut
  /-- `poll` or `send` fails and would not have blocked, or `send` takes nothing. -/
  | breaks
  deriving DecidableEq, Repr

/-- The end of a round, as far as it depends on the answers. -/
def roundEnd (pf : Platform) : PollAns × SendAns → RoundEnd
  | (.timeout, _) => .timesOut
  | (.fail err, _) => if isSocketWouldblock pf err then .goes else .breaks
  | (.ready, .accept n) => if n = 0 then .breaks else .goes
  | (.ready, .fail err) => if isSocketWouldblock pf err then .goes else .breaks

/-- How many bytes a round would take. -/
def writeTakes : PollAns × SendAns → ℕ
  | (.ready, .accept n) => n
  | _ => 0

/-- Of the rounds one with the end `e` comes first, before the whole of `len` bytes is taken. -/
def FirstEnd (pf : Platform) (e : RoundEnd) (rounds : List (PollAns × SendAns)) (len : ℕ) : Prop :=
  Comes (roundEnd pf · = .goes) writeTakes (roundEnd pf · = e) rounds len

/-! ### The invariant -/

/-- What is taken and what is left make up the buffer, and nothing but the three results is returned. -/
structure WriteAll.Sound (buf : List Byte) (s : WriteAll) : Prop where
  count : s.ptr + s.remaining = buf.length
  accepted : s.accepted.flatten = buf.take s.ptr
  finished : s.rc = some (buf.length : ℤ) ↔ s.remaining = 0
  result : s.rc = none ∨ s.rc = some (buf.length : ℤ) ∨ s.rc = some socketErrTimeout ∨ s.rc = some socketErrIo

section Rounds

variable {pf : Platform} {buf : List Byte} {s : WriteAll}

theorem toInt_eq {n : ℕ} (h : n < 2 ^ 31) : toInt n = n := by
  unfold toInt
  exact Int.bmod_eq_of_le (by omega) (by omega)

theorem socketErrTimeout_ne_length (buf : List Byte) : socketErrTimeout ≠ (buf.length : ℤ) := by
  unfold socketErrTimeout
  omega

theorem socketErrIo_ne_length (buf : List Byte) : socketErrIo ≠ (buf.length : ℤ) := by
  unfold socketErrIo
  omega

/-- As long as the loop runs there is something left. -/
theorem WriteAll.Sound.left (h : s.Sound buf) (hrc : s.rc = none) : s.remaining ≠ 0 := by
  intro h0
  rw [h.finished.mpr h0] at hrc
  cases hrc

theorem WriteAll.Sound.ret (h : s.Sound buf) (hrc : s.rc = none) {rc : ℤ}
    (hresult : rc = socketErrTimeout ∨ rc = socketErrIo) : (s.ret rc).Sound buf := by
  have hleft := h.left hrc
  refine ⟨h.count, h.accepted, ?_, ?_⟩
  · have hne : rc ≠ (buf.length : ℤ) := by
      rcases hresult with rfl | rfl
      · exact socketErrTimeout_ne_length buf
      · exact socketErrIo_ne_length buf
    exact iff_of_false (fun heq => hne (Option.some.inj heq)) hleft
  · rcases hresult with rfl | rfl
    · exact Or.inr (Or.inr (Or.inl rfl))
    · exact Or.inr (Or.inr (Or.inr rfl))

/-- A round in which `n` bytes are taken. -/
theorem WriteAll.Sound.advance (h : s.Sound buf) (hrc : s.rc = none) {n : ℕ} (hn : n ≤ s.remaining) :
    ((s.advance buf n).head buf.length).Sound buf ∧
      ((s.advance buf n).head buf.length).remaining = s.remaining - n ∧
      (((s.advance buf n).head buf.length).rc = none ∨
        ((s.advance buf n).head buf.length).rc = some (buf.length : ℤ)) := by
  have hcount : s.ptr + n + (s.remaining - n) = buf.length := by
    have := h.count
    omega
  have htaken : (s.advance buf n).accepted.flatten = buf.take (s.ptr + n) := by
    rw [WriteAll.advance, List.flatten_append, h.accepted, List.flatten_singleton, List.take_add]
  unfold WriteAll.head
  split_ifs with hdone
  · exact ⟨⟨hcount, htaken, iff_of_true rfl hdone, Or.inr (Or.inl rfl)⟩, rfl, Or.inr rfl⟩
  · refine ⟨⟨hcount, htaken, iff_of_false ?_ hdone, Or.inl hrc⟩, rfl, Or.inl hrc⟩
    intro hlen
    exact absurd (hrc.symm.trans hlen) (by simp)

/-- **What a round does**: it returns, or it goes on with what it took. -/
theorem writeRound_cases (pf : Platform) (h : s.Sound buf) (hrc : s.rc = none) (hlen : buf.length < 2 ^ 31)
    (r : PollAns × SendAns) :
    (roundEnd pf r = .timesOut ∧ writeRound pf buf s r = s.ret socketErrTimeout) ∨
      (roundEnd pf r = .breaks ∧ writeRound pf buf s r = s.ret socketErrIo) ∨
      (roundEnd pf r = .goes ∧ (writeRound pf buf s r).Sound buf ∧
        (writeRound pf buf s r).remaining = s.remaining - writeTakes r ∧
        ((writeRound pf buf s r).rc = none ∨ (writeRound pf buf s r).rc = some (buf.length : ℤ))) := by
  have hcount := h.count
  have hasked : (toInt s.remaining).toNat = s.remaining := by
    rw [toInt_eq (by omega), Int.toNat_natCast]
  have hleft := h.left hrc
  unfold writeRound
  rw [hrc, hasked]
  rcases r with ⟨err | _ | _, n | err'⟩ <;> dsimp only [roundEnd, writeTakes]
  case timeout.accept | timeout.fail => exact Or.inl ⟨rfl, rfl⟩
  case fail.accept | fail.fail | ready.fail =>
    split_ifs
    · exact Or.inr (Or.inr ⟨rfl, h, rfl, Or.inl hrc⟩)
    · exact Or.inr (Or.inl ⟨rfl, rfl⟩)
  case ready.accept =>
    by_cases hn : n = 0
    · rw [hn, if_pos (Nat.zero_min _), if_pos rfl]
      exact Or.inr (Or.inl ⟨rfl, rfl⟩)
    · rw [if_neg hn, if_neg (by omega)]
      obtain ⟨hsound, hrest, hres⟩ := h.advance hrc (Nat.min_le_right n s.remaining)
      refine Or.inr (Or.inr ⟨rfl, hsound, ?_, hres⟩)
      rw [hrest]
      omega

theorem writeRound_sound (h : s.Sound buf) (hlen : buf.length < 2 ^ 31) (r : PollAns × SendAns) :
    (writeRound pf buf s r).Sound buf := by
  cases hrc : s.rc with
  | some rc =>
    unfold writeRound
    rw [hrc]
    exact h
  | none =>
    rcases writeRound_cases pf h hrc hlen r with ⟨-, heq⟩ | ⟨-, heq⟩ | ⟨-, hsound, -⟩
    · rw [heq]
      exact h.ret hrc (Or.inl rfl)
    · rw [heq]
      exact h.ret hrc (Or.inr rfl)
    · exact hsound

theorem run_writeRound_sound (h : s.Sound buf) (hlen : buf.length < 2 ^ 31) (rounds : List (PollAns × SendAns)) :
    (run (writeRound pf buf) s rounds).Sound buf := by
  induction rounds generalizing s with
  | nil => exact h
  | cons r rounds ih => exact ih (writeRound_sound h hlen r)

/-- What has returned stays as it is. -/
theorem run_writeRound_done {rc : ℤ} (hrc : s.rc = some rc) (rounds : List (PollAns × SendAns)) :
    run (writeRound pf buf) s rounds = s := by
  induction rounds with
  | nil => rfl
  | cons r rounds ih =>
    have hround : writeRound pf buf s r = s := by
      unfold writeRound
      rw [hrc]
    rw [run_cons, hround, ih]

theorem firstEnd_cons (e : RoundEnd) (r : PollAns × SendAns) (rounds : List (PollAns × SendAns)) (len : ℕ) :
    FirstEnd pf e (r :: rounds) len ↔
      (roundEnd pf r = e ∧ 0 < len) ∨
        (roundEnd pf r = .goes ∧ writeTakes r < len ∧ FirstEnd pf e rounds (len - writeTakes r)) :=
  comes_cons r rounds

/-- **An error is returned exactly where its event comes first.** -/
theorem run_writeRound_rc (h : s.Sound buf) (hrc : s.rc = none) (hlen : buf.length < 2 ^ 31)
    (rounds : List (PollAns × SendAns)) :
    ((run (writeRound pf buf) s rounds).rc = some socketErrTimeout ↔ FirstEnd pf .timesOut rounds s.remaining) ∧
      ((run (writeRound pf buf) s rounds).rc = some socketErrIo ↔ FirstEnd pf .breaks rounds s.remaining) := by
  have htimeout := socketErrTimeout_ne_length buf
  have hio := socketErrIo_ne_length buf
  have hdiffer : socketErrTimeout ≠ socketErrIo := by decide
  induction rounds generalizing s with
  | nil =>
    rw [run_nil, hrc]
    exact ⟨iff_of_false (by simp) not_comes_nil, iff_of_false (by simp) not_comes_nil⟩
  | cons r rounds ih =>
    have hleft : 0 < s.remaining := Nat.pos_of_ne_zero (h.left hrc)
    rw [run_cons, firstEnd_cons, firstEnd_cons]
    rcases writeRound_cases pf h hrc hlen r with ⟨hend, heq⟩ | ⟨hend, heq⟩ | ⟨hend, hsound, hrest, hres⟩
    · rw [heq, run_writeRound_done rfl, hend]
      simp [WriteAll.ret, hdiffer, hleft]
    · rw [heq, run_writeRound_done rfl, hend]
      simp [WriteAll.ret, hdiffer.symm, hleft]
    · rw [hend, ← hrest]
      cases hres with
      | inl hnone =>
        -- the loop goes on with what is left
        have hless : writeTakes r < s.remaining := by
          have := hsound.left hnone
          omega
        obtain ⟨hout, hbreak⟩ := ih hsound hnone
        rw [hout, hbreak]
        simp [hless]
      | inr hdone =>
        have hall : ¬ writeTakes r < s.remaining := by
          have := hsound.finished.mp hdone
          omega
        rw [run_writeRound_done hdone, hdone]
        simp [hall, htimeout.symm, hio.symm]

theorem writeStart_sound {sockfd : ℤ} (hfd : 0 ≤ sockfd) (buf : List Byte) :
    (writeStart sockfd buf).Sound buf ∧ (writeStart sockfd buf).remaining = buf.length := by
  rw [writeStart, if_neg (not_lt.mpr hfd)]
  unfold WriteAll.head
  split_ifs with hempty
  · exact ⟨⟨Nat.zero_add _, rfl, iff_of_true rfl hempty, Or.inr (Or.inl rfl)⟩, rfl⟩
  · exact ⟨⟨Nat.zero_add _, rfl, iff_of_false (by simp) hempty, Or.inl rfl⟩, rfl⟩

/-- The same from the start, also when there is nothing to write. -/
theorem run_writeStart_rc (pf : Platform) {sockfd : ℤ} (hfd : 0 ≤ sockfd) (hlen : buf.length < 2 ^ 31)
    (rounds : List (PollAns × SendAns)) :
    ((run (writeRound pf buf) (writeStart sockfd buf) rounds).rc = some socketErrTimeout ↔
        FirstEnd pf .timesOut rounds buf.length) ∧
      ((run (writeRound pf buf) (writeStart sockfd buf) rounds).rc = some socketErrIo ↔
        FirstEnd pf .breaks rounds buf.length) := by
  obtain ⟨hsound, hrest⟩ := writeStart_sound hfd buf
  cases hrc : (writeStart sockfd buf).rc with
  | none =>
    rw [← hrest]
    exact run_writeRound_rc hsound hrc hlen rounds
  | some rc =>
    have hempty : buf.length = 0 := by
      rw [writeStart, if_neg (not_lt.mpr hfd)] at hrc
      unfold WriteAll.head at hrc
      split_ifs at hrc with hempty
      exact hempty
    have hdone : (writeStart sockfd buf).rc = some (buf.length : ℤ) := hsound.finished.mpr (hrest.trans hempty)
    have hnot : ∀ e, ¬ FirstEnd pf e rounds buf.length := by
      rintro e ⟨_, _, _, _, _, _, hsum⟩
      omega
    rw [run_writeRound_done hdone, hdone]
    have htimeout := socketErrTimeout_ne_length buf
    have hio := socketErrIo_ne_length buf
    simp [hnot, htimeout.symm, hio.symm]

end Rounds

/-- **`socket_write_all` transmits a prefix, and success means everything.** After any rounds what
was taken is the buffer up to `ptr`; the result is the length exactly where all of it was taken,
and an error exactly where its event came first. -/
theorem socketWriteAll_rounds (pf : Platform) (sockfd : ℤ) (buf : List Byte) (hlen : buf.length < 2 ^ 31)
    (rounds : List (PollAns × SendAns)) :
    let s := run (writeRound pf buf) (writeStart sockfd buf) rounds
    s.accepted.flatten <+: buf ∧
      (0 ≤ sockfd →
        s.accepted.flatten = buf.take s.ptr ∧ s.ptr + s.remaining = buf.length ∧
        (s.rc = some (buf.length : ℤ) ↔ s.accepted.flatten = buf) ∧
        (s.rc = some socketErrTimeout ↔ FirstEnd pf .timesOut rounds buf.length) ∧
        (s.rc = some socketErrIo ↔ FirstEnd pf .breaks rounds buf.length) ∧
        (s.rc = none ∨ s.rc = some (buf.length : ℤ) ∨ s.rc = some socketErrTimeout ∨ s.rc = some socketErrIo)) ∧
      (sockfd < 0 → s.rc = some socketErrIo ∧ s.accepted = []) := by
  intro s
  rcases lt_or_ge sockfd 0 with hbad | hfd
  · have hs : s = { remaining := buf.length, rc := some socketErrIo } := by
      have hstart : writeStart sockfd buf = { remaining := buf.length, rc := some socketErrIo } := if_pos hbad
      exact (run_writeRound_done (by rw [hstart]) rounds).trans hstart
    rw [hs]
    exact ⟨List.nil_prefix, fun hfd => absurd hbad (not_lt.mpr hfd), fun _ => ⟨rfl, rfl⟩⟩
  · have hsound : s.Sound buf := run_writeRound_sound (writeStart_sound hfd buf).1 hlen rounds
    obtain ⟨htimeout, hio⟩ := run_writeStart_rc pf hfd hlen rounds
    have hall : s.rc = some (buf.length : ℤ) ↔ s.accepted.flatten = buf := by
      have hcount := hsound.count
      rw [hsound.finished, hsound.accepted]
      constructor
      · intro h0
        exact List.take_of_length_le (by omega)
      · intro htake
        have := congrArg List.length htake
        rw [List.length_take] at this
        omega
    refine ⟨?_, fun _ => ⟨hsound.accepted, hsound.count, hall, htimeout, hio, hsound.result⟩,
      fun hbad => absurd hbad (not_lt.mpr hfd)⟩
    rw [hsound.accepted]
    exact List.take_prefix _ _

/-- Two bytes, of which the first is taken, then nothing for a while, then the second. -/
theorem socketWriteAll_rounds_two :
    (run (writeRound .posix [104, 105]) (writeStart 3 [104, 105])
      [(.ready, .accept 1), (.ready, .fail .eagain), (.fail .eagain, .accept 0), (.ready, .accept 7)]).rc = some 2 ∧
    (run (writeRound .posix [104, 105]) (writeStart 3 [104, 105])
      [(.ready, .accept 1), (.ready, .fail .eagain), (.fail .eagain, .accept 0), (.ready, .accept 7)]).accepted.flatten =
        [104, 105] := by
  have hall := (socketWriteAll_rounds .posix 3 [104, 105] (by decide)
    [(.ready, .accept 1), (.ready, .fail .eagain), (.fail .eagain, .accept 0), (.ready, .accept 7)]).2.1 (by decide)
  have hflat : (run (writeRound .posix [104, 105]) (writeStart 3 [104, 105])
      [(.ready, .accept 1), (.ready, .fail .eagain), (.fail .eagain, .accept 0), (.ready, .accept 7)]).accepted.flatten =
        [104, 105] := by decide
  exact ⟨hall.2.2.1.mpr hflat, hflat⟩

/-! ### The call as a whole -/

section Call

variable {pf : Platform} {buf : List Byte}

/-- A round of the loop on what is left and what was taken. -/
theorem socketWriteLoop_cons {remaining : List Byte} (hne : remaining ≠ []) (len : ℕ) (r : PollAns × SendAns)
    (script : List (PollAns × SendAns)) (taken : List Byte) :
    socketWriteLoop pf len (r :: script) remaining taken =
      match roundEnd pf r with
      | .timesOut => ⟨socketErrTimeout, taken⟩
      | .breaks => ⟨socketErrIo, taken⟩
      | .goes =>
        socketWriteLoop pf len script (remaining.drop (writeTakes r)) (taken ++ remaining.take (writeTakes r)) := by
  obtain ⟨b, bs, rfl⟩ := List.exists_cons_of_ne_nil hne
  rcases r with ⟨err | _ | _, n | err'⟩ <;> dsimp only [socketWriteLoop, roundEnd, writeTakes]
  case fail.accept | fail.fail | ready.fail => split_ifs <;> simp
  case ready.accept => split_ifs <;> rfl

theorem drop_ne_nil {s : WriteAll} (h : s.Sound buf) (hrc : s.rc = none) : buf.drop s.ptr ≠ [] := by
  have hleft := h.left hrc
  have hcount := h.count
  rw [Ne, List.drop_eq_nil_iff]
  omega

theorem socketWriteLoop_nil (len : ℕ) (script : List (PollAns × SendAns)) (taken : List Byte) :
    socketWriteLoop pf len script [] taken = ⟨len, taken⟩ := by
  cases script <;> rfl

/-- Where nothing is left, all was taken and the length returned. -/
theorem WriteAll.Sound.all {s : WriteAll} (h : s.Sound buf) (hdone : s.remaining = 0) :
    s.rc = some (buf.length : ℤ) ∧ s.accepted.flatten = buf ∧ s.ptr = buf.length := by
  have hptr : s.ptr = buf.length := by
    have := h.count
    omega
  refine ⟨h.finished.mpr hdone, ?_, hptr⟩
  rw [h.accepted, hptr, List.take_length]

/-- What is left and what was taken, behind a round that took `n` bytes. -/
theorem WriteAll.Sound.next {s t : WriteAll} (h : s.Sound buf) (ht : t.Sound buf) {n : ℕ}
    (hrest : t.remaining = s.remaining - n) :
    (buf.drop s.ptr).drop n = buf.drop t.ptr ∧ buf.take s.ptr ++ (buf.drop s.ptr).take n = buf.take t.ptr := by
  have hcount := h.count
  have hcount' := ht.count
  rw [List.drop_drop, ← List.take_add]
  rcases Nat.le_total n s.remaining with hle | hle
  · have hptr : s.ptr + n = t.ptr := by omega
    rw [hptr]
    exact ⟨rfl, rfl⟩
  · rw [List.drop_eq_nil_of_le (by omega), List.drop_eq_nil_of_le (by omega),
      List.take_of_length_le (by omega), List.take_of_length_le (by omega)]
    exact ⟨rfl, rfl⟩

/-- Once the call has returned the length, further rounds change nothing. -/
theorem socketWriteLoop_done {s : WriteAll} (h : s.Sound buf) (hdone : s.rc = some (buf.length : ℤ))
    (rounds script : List (PollAns × SendAns)) :
    (run (writeRound pf buf) s rounds).rc =
        some (socketWriteLoop pf buf.length script (buf.drop s.ptr) (buf.take s.ptr)).rc ∧
      (run (writeRound pf buf) s rounds).accepted.flatten =
        (socketWriteLoop pf buf.length script (buf.drop s.ptr) (buf.take s.ptr)).bytes := by
  obtain ⟨-, hall, hptr⟩ := h.all (h.finished.mp hdone)
  rw [run_writeRound_done hdone, hptr, List.drop_length, List.take_length, socketWriteLoop_nil]
  exact ⟨hdone, hall⟩

/-- A round that takes whatever is left. -/
theorem writeRound_rest (pf : Platform) {s : WriteAll} (h : s.Sound buf) (hrc : s.rc = none)
    (hlen : buf.length < 2 ^ 31) :
    (writeRound pf buf s (.ready, .accept buf.length)).Sound buf ∧
      (writeRound pf buf s (.ready, .accept buf.length)).remaining = 0 := by
  have hleft := h.left hrc
  have hcount := h.count
  have hgoes : roundEnd pf (.ready, .accept buf.length) = .goes := if_neg (by omega)
  rcases writeRound_cases pf h hrc hlen (.ready, .accept buf.length) with ⟨hend, -⟩ | ⟨hend, -⟩ | ⟨-, hsound, hrest, -⟩
  · rw [hgoes] at hend
    cases hend
  · rw [hgoes] at hend
    cases hend
  · refine ⟨hsound, ?_⟩
    rw [hrest, writeTakes]
    omega

/-- From any state the rounds of a script, and one that takes whatever is left, give what
`socketWriteLoop` gives. -/
theorem socketWriteLoop_eq_run (pf : Platform) {s : WriteAll} (h : s.Sound buf)
    (hrc : s.rc = none ∨ s.rc = some (buf.length : ℤ)) (hlen : buf.length < 2 ^ 31)
    (script : List (PollAns × SendAns)) :
    let t := run (writeRound pf buf) s (script ++ [(.ready, .accept buf.length)])
    t.rc = some (socketWriteLoop pf buf.length script (buf.drop s.ptr) (buf.take s.ptr)).rc ∧
      t.accepted.flatten = (socketWriteLoop pf buf.length script (buf.drop s.ptr) (buf.take s.ptr)).bytes := by
  induction script generalizing s with
  | nil =>
    rcases hrc with hnone | hdone
    · have hne : buf.drop s.ptr ≠ [] := drop_ne_nil h hnone
      have hrest := writeRound_rest pf h hnone hlen
      obtain ⟨hrc, hall, -⟩ := hrest.1.all hrest.2
      have hloop : socketWriteLoop pf buf.length [] (buf.drop s.ptr) (buf.take s.ptr) = ⟨buf.length, buf⟩ := by
        obtain ⟨b, bs, hleft⟩ := List.exists_cons_of_ne_nil hne
        rw [hleft, socketWriteLoop, ← hleft, List.take_append_drop]
        exact List.cons_ne_nil b bs
      rw [hloop]
      exact ⟨hrc, hall⟩
    · exact socketWriteLoop_done h hdone _ _
  | cons r script ih =>
    rcases hrc with hnone | hdone
    · rw [List.cons_append, run_cons, socketWriteLoop_cons (drop_ne_nil h hnone)]
      rcases writeRound_cases pf h hnone hlen r with ⟨hend, heq⟩ | ⟨hend, heq⟩ | ⟨hend, hsound, hrest, hres⟩
      · rw [heq, run_writeRound_done rfl, hend]
        exact ⟨rfl, h.accepted⟩
      · rw [heq, run_writeRound_done rfl, hend]
        exact ⟨rfl, h.accepted⟩
      · obtain ⟨hdrop, htake⟩ := h.next hsound hrest
        rw [hend]
        dsimp only
        rw [hdrop, htake]
        exact ih hsound hres
    · exact socketWriteLoop_done h hdone _ _

/-- **`socketWriteAll` is the loop**, on the rounds of its script and one that takes whatever is left. -/
theorem socketWriteAll_eq_run (pf : Platform) (sockfd : ℤ) (hlen : buf.length < 2 ^ 31)
    (script : List (PollAns × SendAns)) :
    let t := run (writeRound pf buf) (writeStart sockfd buf) (script ++ [(.ready, .accept buf.length)])
    t.rc = some (socketWriteAll pf sockfd script buf).rc ∧
      t.accepted.flatten = (socketWriteAll pf sockfd script buf).bytes := by
  intro t
  rcases lt_or_ge sockfd 0 with hbad | hfd
  · have hstart : writeStart sockfd buf = { remaining := buf.length, rc := some socketErrIo } := if_pos hbad
    have ht : t = { remaining := buf.length, rc := some socketErrIo } :=
      (run_writeRound_done (by rw [hstart]) _).trans hstart
    rw [ht, socketWriteAll, if_pos hbad]
    exact ⟨rfl, rfl⟩
  · have hstart : (writeStart sockfd buf).ptr = 0 ∧
        ((writeStart sockfd buf).rc = none ∨ (writeStart sockfd buf).rc = some (buf.length : ℤ)) := by
      rw [writeStart, if_neg (not_lt.mpr hfd)]
      unfold WriteAll.head
      split_ifs
      · exact ⟨rfl, Or.inr rfl⟩
      · exact ⟨rfl, Or.inl rfl⟩
    have hloop := socketWriteLoop_eq_run pf (writeStart_sound hfd buf).1 hstart.2 hlen script
    rw [hstart.1, List.drop_zero, List.take_zero] at hloop
    rw [socketWriteAll, if_neg (not_lt.mpr hfd)]
    exact hloop

end Call

end TcpClient
