import TcpClient.SocketClient

/-!
# The contract of the blocking reads

`socket_client.h` promises of `socket_read` that `0` means the end of the stream, and of
`socket_read_exact` that it gives `len` bytes, or `0` where the server closes before them, or an
error. The code keeps this as long as no `poll` fails with an error after which one would try again,
and the stream does not end between the first byte and the last (`blocking_reads_contract`): where it
does, the result is the number of the bytes there are, and where `poll` fails so, it is `0` or that
number, as if the stream had ended.
-/

namespace TcpClient

/-! ### Schedules -/

/-- What `poll` and `recv` answer, in each round from the first on. -/
abbrev Schedule := ℕ → PollAns × RecvAns

/-- The kernel that answers by a schedule; a `recv` ends the round. -/
def scheduled : Kernel Schedule where
  poll w := ((w 0).1, w)
  recv w _ := ((w 0).2, fun i => w (i + 1))

/-- The bytes `recv` has to give in a round. -/
def roundBytes : PollAns × RecvAns → List Byte
  | (.ready, .data bs) => bs
  | _ => []

/-- The stream, as far as the first `n` rounds deliver it. -/
def delivered (w : Schedule) (n : ℕ) : List Byte := (List.range n).flatMap fun i => roundBytes (w i)

/-- A call for `len` bytes comes to round `i`: every round before delivers, and not yet all of them. -/
def Made (w : Schedule) (len i : ℕ) : Prop :=
  (∀ j < i, roundBytes (w j) ≠ []) ∧ (delivered w i).length < len

/-- `recv`, asked for `room` bytes, gives none: the end of the stream. -/
def EndOfStream (room : ℕ) (r : PollAns × RecvAns) : Prop := r.1 = .ready ∧ r.2.clip room = .data []

/-- `poll` fails, and would have blocked. -/
def PollBlocked (pf : Platform) (r : PollAns × RecvAns) : Prop :=
  ∃ err, r.1 = .fail err ∧ isSocketWouldblock pf err = true

/-! ### The contracts -/

/-- `socket_read` returns `0` only where `recv` reported the end of the stream. -/
def ReadContract (w : Schedule) (len : ℕ) (r : IoResult) : Prop := r.rc = 0 → EndOfStream len (w 0)

/-- `socket_read_exact` returns `len` with the first `len` bytes of the stream, `0` where the stream ends
before them, or an error. -/
def ExactContract (w : Schedule) (len : ℕ) (r : IoResult) : Prop :=
  (r.rc = len ∧ r.bytes.length = len ∧
    ∃ n, (∀ j < n, roundBytes (w j) ≠ []) ∧ r.bytes = (delivered w n).take len) ∨
  (r.rc = 0 ∧ ∃ i, Made w len i ∧ EndOfStream len (w i)) ∨
  r.rc = socketErrTimeout ∨ r.rc = socketErrIo

/-! ### One read -/

/-- What `socket_read` returns in a round without bytes. -/
def stopRc (pf : Platform) : PollAns × RecvAns → ℤ
  | (.timeout, _) => socketErrTimeout
  | (.fail err, _) => if isSocketWouldblock pf err then 0 else socketErrIo
  | (.ready, .data _) => 0
  | (.ready, .fail err) => if isSocketWouldblock pf err then socketErrTimeout else socketErrIo

section Read

variable (pf : Platform) {sockfd : ℤ} (len : ℕ) (w : Schedule)

theorem endOfStream_iff {len : ℕ} (hlen : 0 < len) (r : PollAns × RecvAns) :
    EndOfStream len r ↔ r = (.ready, .data []) := by
  rcases r with ⟨answer, bs | err⟩
  · simp [EndOfStream, RecvAns.clip, List.take_eq_nil_iff, hlen.ne']
  · simp [EndOfStream, RecvAns.clip]

theorem eq_of_roundBytes {r : PollAns × RecvAns} (h : roundBytes r ≠ []) : r = (.ready, .data (roundBytes r)) := by
  rcases r with ⟨err | _ | _, bs | err'⟩
  case ready.data => rfl
  all_goals exact absurd rfl h

theorem socketRead_delivers (hfd : 0 ≤ sockfd) (h : roundBytes (w 0) ≠ []) :
    socketRead pf scheduled sockfd len w =
      (⟨((roundBytes (w 0)).take len).length, (roundBytes (w 0)).take len⟩, fun i => w (i + 1)) := by
  have hpoll : (w 0).1 = .ready := congrArg Prod.fst (eq_of_roundBytes h)
  have hrecv : (w 0).2 = .data (roundBytes (w 0)) := congrArg Prod.snd (eq_of_roundBytes h)
  simp only [socketRead, if_neg (not_lt.mpr hfd), scheduled, hpoll, hrecv]

theorem socketRead_stops (hfd : 0 ≤ sockfd) (h : roundBytes (w 0) = []) :
    (socketRead pf scheduled sockfd len w).1 = ⟨stopRc pf (w 0), []⟩ := by
  simp only [socketRead, if_neg (not_lt.mpr hfd), scheduled]
  rcases hw : w 0 with ⟨err | _ | _, bs | err'⟩ <;> simp only [hw, stopRc]
  case fail.data | fail.fail => split_ifs <;> rfl
  case ready.fail => split_ifs <;> rfl
  case ready.data =>
    rw [hw] at h
    have hnil : bs = [] := h
    rw [hnil, List.take_nil]
    rfl

/-- A round without bytes makes the read return `0` where the stream has ended or `poll` would have
blocked, and an error otherwise. -/
theorem stopRc_cases {r : PollAns × RecvAns} (h : roundBytes r = []) :
    (stopRc pf r = 0 ∧ (r = (.ready, .data []) ∨ PollBlocked pf r)) ∨
      ((stopRc pf r = socketErrTimeout ∨ stopRc pf r = socketErrIo) ∧ r ≠ (.ready, .data []) ∧ ¬ PollBlocked pf r) := by
  rcases r with ⟨err | _ | _, bs | err'⟩ <;> dsimp only [stopRc]
  case timeout.data | timeout.fail => exact Or.inr ⟨Or.inl rfl, by simp, by simp [PollBlocked]⟩
  case fail.data | fail.fail =>
    split_ifs with hblock
    · exact Or.inl ⟨rfl, Or.inr ⟨err, rfl, hblock⟩⟩
    · exact Or.inr ⟨Or.inr rfl, by simp, by simp [PollBlocked, hblock]⟩
  case ready.data =>
    have hnil : bs = [] := h
    exact Or.inl ⟨rfl, Or.inl (by rw [hnil])⟩
  case ready.fail =>
    refine Or.inr ⟨?_, by simp, by simp [PollBlocked]⟩
    split_ifs
    · exact Or.inl rfl
    · exact Or.inr rfl

theorem stopRc_neg {r : PollAns × RecvAns} (h : stopRc pf r = socketErrTimeout ∨ stopRc pf r = socketErrIo) :
    stopRc pf r < 0 := by
  rcases h with h | h
  · rw [h]
    exact socketErrTimeout_neg
  · rw [h]
    exact socketErrIo_neg

/-! ### The loop -/

theorem delivered_succ (w : Schedule) (n : ℕ) : delivered w (n + 1) = delivered w n ++ roundBytes (w n) := by
  rw [delivered, List.range_succ, List.flatMap_append, List.flatMap_singleton]
  rfl

/-- Rounds that deliver, and no fewer bytes the more there are. -/
theorem length_delivered_mono (w : Schedule) {m n : ℕ} (h : m ≤ n) :
    (delivered w m).length ≤ (delivered w n).length := by
  induction n, h using Nat.le_induction with
  | base => exact le_rfl
  | succ n _ ih =>
    rw [delivered_succ, List.length_append]
    omega

/-- A round of `socket_read_exact` that delivers: the bytes are appended, as far as they are asked for. -/
theorem socketReadExactLoop_delivers (hfd : 0 ≤ sockfd) {acc : List Byte} (hroom : acc.length < len)
    (h : roundBytes (w 0) ≠ []) :
    socketReadExactLoop pf scheduled sockfd len acc w =
      socketReadExactLoop pf scheduled sockfd len (acc ++ (roundBytes (w 0)).take (len - acc.length))
        fun i => w (i + 1) := by
  have hpos : 0 < (roundBytes (w 0)).length := List.length_pos_iff.mpr h
  have hcount : (0 : ℤ) < ((roundBytes (w 0)).take (len - acc.length)).length := by
    rw [List.length_take]
    omega
  rw [socketReadExactLoop, if_pos hroom]
  dsimp only
  rw [socketRead_delivers pf _ w hfd h]
  exact if_pos hcount

/-- A round that delivers nothing ends the call, with the number of the bytes there are or with an error. -/
theorem socketReadExactLoop_stops (hfd : 0 ≤ sockfd) {acc : List Byte} (hroom : acc.length < len)
    (h : roundBytes (w 0) = []) :
    (socketReadExactLoop pf scheduled sockfd len acc w).1.rc =
      if stopRc pf (w 0) = 0 then (acc.length : ℤ) else stopRc pf (w 0) := by
  rw [socketReadExactLoop, if_pos hroom]
  dsimp only
  rw [socketRead_stops pf _ w hfd h]
  rcases stopRc_cases pf h with ⟨hzero, -⟩ | ⟨hneg, -⟩
  · simp [hzero]
  · have hlt := stopRc_neg pf hneg
    simp [hlt.ne, not_lt.mpr hlt.le]

/-- **`socket_read_exact` in brief**, from any number of rounds that have delivered: it gets all of the
bytes, or comes to a round that delivers none and returns what there is, or an error. -/
theorem socketReadExactLoop_scheduled (hfd : 0 ≤ sockfd) (m : ℕ) (hbefore : ∀ j < m, roundBytes (w j) ≠ []) :
    let r := (socketReadExactLoop pf scheduled sockfd len ((delivered w m).take len) fun i => w (m + i)).1
    (∃ n, (∀ j < n, roundBytes (w j) ≠ []) ∧ len ≤ (delivered w n).length ∧ r = ⟨len, (delivered w n).take len⟩) ∨
      (∃ i, Made w len i ∧ roundBytes (w i) = [] ∧
        r.rc = if stopRc pf (w i) = 0 then ((delivered w i).length : ℤ) else stopRc pf (w i)) := by
  induction hleft : len - (delivered w m).length using Nat.strong_induction_on generalizing m with
  | _ left ih =>
    dsimp only
    by_cases hroom : (delivered w m).length < len
    · have htake : (delivered w m).take len = delivered w m := List.take_of_length_le hroom.le
      rw [htake]
      by_cases hnil : roundBytes (w m) = []
      · exact Or.inr ⟨m, ⟨hbefore, hroom⟩, hnil,
          socketReadExactLoop_stops pf len (fun i => w (m + i)) hfd hroom hnil⟩
      · have hnext : delivered w m ++ (roundBytes (w m)).take (len - (delivered w m).length) =
            (delivered w (m + 1)).take len := by
          rw [delivered_succ, List.take_append, htake]
        have hshift : (fun i => w (m + (i + 1))) = fun i => w (m + 1 + i) := by
          funext i
          rw [Nat.add_right_comm, Nat.add_assoc]
        have hround := socketReadExactLoop_delivers pf len (fun i => w (m + i)) hfd hroom hnil
        rw [Nat.add_zero, hnext, hshift] at hround
        have hpos : 0 < (roundBytes (w m)).length := List.length_pos_iff.mpr hnil
        have hless : len - (delivered w (m + 1)).length < left := by
          rw [delivered_succ, List.length_append]
          omega
        have hbefore' : ∀ j < m + 1, roundBytes (w j) ≠ [] := by
          intro j hj
          rcases Nat.lt_succ_iff_lt_or_eq.mp hj with hlt | rfl
          · exact hbefore j hlt
          · exact hnil
        rw [hround]
        exact ih _ hless (m + 1) hbefore' rfl
    · -- all bytes are there
      have hfull : ((delivered w m).take len).length = len := by
        rw [List.length_take]
        omega
      refine Or.inl ⟨m, hbefore, not_lt.mp hroom, ?_⟩
      rw [socketReadExactLoop, if_neg (by omega), hfull]

theorem socketReadExact_scheduled (hfd : 0 ≤ sockfd) :
    let r := (socketReadExact pf scheduled sockfd len w).1
    (∃ n, (∀ j < n, roundBytes (w j) ≠ []) ∧ len ≤ (delivered w n).length ∧ r = ⟨len, (delivered w n).take len⟩) ∨
      (∃ i, Made w len i ∧ roundBytes (w i) = [] ∧
        r.rc = if stopRc pf (w i) = 0 then ((delivered w i).length : ℤ) else stopRc pf (w i)) := by
  have hloop := socketReadExactLoop_scheduled pf len w hfd 0 fun j hj => absurd hj (Nat.not_lt_zero j)
  rw [show (fun i => w (0 + i)) = w from funext fun i => congrArg w (Nat.zero_add i),
    show (delivered w 0).take len = [] from List.take_nil] at hloop
  rw [socketReadExact, if_neg (not_lt.mpr hfd)]
  exact hloop

end Read

/-! ### Where the contract is kept -/

/-- In round `i` of a call for `len` bytes `poll` would have blocked, or the stream ends behind some
bytes. -/
def Interrupted (pf : Platform) (w : Schedule) (len i : ℕ) : Prop :=
  Made w len i ∧ (PollBlocked pf (w i) ∨ (delivered w i ≠ [] ∧ EndOfStream len (w i)))

section Contract

variable {pf : Platform} {w : Schedule} {len i : ℕ}

theorem PollBlocked.roundBytes {r : PollAns × RecvAns} (h : PollBlocked pf r) : roundBytes r = [] := by
  obtain ⟨err, hpoll, -⟩ := h
  rcases r with ⟨answer, recv⟩
  obtain rfl : answer = .fail err := hpoll
  rfl

theorem PollBlocked.not_end {r : PollAns × RecvAns} (h : PollBlocked pf r) : ¬ EndOfStream len r := by
  obtain ⟨err, hpoll, -⟩ := h
  rintro ⟨hready, -⟩
  rw [hpoll] at hready
  cases hready

theorem Interrupted.roundBytes (h : Interrupted pf w len i) : roundBytes (w i) = [] := by
  obtain ⟨⟨-, hless⟩, hblock | ⟨-, hend⟩⟩ := h
  · exact hblock.roundBytes
  · rw [(endOfStream_iff (Nat.zero_lt_of_lt hless) (w i)).mp hend]
    rfl

/-- As long as a round that delivers nothing is not passed, the bytes are not all there. -/
theorem Made.not_full (h : Made w len i) (hi : roundBytes (w i) = []) {n : ℕ} (hn : ∀ j < n, roundBytes (w j) ≠ []) :
    (delivered w n).length < len := by
  have hle : n ≤ i := by
    by_contra hlt
    exact hn i (not_le.mp hlt) hi
  exact Nat.lt_of_le_of_lt (length_delivered_mono w hle) h.2

/-- A call comes to one round only that delivers nothing. -/
theorem Made.unique {j : ℕ} (h : Made w len i) (hi : roundBytes (w i) = []) (h' : Made w len j)
    (hj : roundBytes (w j) = []) : i = j := by
  rcases Nat.lt_trichotomy i j with hlt | heq | hlt
  · exact absurd hi (h'.1 i hlt)
  · exact heq
  · exact absurd hj (h.1 j hlt)

/-- A call that comes to a round that delivers nothing is interrupted there, or not at all. -/
theorem exists_interrupted_iff (h : Made w len i) (hi : roundBytes (w i) = []) :
    (∃ j, Interrupted pf w len j) ↔ PollBlocked pf (w i) ∨ (delivered w i ≠ [] ∧ EndOfStream len (w i)) := by
  constructor
  · rintro ⟨j, hj⟩
    obtain rfl := hj.1.unique hj.roundBytes h hi
    exact hj.2
  · exact fun hwhy => ⟨i, h, hwhy⟩

/-- What there is at a round that delivers nothing is the result promised where it is nothing, and the
stream ends there. -/
theorem exactContract_stopped (h : Made w len i) (hi : roundBytes (w i) = []) {r : IoResult}
    (hrc : r.rc = (delivered w i).length) :
    ExactContract w len r ↔ delivered w i = [] ∧ EndOfStream len (w i) := by
  have hless := h.2
  constructor
  · rintro (⟨hall, -⟩ | ⟨hnone, j, hj, hend⟩ | htimeout | hio)
    · omega
    · have hjnil : roundBytes (w j) = [] := by
        rw [(endOfStream_iff (Nat.zero_lt_of_lt hless) (w j)).mp hend]
        rfl
      obtain rfl := hj.unique hjnil h hi
      exact ⟨List.eq_nil_of_length_eq_zero (by omega), hend⟩
    · rw [hrc, socketErrTimeout] at htimeout
      omega
    · rw [hrc, socketErrIo] at hio
      omega
  · rintro ⟨hempty, hend⟩
    refine Or.inr (Or.inl ⟨?_, i, h, hend⟩)
    rw [hrc, hempty]
    rfl

/-- `socket_read` keeps its contract exactly where its `poll` would not have blocked. -/
theorem socketRead_contract (pf : Platform) (sockfd : ℤ) (len : ℕ) (w : Schedule) :
    ReadContract w len (socketRead pf scheduled sockfd len w).1 ↔ ¬ (0 ≤ sockfd ∧ PollBlocked pf (w 0)) := by
  rcases lt_or_ge sockfd 0 with hbad | hfd
  · rw [socketRead, if_pos hbad]
    exact iff_of_true (fun h => absurd h socketErrIo_neg.ne) fun h => absurd hbad (not_lt.mpr h.1)
  · by_cases hnil : roundBytes (w 0) = []
    · have hstop := socketRead_stops pf len w hfd hnil
      rcases stopRc_cases pf hnil with ⟨hzero, hend | hblock⟩ | ⟨hneg, -, hblock⟩
      · have heos : EndOfStream len (w 0) := by
          rw [hend]
          exact ⟨rfl, congrArg RecvAns.data List.take_nil⟩
        exact iff_of_true (fun _ => heos) fun h => h.2.not_end heos
      · refine iff_of_false (fun h => ?_) (not_not.mpr ⟨hfd, hblock⟩)
        exact hblock.not_end (h (by rw [hstop, hzero]))
      · refine iff_of_true (fun h => ?_) fun h => hblock h.2
        rw [hstop] at h
        exact absurd h (stopRc_neg pf hneg).ne
    · refine iff_of_true (fun h => ?_) fun h => hnil h.2.roundBytes
      rw [socketRead_delivers pf len w hfd hnil] at h
      have hzero : (((roundBytes (w 0)).take len).length : ℤ) = 0 := h
      have hcount : (roundBytes (w 0)).take len = [] := List.eq_nil_of_length_eq_zero (by exact_mod_cast hzero)
      rw [EndOfStream, eq_of_roundBytes hnil, RecvAns.clip, hcount]
      exact ⟨rfl, rfl⟩

/-- **`socket_read_exact` keeps its contract exactly where it is not interrupted.** -/
theorem socketReadExact_contract (pf : Platform) (sockfd : ℤ) (len : ℕ) (w : Schedule) :
    ExactContract w len (socketReadExact pf scheduled sockfd len w).1 ↔
      ¬ (0 ≤ sockfd ∧ ∃ i, Interrupted pf w len i) := by
  rcases lt_or_ge sockfd 0 with hbad | hfd
  · rw [socketReadExact, if_pos hbad]
    exact iff_of_true (Or.inr (Or.inr (Or.inr rfl))) fun h => absurd hbad (not_lt.mpr h.1)
  · rcases socketReadExact_scheduled pf len w hfd with ⟨n, hn, hfull, hr⟩ | ⟨i, hmade, hnil, hrc⟩
    · -- all bytes have come, so that no round before cut the call short
      rw [hr]
      refine iff_of_true (Or.inl ⟨rfl, ?_, n, hn, rfl⟩) ?_
      · rw [List.length_take]
        omega
      · rintro ⟨-, i, hi⟩
        have hless := hi.1.not_full hi.roundBytes hn
        omega
    · have hlen : 0 < len := Nat.zero_lt_of_lt hmade.2
      rw [exists_interrupted_iff hmade hnil]
      rcases stopRc_cases pf hnil with ⟨hzero, hend | hblock⟩ | ⟨hneg, hend, hblock⟩
      · -- the end of the stream, behind some bytes or none
        rw [if_pos hzero] at hrc
        have heos : EndOfStream len (w i) := (endOfStream_iff hlen (w i)).mpr hend
        have hready : ¬ PollBlocked pf (w i) := fun hblock => hblock.not_end heos
        rw [exactContract_stopped hmade hnil hrc]
        simp [heos, hready, hfd]
      · -- what there is, as if the stream had ended in front of it
        rw [if_pos hzero] at hrc
        rw [exactContract_stopped hmade hnil hrc]
        exact iff_of_false (fun h => hblock.not_end h.2) (not_not.mpr ⟨hfd, Or.inl hblock⟩)
      · rw [if_neg (stopRc_neg pf hneg).ne] at hrc
        refine iff_of_true (Or.inr (Or.inr ?_)) ?_
        · rw [hrc]
          exact hneg
        · rintro ⟨-, hb | ⟨-, heos⟩⟩
          · exact hblock hb
          · exact hend ((endOfStream_iff hlen _).mp heos)

end Contract

/-- **Where the blocking reads keep their contract**, and that they do not keep it elsewhere. -/
theorem blocking_reads_contract (pf : Platform) (sockfd : ℤ) (len : ℕ) (w : Schedule) :
    (ReadContract w len (socketRead pf scheduled sockfd len w).1 ↔ ¬ (0 ≤ sockfd ∧ PollBlocked pf (w 0))) ∧
      (ExactContract w len (socketReadExact pf scheduled sockfd len w).1 ↔
        ¬ (0 ≤ sockfd ∧ ∃ i, Interrupted pf w len i)) :=
  ⟨socketRead_contract pf sockfd len w, socketReadExact_contract pf sockfd len w⟩

/-- A `poll` that would have blocked is reported as the end of the stream, and a server that closes behind
the first of four bytes as one byte. -/
theorem blocking_reads_cut_short :
    ((socketRead .posix scheduled 3 4 fun _ => (.fail .eagain, .data [])).1.rc = 0 ∧
      ¬ ReadContract (fun _ => (.fail .eagain, .data [])) 4
        (socketRead .posix scheduled 3 4 fun _ => (.fail .eagain, .data [])).1) ∧
    ((socketReadExact .posix scheduled 3 4 fun i => (.ready, .data (if i = 0 then [65] else []))).1.rc = 1 ∧
      ¬ ExactContract (fun i => (.ready, .data (if i = 0 then [65] else []))) 4
        (socketReadExact .posix scheduled 3 4 fun i => (.ready, .data (if i = 0 then [65] else []))).1) := by
  refine ⟨⟨rfl, ?_⟩, ⟨?_, ?_⟩⟩
  · rw [socketRead_contract, not_not]
    exact ⟨by decide, .eagain, rfl, rfl⟩
  · simp [socketReadExact, socketReadExactLoop, socketRead, scheduled]
  · rw [socketReadExact_contract, not_not]
    refine ⟨by decide, 1, ⟨?_, by decide⟩, Or.inr ⟨by decide, rfl, rfl⟩⟩
    intro j hj
    rw [Nat.lt_one_iff.mp hj]
    simp [roundBytes]

end TcpClient
