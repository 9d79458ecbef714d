import TcpClient.SocketClient

/-!
# Connecting

`socket_connect` of `socket_client.c`: the addresses `getaddrinfo` found are tried one after another,
each with up to five calls, and the first that connects is returned. What the calls answer is the
input, an `Attempt` for each address; what is done to descriptors and to the address list is written
to a log (`SockEvent`), from which it is read off which descriptors are open (`openAfter`).

## What is proved

* `connectAddress_eq` — an address is passed over, or connects and leaves its descriptor open, or
  closes it and sets the error of its class (`Attempt.errorClass`).
* `socketConnect_first` — the first address that connects is returned and none tried after it; otherwise
  the last address that had a socket gives the error; and no descriptor but the one returned is left open.

The notices of `-v` are left out, and the time limit, which is only handed to `poll`.
-/

namespace TcpClient

/-- `SOCKET_ERR_DNS`. -/
def socketErrDns : ℤ := -2

/-- `SOCKET_ERR_REFUSED`. -/
def socketErrRefused : ℤ := -3

/-! ### The calls for one address -/

/-- What `getsockopt(sockfd, SOL_SOCKET, SO_ERROR, …)` gives: it fails, or it gives `so_error`, `none`
for `0`. -/
inductive SoErrorAns where
  | fail
  | value (soError : Option Errno)
  deriving DecidableEq, Repr

/-- What the calls for one address answer; only those that are made are looked at. -/
structure Attempt where
  /-- What `socket` returns, negative if it fails. -/
  socket : ℤ
  /-- Whether `set_socket_nonblocking` succeeds. -/
  nonblocking : Bool
  /-- The error of `connect`, `none` if it returns `0`. -/
  connect : Option Errno
  poll : PollAns
  soError : SoErrorAns
  deriving DecidableEq, Repr

/-- What is done to descriptors and to the address list. -/
inductive SockEvent where
  /-- `socket` returned `fd`. -/
  | socket (fd : ℤ)
  /-- `platform_socket_close(fd)`. -/
  | close (fd : ℤ)
  | freeaddrinfo
  deriving DecidableEq, Repr

/-- How the body of the loop ends. -/
inductive AttemptEnd where
  /-- `continue`, with `last_error` as it was. -/
  | skipped
  /-- `continue`, with `last_error` set. -/
  | failed (lastError : ℤ)
  | connected
  deriving DecidableEq, Repr

/-- The body of the loop: what it does for one address, and how it ends. -/
def connectAddress (pf : Platform) (a : Attempt) : List SockEvent × AttemptEnd :=
  if a.socket < 0 then ([.socket a.socket], .skipped)
  else if !a.nonblocking then ([.socket a.socket, .close a.socket], .failed socketErrIo)
  else
    match a.connect with
    | none => ([.socket a.socket], .connected)
    | some err =>
      if !isSocketWouldblock pf err then
        ([.socket a.socket, .close a.socket],
          .failed (if isSocketRefused err then socketErrRefused else socketErrIo))
      else
        match a.poll with
        | .timeout => ([.socket a.socket, .close a.socket], .failed socketErrTimeout)
        | .fail _ => ([.socket a.socket, .close a.socket], .failed socketErrIo)
        | .ready =>
          match a.soError with
          | .fail => ([.socket a.socket, .close a.socket], .failed socketErrIo)
          | .value none => ([.socket a.socket], .connected)
          | .value (some soError) =>
            ([.socket a.socket, .close a.socket],
              .failed (if isSocketRefused soError then socketErrRefused
                else if isSocketTimeout soError then socketErrTimeout
                else socketErrIo))

/-- The loop over the addresses: the log, and what is returned. -/
def connectLoop (pf : Platform) : List Attempt → ℤ → List SockEvent × ℤ
  | [], lastError => ([.freeaddrinfo], lastError)
  | a :: addrs, lastError =>
    match connectAddress pf a with
    | (log, .skipped) => let r := connectLoop pf addrs lastError; (log ++ r.1, r.2)
    | (log, .failed lastError) => let r := connectLoop pf addrs lastError; (log ++ r.1, r.2)
    | (log, .connected) => (log ++ [.freeaddrinfo], a.socket)

/-- `socket_connect(host, port, timeout_ms, verbose)`, with the addresses `getaddrinfo` finds, `none` if
it fails. -/
def socketConnect (pf : Platform) (host : List Byte) (port : ℤ) (resolved : Option (List Attempt)) :
    List SockEvent × ℤ :=
  match socketConnectCheck host port with
  | some rc => ([], rc)
  | none =>
    match resolved with
    | none => ([], socketErrDns)
    | some addrs => connectLoop pf addrs socketErrRefused

/-! ### What it is for -/

/-- The connection is being made, and `poll` waits for it. -/
def Attempt.underway (pf : Platform) (a : Attempt) : Bool :=
  a.nonblocking && a.connect.any (isSocketWouldblock pf)

/-- The attempt ends with a connection, at once or after `poll`. -/
def Attempt.succeeds (pf : Platform) (a : Attempt) : Bool :=
  decide (0 ≤ a.socket) && a.nonblocking &&
    (a.connect.isNone || (a.underway pf && a.poll = .ready && a.soError = .value none))

/-- The error the connection ended with, once `poll` is ready. -/
def SoErrorAns.error : SoErrorAns → Option Errno
  | .fail => none
  | .value soError => soError

/-- The other side refuses, at once or later, or cannot be reached. -/
def Attempt.refused (pf : Platform) (a : Attempt) : Bool :=
  a.nonblocking && a.connect.any isSocketRefused ||
    (a.underway pf && a.poll = .ready && a.soError.error.any isSocketRefused)

/-- The time is up for this side or for the other. -/
def Attempt.timesOut (pf : Platform) (a : Attempt) : Bool :=
  a.underway pf && (a.poll = .timeout || (a.poll = .ready && a.soError.error.any isSocketTimeout))

/-- The error class of an attempt that does not succeed. -/
def Attempt.errorClass (pf : Platform) (a : Attempt) : ℤ :=
  if a.refused pf then socketErrRefused else if a.timesOut pf then socketErrTimeout else socketErrIo

/-- The descriptors open after the events of a log, of those it opens itself; `none` where one is closed
that is not open. -/
def openAfter : List SockEvent → List ℤ → Option (List ℤ)
  | [], fds => some fds
  | .socket fd :: log, fds => openAfter log (if 0 ≤ fd then fd :: fds else fds)
  | .close fd :: log, fds => if fd ∈ fds then openAfter log (fds.erase fd) else none
  | .freeaddrinfo :: log, fds => openAfter log fds

/-- What the calls of `socket` returned, in order: one for each address tried. -/
def socketsOf : List SockEvent → List ℤ
  | [] => []
  | .socket fd :: log => fd :: socketsOf log
  | .close _ :: log => socketsOf log
  | .freeaddrinfo :: log => socketsOf log

section Connect

variable {pf : Platform} {a : Attempt}

/-- An error after which one waits is no refusal. -/
theorem not_refused_of_wouldblock {err : Errno} (h : isSocketWouldblock pf err = true) :
    isSocketRefused err = false := by
  cases pf <;> cases err <;> first | rfl | exact absurd h (by decide)

/-- **One address**: passed over, or connected with its descriptor left open, or closed again with the
error of its class. -/
theorem connectAddress_eq (pf : Platform) (a : Attempt) :
    connectAddress pf a =
      if a.socket < 0 then ([.socket a.socket], .skipped)
      else if a.succeeds pf then ([.socket a.socket], .connected)
      else ([.socket a.socket, .close a.socket], .failed (a.errorClass pf)) := by
  rcases a with ⟨fd, nonblocking, conn, answer, soError⟩
  unfold connectAddress
  dsimp only
  by_cases hfd : fd < 0
  · rw [if_pos hfd, if_pos hfd]
  · rw [if_neg hfd, if_neg hfd]
    cases nonblocking with
    | false => simp [Attempt.succeeds, Attempt.errorClass, Attempt.timesOut, Attempt.refused, Attempt.underway]
    | true =>
      cases conn with
      | none => simp [Attempt.succeeds, not_lt.mp hfd]
      | some err =>
        by_cases hblock : isSocketWouldblock pf err = true
        · have hnot := not_refused_of_wouldblock hblock
          rcases answer with err' | _ | _
          · simp [Attempt.succeeds, Attempt.errorClass, Attempt.timesOut, Attempt.refused, hblock, hnot]
          · simp [Attempt.succeeds, Attempt.errorClass, Attempt.refused, Attempt.timesOut, Attempt.underway, hblock,
              hnot]
          · rcases soError with _ | _ | soErr
            · simp [Attempt.succeeds, Attempt.errorClass, Attempt.timesOut, Attempt.refused, SoErrorAns.error, hblock,
                hnot]
            · simp [Attempt.succeeds, Attempt.underway, hblock, not_lt.mp hfd]
            · -- `so_error` says why the connection was not made
              simp [Attempt.succeeds, Attempt.errorClass, Attempt.timesOut, Attempt.refused, Attempt.underway,
                SoErrorAns.error, hblock, hnot]
        · simp [Attempt.succeeds, Attempt.errorClass, Attempt.timesOut, Attempt.refused, Attempt.underway, hblock]

/-! ### The loop over the addresses -/

/-- What an address leaves in the log that does not connect: if it had a socket, that is closed again. -/
def failedEvents (a : Attempt) : List SockEvent :=
  .socket a.socket :: if a.socket < 0 then [] else [.close a.socket]

/-- The error after addresses that do not connect: that of the last one which had a socket. -/
def lastErrorOf (pf : Platform) (addrs : List Attempt) (lastError : ℤ) : ℤ :=
  ((addrs.filter fun a => decide (0 ≤ a.socket)).getLast?.map (Attempt.errorClass pf)).getD lastError

theorem Attempt.socket_nonneg (h : a.succeeds pf = true) : 0 ≤ a.socket := by
  rw [Attempt.succeeds, Bool.and_eq_true, Bool.and_eq_true, decide_eq_true_eq] at h
  exact h.1.1

/-- Addresses that do not connect are tried one after another. -/
theorem connectLoop_failed {before : List Attempt} (h : ∀ b ∈ before, b.succeeds pf = false) (addrs : List Attempt)
    (lastError : ℤ) :
    connectLoop pf (before ++ addrs) lastError =
      (before.flatMap failedEvents ++ (connectLoop pf addrs (lastErrorOf pf before lastError)).1,
        (connectLoop pf addrs (lastErrorOf pf before lastError)).2) := by
  induction before generalizing lastError with
  | nil => rfl
  | cons b before ih =>
    rw [List.forall_mem_cons] at h
    rw [List.cons_append, connectLoop, connectAddress_eq, h.1]
    by_cases hfd : b.socket < 0
    · have hlast : lastErrorOf pf (b :: before) lastError = lastErrorOf pf before lastError := by
        rw [lastErrorOf, List.filter_cons_of_neg (by simpa using hfd), lastErrorOf]
      have hevents : failedEvents b = [.socket b.socket] := by rw [failedEvents, if_pos hfd]
      rw [if_pos hfd]
      dsimp only
      rw [ih h.2, hlast, List.flatMap_cons, hevents, List.append_assoc]
    · have hlast : lastErrorOf pf (b :: before) lastError = lastErrorOf pf before (b.errorClass pf) := by
        rw [lastErrorOf, List.filter_cons_of_pos (by simpa using hfd), List.getLast?_cons, lastErrorOf]
        cases (before.filter fun a => decide (0 ≤ a.socket)).getLast? <;> rfl
      have hevents : failedEvents b = [.socket b.socket, .close b.socket] := by rw [failedEvents, if_neg hfd]
      rw [if_neg hfd, if_neg Bool.false_ne_true]
      dsimp only
      rw [ih h.2, hlast, List.flatMap_cons, hevents, List.append_assoc]

theorem connectLoop_connected (h : a.succeeds pf = true) (addrs : List Attempt) (lastError : ℤ) :
    connectLoop pf (a :: addrs) lastError = ([.socket a.socket, .freeaddrinfo], a.socket) := by
  rw [connectLoop, connectAddress_eq, if_neg (not_lt.mpr (Attempt.socket_nonneg h)), if_pos h]
  rfl

/-! ### What the log says -/

/-- After addresses that do not connect the same descriptors are open as before. -/
theorem openAfter_failed (before : List Attempt) (log : List SockEvent) (fds : List ℤ) :
    openAfter (before.flatMap failedEvents ++ log) fds = openAfter log fds := by
  induction before with
  | nil => rfl
  | cons b before ih =>
    rw [List.flatMap_cons, List.append_assoc, failedEvents]
    split_ifs with hfd
    · rw [List.cons_append, List.nil_append, openAfter, if_neg (not_le.mpr hfd), ih]
    · rw [List.cons_append, List.singleton_append, openAfter, if_pos (not_lt.mp hfd), openAfter,
        if_pos List.mem_cons_self, List.erase_cons_head, ih]

theorem socketsOf_failed (before : List Attempt) (log : List SockEvent) :
    socketsOf (before.flatMap failedEvents ++ log) = before.map Attempt.socket ++ socketsOf log := by
  induction before with
  | nil => rfl
  | cons b before ih =>
    rw [List.flatMap_cons, List.append_assoc, failedEvents, List.map_cons]
    split_ifs with hfd
    · rw [List.cons_append, List.nil_append, socketsOf, ih, List.cons_append]
    · rw [List.cons_append, List.singleton_append, socketsOf, socketsOf, ih, List.cons_append]

theorem freeaddrinfo_not_mem_failed (before : List Attempt) : .freeaddrinfo ∉ before.flatMap failedEvents := by
  intro h
  obtain ⟨b, -, hb⟩ := List.mem_flatMap.mp h
  rw [failedEvents] at hb
  split_ifs at hb <;> simp at hb

/-- Errors are negative, so that no error is a descriptor. -/
theorem lastErrorOf_neg (pf : Platform) (addrs : List Attempt) {lastError : ℤ} (h : lastError < 0) :
    lastErrorOf pf addrs lastError < 0 := by
  have hclass : ∀ a : Attempt, a.errorClass pf < 0 := by
    intro a
    unfold Attempt.errorClass
    split_ifs
    · exact show socketErrRefused < 0 by decide
    · exact socketErrTimeout_neg
    · exact socketErrIo_neg
  unfold lastErrorOf
  cases (addrs.filter fun a => decide (0 ≤ a.socket)).getLast? with
  | none => exact h
  | some a => exact hclass a

/-- The events of a log, and then those of another. -/
theorem openAfter_append (log log' : List SockEvent) (fds : List ℤ) :
    openAfter (log ++ log') fds = (openAfter log fds).bind (openAfter log') := by
  induction log generalizing fds with
  | nil => rfl
  | cons event log ih =>
    cases event with
    | socket fd => exact ih _
    | close fd =>
      rw [List.cons_append, openAfter, openAfter]
      split_ifs
      · exact ih _
      · rfl
    | freeaddrinfo => exact ih _

/-- The error after addresses that do not connect is that of a refusal, a timeout or another. -/
theorem lastErrorOf_mem (pf : Platform) (addrs : List Attempt) {lastError : ℤ}
    (h : lastError ∈ [socketErrRefused, socketErrTimeout, socketErrIo]) :
    lastErrorOf pf addrs lastError ∈ [socketErrRefused, socketErrTimeout, socketErrIo] := by
  unfold lastErrorOf
  cases (addrs.filter fun a => decide (0 ≤ a.socket)).getLast? with
  | none => exact h
  | some a =>
    show a.errorClass pf ∈ _
    unfold Attempt.errorClass
    split_ifs <;> simp

/-- **The loop over the addresses** ends with the descriptor of one that connects, the only one left open, or
with the error of the last and none open. -/
theorem connectLoop_cases (pf : Platform) (addrs : List Attempt) (lastError : ℤ) :
    (∃ a ∈ addrs, a.succeeds pf = true ∧ (connectLoop pf addrs lastError).2 = a.socket ∧
        openAfter (connectLoop pf addrs lastError).1 [] = some [a.socket]) ∨
      ((∀ a ∈ addrs, a.succeeds pf = false) ∧
        (connectLoop pf addrs lastError).2 = lastErrorOf pf addrs lastError ∧
        openAfter (connectLoop pf addrs lastError).1 [] = some []) := by
  cases hfind : addrs.find? (Attempt.succeeds pf) with
  | none =>
    have hall : ∀ a ∈ addrs, a.succeeds pf = false := by
      intro a ha
      simpa using List.find?_eq_none.mp hfind a ha
    have hloop := connectLoop_failed hall [] lastError
    rw [List.append_nil] at hloop
    rw [hloop, openAfter_failed]
    exact .inr ⟨hall, rfl, rfl⟩
  | some a =>
    obtain ⟨ha, before, after, hsplit, hbefore⟩ := List.find?_eq_some_iff_append.mp hfind
    have hfailed : ∀ b ∈ before, b.succeeds pf = false := fun b hb => by simpa using hbefore b hb
    have hfd := Attempt.socket_nonneg ha
    rw [hsplit, connectLoop_failed hfailed, connectLoop_connected ha, openAfter_failed]
    refine .inl ⟨a, by simp, ha, rfl, ?_⟩
    rw [openAfter, if_pos hfd]
    rfl

end Connect

/-- **`socket_connect` tries the addresses in order and leaks no descriptor.** The first that connects is
returned and none tried after it; where none does, the last that had a socket gives the error. On
return nothing but the descriptor returned is open, and the list of addresses has been freed, once and
last of all. -/
theorem socketConnect_first (pf : Platform) (host : List Byte) (port : ℤ) (addrs : List Attempt)
    (hargs : socketConnectCheck host port = none) :
    let r := socketConnect pf host port (some addrs)
    (∀ before a after, addrs = before ++ a :: after → (∀ b ∈ before, b.succeeds pf = false) →
      a.succeeds pf = true → r.2 = a.socket ∧ socketsOf r.1 = (before ++ [a]).map Attempt.socket) ∧
    ((∀ a ∈ addrs, a.succeeds pf = false) →
      r.2 = ((addrs.filter fun a => decide (0 ≤ a.socket)).getLast?.map (Attempt.errorClass pf)).getD
        socketErrRefused ∧
      r.2 < 0 ∧ socketsOf r.1 = addrs.map Attempt.socket) ∧
    openAfter r.1 [] = some (if 0 ≤ r.2 then [r.2] else []) ∧
    ∃ events, r.1 = events ++ [.freeaddrinfo] ∧ .freeaddrinfo ∉ events := by
  intro r
  have hr : r = connectLoop pf addrs socketErrRefused := by
    rw [show r = socketConnect pf host port (some addrs) from rfl, socketConnect, hargs]
  have hrefused : socketErrRefused < 0 := by decide
  have hconnected : ∀ before a after, addrs = before ++ a :: after → (∀ b ∈ before, b.succeeds pf = false) →
      a.succeeds pf = true → r = (before.flatMap failedEvents ++ [.socket a.socket, .freeaddrinfo], a.socket) := by
    rintro before a after rfl hbefore ha
    rw [hr, connectLoop_failed hbefore, connectLoop_connected ha]
  have hfailed : (∀ a ∈ addrs, a.succeeds pf = false) →
      r = (addrs.flatMap failedEvents ++ [.freeaddrinfo], lastErrorOf pf addrs socketErrRefused) := by
    intro hall
    rw [hr, ← List.append_nil addrs, connectLoop_failed hall, List.append_nil]
    rfl
  refine ⟨?_, ?_, ?_⟩
  · intro before a after hsplit hbefore ha
    rw [hconnected before a after hsplit hbefore ha, socketsOf_failed, List.map_append]
    exact ⟨rfl, rfl⟩
  · intro hall
    rw [hfailed hall, socketsOf_failed, socketsOf, socketsOf, List.append_nil]
    exact ⟨rfl, lastErrorOf_neg pf addrs hrefused, rfl⟩
  · -- the resources, in either case
    cases hfind : addrs.find? (Attempt.succeeds pf) with
    | none =>
      have hall : ∀ a ∈ addrs, a.succeeds pf = false := by
        intro a ha
        simpa using List.find?_eq_none.mp hfind a ha
      rw [hfailed hall, openAfter_failed, if_neg (not_le.mpr (lastErrorOf_neg pf addrs hrefused))]
      exact ⟨rfl, addrs.flatMap failedEvents, rfl, freeaddrinfo_not_mem_failed addrs⟩
    | some a =>
      obtain ⟨ha, before, after, hsplit, hbefore⟩ := List.find?_eq_some_iff_append.mp hfind
      have hfd := Attempt.socket_nonneg ha
      rw [hconnected before a after hsplit (fun b hb => by simpa using hbefore b hb) ha, openAfter_failed]
      dsimp only
      rw [if_pos hfd, openAfter, if_pos hfd]
      refine ⟨rfl, before.flatMap failedEvents ++ [.socket a.socket], by simp, ?_⟩
      rw [List.mem_append, not_or]
      exact ⟨freeaddrinfo_not_mem_failed before, by simp⟩

/-- The first of three addresses has no socket, the second refuses, the third connects. -/
theorem socketConnect_first_three :
    let addrs : List Attempt :=
      [⟨-1, true, none, .ready, .fail⟩, ⟨3, true, some .einprogress, .ready, .value (some .econnrefused)⟩,
        ⟨3, true, some .einprogress, .ready, .value none⟩]
    (socketConnect .posix (str "h") 80 (some addrs)).2 = 3 ∧
      openAfter (socketConnect .posix (str "h") 80 (some addrs)).1 [] = some [3] := by
  intro addrs
  have h := socketConnect_first .posix (str "h") 80 addrs rfl
  have hfirst := h.1 (addrs.take 2) ⟨3, true, some .einprogress, .ready, .value none⟩ [] rfl
    (by decide) (by decide)
  refine ⟨hfirst.1, ?_⟩
  have hopen := h.2.2.1
  rw [hfirst.1] at hopen
  exact hopen

end TcpClient
