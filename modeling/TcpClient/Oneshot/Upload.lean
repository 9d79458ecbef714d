import TcpClient.Oneshot.Blocks
import TcpClient.Lib.Upload

/-!
# What one-shot mode sends

The buffer `send_buf[send_buf_pos .. send_buf_len)` of the loop is an `Upload`: the
payload, or standard input, goes in, what `send` takes comes out, and `shutdown`
closes it.

## What is proved

* `upload_orderly` — in every state of every run, on both platforms and whatever the
  calls answer: what was sent and what is pending are the payload, or what was read
  of standard input; the socket is half-closed at most once, when everything is out,
  never under `-D` or `-T`, and nothing is sent after it.
-/

namespace TcpClient.Oneshot

open Machine

/-! ### The upload behind the buffer -/

/-- Nothing is sent after the socket was half-closed. -/
def Quiet (log : List Event) : Prop := ∀ l₁ l₂, log = l₁ ++ .shutdown :: l₂ → sent l₂ = []

theorem quiet_append {log evs : List Event} (hlog : Quiet log) (hevs : Quiet evs)
    (h : .shutdown ∈ log → sent evs = []) : Quiet (log ++ evs) := by
  intro l₁ l₂ heq
  rcases List.append_eq_append_iff.mp heq with ⟨l, rfl, hl⟩ | ⟨l, hl, hl'⟩
  · exact hevs l l₂ hl
  · cases l with
    | nil => exact hevs [] l₂ (by simpa using hl'.symm)
    | cons ev l =>
      obtain ⟨rfl, hl₂⟩ := List.cons.inj (hl'.trans (List.cons_append ..))
      rw [hl₂, sent_append, hlog l₁ l hl, h (by simp [hl]), List.append_nil]

theorem quiet_nil : Quiet [] := fun l₁ l₂ heq => by simp at heq

theorem quiet_singleton (ev : Event) : Quiet [ev] := by
  intro l₁ l₂ heq
  cases l₁ with
  | nil => rw [(List.cons.inj heq).2.symm]; rfl
  | cons _ l₁ => simp at heq

theorem quiet_of_shutdowns {log : List Event} (h : shutdowns log = 0) : Quiet log := by
  rintro l₁ l₂ rfl
  exact absurd h (by simp [shutdowns, List.count_append])

theorem mem_shutdown {log : List Event} : .shutdown ∈ log ↔ 0 < shutdowns log := List.count_pos_iff.symm

/-- What is to be sent: the payload, or standard input as far as it was read. -/
def request (cfg : CliConfig) (sockfd : ℤ) (log : List Event) : List Byte :=
  match prepare cfg sockfd with
  | .ok (some payload) => payload
  | _ => stdinBytes log

/-- The state holds the upload `u` in its variables. -/
structure Tracks (cfg : CliConfig) (sockfd : ℤ) (s : St) (u : Upload Byte) : Prop where
  source : u.source = request cfg sockfd s.log
  sent : u.sent = sent s.log
  pending : u.pending = s.pending
  ended : u.ended = s.stdinEof
  closed : shutdowns s.log = u.closed.toNat
  closed_done : u.closed = true → s.shutdownDone = true ∨ ∃ rc, s.pc = .done rc
  closed_plain : u.closed = true → cfg.decodeHsm = false ∧ cfg.hasTermChar = false
  quiet : Quiet s.log
  cursor : 0 < s.sendBufLen → s.sendBufPos < s.sendBufLen ∧ s.sendBufLen = s.sendBuf.length
  polled : s.stdinIdx = true → s.stdinEof = false ∧ s.sendBufLen = 0
  payload : ∀ bs, prepare cfg sockfd = .ok (some bs) → s.stdinEof = true

section Tracks

variable {cfg : CliConfig} {sockfd : ℤ} {s : St} {u : Upload Byte}

/-- Nothing is pending when the buffer is empty. -/
theorem pending_of_len (h : s.sendBufLen = 0) : s.pending = [] := by simp [St.pending, h]

/-- A non-empty buffer has something pending, from the cursor to its end. -/
theorem Tracks.pending_eq (h : Tracks cfg sockfd s u) (hlen : 0 < s.sendBufLen) :
    s.pending = s.sendBuf.drop s.sendBufPos := by
  obtain ⟨hpos, hbuf⟩ := h.cursor hlen
  rw [St.pending, List.take_of_length_le (by rw [List.length_drop]; omega)]

/-- While standard input may still be read there is no payload. -/
theorem Tracks.request_eq (h : Tracks cfg sockfd s u) (he : s.stdinEof = false) (log : List Event) :
    request cfg sockfd log = stdinBytes log := by
  unfold request
  split
  · next bs hbs => exact absurd (h.payload bs hbs) (by simp [he])
  · rfl

/-- The upload is closed just where the log says so. -/
theorem Tracks.mem_shutdown (h : Tracks cfg sockfd s u) : .shutdown ∈ s.log ↔ u.closed = true := by
  rw [Oneshot.mem_shutdown, h.closed]
  cases u.closed <;> simp

end Tracks

/-! ### What moves the upload -/

/-- A calm step keeps the upload as it is. -/
theorem Tracks.calm {cfg : CliConfig} {sockfd : ℤ} {s t : St} {u : Upload Byte} (h : Tracks cfg sockfd s u)
    (hs : ∀ rc, s.pc = .done rc → t.pc = .done rc) (hc : Calm s t) : Tracks cfg sockfd t u := by
  obtain ⟨evs, hlog, hin⟩ := hc.log
  obtain ⟨hsent, hstdin, hshut⟩ := inbound_silent hin
  have hpend : t.pending = s.pending := by rw [St.pending, St.pending, hc.sendBuf, hc.sendBufLen, hc.sendBufPos]
  have hsource : request cfg sockfd t.log = request cfg sockfd s.log := by
    unfold request
    rw [hlog, stdinBytes_append, hstdin, List.append_nil]
  refine ⟨?_, ?_, ?_, ?_, ?_, fun hcl => ?_, h.closed_plain, ?_, ?_, fun hidx => ?_, fun bs hbs => ?_⟩
  · rw [hsource, h.source]
  · rw [hlog, sent_append, hsent, List.append_nil, h.sent]
  · rw [hpend, h.pending]
  · rw [hc.stdinEof, h.ended]
  · rw [hlog, shutdowns_append, hshut, Nat.add_zero, h.closed]
  · rcases h.closed_done hcl with hd | ⟨rc, hrc⟩
    · exact .inl (by rw [hc.shutdownDone, hd])
    · exact .inr ⟨rc, hs rc hrc⟩
  · rw [hlog]
    exact quiet_append h.quiet (quiet_of_shutdowns hshut) fun _ => hsent
  · rw [hc.sendBuf, hc.sendBufLen, hc.sendBufPos]
    exact h.cursor
  · rw [hc.stdinEof, hc.sendBufLen]
    exact (hc.polled hidx).elim h.polled id
  · rw [hc.stdinEof]
    exact h.payload bs hbs

section Moves

variable {cfg : CliConfig} {sockfd : ℤ} {s : St} {u : Upload Byte}

/-- A `shutdown` closes the upload, for the first time. -/
theorem Tracks.shutdown (h : Tracks cfg sockfd s u) (hs : ∀ rc, s.pc ≠ .done rc)
    (hmay : s.mayShutdown = true) (pc : Pc) (shutdownDone : Bool)
    (hdone : shutdownDone = true ∨ ∃ rc, pc = .done rc) :
    ∃ u, Tracks cfg sockfd
      { s with pc := pc, shutdownDone := shutdownDone, log := shutdownWrite cfg s.log } u := by
  obtain ⟨heof, hlen, hnot⟩ := mayShutdown_iff.mp hmay
  have hopen : u.closed = false := by
    cases hcl : u.closed with
    | false => rfl
    | true =>
      rcases h.closed_done hcl with hd | ⟨rc, hrc⟩
      · simp [hnot] at hd
      · exact absurd hrc (hs rc)
  have hzero : shutdowns s.log = 0 := by rw [h.closed, hopen]; rfl
  unfold shutdownWrite
  split_ifs with hplain
  · simp only [Bool.and_eq_true, Bool.not_eq_true'] at hplain
    refine ⟨u.close (by rw [h.ended, heof]) (by rw [h.pending, pending_of_len hlen]), ?_, ?_, h.pending, h.ended,
      ?_, fun _ => hdone, fun _ => hplain, ?_, h.cursor, h.polled, h.payload⟩
    · simpa [Upload.close, request] using h.source
    · simpa [Upload.close] using h.sent
    · simp [Upload.close, hzero]
    · exact quiet_append h.quiet (quiet_singleton _) fun _ => rfl
  · exact ⟨u, h.source, h.sent, h.pending, h.ended, h.closed, fun _ => hdone, h.closed_plain, h.quiet,
      h.cursor, h.polled, h.payload⟩

theorem Tracks.finish (h : Tracks cfg sockfd s u) (hs : ∀ rc, s.pc ≠ .done rc) (a : Answer) :
    ∃ u, Tracks cfg sockfd (finish cfg a s) u := by
  obtain ⟨evs, hin, -, -, heq⟩ := finish_eq cfg a s
  rw [heq]
  split_ifs with hmay
  · obtain ⟨u', h'⟩ := h.shutdown hs hmay (.done 0) s.shutdownDone (.inr ⟨0, rfl⟩)
    exact ⟨u', h'.calm (fun rc => id) ⟨rfl, rfl, rfl, rfl, rfl, .inl, evs, rfl, hin⟩⟩
  · exact ⟨u, h.calm (fun rc hrc => absurd hrc (hs rc)) ⟨rfl, rfl, rfl, rfl, rfl, .inl, evs, rfl, hin⟩⟩

theorem Tracks.loopBlock (h : Tracks cfg sockfd s u) (hs : ∀ rc, s.pc ≠ .done rc) (a : Answer) :
    ∃ u, Tracks cfg sockfd (loopBlock cfg a s) u := by
  unfold Oneshot.loopBlock
  split_ifs with _ hmay
  · exact h.finish hs a
  · exact h.shutdown hs hmay _ _ (.inl rfl)
  · exact ⟨u, h.calm (fun rc hrc => absurd hrc (hs rc)) (calm_goto s _)⟩

theorem Tracks.pollBlock (h : Tracks cfg sockfd s u) (hs : ∀ rc, s.pc ≠ .done rc) (pf : Platform) (a : Answer) :
    ∃ u, Tracks cfg sockfd (pollBlock pf cfg a s) u := by
  rcases pollBlock_cases pf cfg a s with ⟨-, heq⟩ | ⟨hc, -⟩
  · rw [heq]
    exact h.finish hs a
  · exact ⟨u, h.calm (fun rc hrc => absurd hrc (hs rc)) hc⟩

/-- Whoever reads standard input may: it has not ended, and the buffer is empty. -/
theorem Tracks.may_read (h : Tracks cfg sockfd s u) {pf : Platform} {a : Answer}
    (hread : readsStdin pf a s = true) : s.stdinEof = false ∧ s.sendBufLen = 0 := by
  cases pf with
  | posix =>
    simp only [readsStdin, Bool.and_eq_true] at hread
    exact h.polled hread.1
  | windows =>
    simp only [readsStdin, Bool.and_eq_true, Bool.not_eq_true', beq_iff_eq] at hread
    exact hread.1

/-- A chunk of standard input refills the upload. -/
theorem Tracks.refill (h : Tracks cfg sockfd s u) (he : s.stdinEof = false) (hlen : s.sendBufLen = 0)
    (hs : ∀ rc, s.pc ≠ .done rc) (bs : List Byte) (pc : Pc) (now : UInt64) :
    ∃ u, Tracks cfg sockfd
      { s with
        stdinIdx := false, lastActivity := now, sendBuf := bs, sendBufLen := bs.length, sendBufPos := 0
        log := s.log ++ [.readStdin bs], pc := pc } u := by
  refine ⟨u.refill bs (by rw [h.pending, pending_of_len hlen]) (by rw [h.ended, he]), ?_, ?_, ?_, h.ended, ?_,
    fun hcl => ?_, h.closed_plain, ?_, ?_, by simp, h.payload⟩
  · have := h.source
    rw [h.request_eq he] at this ⊢
    simp [Upload.refill, this]
  · simpa [Upload.refill] using h.sent
  · simp [Upload.refill, St.pending]
  · simpa [Upload.refill] using h.closed
  · rcases h.closed_done hcl with hd | ⟨rc, hrc⟩
    · exact .inl hd
    · exact absurd hrc (hs rc)
  · exact quiet_append h.quiet (quiet_singleton _) fun _ => rfl
  · exact fun hpos => ⟨hpos, rfl⟩

/-- The end of standard input ends the upload. -/
theorem tracks_ended (h : Tracks cfg sockfd s u) (hs : ∀ rc, s.pc ≠ .done rc) {evs : List Event}
    (hevs : evs = [] ∨ evs = [.stdinEof]) (pc : Pc) :
    ∃ u, Tracks cfg sockfd { s with stdinIdx := false, stdinEof := true, log := s.log ++ evs, pc := pc } u := by
  have hsilent : sent evs = [] ∧ stdinBytes evs = [] ∧ shutdowns evs = 0 ∧ Quiet evs := by
    rcases hevs with rfl | rfl
    · exact ⟨rfl, rfl, rfl, quiet_nil⟩
    · exact ⟨rfl, rfl, rfl, quiet_singleton _⟩
  obtain ⟨hsent, hstdin, hshut, hquiet⟩ := hsilent
  refine ⟨u.finish, ?_, ?_, h.pending, rfl, ?_, fun hcl => ?_, h.closed_plain,
    quiet_append h.quiet hquiet fun _ => hsent, h.cursor, by simp, fun _ _ => rfl⟩
  · have := h.source
    unfold request at this ⊢
    rw [stdinBytes_append, hstdin, List.append_nil]
    exact this
  · rw [sent_append, hsent, List.append_nil]
    exact h.sent
  · rw [shutdowns_append, hshut, Nat.add_zero]
    exact h.closed
  · rcases h.closed_done hcl with hd | ⟨rc, hrc⟩
    · exact .inl hd
    · exact absurd hrc (hs rc)

theorem Tracks.stdinBlock (h : Tracks cfg sockfd s u) (hs : ∀ rc, s.pc ≠ .done rc) (pf : Platform) (a : Answer) :
    ∃ u, Tracks cfg sockfd (stdinBlock pf a s) u := by
  have hcalm {t : St} (hc : Calm s t) : ∃ u, Tracks cfg sockfd t u :=
    ⟨u, h.calm (fun rc hrc => absurd hrc (hs rc)) hc⟩
  unfold Oneshot.stdinBlock
  split_ifs with hread
  · obtain ⟨he, hlen⟩ := h.may_read hread
    unfold readStdin
    split
    · exact tracks_ended h hs (.inr rfl) _
    · cases pf
      · exact h.refill he hlen hs _ _ _
      · exact h.refill he hlen hs _ _ _
    · cases pf <;> dsimp only
      · split_ifs
        · exact hcalm ⟨rfl, rfl, rfl, rfl, rfl, by simp, [], by simp, rfl⟩
        · exact hcalm ⟨rfl, rfl, rfl, rfl, rfl, by simp [St.ret], [], by simp [St.ret], rfl⟩
      · simpa using tracks_ended h hs (.inl rfl) _
  · exact hcalm ⟨rfl, rfl, rfl, rfl, rfl, by simp, [], by simp, rfl⟩

/-- What `send` took leaves the upload. -/
theorem Tracks.advance (h : Tracks cfg sockfd s u) {n : ℕ} (hlen : 0 < s.sendBufLen) :
    Tracks cfg sockfd (advance n s) (u.take n) := by
  obtain ⟨hpos, hbuf⟩ := h.cursor hlen
  have hpend := h.pending_eq hlen
  have hopen : u.closed = false := by
    cases hcl : u.closed with
    | false => rfl
    | true =>
      have hnil : s.sendBuf.drop s.sendBufPos = [] := by rw [← hpend, ← h.pending, u.pending_eq_nil hcl]
      rw [List.drop_eq_nil_iff] at hnil
      omega
  rw [advance_eq, ← hpend]
  refine ⟨?_, ?_, ?_, h.ended, ?_, ?_, ?_, ?_, ?_, ?_, h.payload⟩
  · have := h.source
    unfold request at this ⊢
    simpa [Upload.take] using this
  · simp [Upload.take, h.sent, h.pending]
  · change u.pending.drop n = _
    rw [h.pending, hpend, List.drop_drop]
    simp only [St.pending]
    split_ifs with hall
    · rw [List.drop_eq_nil_of_le (by omega), List.take_zero]
    · rw [List.take_of_length_le (by rw [List.length_drop]; omega)]
  · simpa [Upload.take] using h.closed
  · simp [Upload.take, hopen]
  · simp [Upload.take, hopen]
  · refine quiet_append h.quiet (quiet_singleton _) fun hmem => ?_
    simp [h.mem_shutdown.mp hmem] at hopen
  · dsimp only
    split_ifs <;> omega
  · exact fun hp => absurd (h.polled hp).2 (by omega)

theorem Tracks.sendBlock (h : Tracks cfg sockfd s u) (hs : ∀ rc, s.pc ≠ .done rc) (pf : Platform) (a : Answer) :
    ∃ u, Tracks cfg sockfd (sendBlock pf a s) u := by
  have hcalm {t : St} (hc : Calm s t) : ∃ u, Tracks cfg sockfd t u :=
    ⟨u, h.calm (fun rc hrc => absurd hrc (hs rc)) hc⟩
  unfold Oneshot.sendBlock
  split
  · next hready =>
    simp only [Bool.and_eq_true, decide_eq_true_eq] at hready
    rcases a.send with n | err <;> dsimp only
    · split_ifs
      · have hadv := h.advance (n := min n (s.sendBufLen - s.sendBufPos)) hready.2
        have hpc : (Oneshot.advance (min n (s.sendBufLen - s.sendBufPos)) s).pc = s.pc := by
          rw [advance_eq]
        refine ⟨_, hadv.calm (fun rc hrc => absurd (hpc ▸ hrc) (hs rc)) ?_⟩
        exact (calm_touch _ pf a).trans (calm_goto _ _)
      · exact hcalm (calm_goto s _)
    · split_ifs
      · exact hcalm (calm_goto s _)
      · exact hcalm (calm_ret s 5)
  · exact hcalm (calm_goto s _)

/-- **A block keeps the upload.** -/
theorem Tracks.step (h : Tracks cfg sockfd s u) (pf : Platform) (a : Answer) :
    ∃ u, Tracks cfg sockfd (step pf cfg s a) u := by
  unfold Oneshot.step
  split <;> rename_i hpc
  · exact h.loopBlock (by simp [hpc]) a
  · exact h.pollBlock (by simp [hpc]) pf a
  · exact ⟨u, h.calm (by simp [hpc]) (calm_socketBlock pf cfg a s)⟩
  · exact h.stdinBlock (by simp [hpc]) pf a
  · exact h.sendBlock (by simp [hpc]) pf a
  · exact ⟨u, h⟩

end Moves

/-- Before anything has happened the state holds the upload of its request. -/
theorem tracks_of_log_nil {cfg : CliConfig} {sockfd : ℤ} {s : St} {u : Upload Byte} (hlog : s.log = [])
    (hsource : u.source = request cfg sockfd []) (hsent : u.sent = []) (hpending : u.pending = s.pending)
    (hended : u.ended = s.stdinEof) (hclosed : u.closed = false)
    (hcursor : 0 < s.sendBufLen → s.sendBufPos < s.sendBufLen ∧ s.sendBufLen = s.sendBuf.length)
    (hpolled : s.stdinIdx = false) (hpayload : ∀ bs, prepare cfg sockfd = .ok (some bs) → s.stdinEof = true) :
    Tracks cfg sockfd s u := by
  have hopen : u.closed ≠ true := Bool.eq_false_iff.mp hclosed
  have hidle : s.stdinIdx ≠ true := Bool.eq_false_iff.mp hpolled
  refine ⟨?_, ?_, hpending, hended, ?_, fun h => absurd h hopen, fun h => absurd h hopen, ?_, hcursor,
    fun h => absurd h hidle, hpayload⟩ <;> rw [hlog]
  · exact hsource
  · exact hsent
  · rw [hclosed]
    rfl
  · exact quiet_nil

theorem tracks_start (cfg : CliConfig) (sockfd : ℤ) (now : UInt64) :
    ∃ u, Tracks cfg sockfd (start cfg sockfd now) u := by
  rcases hprep : prepare cfg sockfd with rc | _ | payload <;> rw [start, hprep]
  · refine ⟨.fresh, tracks_of_log_nil rfl ?_ rfl rfl rfl rfl (by simp) rfl (by simp [hprep])⟩
    rw [request, hprep]
    rfl
  · refine ⟨.fresh, tracks_of_log_nil rfl ?_ rfl rfl rfl rfl (by simp) rfl (by simp [hprep])⟩
    rw [request, hprep]
    rfl
  · refine ⟨.whole payload, tracks_of_log_nil rfl ?_ rfl ?_ rfl rfl (by simp) rfl (by simp)⟩
    · rw [request, hprep]
      rfl
    · simp [St.pending, Upload.whole]

/-- The variables hold an upload in every state of every run. -/
theorem reach_tracks {pf : Platform} {cfg : CliConfig} {sockfd : ℤ} {now : UInt64} {A : St → Answer → Prop} {s : St}
    (h : Reach (step pf cfg) A (start cfg sockfd now) s) : ∃ u, Tracks cfg sockfd s u :=
  h.invariant (I := fun s => ∃ u, Tracks cfg sockfd s u) (tracks_start cfg sockfd now)
    fun _ a hs _ => hs.elim fun _ hu => hu.step pf a

/-! ### Half-closing -/

/-- Where a `shutdown` may come from: everything is out, and neither `-D` nor `-T` is given. -/
def HalfCloses (cfg : CliConfig) (s : St) : Prop :=
  s.stdinEof = true ∧ s.sendBufLen = 0 ∧ cfg.decodeHsm = false ∧ cfg.hasTermChar = false

theorem shutdowns_shutdownWrite {cfg : CliConfig} {s : St} (hmay : s.mayShutdown = true)
    (h : shutdowns (shutdownWrite cfg s.log) ≠ shutdowns s.log) : HalfCloses cfg s := by
  obtain ⟨heof, hlen, -⟩ := mayShutdown_iff.mp hmay
  unfold shutdownWrite at h
  split_ifs at h with hplain
  · simp only [Bool.and_eq_true, Bool.not_eq_true'] at hplain
    exact ⟨heof, hlen, hplain⟩
  · exact absurd rfl h

theorem shutdowns_finish {cfg : CliConfig} {a : Answer} {s : St}
    (h : shutdowns (finish cfg a s).log ≠ shutdowns s.log) : HalfCloses cfg s := by
  obtain ⟨evs, hin, -, -, heq⟩ := finish_eq cfg a s
  rw [heq, shutdowns_append, (inbound_silent hin).2.2, Nat.add_zero] at h
  split_ifs at h with hmay
  · exact shutdowns_shutdownWrite hmay h
  · exact absurd rfl h

theorem shutdowns_stdinBlock (pf : Platform) (a : Answer) (s : St) :
    shutdowns (stdinBlock pf a s).log = shutdowns s.log := by
  unfold stdinBlock
  split_ifs
  · unfold readStdin
    split
    · simp
    · cases pf <;> simp
    · cases pf
      · dsimp only
        split_ifs <;> rfl
      · rfl
  · rfl

theorem shutdowns_sendBlock (pf : Platform) (a : Answer) (s : St) :
    shutdowns (sendBlock pf a s).log = shutdowns s.log := by
  unfold sendBlock
  split
  · rcases a.send with n | err <;> dsimp only
    · split_ifs
      · cases pf <;> simp [St.touch, advance_eq]
      · rfl
    · split_ifs <;> rfl
  · rfl

/-- **A step that half-closes the socket starts where everything is out.** -/
theorem shutdowns_step {pf : Platform} {cfg : CliConfig} {a : Answer} {s : St}
    (h : shutdowns (step pf cfg s a).log ≠ shutdowns s.log) : HalfCloses cfg s := by
  unfold step at h
  split at h
  · unfold loopBlock at h
    split_ifs at h with _ hmay
    · exact shutdowns_finish h
    · exact shutdowns_shutdownWrite hmay h
    · exact absurd rfl h
  · rcases pollBlock_cases pf cfg a s with ⟨-, heq⟩ | ⟨hc, -⟩
    · exact shutdowns_finish (heq ▸ h)
    · exact absurd hc.shutdowns h
  · exact absurd (calm_socketBlock pf cfg a s).shutdowns h
  · exact absurd (shutdowns_stdinBlock pf a s) h
  · exact absurd (shutdowns_sendBlock pf a s) h
  · exact absurd rfl h

/-! ### The upload is orderly -/

/-- **No byte is lost, doubled or reordered, and the socket is half-closed at the end.** In
every state of every run: what was sent and what waits in the buffer are the payload, or
standard input as far as it was read; there is at most one `shutdown`, none under `-D` or
`-T`, none where something is pending or standard input has not ended, and nothing is
sent after it. -/
theorem upload_orderly (pf : Platform) (cfg : CliConfig) (sockfd : ℤ) (now : UInt64) (s : St)
    (h : Reach (step pf cfg) Free (start cfg sockfd now) s) :
    sent s.log ++ s.pending = request cfg sockfd s.log ∧
      shutdowns s.log ≤ 1 ∧
      (0 < shutdowns s.log → cfg.decodeHsm = false ∧ cfg.hasTermChar = false) ∧
      (∀ a, shutdowns (step pf cfg s a).log ≠ shutdowns s.log → s.stdinEof = true ∧ s.pending = []) ∧
      ∀ l₁ l₂, s.log = l₁ ++ .shutdown :: l₂ → sent l₂ = [] := by
  obtain ⟨u, hu⟩ := reach_tracks h
  refine ⟨?_, ?_, fun hpos => ?_, fun a ha => ?_, hu.quiet⟩
  · rw [← hu.sent, ← hu.pending, u.conserved, hu.source]
  · rw [hu.closed]
    exact Bool.toNat_le _
  · exact hu.closed_plain (hu.mem_shutdown.mp (mem_shutdown.mpr hpos))
  · obtain ⟨heof, hlen, -⟩ := shutdowns_step ha
    exact ⟨heof, pending_of_len hlen⟩

/-- A payload of two bytes, sent one at a time, and the `shutdown` after it. -/
theorem upload_orderly_two :
    let answers : List Answer := [{}, { sockRev := { pollout := true } }, {}, {}, { send := .accept 1 }, {},
      { sockRev := { pollout := true } }, {}, {}, { send := .accept 1 }, {}]
    let cfg : CliConfig := { isAscii := true, asciiPayload := [7, 8] }
    let s := run (step .posix cfg) (start cfg 3 0) answers
    s.log = [.send [7], .send [8], .shutdown] ∧ sent s.log ++ s.pending = request cfg 3 s.log := by
  intro answers cfg s
  exact ⟨by decide, (upload_orderly .posix cfg 3 0 s (reach_free_run _ answers)).1⟩

end TcpClient.Oneshot
