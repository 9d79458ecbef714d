import TcpClient.Oneshot.Receive

/-!
# The frame the HSM decoder is given

Under `-D` the loop collects what it receives until the buffer holds the frame its first
two bytes declare, and hands the buffer to the decoder. It looks only where a chunk
ends, and it keeps whole chunks.

## What is proved

* `printed_analysis` — what is printed is the analysis of the buffer, and nothing else.
* `hsmAccum_frame` — on a stream that starts with a frame, the buffer is that frame
  exactly when some receive ended where the frame ends. Otherwise the chunk with the
  frame's last byte brought more: it is kept whole, or, where the buffer has no room
  for it, dropped. Two runs in which a receive ended there print the same analysis.
* `hsmAccum_coalesced` — two frames in one chunk: the decoder is given both.
-/

namespace TcpClient.Oneshot

open Machine TcpClient.Frame

/-- The server sends `stream`, in whatever pieces, and closes after it; no signal comes. -/
def Serves (stream : List Byte) (s : St) (a : Answer) : Prop :=
  a.interrupted = false ∧
    (s.pc = .socket → s.sockRev.pollhup = true → s.sockRev.pollin = false → received s.log = stream) ∧
    (s.pc = .socket → s.sockRev.pollin = true → ∀ bs, a.recv.clip bufSize = .data bs →
      received s.log ++ bs <+: stream ∧ (bs = [] → received s.log = stream))

instance (stream : List Byte) (s : St) (a : Answer) : Decidable (Serves stream s a) :=
  inferInstanceAs (Decidable (_ ∧ _ ∧ _))

/-- On a prefix of a stream that starts with a frame, the test is whether the frame is there. -/
theorem frameComplete_iff {body rest accum : List Byte} (hbody : body.length ≤ 65535)
    (h : accum <+: frame body ++ rest) : frameComplete accum = true ↔ (frame body).length ≤ accum.length := by
  obtain ⟨t, ht⟩ := h
  unfold frameComplete
  by_cases hlen : 2 ≤ accum.length
  · rw [← declared_append hlen t, ht, declared_frame_append (by omega)]
    simp
  · rw [declared_eq_none.mpr (by omega)]
    simp only [Bool.false_eq_true, false_iff, length_frame]
    omega

/-- What the loop has collected: while the socket is open, what was received, less than the
frame; at its end, the chunk that reached the end of the frame was added, or dropped for
want of room. -/
structure Collects (body rest : List Byte) (s : St) : Prop where
  served : received s.log <+: frame body ++ rest
  short : s.socketEof = false → s.hsmAccum = received s.log ∧ (received s.log).length < (frame body).length
  reached : s.socketEof = true → ∃ chunks last, recvChunks s.log = chunks ++ [last] ∧
    chunks.flatten.length < (frame body).length ∧ (frame body).length ≤ (chunks ++ [last]).flatten.length ∧
    (s.hsmAccum = (chunks ++ [last]).flatten ∨
      s.hsmAccum = chunks.flatten ∧ (frame body).length < (chunks ++ [last]).flatten.length)
  zero : s.pc = .done 0 → s.socketEof = true

section Collects

variable {body rest : List Byte} {pf : Platform} {cfg : CliConfig} {s t : St} {a : Answer}

/-- Whatever leaves the receiving side alone. -/
theorem Collects.still (h : Collects body rest s) (hs : Still s t) (hpc : t.pc ≠ .done 0) : Collects body rest t := by
  refine ⟨?_, fun ht => ?_, fun ht => ?_, fun h0 => absurd h0 hpc⟩
  · rw [hs.received]
    exact h.served
  · rw [hs.received, hs.hsmAccum]
    exact h.short (hs.socketEof ▸ ht)
  · rw [hs.recvChunks, hs.hsmAccum]
    exact h.reached (hs.socketEof ▸ ht)

/-- The loop is left with what was collected. -/
theorem Collects.finish (h : Collects body rest s) (heof : s.socketEof = true) (a : Answer) :
    Collects body rest (finish cfg a s) := by
  obtain ⟨hchunks, haccum⟩ := finish_recvChunks cfg a s
  have hsock : (Oneshot.finish cfg a s).socketEof = s.socketEof := by
    obtain ⟨evs, -, -, -, heq⟩ := finish_eq cfg a s
    rw [heq]
  refine ⟨?_, fun hopen => ?_, fun _ => ?_, fun _ => hsock.trans heof⟩
  · rw [← flatten_recvChunks, hchunks, flatten_recvChunks]
    exact h.served
  · simp [hsock, heof] at hopen
  · rw [hchunks, haccum]
    exact h.reached heof

/-- **A chunk is added whole**, or dropped where there is no room for it. -/
theorem Collects.chunk (h : Collects body rest s) (hbody : body.length ≤ 65535) (hopen : s.socketEof = false)
    {bs : List Byte} (hserved : received s.log ++ bs <+: frame body ++ rest) (hlog : t.log = s.log ++ [.recv bs])
    (hpc : t.pc ≠ .done 0)
    (ht : (t.hsmAccum = s.hsmAccum ++ bs ∧ t.socketEof = frameComplete (s.hsmAccum ++ bs)) ∨
      (bufSize + 512 < s.hsmAccum.length + bs.length ∧ t.hsmAccum = s.hsmAccum ∧ t.socketEof = true)) :
    Collects body rest t := by
  obtain ⟨haccum, hshort⟩ := h.short hopen
  have hrecv : received t.log = received s.log ++ bs := by simp [hlog]
  have hchunks : recvChunks t.log = recvChunks s.log ++ [bs] := by simp [hlog]
  have hflat : (recvChunks s.log ++ [bs]).flatten = received s.log ++ bs := by simp [flatten_recvChunks]
  have hlt : (recvChunks s.log).flatten.length < (frame body).length := by rwa [flatten_recvChunks]
  rw [haccum] at ht
  refine ⟨hrecv ▸ hserved, fun heof => ?_, fun heof => ?_, fun h0 => absurd h0 hpc⟩
  · rcases ht with ⟨hcoll, hend⟩ | ⟨-, -, hend⟩
    · rw [hrecv]
      refine ⟨hcoll, Nat.lt_of_not_le fun hle => ?_⟩
      simp [(frameComplete_iff hbody hserved).mpr hle, heof] at hend
    · simp [heof] at hend
  · refine ⟨recvChunks s.log, bs, hchunks, hlt, ?_⟩
    rw [hflat]
    rcases ht with ⟨hcoll, hend⟩ | ⟨hfull, hcoll, -⟩
    · exact ⟨(frameComplete_iff hbody hserved).mp (hend ▸ heof), .inl hcoll⟩
    · have hroom : (frame body).length < (received s.log ++ bs).length := by
        rw [List.length_append, length_frame]
        unfold bufSize at hfull
        omega
      exact ⟨hroom.le, .inr ⟨by rw [hcoll, flatten_recvChunks], hroom⟩⟩

theorem Collects.receiveData (h : Collects body rest s) (hbody : body.length ≤ 65535) (hdec : cfg.decodeHsm = true)
    (hterm : cfg.hasTermChar = false) (hopen : s.socketEof = false) {bs : List Byte}
    (hserved : received s.log ++ bs <+: frame body ++ rest) : Collects body rest (receiveData pf cfg a bs s) := by
  have hscan : scanTerm cfg bs = (bs.length, false) := by simp [scanTerm, hterm]
  have hne (pf : Platform) : Pc.next pf .socket ≠ .done 0 := by cases pf <;> decide
  rw [receiveData_eq, hscan, List.take_length]
  simp only [deliver, hdec, if_true, accumulate, Bool.or_false]
  split_ifs with hroom
  · cases pf
    · exact h.chunk hbody hopen hserved rfl (hne .posix) (.inl ⟨rfl, by simp [St.touch, hopen]⟩)
    · exact h.chunk hbody hopen hserved rfl (hne .windows) (.inl ⟨rfl, by simp [St.touch, hopen]⟩)
  · cases pf
    · exact h.chunk hbody hopen hserved rfl (hne .posix) (.inr ⟨not_le.mp hroom, rfl, rfl⟩)
    · exact h.chunk hbody hopen hserved rfl (hne .windows) (.inr ⟨not_le.mp hroom, rfl, rfl⟩)

/-- The server cannot be gone before the frame is there. -/
theorem Collects.not_gone (h : Collects body rest s) (hopen : s.socketEof = false) :
    received s.log ≠ frame body ++ rest := fun heq => by
  have := (h.short hopen).2
  rw [heq, List.length_append] at this
  omega

theorem Collects.socketBlock (h : Collects body rest s) (hbody : body.length ≤ 65535) (hdec : cfg.decodeHsm = true)
    (hterm : cfg.hasTermChar = false) (hpc : s.pc = .socket) (hopen : s.socketEof = false)
    (hs : Serves (frame body ++ rest) s a) : Collects body rest (socketBlock pf cfg a s) := by
  obtain ⟨-, hhup, hrecv⟩ := hs
  have hne : Pc.next pf .socket ≠ .done 0 := by cases pf <;> decide
  unfold Oneshot.socketBlock
  split_ifs with _ hup hin
  · exact h.still (still_goto s _) (by simp [St.ret])
  · simp only [Bool.and_eq_true, Bool.not_eq_true'] at hup
    exact absurd (hhup hpc hup.1 hup.2) (h.not_gone hopen)
  · unfold receive
    split
    · next hnil => exact absurd ((hrecv hpc hin _ hnil).2 rfl) (h.not_gone hopen)
    · next hdata => exact h.receiveData hbody hdec hterm hopen (hrecv hpc hin _ hdata).1
    · split_ifs
      · exact h.still (still_goto s _) hne
      · exact h.still (still_goto s _) (by simp [St.ret])
  · exact h.still (still_goto s _) hne

theorem Collects.step (h : Collects body rest s) (hbody : body.length ≤ 65535) (hdec : cfg.decodeHsm = true)
    (hterm : cfg.hasTermChar = false) (ho : Open s) (hs : Serves (frame body ++ rest) s a) :
    Collects body rest (step pf cfg s a) := by
  unfold Oneshot.step
  split <;> rename_i hpc
  · rcases loopBlock_cases cfg a s with ⟨hstop, heq⟩ | ⟨-, hpoll, hstill⟩
    · rw [hs.1, Bool.false_or] at hstop
      rw [heq]
      exact h.finish hstop a
    · exact h.still hstill (by simp [hpoll])
  · rcases pollBlock_cases pf cfg a s with ⟨heof, heq⟩ | ⟨-, hstill, hnext⟩
    · rw [heq]
      exact h.finish heof a
    · exact h.still hstill fun h0 => by simp [h0] at hnext
  · exact h.socketBlock hbody hdec hterm hpc (ho (.inr hpc)) hs
  · obtain ⟨hstill, hnext⟩ := still_stdinBlock pf a s
    exact h.still hstill (by rcases hnext with hn | hn <;> cases pf <;> simp [hn, Pc.next])
  · obtain ⟨hstill, hnext⟩ := still_sendBlock pf a s
    exact h.still hstill (by rcases hnext with hn | hn <;> cases pf <;> simp [hn, Pc.next])
  · exact h

theorem collects_start (body rest : List Byte) (cfg : CliConfig) (sockfd : ℤ) (now : UInt64) :
    Collects body rest (start cfg sockfd now) := by
  have hpos : 0 < (frame body).length := by rw [length_frame]; omega
  unfold start
  rcases prepare_cases cfg sockfd with ⟨rc, hrc, herr⟩ | ⟨-, -, hnone⟩ | ⟨payload, hpay⟩
  · rw [herr]
    exact ⟨List.nil_prefix, fun _ => ⟨rfl, hpos⟩, by simp, fun h0 => absurd (Pc.done.inj h0) hrc⟩
  · rw [hnone]
    exact ⟨List.nil_prefix, fun _ => ⟨rfl, hpos⟩, by simp, by simp⟩
  · rw [hpay]
    exact ⟨List.nil_prefix, fun _ => ⟨rfl, hpos⟩, by simp, by simp⟩

end Collects

/-! ### What is printed is the analysis of the buffer -/

/-- What `-D` prints for a buffer: the analysis of what `hsm_parse_response` makes of it, and
nothing where it fails. -/
def analysis (cfg : CliConfig) (buf : List Byte) : List Byte :=
  match hsmParseResponse buf (sizeOfInt cfg.hsmHeaderLen) with
  | some resp => hsmFormatAnalysis resp buf 4096
  | none => []

/-- Until the function has returned `0` nothing is printed, and then the analysis. -/
def Reports (cfg : CliConfig) (s : St) : Prop :=
  printed s.log = if s.pc = .done 0 then analysis cfg s.hsmAccum else []

section Reports

variable {pf : Platform} {cfg : CliConfig} {s t : St} {a : Answer}

/-- **The report decodes the buffer** and prints its analysis. -/
theorem report_works (hdec : cfg.decodeHsm = true) (hw : Works t a) (s : St) :
    ∃ evs : List Event, report cfg a s = { s with log := s.log ++ evs } ∧ printed evs = analysis cfg s.hsmAccum := by
  have hempty (headerLen : ℕ) : hsmParseResponse [] headerLen = none := by
    simp [hsmParseResponse, hsmHeader, hsmTcpLen]
  unfold report analysis
  rw [hdec, Bool.true_and]
  by_cases hsome : 0 < s.hsmAccum.length
  · rw [if_pos (decide_eq_true hsome)]
    cases hsmParseResponse s.hsmAccum (sizeOfInt cfg.hsmHeaderLen) with
    | none => exact ⟨[], by simp, rfl⟩
    | some resp => exact ⟨[.stdout _], congrArg Prod.snd (writeStdout_works hw _ s), by simp [printed]⟩
  · have hnil : s.hsmAccum = [] := List.eq_nil_of_length_eq_zero (by omega)
    rw [if_neg (by simpa using hsome)]
    exact ⟨[], by simp, by rw [hnil, hempty]; rfl⟩

/-- Whatever prints nothing and does not return `0`. -/
theorem Reports.quiet (h : Reports cfg s) (hs : s.pc ≠ .done 0) (hlog : printed t.log = printed s.log)
    (ht : t.pc ≠ .done 0) : Reports cfg t := by
  unfold Reports at h ⊢
  rw [hlog, h, if_neg hs, if_neg ht]

theorem Reports.finish (h : Reports cfg s) (hdec : cfg.decodeHsm = true) (hw : Works s a) (hs : s.pc ≠ .done 0) :
    Reports cfg (finish cfg a s) := by
  unfold Reports at h ⊢
  rw [if_neg hs] at h
  rw [if_pos (finish_pc cfg a s), (finish_recvChunks cfg a s).2]
  unfold Oneshot.finish
  obtain ⟨shut, hshut, hwrite⟩ := shutdownWrite_eq cfg s.log
  have hnone : printed shut = [] := by rcases hshut with rfl | rfl <;> rfl
  split_ifs
  · obtain ⟨evs, heq, hevs⟩ := report_works hdec hw { s with log := shutdownWrite cfg s.log }
    rw [heq]
    simp only [St.ret, hwrite, printed_append, h, hnone, List.nil_append]
    exact hevs
  · obtain ⟨evs, heq, hevs⟩ := report_works hdec hw s
    rw [heq]
    simp only [St.ret, printed_append, h, List.nil_append]
    exact hevs

/-- What is received is collected, and not printed. -/
theorem printed_socketBlock (hdec : cfg.decodeHsm = true) (pf : Platform) (a : Answer) (s : St) :
    printed (socketBlock pf cfg a s).log = printed s.log := by
  have hgone : printed (serverGone pf cfg s).log = printed s.log := by
    unfold serverGone St.ret
    dsimp only
    split_ifs <;> simp
  unfold socketBlock
  split_ifs
  · rfl
  · exact hgone
  · unfold receive
    split
    · exact hgone
    · rw [receiveData_eq]
      simp only [deliver, hdec, if_true, accumulate]
      split_ifs <;> simp
    · split_ifs <;> rfl
  · rfl

theorem Reports.step (h : Reports cfg s) (hdec : cfg.decodeHsm = true) (hw : Works s a) :
    Reports cfg (step pf cfg s a) := by
  unfold Oneshot.step
  split <;> rename_i hpc
  · rcases loopBlock_cases cfg a s with ⟨-, heq⟩ | ⟨-, hpoll, hstill⟩
    · rw [heq]
      exact h.finish hdec hw (by simp [hpc])
    · exact h.quiet (by simp [hpc]) hstill.printed (by simp [hpoll])
  · rcases pollBlock_cases pf cfg a s with ⟨-, heq⟩ | ⟨-, hstill, hnext⟩
    · rw [heq]
      exact h.finish hdec hw (by simp [hpc])
    · exact h.quiet (by simp [hpc]) hstill.printed fun h0 => by simp [h0] at hnext
  · refine h.quiet (by simp [hpc]) (printed_socketBlock hdec pf a s) ?_
    rcases socketBlock_pc pf cfg a s with hn | hn <;> cases pf <;> simp [hn, Pc.next]
  · obtain ⟨hstill, hnext⟩ := still_stdinBlock pf a s
    exact h.quiet (by simp [hpc]) hstill.printed (by rcases hnext with hn | hn <;> cases pf <;> simp [hn, Pc.next])
  · obtain ⟨hstill, hnext⟩ := still_sendBlock pf a s
    exact h.quiet (by simp [hpc]) hstill.printed (by rcases hnext with hn | hn <;> cases pf <;> simp [hn, Pc.next])
  · exact h

end Reports

theorem reports_start (cfg : CliConfig) (sockfd : ℤ) (now : UInt64) : Reports cfg (start cfg sockfd now) := by
  unfold start Reports
  rcases prepare_cases cfg sockfd with ⟨rc, hrc, herr⟩ | ⟨-, -, hnone⟩ | ⟨payload, hpay⟩
  · rw [herr]
    exact (if_neg fun h0 => hrc (Pc.done.inj h0)).symm
  · rw [hnone]
    rfl
  · rw [hpay]
    rfl

/-- **What a run under `-D` prints, by the time it returns `0`, is the analysis of the buffer**, when standard
output works. -/
theorem printed_analysis {pf : Platform} {cfg : CliConfig} {sockfd : ℤ} {now : UInt64} {s : St}
    (hdec : cfg.decodeHsm = true) (h : Reach (step pf cfg) Works (start cfg sockfd now) s) (hret : s.pc = .done 0) :
    printed s.log = analysis cfg s.hsmAccum := by
  have hr : Reports cfg s := h.invariant (I := Reports cfg) (reports_start cfg sockfd now)
    fun _ _ hs hw => hs.step hdec hw
  rwa [Reports, if_pos hret] at hr

/-! ### When the decoder is given the frame -/

/-- Some receive ended where the frame ends. -/
def FrameCut (body : List Byte) (log : List Event) : Prop :=
  ∃ n, ((recvChunks log).take n).flatten.length = (frame body).length

/-- Of chunks that reach a length with their last one, some make up that length only if all do. -/
theorem take_flatten_length {chunks : List (List Byte)} {last : List Byte} {len : ℕ}
    (hlt : chunks.flatten.length < len) :
    (∃ n, ((chunks ++ [last]).take n).flatten.length = len) ↔ (chunks ++ [last]).flatten.length = len := by
  constructor
  · rintro ⟨n, hn⟩
    by_cases hall : n ≤ chunks.length
    · rw [List.take_append_of_le_length hall] at hn
      have hsplit : (chunks.take n).flatten.length + (chunks.drop n).flatten.length = chunks.flatten.length := by
        rw [← List.length_append, ← List.flatten_append, List.take_append_drop]
      omega
    · rwa [List.take_of_length_le (by simp; omega)] at hn
  · intro heq
    exact ⟨(chunks ++ [last]).length, by rwa [List.take_length]⟩

/-- The buffer is the frame exactly when a receive ends where the frame ends. -/
theorem hsmAccum_eq_frame {pf : Platform} {cfg : CliConfig} {sockfd : ℤ} {now : UInt64} {body rest : List Byte} {s : St}
    (hdec : cfg.decodeHsm = true) (hterm : cfg.hasTermChar = false) (hbody : body.length ≤ 65535)
    (h : Reach (step pf cfg) (Serves (frame body ++ rest)) (start cfg sockfd now) s) (hret : s.pc = .done 0) :
    s.hsmAccum = frame body ↔ FrameCut body s.log := by
  have hrun := h.strengthen fun s hs => reach_open hs
  have hc : Collects body rest s := hrun.invariant (I := Collects body rest) (collects_start body rest cfg sockfd now)
    fun _ _ hs hpromise => hs.step hbody hdec hterm hpromise.2 hpromise.1
  obtain ⟨chunks, last, hchunks, hlt, -, haccum⟩ := hc.reached (hc.zero hret)
  have hserved := hc.served
  rw [← flatten_recvChunks, hchunks] at hserved
  rw [FrameCut, hchunks, take_flatten_length hlt]
  constructor
  · intro heq
    rcases haccum with hall | ⟨hdrop, -⟩
    · rw [← hall, heq]
    · rw [← hdrop, heq] at hlt
      omega
  · intro heq
    rcases haccum with hall | ⟨-, hmore⟩
    · rw [hall]
      exact List.IsPrefix.eq_of_length (List.prefix_of_prefix_length_le hserved (List.prefix_append _ _) heq.le) heq
    · omega

/-- A run that returns `0`, in which the server sends `stream` and standard output works. -/
def Decoded (cfg : CliConfig) (stream : List Byte) (s : St) : Prop :=
  s.pc = .done 0 ∧ ∃ pf sockfd now,
    Reach (step pf cfg) (fun s a => Serves stream s a ∧ Works s a) (start cfg sockfd now) s

/-- **The decoder is given the frame exactly when a receive ends where the frame ends**, and what is printed is the
analysis of what it is given; two runs that so receive the same stream give it the same and print the same. -/
theorem hsmAccum_frame (cfg : CliConfig) (body rest : List Byte) (hdec : cfg.decodeHsm = true)
    (hterm : cfg.hasTermChar = false) (hbody : body.length ≤ 65535) :
    (∀ pf sockfd now s, Reach (step pf cfg) (Serves (frame body ++ rest)) (start cfg sockfd now) s → s.pc = .done 0 →
      (s.hsmAccum = frame body ↔ FrameCut body s.log)) ∧
    (∀ s, Decoded cfg (frame body ++ rest) s → printed s.log = analysis cfg s.hsmAccum) ∧
    ∀ s s', Decoded cfg (frame body ++ rest) s → Decoded cfg (frame body ++ rest) s' →
      FrameCut body s.log → FrameCut body s'.log →
      s.hsmAccum = s'.hsmAccum ∧ printed s.log = printed s'.log := by
  have hframe : ∀ s, Decoded cfg (frame body ++ rest) s → FrameCut body s.log → s.hsmAccum = frame body := by
    rintro s ⟨hret, pf, sockfd, now, h⟩ hcut
    exact (hsmAccum_eq_frame hdec hterm hbody (h.mono fun _ _ ha => ha.1) hret).mpr hcut
  have hprint : ∀ s, Decoded cfg (frame body ++ rest) s → printed s.log = analysis cfg s.hsmAccum := by
    rintro s ⟨hret, pf, sockfd, now, h⟩
    exact printed_analysis hdec (h.mono fun _ _ ha => ha.2) hret
  refine ⟨fun pf sockfd now s h hret => hsmAccum_eq_frame hdec hterm hbody h hret, hprint, ?_⟩
  intro s s' hs hs' hcut hcut'
  have hsame : s.hsmAccum = s'.hsmAccum := (hframe s hs hcut).trans (hframe s' hs' hcut').symm
  exact ⟨hsame, by rw [hprint s hs, hprint s' hs', hsame]⟩

/-- A request is sent, and the answer comes in two pieces, of which the second ends the frame, or in one. -/
theorem hsmAccum_frame_two :
    let cfg : CliConfig := { decodeHsm := true, isAscii := true, asciiPayload := str "NC" }
    let request : List Answer := [{}, { sockRev := { pollout := true } }, {}, {}, { send := .accept 2 }, {}]
    let pieces : List Answer := [{ sockRev := { pollin := true } }, { recv := .data [0] }, {}, {}, {},
      { sockRev := { pollin := true } }, { recv := .data [4, 78, 68, 48, 48] }, {}, {}, {}]
    let whole : List Answer := [{ sockRev := { pollin := true } }, { recv := .data [0, 4, 78, 68, 48, 48] }, {}, {}, {}]
    let s := run (step .posix cfg) (start cfg 3 0) (request ++ pieces)
    let s' := run (step .posix cfg) (start cfg 3 0) (request ++ whole)
    s.hsmAccum = frame (str "ND00") ∧ printed s.log = analysis cfg (frame (str "ND00")) ∧
      printed s'.log = printed s.log := by
  intro cfg request pieces whole s s'
  have hserves : Keeps (step .posix cfg) (fun s a => Serves (frame (str "ND00") ++ frame (str "NE00")) s a ∧ Works s a)
      (start cfg 3 0) (request ++ pieces) := by decide +kernel
  have hserves' : Keeps (step .posix cfg) (fun s a => Serves (frame (str "ND00") ++ frame (str "NE00")) s a ∧ Works s a)
      (start cfg 3 0) (request ++ whole) := by decide +kernel
  have hs : Decoded cfg (frame (str "ND00") ++ frame (str "NE00")) s := ⟨by decide, .posix, 3, 0, reach_run hserves⟩
  have hs' : Decoded cfg (frame (str "ND00") ++ frame (str "NE00")) s' := ⟨by decide, .posix, 3, 0, reach_run hserves'⟩
  have hcut : FrameCut (str "ND00") s.log := ⟨2, by decide⟩
  have hcut' : FrameCut (str "ND00") s'.log := ⟨1, by decide⟩
  obtain ⟨hframe, hprint, htwo⟩ := hsmAccum_frame cfg (str "ND00") (frame (str "NE00")) rfl rfl (by decide)
  have haccum := (hframe .posix 3 0 s ((reach_run hserves).mono fun _ _ h => h.1) hs.1).mpr hcut
  exact ⟨haccum, by rw [hprint s hs, haccum], (htwo s' s hs' hs hcut' hcut).2⟩

/-- Two answers in one chunk: the decoder is given both. -/
theorem hsmAccum_coalesced :
    let cfg : CliConfig := { decodeHsm := true, isAscii := true, asciiPayload := str "NC" }
    let answers : List Answer := [{}, { sockRev := { pollout := true } }, {}, {}, { send := .accept 2 }, {},
      { sockRev := { pollin := true } }, { recv := .data [0, 2, 78, 68, 0, 2, 78, 69] }, {}, {}, {}]
    let s := run (step .posix cfg) (start cfg 3 0) answers
    Reach (step .posix cfg) (Serves (frame (str "ND") ++ frame (str "NE"))) (start cfg 3 0) s ∧ s.pc = .done 0 ∧
      s.hsmAccum = frame (str "ND") ++ frame (str "NE") ∧ s.hsmAccum ≠ frame (str "ND") := by
  intro cfg answers s
  have hserves : Keeps (step .posix cfg) (Serves (frame (str "ND") ++ frame (str "NE"))) (start cfg 3 0) answers := by
    decide +kernel
  exact ⟨reach_run hserves, by decide, by decide, by decide⟩

end TcpClient.Oneshot
