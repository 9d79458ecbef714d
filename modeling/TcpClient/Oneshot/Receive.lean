import TcpClient.Oneshot.Blocks
import TcpClient.Lib.Stream

/-!
# What one-shot mode prints

Without `-D` the loop prints what it receives, as it is or, under `-X`, in lines of hex,
up to and including the terminator of `-T`.

## What is proved

* `output_cut` — in every state of every run in which the output works: what is printed
  is what was received, cut after the first terminator, or hex text that decodes to
  that; how the stream came in pieces does not matter. After the terminator there is
  no receive and no output any more.

The terminator is looked for in each chunk alone. That it is found in the stream rests
on one invariant (`Faithful`): as long as the socket is open no terminator has come.
-/

namespace TcpClient.Oneshot

open Machine CString TcpClient.Stream

/-! ### The stream and its cut -/

/-- The terminator of `-T` is in the stream. -/
def TermIn (cfg : CliConfig) (stream : List Byte) : Prop := cfg.hasTermChar = true ∧ cfg.termChar ∈ stream

/-- The stream up to and including the terminator of `-T`; all of it without `-T`. -/
def cutAtTerm (cfg : CliConfig) (stream : List Byte) : List Byte :=
  if cfg.hasTermChar then cutAfter (· == cfg.termChar) stream else stream

section Cut

variable {cfg : CliConfig} {stream : List Byte}

/-- Before the terminator every chunk counts. -/
theorem cutAtTerm_append (h : ¬ TermIn cfg stream) (chunk : List Byte) :
    cutAtTerm cfg (stream ++ chunk) = stream ++ cutAtTerm cfg chunk := by
  unfold cutAtTerm
  split_ifs with hterm
  · refine cutAfter_append_of_all _ (fun b hb => ?_) chunk
    have hne : b ≠ cfg.termChar := fun heq => h ⟨hterm, heq ▸ hb⟩
    simpa using hne
  · rfl

theorem cutAtTerm_of_not (h : ¬ TermIn cfg stream) : cutAtTerm cfg stream = stream := by
  simpa [cutAtTerm, cutAfter] using cutAtTerm_append h []

/-- **The search in a chunk cuts it where the stream is cut**, and says whether it found
anything. -/
theorem scanTerm_spec (cfg : CliConfig) (chunk : List Byte) :
    chunk.take (scanTerm cfg chunk).1 = cutAtTerm cfg chunk ∧ ((scanTerm cfg chunk).2 = true ↔ TermIn cfg chunk) := by
  unfold scanTerm cutAtTerm TermIn
  split_ifs with hterm
  · split
    · next i hi =>
      refine ⟨(cutAfter_of_findIdx? _ hi).symm, fun _ => ⟨hterm, ?_⟩, fun _ => rfl⟩
      obtain ⟨hlt, hb, -⟩ := List.findIdx?_eq_some_iff_getElem.mp hi
      rw [← eq_of_beq hb]
      exact List.getElem_mem _
    · next hnone =>
      rw [List.findIdx?_eq_none_iff] at hnone
      refine ⟨?_, by simp, fun hin => ?_⟩
      · rw [List.take_length, cutAfter_of_all _ hnone]
      · simpa using hnone _ hin.2
  · exact ⟨List.take_length, by simp [hterm]⟩

/-- A chunk is never cut to nothing. -/
theorem cutAtTerm_ne_nil {chunk : List Byte} (h : chunk ≠ []) : cutAtTerm cfg chunk ≠ [] := by
  obtain ⟨b, bs, rfl⟩ := List.exists_cons_of_ne_nil h
  unfold cutAtTerm cutAfter
  split_ifs <;> simp

end Cut

/-! ### Output that works -/

/-- `malloc` succeeds, and a write to standard output takes something or is interrupted. -/
def Works (_ : St) (a : Answer) : Prop :=
  a.malloc = true ∧ ∀ ans ∈ a.stdout, ans = .fail .eintr ∨ ∃ n, ans = .accept (n + 1)

instance (s : St) (a : Answer) : Decidable (Works s a) :=
  have (ans : SendAns) : Decidable (ans = .fail .eintr ∨ ∃ n, ans = .accept (n + 1)) :=
    match ans with
    | .accept 0 => .isFalse (by simp)
    | .accept (n + 1) => .isTrue (.inr ⟨n, rfl⟩)
    | .fail err => decidable_of_iff (err = .eintr) (by simp)
  inferInstanceAs (Decidable (_ ∧ _))

/-- Then a write is complete. -/
theorem writeAllFd_works {script : List SendAns} (h : ∀ ans ∈ script, ans = .fail .eintr ∨ ∃ n, ans = .accept (n + 1))
    (left written : List Byte) : writeAllFd script left written = (true, written ++ left) := by
  induction script generalizing left written with
  | nil => cases left <;> simp [writeAllFd]
  | cons ans script ih =>
    have hrest := ih fun ans' hmem => h ans' (List.mem_cons_of_mem _ hmem)
    cases left with
    | nil => simp [writeAllFd]
    | cons b left =>
      rcases h ans List.mem_cons_self with rfl | ⟨n, rfl⟩
      · simp only [writeAllFd, if_true, hrest]
      · simp only [writeAllFd, Nat.succ_ne_zero, if_false, hrest, List.append_assoc, List.take_append_drop]

theorem writeStdout_works {s : St} {a : Answer} (h : Works s a) (text : List Byte) (t : St) :
    writeStdout a text t = (true, { t with log := t.log ++ [.stdout text] }) := by
  unfold writeStdout
  rw [writeAllFd_works h.2]
  rfl

/-- How a chunk looks when it is printed. -/
def shown (cfg : CliConfig) (chunk : List Byte) : List Byte := if cfg.hexOut then hexLine chunk else chunk

/-- Without `-D` a chunk is printed. -/
theorem deliver_works {cfg : CliConfig} (hdec : cfg.decodeHsm = false) {s : St} {a : Answer} (h : Works s a)
    (chunk : List Byte) (t : St) :
    deliver cfg a chunk t = (true, { t with log := t.log ++ [.stdout (shown cfg chunk)] }) := by
  unfold deliver shown
  rw [hdec, h.1]
  obtain ⟨text, htext, hline⟩ := bytesToHex_line chunk
  simp only [htext, Bool.false_eq_true, if_false, if_true]
  split_ifs
  · rw [writeStdout_works h, hline]
  · exact writeStdout_works h chunk t

/-! ### The invariant -/

/-- Some chunks were printed that make up the stream received, cut at its terminator, and as
long as the socket is open there was none. -/
structure Faithful (cfg : CliConfig) (s : St) : Prop where
  shows : ∃ chunks : List (List Byte), (∀ chunk ∈ chunks, chunk ≠ []) ∧ printed s.log = chunks.flatMap (shown cfg) ∧
    chunks.flatten = cutAtTerm cfg (received s.log)
  no_term : s.socketEof = false → ¬ TermIn cfg (received s.log)

section Faithful

variable {pf : Platform} {cfg : CliConfig} {s t : St} {a : Answer}

/-- Whatever leaves the receiving side alone. -/
theorem Faithful.still (h : Faithful cfg s) (hs : Still s t) : Faithful cfg t := by
  obtain ⟨shows, no_term⟩ := h
  rw [← hs.printed, ← hs.received] at shows
  rw [← hs.received, ← hs.socketEof] at no_term
  exact ⟨shows, no_term⟩

/-- The end of the stream, which brings nothing. -/
theorem Faithful.quiet (h : Faithful cfg s) (hlog : received t.log = received s.log)
    (hprint : printed t.log = printed s.log) (hopen : t.socketEof = false → s.socketEof = false) : Faithful cfg t := by
  obtain ⟨shows, no_term⟩ := h
  rw [← hprint, ← hlog] at shows
  exact ⟨shows, fun ht => by rw [hlog]; exact no_term (hopen ht)⟩

/-- **A chunk is printed up to the terminator.** -/
theorem Faithful.receiveData (h : Faithful cfg s) (hdec : cfg.decodeHsm = false) (hopen : s.socketEof = false)
    (hw : Works s a) {bs : List Byte} (hbs : bs ≠ []) : Faithful cfg (receiveData pf cfg a bs s) := by
  obtain ⟨⟨chunks, hne, hshown, hflat⟩, no_term⟩ := h
  have hno := no_term hopen
  obtain ⟨hcut, hfound⟩ := scanTerm_spec cfg bs
  have hstream : cutAtTerm cfg (received s.log ++ bs) = chunks.flatten ++ cutAtTerm cfg bs := by
    rw [cutAtTerm_append hno, hflat, cutAtTerm_of_not hno]
  rw [receiveData_eq, deliver_works hdec hw, hcut]
  simp only [if_true]
  refine ⟨⟨chunks ++ [cutAtTerm cfg bs], ?_, ?_, ?_⟩, fun heof => ?_⟩
  · intro chunk hmem
    cases List.mem_append.mp hmem with
    | inl hmem => exact hne chunk hmem
    | inr hmem =>
      rw [List.mem_singleton.mp hmem]
      exact cutAtTerm_ne_nil hbs
  · simp [hshown]
  · simp [hstream]
  · have hnot : (scanTerm cfg bs).2 = false := by cases pf <;> simp_all [St.touch]
    rintro ⟨hterm, hmem⟩
    have hmem' : cfg.termChar ∈ received s.log ++ bs := by simpa using hmem
    cases List.mem_append.mp hmem' with
    | inl hmem' => exact hno ⟨hterm, hmem'⟩
    | inr hmem' => simp [hfound.mpr ⟨hterm, hmem'⟩] at hnot

theorem Faithful.serverGone (h : Faithful cfg s) : Faithful cfg (serverGone pf cfg s) := by
  unfold Oneshot.serverGone
  dsimp only
  split_ifs
  · exact h.quiet (by simp [St.ret]) (by simp [St.ret]) id
  · exact h.quiet (by simp) (by simp) fun hpc => by cases hpc

theorem Faithful.socketBlock (h : Faithful cfg s) (hdec : cfg.decodeHsm = false) (hopen : s.socketEof = false)
    (hw : Works s a) : Faithful cfg (socketBlock pf cfg a s) := by
  unfold Oneshot.socketBlock
  split_ifs
  · exact h.still (still_goto s _)
  · exact h.serverGone
  · unfold receive
    split
    · exact h.serverGone
    · next hne _ => exact h.receiveData hdec hopen hw hne
    · split_ifs
      · exact h.still (still_goto s _)
      · exact h.still (still_goto s _)
  · exact h.still (still_goto s _)

theorem Faithful.step (h : Faithful cfg s) (hdec : cfg.decodeHsm = false) (ho : Open s) (hw : Works s a) :
    Faithful cfg (step pf cfg s a) := by
  unfold Oneshot.step
  split <;> rename_i hpc
  · rcases loopBlock_cases cfg a s with ⟨-, heq⟩ | ⟨-, -, hstill⟩
    · rw [heq]
      exact h.still (still_finish hdec a s)
    · exact h.still hstill
  · rcases pollBlock_cases pf cfg a s with ⟨-, heq⟩ | ⟨-, hstill, -⟩
    · rw [heq]
      exact h.still (still_finish hdec a s)
    · exact h.still hstill
  · exact h.socketBlock hdec (ho (.inr hpc)) hw
  · exact h.still (still_stdinBlock pf a s).1
  · exact h.still (still_sendBlock pf a s).1
  · exact h

end Faithful

theorem faithful_start (cfg : CliConfig) (sockfd : ℤ) (now : UInt64) : Faithful cfg (start cfg sockfd now) := by
  have hcut : cutAtTerm cfg [] = [] := by unfold cutAtTerm cutAfter; split_ifs <;> rfl
  unfold start
  split <;> exact ⟨⟨[], by simp, rfl, hcut.symm⟩, fun _ => by simp [TermIn]⟩

/-! ### After the terminator -/

/-- The socket is at its end, and the loop is past receiving. -/
def Past (s : St) : Prop := s.socketEof = true ∧ s.pc ≠ .poll ∧ s.pc ≠ .socket

theorem past_of_next {pf : Platform} {s : St} {pc : Pc} {rc : ℤ} (hpc : pc = .socket ∨ pc = .stdin ∨ pc = .send)
    (heof : s.socketEof = true) (h : s.pc = Pc.next pf pc ∨ s.pc = .done rc) : Past s := by
  have ho := open_of_next hpc h
  exact ⟨heof, fun hp => by simp [ho (.inl hp)] at heof, fun hp => by simp [ho (.inr hp)] at heof⟩

/-- From there on the receiving side does not move. -/
theorem past_step (pf : Platform) {cfg : CliConfig} (hdec : cfg.decodeHsm = false) {s : St} (h : Past s) (a : Answer) :
    Past (step pf cfg s a) ∧ Still s (step pf cfg s a) := by
  obtain ⟨heof, hpoll, hsocket⟩ := h
  unfold step
  split <;> rename_i hpc
  · rcases loopBlock_cases cfg a s with ⟨-, heq⟩ | ⟨hopen, -⟩
    · rw [heq]
      have hstill := still_finish hdec a s
      exact ⟨⟨hstill.socketEof.trans heof, by simp [finish_pc], by simp [finish_pc]⟩, hstill⟩
    · simp [hopen] at heof
  · exact absurd hpc hpoll
  · exact absurd hpc hsocket
  · obtain ⟨hstill, hnext⟩ := still_stdinBlock pf a s
    exact ⟨past_of_next (.inr (.inl rfl)) (hstill.socketEof.trans heof) hnext, hstill⟩
  · obtain ⟨hstill, hnext⟩ := still_sendBlock pf a s
    exact ⟨past_of_next (.inr (.inr rfl)) (hstill.socketEof.trans heof) hnext, hstill⟩
  · exact ⟨⟨heof, hpoll, hsocket⟩, still_goto s s.pc⟩

/-- A run from there on receives nothing and prints nothing. -/
theorem past_run (pf : Platform) {cfg : CliConfig} (hdec : cfg.decodeHsm = false) {A : St → Answer → Prop} {s t : St}
    (h : Past s) (hrun : Reach (step pf cfg) A s t) : Past t ∧ Still s t := by
  refine hrun.invariant (I := fun t => Past t ∧ Still s t) ⟨h, still_goto s s.pc⟩ ?_
  rintro t a ⟨hp, hs⟩ -
  obtain ⟨hp', hs'⟩ := past_step pf hdec hp a
  exact ⟨hp', hs.trans hs'⟩

/-! ### The output -/

/-- **What is printed is the stream up to its terminator**, whatever the pieces it came in:
the bytes themselves, or hex text that decodes to them. From the terminator on no run
receives or prints anything. -/
theorem output_cut (pf : Platform) (cfg : CliConfig) (sockfd : ℤ) (now : UInt64) (s : St)
    (hdec : cfg.decodeHsm = false) (h : Reach (step pf cfg) Works (start cfg sockfd now) s) :
    (cfg.hexOut = false → printed s.log = cutAtTerm cfg (received s.log)) ∧
      (cfg.hexOut = true → ∀ maxBufSize, (cutAtTerm cfg (received s.log)).length ≤ maxBufSize →
        hexToBytes (printed s.log) maxBufSize =
          ⟨0, (cutAtTerm cfg (received s.log)).length, cutAtTerm cfg (received s.log)⟩) ∧
      (TermIn cfg (received s.log) → ∀ t, Reach (step pf cfg) Free s t →
        t.pc ≠ .socket ∧ ∃ evs, t.log = s.log ++ evs ∧ evs.all fun ev => !Event.inbound ev) := by
  have hrun := h.strengthen fun s hs => reach_open hs
  have hf : Faithful cfg s := hrun.invariant (I := Faithful cfg) (faithful_start cfg sockfd now)
    fun _ _ hs hpromise => hs.step hdec hpromise.2 hpromise.1
  obtain ⟨⟨chunks, hne, hshown, hflat⟩, no_term⟩ := hf
  refine ⟨fun hx => ?_, fun hx maxBufSize hmax => ?_, fun hterm t ht => ?_⟩
  · have hplain : shown cfg = id := by funext chunk; simp [shown, hx]
    rw [hshown, hplain, List.flatMap_id, hflat]
  · have hline : shown cfg = hexLine := by funext chunk; simp [shown, hx]
    rw [hshown, hline, ← hflat]
    exact hexToBytes_hexLines maxBufSize chunks hne (hflat ▸ hmax)
  · have heof : s.socketEof = true := by
      by_contra hopen
      exact no_term (Bool.eq_false_iff.mpr hopen) hterm
    have ho := reach_open h
    obtain ⟨⟨-, -, hpc⟩, hstill⟩ := past_run pf hdec ⟨heof, fun hp => by simp [ho (.inl hp)] at heof,
      fun hp => by simp [ho (.inr hp)] at heof⟩ ht
    exact ⟨hpc, hstill.log⟩

/-- Two chunks under `-X`, the terminator in the middle of the second. -/
theorem output_cut_two :
    let cfg : CliConfig := { hexOut := true, isAscii := true, hasTermChar := true, termChar := 10 }
    let answers : List Answer := [{}, { sockRev := { pollin := true } }, { recv := .data [1, 2] }, {}, {}, {},
      { sockRev := { pollin := true } }, { recv := .data [3, 10, 4] }]
    let s := run (step .posix cfg) (start cfg 3 0) answers
    received s.log = [1, 2, 3, 10, 4] ∧ hexToBytes (printed s.log) 8 = ⟨0, 4, [1, 2, 3, 10]⟩ := by
  intro cfg answers s
  have hworks : ∀ a ∈ answers, ∀ s, Works s a := fun a ha s => by
    have hnone : a.malloc = true ∧ a.stdout = [] := by revert a; decide
    exact ⟨hnone.1, by simp [hnone.2]⟩
  have h := output_cut .posix cfg 3 0 s rfl (reach_run (keeps_of_forall hworks))
  have hrecv : received s.log = [1, 2, 3, 10, 4] := by decide
  refine ⟨hrecv, ?_⟩
  have hhex := h.2.1 rfl 8
  rw [hrecv] at hhex
  exact hhex (by decide)

end TcpClient.Oneshot
