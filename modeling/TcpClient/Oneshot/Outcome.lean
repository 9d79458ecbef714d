import TcpClient.Oneshot.Upload

/-!
# What a result of 0 says

One-shot mode returns `0` when the loop ends because the socket is at its end. Where
`recv` or `poll` says so, the loop first asks whether there is more to send
(`St.unsent`) and returns `5` if there is. The terminator of `-T` and a complete or
overfull frame under `-D` end the loop without asking.

## What is proved

* `ret_zero_complete` — a run in which no signal comes and which returns `0` has sent
  the whole request, provided that `-T` and `-D` do not end the conversation while
  there is more to send.
* `ret_zero_early` — there is a run that returns `0` with its whole payload unsent.
-/

namespace TcpClient.Oneshot

open Machine

/-- The whole request is out: the payload, or standard input up to its end. -/
def Complete (cfg : CliConfig) (sockfd : ℤ) (log : List Event) : Prop :=
  sent log = request cfg sockfd log ∧ (prepare cfg sockfd = .ok none → .stdinEof ∈ log)

/-- Whether a chunk ends the conversation: by the terminator of `-T`, or under `-D` by
completing the frame or by leaving no room. -/
def endsConversation (cfg : CliConfig) (s : St) (bs : List Byte) : Bool :=
  let (toProcess, termFound) := scanTerm cfg bs
  let chunk := bs.take toProcess
  termFound || (cfg.decodeHsm && (bufSize + 512 < s.hsmAccum.length + chunk.length || frameComplete (s.hsmAccum ++ chunk)))

/-- The block of the socket calls `recv`. -/
def St.receives (s : St) : Bool := !s.sockRev.pollerr && s.sockRev.pollin

/-- The step receives a chunk that ends the conversation, and standard output takes it. -/
def Ends (cfg : CliConfig) (s : St) (a : Answer) : Prop :=
  s.pc = .socket ∧ s.receives = true ∧ ∃ bs, bs ≠ [] ∧ a.recv.clip bufSize = .data bs ∧
    endsConversation cfg s bs = true ∧ (deliver cfg a (bs.take (scanTerm cfg bs).1) s).1 = true

/-- The chunk received, if any, is the one to look at. -/
theorem ends_iff (cfg : CliConfig) (s : St) (a : Answer) :
    (s.pc = .socket ∧ s.receives = true ∧ ¬ ∀ bs, a.recv.clip bufSize = .data bs → bs ≠ [] →
      endsConversation cfg s bs = true → (deliver cfg a (bs.take (scanTerm cfg bs).1) s).1 = false) ↔ Ends cfg s a := by
  refine and_congr_right fun _ => and_congr_right fun _ => ?_
  push Not
  simp only [ne_eq, Bool.not_eq_false]
  exact exists_congr fun bs => and_left_comm

instance (cfg : CliConfig) (s : St) (a : Answer) : Decidable (Ends cfg s a) := decidable_of_iff _ (ends_iff cfg s a)

/-- No signal, no conversation ended by `-T` or `-D` while there is more to send, and, where
a failing read counts as the end of the input, no failing read. -/
def Patient (pf : Platform) (cfg : CliConfig) (s : St) (a : Answer) : Prop :=
  a.interrupted = false ∧ (Ends cfg s a → s.unsent cfg = false) ∧
    (pf = .windows → s.pc = .stdin → readsStdin pf a s = true → ∀ err, a.stdin ≠ .fail err)

instance (pf : Platform) (cfg : CliConfig) (s : St) (a : Answer) : Decidable (Patient pf cfg s a) :=
  inferInstanceAs (Decidable (_ ∧ _ ∧ _))

/-! ### The socket's end comes when everything is out -/

/-- What a patient run keeps: the socket is at its end only when everything is out, and so is
the run when it returns `0`. -/
structure Candid (cfg : CliConfig) (sockfd : ℤ) (s : St) : Prop where
  at_end : s.socketEof = true → s.unsent cfg = false
  eof_seen : prepare cfg sockfd = .ok none → s.stdinEof = true → .stdinEof ∈ s.log
  zero : s.pc = .done 0 → s.unsent cfg = false

section Candid

variable {pf : Platform} {cfg : CliConfig} {sockfd : ℤ} {s t : St} {u : Upload Byte} {a : Answer}

/-- A state whose sending side has not moved and that does not end anything. -/
theorem Candid.calm (h : Candid cfg sockfd s) (hc : Calm s t)
    (hover : t.socketEof = true → s.unsent cfg = false) (hpc : t.pc ≠ .done 0) : Candid cfg sockfd t := by
  refine ⟨fun ht => ?_, fun hnone he => ?_, fun h0 => absurd h0 hpc⟩
  · rw [hc.unsent]
    exact hover ht
  · obtain ⟨evs, hlog, -⟩ := hc.log
    rw [hlog]
    exact List.mem_append_left _ (h.eof_seen hnone (hc.stdinEof ▸ he))

/-- The loop is left when the socket is at its end. -/
theorem Candid.finish (h : Candid cfg sockfd s) (heof : s.socketEof = true) (a : Answer) :
    Candid cfg sockfd (finish cfg a s) := by
  obtain ⟨evs, -, -, -, heq⟩ := finish_eq cfg a s
  obtain ⟨shut, -, hwrite⟩ := shutdownWrite_eq cfg s.log
  rw [heq]
  refine ⟨fun _ => h.at_end heof, fun hnone he => ?_, fun _ => h.at_end heof⟩
  have hmem := h.eof_seen hnone he
  rw [hwrite]
  split_ifs <;> simp [hmem]

/-- Whether a chunk is delivered does not depend on the state. -/
theorem deliver_fst (chunk : List Byte) (s t : St) : (deliver cfg a chunk s).1 = (deliver cfg a chunk t).1 := by
  unfold deliver
  split_ifs
  · rfl
  · split <;> rfl
  · rfl
  · rfl

/-- A chunk that is delivered brings the socket to its end under `-D` only. -/
theorem socketEof_deliver {chunk : List Byte} (h : (deliver cfg a chunk s).2.socketEof = true) :
    s.socketEof = true ∨
      (cfg.decodeHsm && (bufSize + 512 < s.hsmAccum.length + chunk.length || frameComplete (s.hsmAccum ++ chunk))) =
        true ∧ (deliver cfg a chunk s).1 = true := by
  unfold deliver at h ⊢
  split_ifs at h ⊢ with hdec
  · unfold accumulate at h
    split_ifs at h with hroom
    · rw [Bool.or_eq_true] at h
      exact h.imp_right fun hcomplete => by simp [hdec, hcomplete]
    · exact .inr ⟨by simp [hdec, not_le.mp hroom], rfl⟩
  · split at h <;> exact .inl h
  · exact .inl h
  · exact .inl h

/-- Where the socket's end comes from: it was there, or everything is out, or the chunk
received ends the conversation. -/
theorem socketEof_socketBlock (hpc : s.pc = .socket) (h : (socketBlock pf cfg a s).socketEof = true) :
    s.socketEof = true ∨ s.unsent cfg = false ∨ Ends cfg s a := by
  have hgone : (serverGone pf cfg s).socketEof = true → s.socketEof = true ∨ s.unsent cfg = false := by
    unfold serverGone
    dsimp only
    split_ifs with hun
    · exact .inl
    · exact fun _ => .inr (by simpa [St.unsent] using hun)
  unfold socketBlock at h
  split_ifs at h with herr _ hin
  · exact .inl h
  · exact (hgone h).imp_right .inl
  · have hreceives : s.receives = true := by simp [St.receives, herr, hin]
    unfold receive at h
    split at h
    · exact (hgone h).imp_right .inl
    · next bs hne hrecv =>
      rw [receiveData_eq] at h
      generalize hs' : ({ s.touch pf a with log := s.log ++ [.recv bs] } : St) = s' at h
      have heof : s'.socketEof = s.socketEof := by subst hs'; cases pf <;> rfl
      have haccum : s'.hsmAccum = s.hsmAccum := by subst hs'; cases pf <;> rfl
      have hends : endsConversation cfg s bs = true → (deliver cfg a (bs.take (scanTerm cfg bs).1) s').1 = true →
          Ends cfg s a := fun hend hdel =>
        ⟨hpc, hreceives, bs, hne, hrecv, hend, (deliver_fst _ s s').trans hdel⟩
      dsimp only at h
      split_ifs at h with hdel
      · cases (Bool.or_eq_true _ _).mp h with
        | inl h =>
          rcases socketEof_deliver h with h | ⟨hend, -⟩
          · exact .inl (heof ▸ h)
          · rw [haccum] at hend
            exact .inr (.inr (hends (by simp only [endsConversation, hend, Bool.or_true]) hdel))
        | inr hterm => exact .inr (.inr (hends (by simp only [endsConversation, hterm, Bool.true_or]) hdel))
      · rcases socketEof_deliver h with h | ⟨-, hdel'⟩
        · exact .inl (heof ▸ h)
        · exact absurd hdel' hdel
    · split_ifs at h <;> exact .inl h
  · exact .inl h

/-- Where standard input may be read, there is more to send. -/
theorem unsent_of_may_read (hu : Tracks cfg sockfd s u) (hprep : ∀ rc, prepare cfg sockfd ≠ .error rc)
    (he : s.stdinEof = false) : s.unsent cfg = true := by
  rcases prepare_cases cfg sockfd with ⟨rc, -, herr⟩ | ⟨hhex, hascii, -⟩ | ⟨payload, hpay⟩
  · exact absurd herr (hprep rc)
  · simp [St.unsent, he, hhex, hascii]
  · simp [hu.payload payload hpay] at he

theorem Candid.stdinBlock (h : Candid cfg sockfd s) (hu : Tracks cfg sockfd s u)
    (hprep : ∀ rc, prepare cfg sockfd ≠ .error rc)
    (hok : pf = .windows → readsStdin pf a s = true → ∀ err, a.stdin ≠ .fail err) :
    Candid cfg sockfd (stdinBlock pf a s) := by
  have hne (pf : Platform) : Pc.next pf .stdin ≠ .done 0 := by cases pf <;> decide
  unfold Oneshot.stdinBlock
  split_ifs with hread
  · obtain ⟨he, -⟩ := hu.may_read hread
    have hopen : s.socketEof ≠ true := fun heof => by
      have hun := h.at_end heof
      simp [unsent_of_may_read hu hprep he] at hun
    have hnot : s.stdinEof ≠ true := Bool.eq_false_iff.mp he
    unfold readStdin
    split
    · exact ⟨fun ht => absurd ht hopen, fun _ _ => by simp, fun h0 => absurd h0 (hne pf)⟩
    · cases pf
      · exact ⟨fun ht => absurd ht hopen, fun _ ht => absurd ht hnot, fun h0 => absurd h0 (hne .posix)⟩
      · exact ⟨fun ht => absurd ht hopen, fun _ ht => absurd ht hnot, fun h0 => absurd h0 (hne .windows)⟩
    · next err herr =>
      have hfail : a.stdin = .fail err := by
        unfold RecvAns.clip at herr
        split at herr <;> simp_all
      cases pf <;> dsimp only
      · split_ifs
        · exact ⟨fun ht => absurd ht hopen, fun _ ht => absurd ht hnot, fun h0 => absurd h0 (hne .posix)⟩
        · exact ⟨fun ht => absurd ht hopen, fun _ ht => absurd ht hnot, by simp [St.ret]⟩
      · exact absurd hfail (hok rfl hread err)
  · exact h.calm ⟨rfl, rfl, rfl, rfl, rfl, by simp, [], by simp, rfl⟩ h.at_end (hne pf)

theorem Candid.sendBlock (h : Candid cfg sockfd s) : Candid cfg sockfd (sendBlock pf a s) := by
  have hne (pf : Platform) : Pc.next pf .send ≠ .done 0 := by cases pf <;> decide
  unfold Oneshot.sendBlock
  split
  · next hready =>
    simp only [Bool.and_eq_true] at hready
    have hopen : s.socketEof ≠ true := fun heof => by
      have := h.at_end heof
      simp [St.unsent, hready.2] at this
    rcases a.send with n | err <;> dsimp only
    · split_ifs
      · rw [advance_eq]
        have hseen : ∀ ev, prepare cfg sockfd = .ok none → s.stdinEof = true → .stdinEof ∈ s.log ++ [ev] :=
          fun ev hnone he => List.mem_append_left _ (h.eof_seen hnone he)
        cases pf
        · exact ⟨fun ht => absurd ht hopen, hseen _, fun h0 => absurd h0 (hne .posix)⟩
        · exact ⟨fun ht => absurd ht hopen, hseen _, fun h0 => absurd h0 (hne .windows)⟩
      · exact h.calm (calm_goto s _) h.at_end (hne pf)
    · split_ifs
      · exact h.calm (calm_goto s _) h.at_end (hne pf)
      · exact h.calm (calm_ret s 5) h.at_end (by simp [St.ret])
  · exact h.calm (calm_goto s _) h.at_end (hne pf)

/-- **A patient step keeps the socket's end behind the upload's.** -/
theorem Candid.step (h : Candid cfg sockfd s) (hu : Tracks cfg sockfd s u) (ho : Open s)
    (hprep : ∀ rc, prepare cfg sockfd ≠ .error rc) (hp : Patient pf cfg s a) : Candid cfg sockfd (step pf cfg s a) := by
  obtain ⟨hint, hends, hstdin⟩ := hp
  unfold Oneshot.step
  split <;> rename_i hpc
  · unfold loopBlock
    rw [hint, Bool.false_or]
    split_ifs with heof hmay
    · exact h.finish heof a
    · obtain ⟨shut, -, hwrite⟩ := shutdownWrite_eq cfg s.log
      refine ⟨h.at_end, fun hnone he => ?_, by simp⟩
      rw [hwrite]
      exact List.mem_append_left _ (h.eof_seen hnone he)
    · exact h.calm (calm_goto s _) h.at_end (by simp)
  · rcases pollBlock_cases pf cfg a s with ⟨heof, -⟩ | ⟨hc, hstill, hnext⟩
    · simp [ho (.inl hpc)] at heof
    · refine h.calm hc (fun ht => h.at_end (hstill.socketEof ▸ ht)) ?_
      rintro h0
      simp [h0] at hnext
  · refine h.calm (calm_socketBlock pf cfg a s) (fun ht => ?_) ?_
    · rcases socketEof_socketBlock hpc ht with heof | hun | hend
      · exact h.at_end heof
      · exact hun
      · exact hends hend
    · rcases socketBlock_pc pf cfg a s with hnext | hnext <;> cases pf <;> simp [hnext, Pc.next]
  · exact h.stdinBlock hu hprep fun hw => hstdin hw hpc
  · exact h.sendBlock
  · exact h

end Candid

/-! ### The result -/

theorem candid_start {cfg : CliConfig} {sockfd : ℤ} (hprep : ∀ rc, prepare cfg sockfd ≠ .error rc) (now : UInt64) :
    Candid cfg sockfd (start cfg sockfd now) := by
  unfold start
  rcases hcase : prepare cfg sockfd with rc | _ | payload
  · exact absurd hcase (hprep rc)
  · exact ⟨by simp, by simp, by simp⟩
  · exact ⟨by simp, fun hnone => by simp [hcase] at hnone, by simp⟩

/-- When there is nothing more to send, the request is out. -/
theorem complete_of_unsent {cfg : CliConfig} {sockfd : ℤ} {s : St} {u : Upload Byte} (hu : Tracks cfg sockfd s u)
    (hc : Candid cfg sockfd s) (hprep : ∀ rc, prepare cfg sockfd ≠ .error rc) (hun : s.unsent cfg = false) :
    Complete cfg sockfd s.log := by
  have hlen : s.sendBufLen = 0 := by
    simp only [St.unsent, Bool.or_eq_false_iff, decide_eq_false_iff_not] at hun
    omega
  refine ⟨?_, fun hnone => hc.eof_seen hnone ?_⟩
  · rw [← hu.sent, ← hu.source]
    exact u.sent_eq_source (by rw [hu.pending, pending_of_len hlen])
  · by_contra he
    simp [unsent_of_may_read hu hprep (Bool.eq_false_iff.mpr he)] at hun

/-- **A run that returns 0 has sent the whole request**, when no signal comes and neither
`-T` nor `-D` ends the conversation while there is more to send. -/
theorem ret_zero_complete (pf : Platform) (cfg : CliConfig) (sockfd : ℤ) (now : UInt64) (s : St)
    (h : Reach (step pf cfg) (Patient pf cfg) (start cfg sockfd now) s) (hret : s.pc = .done 0) :
    Complete cfg sockfd s.log := by
  rcases prepare_cases cfg sockfd with ⟨rc, hrc, herr⟩ | hok
  · -- an early return stays what it is
    have hstart : s.pc = .done rc := h.invariant (I := fun s => s.pc = .done rc) (by simp [start, herr])
      fun s a hs _ => by rw [step, hs]; exact hs
    exact absurd (Pc.done.inj (hstart.symm.trans hret)) hrc
  · have hprep : ∀ rc, prepare cfg sockfd ≠ .error rc := by
      rintro rc herr
      rcases hok with ⟨-, -, hnone⟩ | ⟨payload, hpay⟩ <;> simp_all
    have hrun := (h.strengthen fun s hs => reach_tracks hs).strengthen
      fun s hs => reach_open (hs.mono fun _ _ ha => ha.1)
    have hc : Candid cfg sockfd s := by
      refine hrun.invariant (I := Candid cfg sockfd) (candid_start hprep now) ?_
      rintro s a hs ⟨⟨hp, u, hu⟩, ho⟩
      exact hs.step hu ho hprep hp
    obtain ⟨u, hu⟩ := reach_tracks h
    exact complete_of_unsent hu hc hprep (hc.zero hret)

/-- The terminator comes while the payload is on its way: two of three bytes are lost, and
the result is `0`. -/
theorem ret_zero_early :
    let cfg : CliConfig := { isAscii := true, asciiPayload := str "AB", hasTermChar := true, termChar := 0x19 }
    let answers : List Answer := [{}, { sockRev := { pollin := true, pollout := true } },
      { recv := .data [0x19] }, {}, { send := .accept 1 }, {}]
    let s := run (step .posix cfg) (start cfg 3 0) answers
    Reach (step .posix cfg) (fun _ a => a.interrupted = false) (start cfg 3 0) s ∧ s.pc = .done 0 ∧
      sent s.log = str "A" ∧ ¬ Complete cfg 3 s.log := by
  intro cfg answers s
  refine ⟨reach_run ⟨rfl, rfl, rfl, rfl, rfl, rfl, trivial⟩, by decide, by decide, fun h => ?_⟩
  exact absurd h.1 (by decide)

/-- A payload that is out, its terminator with it, before the server answers with a terminator. -/
theorem ret_zero_complete_one :
    let cfg : CliConfig := { isAscii := true, asciiPayload := str "A", hasTermChar := true, termChar := 0x19 }
    let answers : List Answer := [{}, { sockRev := { pollout := true } }, {}, {}, { send := .accept 2 }, {},
      { sockRev := { pollin := true } }, { recv := .data [0x19] }, {}, {}, {}]
    let s := run (step .posix cfg) (start cfg 3 0) answers
    s.pc = .done 0 ∧ sent s.log = str "A" ++ [0x19] ∧ Complete cfg 3 s.log := by
  intro cfg answers s
  have hret : s.pc = .done 0 := by decide
  have hpatient : Keeps (step .posix cfg) (Patient .posix cfg) (start cfg 3 0) answers := by decide +kernel
  exact ⟨hret, by decide, ret_zero_complete .posix cfg 3 0 s (reach_run hpatient) hret⟩

end TcpClient.Oneshot
