import TcpClient.ModeSteps

/-!
# The idle timer

The Windows loop waits for the socket in slices, and keeps the time limit itself: `last_activity` is when bytes were
last moved, and `4` is returned when `poll` finds that this is `timeout_ms` ago. Time is what `get_time_ms_hires`
answers, and does not go back (`Ordered`).

## What is proved

* `run_lastActivity` — `last_activity` is when a block last moved bytes, or when the loop was entered.
* `idle_timer` — `4` is returned just when `poll` finds that no byte was received, sent or read for `timeout_ms`; and
  a loop that has been idle for so long returns within five blocks.

## Honest scope

A clock that counts milliseconds in 64 bits does not come round.
-/

namespace TcpClient.Oneshot

open Machine CString

/-! ### What moves bytes -/

/-- Bytes were received, sent or read. -/
def Event.moves : Event → Bool
  | .recv _ | .send _ | .readStdin _ => true
  | _ => false

/-- How often bytes were moved. -/
def moves (log : List Event) : ℕ := log.countP Event.moves

theorem moves_append (log evs : List Event) : moves (log ++ evs) = moves log + moves evs := List.countP_append

/-- The block moved nothing and left `last_activity` alone, or moved bytes and set it. -/
def Timed (a : Answer) (s t : St) : Prop :=
  (moves t.log = moves s.log ∧ t.lastActivity = s.lastActivity) ∨ (moves s.log < moves t.log ∧ t.lastActivity = a.later)

section Blocks

variable {cfg : CliConfig} {a : Answer} {s t : St} {evs : List Event}

theorem timed_of_silent (evs : List Event) (hlog : t.log = s.log ++ evs) (hsilent : moves evs = 0)
    (hlast : t.lastActivity = s.lastActivity) : Timed a s t :=
  .inl ⟨by rw [hlog, moves_append, hsilent, Nat.add_zero], hlast⟩

theorem timed_goto (a : Answer) (s : St) (pc : Pc) : Timed a s { s with pc := pc } := .inl ⟨rfl, rfl⟩

/-- What the receiving side does besides receiving. -/
theorem moves_of_inbound (hin : evs.all Event.inbound) (hrecv : recvChunks evs = []) : moves evs = 0 := by
  rw [moves, List.countP_eq_zero]
  intro ev hev
  have hinbound := List.all_eq_true.mp hin ev hev
  cases ev with
  | recv bs =>
    have hmem : bs ∈ recvChunks evs := List.mem_flatMap.mpr ⟨.recv bs, hev, List.mem_singleton_self bs⟩
    rw [hrecv] at hmem
    exact absurd hmem List.not_mem_nil
  | readStdin _ | stdinEof | recvEof | send _ | shutdown | stdout _ | writeAll _ _ =>
    simp_all [Event.inbound, Event.moves]

theorem moves_shutdownWrite (cfg : CliConfig) (log : List Event) : moves (shutdownWrite cfg log) = moves log := by
  obtain ⟨evs, hevs, heq⟩ := shutdownWrite_eq cfg log
  rw [heq, moves_append]
  rcases hevs with rfl | rfl <;> rfl

theorem timed_finish (cfg : CliConfig) (a : Answer) (s : St) : Timed a s (finish cfg a s) := by
  obtain ⟨evs, hin, hrecv, -, heq⟩ := finish_eq cfg a s
  rw [heq]
  refine .inl ⟨?_, rfl⟩
  rw [moves_append, moves_of_inbound hin hrecv, Nat.add_zero]
  split_ifs
  · exact moves_shutdownWrite cfg s.log
  · rfl

theorem timed_loopBlock (cfg : CliConfig) (a : Answer) (s : St) : Timed a s (loopBlock cfg a s) := by
  unfold loopBlock
  split_ifs
  · exact timed_finish cfg a s
  · exact .inl ⟨moves_shutdownWrite cfg s.log, rfl⟩
  · exact timed_goto a s _

theorem timed_pollBlock (cfg : CliConfig) (a : Answer) (s : St) : Timed a s (pollBlock .windows cfg a s) := by
  unfold pollBlock pollWindows
  dsimp only
  split
  · exact timed_goto a s _
  · rcases a.poll with err | _ | _ <;> dsimp only
    · split_ifs <;> exact timed_goto a s _
    · split_ifs <;> exact .inl ⟨rfl, rfl⟩
    · exact .inl ⟨rfl, rfl⟩

theorem timed_serverGone (cfg : CliConfig) (a : Answer) (s : St) : Timed a s (serverGone .windows cfg s) := by
  unfold serverGone
  dsimp only
  split_ifs <;> exact timed_of_silent [.recvEof] rfl rfl rfl

/-- A chunk is printed, or kept. -/
theorem deliver_silent (cfg : CliConfig) (a : Answer) (chunk : List Byte) (s : St) :
    moves (deliver cfg a chunk s).2.log = moves s.log ∧ (deliver cfg a chunk s).2.lastActivity = s.lastActivity := by
  have hwrite : ∀ text, moves (writeStdout a text s).2.log = moves s.log := fun text => by
    rw [writeStdout_snd]
    exact moves_append s.log _
  unfold deliver
  split_ifs
  · unfold accumulate
    split_ifs <;> exact ⟨rfl, rfl⟩
  · split
    · exact ⟨hwrite _, rfl⟩
    · exact ⟨rfl, rfl⟩
  · exact ⟨rfl, rfl⟩
  · exact ⟨hwrite _, rfl⟩

theorem timed_receiveData (cfg : CliConfig) (a : Answer) (bs : List Byte) (s : St) :
    Timed a s (receiveData .windows cfg a bs s) := by
  obtain ⟨hmoves, hlast⟩ := deliver_silent cfg a (bs.take (scanTerm cfg bs).1)
    { s.touch .windows a with log := s.log ++ [.recv bs] }
  have hmore : moves s.log < moves (s.log ++ [.recv bs]) := by
    rw [moves_append]
    exact Nat.lt_add_one _
  rw [receiveData_eq]
  dsimp only
  split_ifs <;> exact .inr ⟨hmore.trans_eq hmoves.symm, hlast⟩

theorem timed_socketBlock (cfg : CliConfig) (a : Answer) (s : St) : Timed a s (socketBlock .windows cfg a s) := by
  unfold socketBlock
  split_ifs
  · exact timed_goto a s _
  · exact timed_serverGone cfg a s
  · unfold receive
    split
    · exact timed_serverGone cfg a s
    · exact timed_receiveData cfg a _ s
    · split_ifs <;> exact timed_goto a s _
  · exact timed_goto a s _

theorem timed_stdinBlock (a : Answer) (s : St) : Timed a s (stdinBlock .windows a s) := by
  unfold stdinBlock
  split_ifs
  · unfold readStdin
    split
    · exact timed_of_silent [.stdinEof] rfl rfl rfl
    · refine .inr ⟨?_, rfl⟩
      rw [moves_append]
      exact Nat.lt_add_one _
    · exact .inl ⟨rfl, rfl⟩
  · exact .inl ⟨rfl, rfl⟩

theorem timed_sendBlock (a : Answer) (s : St) : Timed a s (sendBlock .windows a s) := by
  unfold sendBlock
  split
  · rcases a.send with n | err <;> dsimp only
    · split_ifs
      · rw [advance_eq]
        refine .inr ⟨?_, rfl⟩
        dsimp only [St.touch]
        rw [moves_append]
        exact Nat.lt_add_one _
      · exact timed_goto a s _
    · split_ifs <;> exact timed_goto a s _
  · exact timed_goto a s _

/-- **A block** sets `last_activity` just when it moves bytes. -/
theorem timed_step (cfg : CliConfig) (s : St) (a : Answer) : Timed a s (step .windows cfg s a) := by
  unfold step
  split
  · exact timed_loopBlock cfg a s
  · exact timed_pollBlock cfg a s
  · exact timed_socketBlock cfg a s
  · exact timed_stdinBlock a s
  · exact timed_sendBlock a s
  · exact .inl ⟨rfl, rfl⟩

end Blocks

/-! ### The clock -/

/-- From `t` on the clock does not go back. -/
def Ordered : UInt64 → List Answer → Prop
  | _, [] => True
  | t, a :: answers => t ≤ a.now ∧ a.now ≤ a.later ∧ Ordered a.later answers

/-- When a block of the run last moved bytes; `t` where none has. -/
def lastMove (cfg : CliConfig) : St → UInt64 → List Answer → UInt64
  | _, t, [] => t
  | s, t, a :: answers =>
    let s' := step .windows cfg s a
    lastMove cfg s' (if moves s.log < moves s'.log then a.later else t) answers

/-- `poll` finds that `timeout_ms` have passed since `t`: before it waits, or after it has waited in vain. -/
def Expired (cfg : CliConfig) (t : UInt64) (a : Answer) : Prop :=
  t.toNat + (timeoutMs cfg).toNat ≤ a.now.toNat ∨
    (a.poll = .timeout ∧ t.toNat + (timeoutMs cfg).toNat ≤ a.later.toNat)

section Clock

variable {cfg : CliConfig} {a : Answer} {s : St} {t t₀ : UInt64} {answers pre post : List Answer}

/-- **`last_activity` is when bytes were last moved.** -/
theorem run_lastActivity (cfg : CliConfig) (s : St) (answers : List Answer) :
    (run (step .windows cfg) s answers).lastActivity = lastMove cfg s s.lastActivity answers := by
  induction answers generalizing s with
  | nil => rfl
  | cons a answers ih =>
    have hnext : (step .windows cfg s a).lastActivity =
        if moves s.log < moves (step .windows cfg s a).log then a.later else s.lastActivity := by
      rcases timed_step cfg s a with ⟨hmoves, hlast⟩ | ⟨hmoves, hlast⟩
      · rw [if_neg hmoves.le.not_gt, hlast]
      · rw [if_pos hmoves, hlast]
    rw [run_cons, ih, lastMove, hnext]

/-- It is in the past. -/
theorem lastMove_le (hclock : Ordered t (pre ++ a :: post)) (ht : t₀ ≤ t) (s : St) :
    lastMove cfg s t₀ pre ≤ a.now ∧ a.now ≤ a.later := by
  induction pre generalizing t t₀ s with
  | nil => exact ⟨UInt64.le_trans ht hclock.1, hclock.2.1⟩
  | cons b pre ih =>
    obtain ⟨hnow, hlater, hrest⟩ := hclock
    refine ih hrest ?_ _
    split_ifs
    · exact UInt64.le_refl _
    · exact UInt64.le_trans ht (UInt64.le_trans hnow hlater)

/-- What the program subtracts is how long ago `t` is. -/
theorem expired_iff (ht : t ≤ t₀) (limit : UInt64) : limit ≤ t₀ - t ↔ t.toNat + limit.toNat ≤ t₀.toNat := by
  have hle := UInt64.le_iff_toNat_le.mp ht
  rw [UInt64.le_iff_toNat_le, UInt64.toNat_sub_of_le _ _ ht]
  omega

/-! ### The blocks that look at the clock -/

theorem pollBlock_expired (cfg : CliConfig) (hnow : s.lastActivity ≤ a.now) (hlater : a.now ≤ a.later) :
    (pollBlock .windows cfg a s).pc = .done 4 ↔ Expired cfg s.lastActivity a := by
  rw [Expired, ← expired_iff hnow, ← expired_iff (UInt64.le_trans hnow hlater)]
  unfold pollBlock pollWindows
  dsimp only
  by_cases hpassed : timeoutMs cfg ≤ a.now - s.lastActivity
  · simp [hpassed, St.ret]
  · rw [if_neg hpassed]
    rcases a.poll with err | _ | _ <;> dsimp only
    · split_ifs <;> simp [hpassed, St.ret]
    · split_ifs with hwaited <;> simp [hpassed, hwaited, St.ret]
    · simp [hpassed]

/-- **`4` is returned by `poll` only**, when the time has passed. -/
theorem step_expired (cfg : CliConfig) (hnow : s.lastActivity ≤ a.now) (hlater : a.now ≤ a.later)
    (hrun : s.pc ≠ .done 4) :
    (step .windows cfg s a).pc = .done 4 ↔ s.pc = .poll ∧ Expired cfg s.lastActivity a := by
  by_cases hpoll : s.pc = .poll
  · have hstep : step .windows cfg s a = pollBlock .windows cfg a s := by rw [step, hpoll]
    rw [hstep, pollBlock_expired cfg hnow hlater]
    simp [hpoll]
  · have hleads := step_leads .windows cfg s a
    refine ⟨fun hfour => ?_, fun h => absurd h.1 hpoll⟩
    rw [hfour] at hleads
    cases hpc : s.pc with
    | poll => exact absurd hpc hpoll
    | loop | socket | stdin | send => simp [hpc, Pc.Leads, Pc.next] at hleads
    | done rc =>
      rw [hpc] at hleads hrun
      exact absurd hleads.symm hrun

/-- Before the loop only `1` and `5` are returned. -/
theorem start_ne_four (cfg : CliConfig) (sockfd : ℤ) (now : UInt64) : (start cfg sockfd now).pc ≠ .done 4 := by
  have hprep : ∀ rc, prepare cfg sockfd = .error rc → rc ∈ [1, 5] := by
    intro rc hrc
    unfold prepare at hrc
    dsimp only at hrc
    split_ifs at hrc <;> cases hrc <;> decide
  unfold start
  cases hp : prepare cfg sockfd with
  | error rc =>
    intro hfour
    cases hfour
    exact absurd (hprep 4 hp) (by decide)
  | ok payload => cases payload <;> exact Pc.noConfusion

theorem start_lastActivity (cfg : CliConfig) (sockfd : ℤ) (now : UInt64) :
    (start cfg sockfd now).lastActivity = now := by
  unfold start
  split <;> rfl

/-! ### An idle loop -/

/-- How many blocks there are before `poll` looks at the clock, and the one that does it. -/
def Pc.untilPoll : Pc → ℕ
  | .poll => 1
  | .loop => 2
  | .stdin => 3
  | .send => 4
  | .socket => 5
  | .done _ => 0

theorem moves_le_run (cfg : CliConfig) (s : St) (answers : List Answer) :
    moves s.log ≤ moves (run (step .windows cfg) s answers).log := by
  induction answers generalizing s with
  | nil => exact le_rfl
  | cons a answers ih =>
    have hstep : moves s.log ≤ moves (step .windows cfg s a).log := by
      rcases timed_step cfg s a with ⟨hmoves, -⟩ | ⟨hmoves, -⟩
      · exact hmoves.ge
      · exact hmoves.le
    exact hstep.trans (ih _)

/-- Until `poll` has looked at the clock, a step is one block nearer to it. -/
theorem step_untilPoll (hidle : s.lastActivity.toNat + (timeoutMs cfg).toNat ≤ a.now.toNat)
    (hrun : ∀ rc, s.pc ≠ .done rc) :
    (step .windows cfg s a).pc.untilPoll < s.pc.untilPoll := by
  have hleads := step_leads .windows cfg s a
  cases hpc : s.pc with
  | poll =>
    have hnow : s.lastActivity ≤ a.now := UInt64.le_iff_toNat_le.mpr ((Nat.le_add_right _ _).trans hidle)
    have hret : step .windows cfg s a = s.ret 4 := by
      rw [step, hpc]
      exact if_pos ((expired_iff hnow _).mpr hidle)
    rw [hret]
    exact Nat.zero_lt_one
  | loop | socket | stdin | send =>
    rw [hpc] at hleads
    simp only [Pc.Leads, Pc.next, List.mem_cons, List.not_mem_nil, or_false] at hleads
    rcases hleads with h | h <;> simp [h, Pc.untilPoll]
  | done rc => exact absurd hpc (hrun rc)

/-- A loop in which nothing moves, and whose time has passed, returns. -/
theorem run_idle (hmoves : moves (run (step .windows cfg) s answers).log = moves s.log)
    (hidle : ∀ a ∈ answers, s.lastActivity.toNat + (timeoutMs cfg).toNat ≤ a.now.toNat)
    (hlen : s.pc.untilPoll ≤ answers.length) : ∃ rc, (run (step .windows cfg) s answers).pc = .done rc := by
  induction answers generalizing s with
  | nil =>
    cases hpc : s.pc with
    | done rc => exact ⟨rc, hpc⟩
    | poll | loop | stdin | send | socket => simp [hpc, Pc.untilPoll] at hlen
  | cons a answers ih =>
    rw [List.forall_mem_cons] at hidle
    by_cases hdone : ∃ rc, s.pc = .done rc
    · obtain ⟨rc, hrc⟩ := hdone
      have hstay : ∀ b, step .windows cfg s b = s := fun b => by rw [step, hrc]
      exact ⟨rc, by rw [run_stays hstay, hrc]⟩
    · have hless := step_untilPoll hidle.1 (not_exists.mp hdone)
      -- A block that moves bytes would show at the end.
      have hafter := moves_le_run cfg (step .windows cfg s a) answers
      rw [run_cons] at hmoves ⊢
      rcases timed_step cfg s a with ⟨hsame, hlast⟩ | ⟨hmore, -⟩
      · refine ih (hmoves.trans hsame.symm) (by rw [hlast]; exact hidle.2) ?_
        rw [List.length_cons] at hlen
        omega
      · omega

end Clock

/-! ### The law -/

/-- **The idle timer.** By a clock that does not go back, the Windows loop returns `4` just when `poll` finds that no
byte was received, sent or read for `timeout_ms`; and when it has been idle for so long, it returns within five
blocks. -/
theorem idle_timer (cfg : CliConfig) (sockfd : ℤ) (now : UInt64) (answers : List Answer)
    (hclock : Ordered now answers) :
    let s := start cfg sockfd now
    ((run (step .windows cfg) s answers).pc = .done 4 ↔
        ∃ pre a post, answers = pre ++ a :: post ∧ (run (step .windows cfg) s pre).pc = .poll ∧
          Expired cfg (lastMove cfg s now pre) a) ∧
      ∀ pre post, answers = pre ++ post → 5 ≤ post.length →
        moves (run (step .windows cfg) s answers).log = moves (run (step .windows cfg) s pre).log →
        (∀ a ∈ post, (lastMove cfg s now pre).toNat + (timeoutMs cfg).toNat ≤ a.now.toNat) →
        ∃ rc, (run (step .windows cfg) s answers).pc = .done rc := by
  intro s
  have hlast : ∀ pre, (run (step .windows cfg) s pre).lastActivity = lastMove cfg s now pre := by
    intro pre
    rw [run_lastActivity, start_lastActivity]
  have hpast : ∀ {pre a post}, answers = pre ++ a :: post →
      (run (step .windows cfg) s pre).lastActivity ≤ a.now ∧ a.now ≤ a.later := by
    intro pre a post heq
    rw [hlast]
    exact lastMove_le (heq ▸ hclock) (UInt64.le_refl now) s
  refine ⟨⟨fun hfour => ?_, ?_⟩, fun pre post heq hlen hmoves hidle => ?_⟩
  · obtain ⟨pre, a, post, heq, hbefore, hat⟩ :=
      exists_step_of_run (P := fun s : St => s.pc = .done 4) (start_ne_four cfg sockfd now) hfour
    obtain ⟨hnow, hlater⟩ := hpast heq
    obtain ⟨hpoll, hexpired⟩ := (step_expired cfg hnow hlater hbefore).mp hat
    exact ⟨pre, a, post, heq, hpoll, hlast pre ▸ hexpired⟩
  · rintro ⟨pre, a, post, heq, hpoll, hexpired⟩
    obtain ⟨hnow, hlater⟩ := hpast heq
    have hfour := (step_expired cfg hnow hlater (by simp [hpoll])).mpr ⟨hpoll, (hlast pre).symm ▸ hexpired⟩
    have hstay : ∀ b, step .windows cfg (step .windows cfg (run (step .windows cfg) s pre) a) b =
        step .windows cfg (run (step .windows cfg) s pre) a := fun b => by rw [step, hfour]
    rw [heq, run_append, run_cons, run_stays hstay, hfour]
  · rw [heq, run_append] at hmoves ⊢
    refine run_idle hmoves (fun a ha => ?_) (le_trans ?_ hlen)
    · rw [hlast]
      exact hidle a ha
    · cases (run (step .windows cfg) s pre).pc <;> simp [Pc.untilPoll]

/-- Nothing has moved for `-t 100`. -/
theorem idle_timer_passed :
    let cfg : CliConfig := { isAscii := true, asciiPayload := str "a", timeoutMs := 100 }
    let answers : List Answer := [{}, { now := 100, later := 100 }]
    Ordered 0 answers ∧ (run (step .windows cfg) (start cfg 3 0) answers).pc = .done 4 := by
  intro cfg answers
  have hclock : Ordered 0 answers := ⟨by decide, by decide, by decide, by decide, trivial⟩
  have hexpired : Expired cfg (lastMove cfg (start cfg 3 0) 0 [{}]) { now := 100, later := 100 } := .inl (by decide)
  exact ⟨hclock, (idle_timer cfg 3 0 answers hclock).1.mpr ⟨[{}], _, [], rfl, rfl, hexpired⟩⟩

end TcpClient.Oneshot
