import TcpClient.MainModes
import TcpClient.Oneshot.Outcome
import TcpClient.Oneshot.Payload
import TcpClient.Oneshot.Receive

/-!
# A request from the command line to the wire

What a run of the whole program in one-shot mode has done when it returns `0`. The command line is parsed, the
connection made, the request sent and the response printed; `0` is returned at the end of all this and nowhere
else, so a run that returned it has passed a state in which the mode was through.

## What is proved

* `request_eq_wanted` — what is to be sent, from the configuration.
* `course_step` — where a run can be, and what `0` says.
* `main_serves_request` — the bytes on the wire are those of the command line, and all of them are there when
  `main` returns `0`.
-/

namespace TcpClient.Oneshot

open Machine CString

/-- What is to be sent: the request asked for, cut where it is too long, or standard input as far as it was read. -/
def wanted (cfg : CliConfig) (log : List Event) : List Byte :=
  if cfg.isHex || cfg.isAscii then
    if (fullBody cfg (givenPayload cfg)).length ≤ bodyLimit cfg then fullRequest cfg (givenPayload cfg)
    else withLength cfg (cutBody cfg (givenPayload cfg))
  else stdinBytes log

section Wanted

variable {pf : Platform} {cfg : CliConfig} {sockfd : ℤ} {now : UInt64} {s : St}

/-- **What the loop is to send is what is wanted.** -/
theorem request_eq_wanted (ha : Accepted cfg) (hfd : 0 ≤ sockfd) (log : List Event) :
    request cfg sockfd log = wanted cfg log := by
  rw [request, wanted, prepare_eq ha.neverRejected hfd]
  cases hgiven : cfg.isHex || cfg.isAscii with
  | true =>
    rw [if_pos rfl, if_pos rfl]
    exact queuePayload_eq (length_givenPayload_le ha)
  | false =>
    rw [if_neg (by decide), if_neg (by decide)]

/-- What was sent is the first of what is wanted. -/
theorem sent_prefix_wanted (ha : Accepted cfg) (hfd : 0 ≤ sockfd) {A : St → Answer → Prop}
    (h : Reach (step pf cfg) A (start cfg sockfd now) s) : sent s.log <+: wanted cfg s.log := by
  obtain ⟨u, hu⟩ := reach_tracks h
  rw [← request_eq_wanted ha hfd, ← hu.source, ← u.conserved, hu.sent]
  exact List.prefix_append _ _

/-- The promise of a run that is to serve the request: it is patient, and its output works. -/
def Serving (pf : Platform) (cfg : CliConfig) (s : St) (a : Answer) : Prop := Patient pf cfg s a ∧ Works s a

/-- What the mode has done when it is through. -/
structure Served (cfg : CliConfig) (log : List Event) : Prop where
  sent : sent log = wanted cfg log
  /-- Standard input was read to its end. -/
  ended : cfg.isHex = false → cfg.isAscii = false → .stdinEof ∈ log
  plain : cfg.decodeHsm = false → cfg.hexOut = false → printed log = cutAtTerm cfg (received log)
  hex : cfg.decodeHsm = false → cfg.hexOut = true → ∀ maxBufSize, (cutAtTerm cfg (received log)).length ≤ maxBufSize →
    hexToBytes (printed log) maxBufSize =
      ⟨0, (cutAtTerm cfg (received log)).length, cutAtTerm cfg (received log)⟩

/-- **A result of 0 says that the request is served.** -/
theorem served_of_zero (ha : Accepted cfg) (hfd : 0 ≤ sockfd)
    (h : Reach (step pf cfg) (Serving pf cfg) (start cfg sockfd now) s) (hret : s.pc = .done 0) :
    Served cfg s.log := by
  have hprepare := prepare_eq ha.neverRejected hfd
  have hprep : ∀ rc, prepare cfg sockfd ≠ .error rc := fun rc herr => by
    rw [hprepare] at herr
    cases herr
  have hrun := (h.strengthen fun s hs => reach_tracks hs).strengthen
    fun s hs => reach_open (hs.mono fun _ _ ha => ha.1)
  have hcandid : Candid cfg sockfd s := by
    refine hrun.invariant (I := Candid cfg sockfd) (candid_start hprep now) ?_
    rintro s a hs ⟨⟨hp, u, hu⟩, ho⟩
    exact hs.step hu ho hprep hp.1
  obtain ⟨u, hu⟩ := reach_tracks h
  obtain ⟨hsent, hended⟩ := complete_of_unsent hu hcandid hprep (hcandid.zero hret)
  have hfaithful (hdec : cfg.decodeHsm = false) : Faithful cfg s :=
    hrun.invariant (I := Faithful cfg) (faithful_start cfg sockfd now)
      fun _ _ hs hpromise => hs.step hdec hpromise.2 hpromise.1.1.2
  refine ⟨hsent.trans (request_eq_wanted ha hfd s.log), fun hhex hascii => hended ?_, fun hdec hx => ?_,
    fun hdec hx maxBufSize hmax => ?_⟩
  · rw [hprepare, hhex, hascii]
    rfl
  · obtain ⟨⟨chunks, -, hshown, hflat⟩, -⟩ := hfaithful hdec
    have hplain : shown cfg = id := by funext chunk; simp [shown, hx]
    rw [hshown, hplain, List.flatMap_id, hflat]
  · obtain ⟨⟨chunks, hne, hshown, hflat⟩, -⟩ := hfaithful hdec
    have hline : shown cfg = hexLine := by funext chunk; simp [shown, hx]
    rw [hshown, hline, ← hflat]
    exact hexToBytes_hexLines maxBufSize chunks hne (hflat ▸ hmax)

end Wanted

end TcpClient.Oneshot

namespace TcpClient.Main

open Machine

variable {τ : Type} {pf : Platform} {raw : RawMode τ} {a : Answer} {s : St τ} {config : CliConfig}
  {opts : List Opt} {positionals : List CString.CStr}

/-! ### A command line for one-shot mode -/

/-- The command line asks for `config`, and not for a session. -/
structure AsksOnce (opts : List Opt) (positionals : List CString.CStr) (config : CliConfig) : Prop where
  parsed : parseCliArgs opts positionals = .accepted config
  noHelp : config.showHelp = false
  noVersion : config.showVersion = false
  notForced : config.forceInteractive = false

/-- The configuration that one-shot mode is called with. -/
def onceConfig (config : CliConfig) : CliConfig := { config with mode := .oneshot }

theorem AsksOnce.accepted (h : AsksOnce opts positionals config) : Accepted (onceConfig config) := by
  have hasked := askable_of_parsed h.parsed h.noHelp h.noVersion
  have ha := hasked.toInRange.accepted hasked.hostGiven hasked.portGiven
  exact ⟨ha.host, ha.port, ha.timeoutMs, ha.hsmHeaderLen, ha.asciiPayload, ha.hexPayload⟩

/-- A payload is sent, or what comes on standard input where that is no terminal. -/
theorem AsksOnce.chooseMode (h : AsksOnce opts positionals config) {tty : Bool}
    (htty : config.isHex = false → config.isAscii = false → tty = false) :
    Main.chooseMode tty config = onceConfig config := by
  have hauto : config.mode = .auto := by
    rw [(askable_of_parsed h.parsed h.noHelp h.noVersion).mode, h.notForced]
    rfl
  rw [Main.chooseMode, if_pos hauto]
  cases hgiven : config.isHex || config.isAscii with
  | true =>
    rw [if_pos rfl]
    rfl
  | false =>
    rw [Bool.or_eq_false_iff] at hgiven
    have hpiped : (tty || config.forceInteractive) = false := by rw [htty hgiven.1 hgiven.2, h.notForced]; rfl
    rw [hpiped, if_neg Bool.false_ne_true]
    rfl

/-- The command line is this one, standard input is no terminal if it is to be sent, and the loop of one-shot mode
keeps the promise `B`. -/
def Promised (opts : List Opt) (positionals : List CString.CStr) (config : CliConfig)
    (B : CliConfig → Oneshot.St → Oneshot.Answer → Prop) (s : St τ) (a : Answer) : Prop :=
  (s.phase = .start → a.opts = opts ∧ a.positionals = positionals ∧
    (config.isHex = false → config.isAscii = false → a.console.isatty = false)) ∧
  ∀ config' sockfd loop, s.phase = .oneshot config' sockfd loop → B config' loop a.oneshot

/-! ### The course of a run -/

section Course

variable (pf) (raw) (config) (A : St τ → Answer → Prop) (B : CliConfig → Oneshot.St → Oneshot.Answer → Prop)

/-- The loop of one-shot mode has come to `loop`. -/
def LoopAt (sockfd : ℤ) (loop : Oneshot.St) : Prop :=
  0 ≤ sockfd ∧ ∃ now, Reach (Oneshot.step pf (onceConfig config)) (B (onceConfig config))
    (Oneshot.start (onceConfig config) sockfd now) loop

/-- On the way from `s₀` to `s` one-shot mode has returned `0`. -/
def PassedZero (s₀ s : St τ) : Prop :=
  ∃ t sockfd loop, Reach (step pf raw) A s₀ t ∧ Reach (step pf raw) A t s ∧
    t.phase = .oneshot (onceConfig config) sockfd loop ∧ LoopAt pf config B sockfd loop ∧ loop.pc = .done 0

/-- Where a run for one-shot mode can be: `0` is returned only where one-shot mode has returned it. -/
def Course (s₀ s : St τ) : Prop :=
  match s.phase with
  | .start => True
  | .connect config' => config' = onceConfig config
  | .mode config' sockfd => config' = onceConfig config ∧ 0 ≤ sockfd
  | .oneshot config' sockfd loop => config' = onceConfig config ∧ LoopAt pf config B sockfd loop
  | .close _ rc => rc = 0 → PassedZero pf raw config A B s₀ s
  | .exited rc => rc = 0 → PassedZero pf raw config A B s₀ s
  | .pipe _ _ => False
  | .tty _ _ _ => False
  | .fault => False

end Course

section Steps

variable {A : St τ → Answer → Prop} {B : CliConfig → Oneshot.St → Oneshot.Answer → Prop} {s₀ : St τ}

/-- What was passed stays passed. -/
theorem PassedZero.tail (h : PassedZero pf raw config A B s₀ s) (ha : A s a) :
    PassedZero pf raw config A B s₀ (step pf raw s a) := by
  obtain ⟨t, sockfd, loop, hto, hfrom, hphase, hloop, hzero⟩ := h
  exact ⟨t, sockfd, loop, hto, hfrom.tail ha, hphase, hloop, hzero⟩

/-- **A step of a run for one-shot mode.** -/
theorem course_step (hasks : AsksOnce opts positionals config)
    (hA : ∀ s a, A s a → Promised opts positionals config B s a) (hreach : Reach (step pf raw) A s₀ s)
    (h : Course pf raw config A B s₀ s) (ha : A s a) : Course pf raw config A B s₀ (step pf raw s a) := by
  obtain ⟨hline, hloop⟩ := hA s a ha
  -- `main` returns what the loop returned, or something other than `0`
  have hexits {rc : ℤ} (hphase : (step pf raw s a).phase = .exited rc)
      (hzero : rc = 0 → PassedZero pf raw config A B s₀ s) : Course pf raw config A B s₀ (step pf raw s a) := by
    rw [Course, hphase]
    exact fun h0 => (hzero h0).tail ha
  unfold Course at h
  cases hphase : s.phase with
  | start =>
    obtain ⟨hopts, hpositionals, htty⟩ := hline hphase
    have hstep : step pf raw s a = startBlock pf a s := by rw [step, hphase]
    by_cases hinit : platformInit pf a = true
    · have hnext : (step pf raw s a).phase = .connect (onceConfig config) := by
        rw [hstep, startBlock, hinit, hopts, hpositionals, hasks.parsed]
        dsimp only
        rw [hasks.noHelp, hasks.noVersion, ← hasks.chooseMode htty]
        rfl
      rw [Course, hnext]
    · have hfails : (step pf raw s a).phase = .exited 5 := by
        rw [hstep, startBlock, if_pos (by simpa using hinit)]
        rfl
      exact hexits hfails fun h0 => absurd h0 (by decide)
  | connect config' =>
    rw [hphase] at h
    have hstep : step pf raw s a = connectBlock pf a config' s := by rw [step, hphase]
    unfold connectBlock at hstep
    dsimp only at hstep
    split_ifs at hstep with hneg
    · exact hexits (congrArg St.phase hstep) fun h0 => by omega
    · rw [Course, hstep]
      exact ⟨h, not_lt.mp hneg⟩
  | mode config' sockfd =>
    rw [hphase] at h
    obtain ⟨rfl, hfd⟩ := h
    have hstep : step pf raw s a = modeBlock pf raw a (onceConfig config) sockfd s := by rw [step, hphase]
    rw [Course, hstep, modeBlock, if_neg (by simp [onceConfig])]
    exact ⟨rfl, hfd, a.now, .refl⟩
  | oneshot config' sockfd loop =>
    have hkept := hloop config' sockfd loop hphase
    rw [hphase] at h
    obtain ⟨rfl, hat⟩ := h
    have hstep : step pf raw s a = oneshotBlock pf a (onceConfig config) sockfd loop s := by rw [step, hphase]
    unfold oneshotBlock at hstep
    split at hstep
    · next rc hdone =>
      rw [Course, hstep]
      intro h0
      have hpassed : PassedZero pf raw config A B s₀ s :=
        ⟨s, sockfd, loop, hreach, .refl, hphase, hat, hdone.trans (congrArg Oneshot.Pc.done h0)⟩
      exact hstep ▸ hpassed.tail ha
    · rw [Course, hstep]
      obtain ⟨hfd, now, hto⟩ := hat
      exact ⟨rfl, hfd, now, hto.tail hkept⟩
  | pipe sockfd loop =>
    rw [hphase] at h
    exact h.elim
  | tty config' sockfd loop =>
    rw [hphase] at h
    exact h.elim
  | close sockfd rc =>
    rw [hphase] at h
    exact hexits (by rw [step, hphase]; rfl) h
  | exited rc =>
    rw [hphase] at h
    exact hexits (by rw [step, hphase]; exact hphase) h
  | fault =>
    rw [hphase] at h
    exact h.elim

theorem reach_course (hasks : AsksOnce opts positionals config) {input output zero : τ}
    (hA : ∀ s a, A s a → Promised opts positionals config B s a)
    (h : Reach (step pf raw) A (boot input output zero) s) :
    Course pf raw config A B (boot input output zero) s := by
  have hrun := h.strengthen (I := fun s => Reach (step pf raw) A (boot input output zero) s) fun _ hs => hs
  have hstart : Course pf raw config A B (boot input output zero) (boot input output zero) := by
    rw [Course]
    trivial
  exact hrun.invariant (I := Course pf raw config A B (boot input output zero)) hstart
    fun s a hs ha => course_step hasks hA ha.2 hs ha.1

end Steps

/-! ### The law -/

/-- The run of one command line for one-shot mode. -/
def Once (opts : List Opt) (positionals : List CString.CStr) (config : CliConfig) : St τ → Answer → Prop :=
  Promised opts positionals config fun _ _ _ => True

/-- The same, where the loop serves its request. -/
def OnceServing (pf : Platform) (opts : List Opt) (positionals : List CString.CStr) (config : CliConfig) :
    St τ → Answer → Prop :=
  Promised opts positionals config (Oneshot.Serving pf)

/-- **From the command line to the wire.** A command line that is accepted and does not ask for a session runs one-shot
mode and no other; at any time what was sent is the first part of what it asks for: its payload with the terminator
and the length, or standard input. `main` returns `0` only after one-shot mode has; and if no signal came, neither `-T`
nor `-D` ended the conversation early and the output worked, then all of it was sent, and what was received was
printed. -/
theorem main_serves_request (pf : Platform) (raw : RawMode τ) (input output zero : τ)
    (hasks : AsksOnce opts positionals config) :
    (∀ s, Reach (step pf raw) (Once opts positionals config) (boot input output zero) s →
        (∀ sockfd loop, s.phase ≠ .pipe sockfd loop) ∧ (∀ config' sockfd loop, s.phase ≠ .tty config' sockfd loop) ∧
        (∀ config' sockfd loop, s.phase = .oneshot config' sockfd loop →
          config' = onceConfig config ∧ sent loop.log <+: Oneshot.wanted config loop.log) ∧
        (s.phase = .exited 0 → ∃ t sockfd loop,
          Reach (step pf raw) (Once opts positionals config) (boot input output zero) t ∧
          Reach (step pf raw) (Once opts positionals config) t s ∧
          t.phase = .oneshot (onceConfig config) sockfd loop ∧ loop.pc = .done 0)) ∧
      ∀ s, Reach (step pf raw) (OnceServing pf opts positionals config) (boot input output zero) s →
        s.phase = .exited 0 →
        ∃ t sockfd loop,
          Reach (step pf raw) (OnceServing pf opts positionals config) (boot input output zero) t ∧
          Reach (step pf raw) (OnceServing pf opts positionals config) t s ∧
          t.phase = .oneshot (onceConfig config) sockfd loop ∧ loop.pc = .done 0 ∧ Oneshot.Served config loop.log := by
  refine ⟨fun s h => ?_, fun s h hexit => ?_⟩
  · have hcourse := reach_course hasks (fun _ _ ha => ha) h
    unfold Course at hcourse
    refine ⟨fun sockfd loop hphase => ?_, fun config' sockfd loop hphase => ?_,
      fun config' sockfd loop hphase => ?_, fun hexit => ?_⟩
    · rw [hphase] at hcourse
      exact hcourse
    · rw [hphase] at hcourse
      exact hcourse
    · rw [hphase] at hcourse
      obtain ⟨rfl, hfd, now, hloop⟩ := hcourse
      have hprefix := Oneshot.sent_prefix_wanted hasks.accepted hfd hloop
      exact ⟨rfl, hprefix⟩
    · rw [hexit] at hcourse
      obtain ⟨t, sockfd, loop, hto, hfrom, hphase, -, hzero⟩ := hcourse rfl
      exact ⟨t, sockfd, loop, hto, hfrom, hphase, hzero⟩
  · have hcourse := reach_course hasks (fun _ _ ha => ha) h
    unfold Course at hcourse
    rw [hexit] at hcourse
    obtain ⟨t, sockfd, loop, hto, hfrom, hphase, ⟨hfd, now, hloop⟩, hzero⟩ := hcourse rfl
    have hserved := Oneshot.served_of_zero hasks.accepted hfd hloop hzero
    exact ⟨t, sockfd, loop, hto, hfrom, hphase, hzero, hserved.sent, hserved.ended, hserved.plain, hserved.hex⟩

/-- `-a A h 80`. -/
def exampleA : CliConfig := { host := str "h", port := 80, asciiPayload := str "A", isAscii := true }

/-- One byte goes out, and the server closes. -/
def exampleAnswers : List Answer :=
  let calls : List Oneshot.Answer :=
    [{}, {}, {}, {}, { sockRev := { pollout := true } }, {}, {}, { send := .accept 1 }, {},
      { sockRev := { pollin := true } }, {}, {}, {}, {}, {}, {}]
  calls.map fun calls =>
    { opts := [.ascii (word "A")], positionals := [word "h", word "80"],
      resolved := some [⟨3, true, none, .ready, .fail⟩], oneshot := calls }

theorem main_serves_request_A :
    let s := run (step .posix ⟨fun _ => true, id⟩) (boot false false false) exampleAnswers
    s.phase = .exited 0 ∧ ∃ t sockfd loop, Reach (step .posix ⟨fun _ => true, id⟩) Free t s ∧
      t.phase = .oneshot (onceConfig exampleA) sockfd loop ∧ sent loop.log = str "A" := by
  intro s
  have hexit : s.phase = .exited 0 := rfl
  have hasks : AsksOnce [.ascii (word "A")] [word "h", word "80"] exampleA := ⟨by decide +kernel, rfl, rfl, rfl⟩
  have hcalls : ∀ a ∈ exampleAnswers, a.oneshot.interrupted = false ∧ a.oneshot.recv = .data [] ∧
      a.oneshot.malloc = true ∧ a.oneshot.stdout = [] := by decide
  have hserving : ∀ a ∈ exampleAnswers, ∀ config' loop, Oneshot.Serving .posix config' loop a.oneshot := by
    intro a ha config' loop
    obtain ⟨hint, hrecv, hmalloc, hstdout⟩ := hcalls a ha
    refine ⟨⟨hint, ?_, fun hwin => by cases hwin⟩, hmalloc, by simp [hstdout]⟩
    -- nothing is received that could end the conversation
    rintro ⟨-, -, bs, hne, hdata, -⟩
    rw [hrecv] at hdata
    cases hdata
    exact absurd rfl hne
  have hpromise : ∀ a ∈ exampleAnswers, ∀ s : St Bool,
      OnceServing .posix [.ascii (word "A")] [word "h", word "80"] exampleA s a := by
    intro a ha s
    refine ⟨fun _ => ?_, fun config' _ loop _ => hserving a ha config' loop⟩
    obtain ⟨calls, -, rfl⟩ := List.mem_map.mp ha
    exact ⟨rfl, rfl, fun _ hascii => by cases hascii⟩
  obtain ⟨-, hzero⟩ := main_serves_request .posix ⟨fun _ => true, id⟩ false false false hasks
  obtain ⟨t, sockfd, loop, -, hfrom, hphase, -, hserved⟩ := hzero s (reach_run (keeps_of_forall hpromise)) hexit
  refine ⟨hexit, t, sockfd, loop, hfrom.free, hphase, ?_⟩
  have hgiven : (exampleA.isHex || exampleA.isAscii) = true := rfl
  rw [hserved.sent, Oneshot.wanted, if_pos hgiven]
  decide

end TcpClient.Main
