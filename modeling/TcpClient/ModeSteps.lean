import TcpClient.Interactive.PipeBlocks
import TcpClient.Interactive.WinTtyRuns
import TcpClient.Oneshot.Blocks

/-!
# Where the blocks of the modes lead

For each mode, which blocks come after which (`Pc.Leads`). From this it is read off what a mode returns (`Returns`), and
how many blocks are left when a signal has come (`Pc.left`).

## What is proved

* `Oneshot.step_leads`, `Pipe.step_leads`, `Tty.step_turn`, `WinTty.step_turn` — a step goes where it may.
* `Oneshot.Pc.Leads.left_lt`, `Pipe.Pc.Leads.left_lt`, `Tty.Pc.Leads.left_lt` — between two looks at the loop condition a
  step has one block less left.
* `Oneshot.step_left`, `Pipe.step_left`, `Tty.step_left`, `WinTty.step_left` — a step after a signal has one block less
  left, unless there is more to read.
-/

namespace TcpClient

open CString

namespace Oneshot

/-- Which blocks come after which. -/
def Pc.Leads (pf : Platform) : Pc → Pc → Prop
  | .loop, q => q ∈ [.poll, .done 0]
  | .poll, q => q ∈ [.loop, .socket, .done 0, .done 4, .done 5]
  | .socket, q => q ∈ [Pc.next pf .socket, .done 5]
  | .stdin, q => q ∈ [Pc.next pf .stdin, .done 5]
  | .send, q => q ∈ [Pc.next pf .send, .done 5]
  | .done rc, q => q = .done rc

/-- How many blocks there are before the loop condition is looked at, and the one that does it. -/
def Pc.left (pf : Platform) : Pc → ℕ
  | .loop => 1
  | .poll => 5
  | .socket => 4
  | .stdin => match pf with
    | .posix => 3
    | .windows => 2
  | .send => match pf with
    | .posix => 2
    | .windows => 3
  | .done _ => 0

variable {pf : Platform} {cfg : CliConfig} {sockfd : ℤ} {s : St} {p q : Pc}

theorem step_leads (pf : Platform) (cfg : CliConfig) (s : St) (a : Answer) : s.pc.Leads pf (step pf cfg s a).pc := by
  unfold step
  cases hpc : s.pc with
  | loop =>
    rcases loopBlock_cases cfg a s with ⟨-, heq⟩ | ⟨-, hpoll, -⟩
    · simp [Pc.Leads, heq, finish_pc]
    · simp [Pc.Leads, hpoll]
  | poll =>
    rcases pollBlock_cases pf cfg a s with ⟨-, heq⟩ | ⟨-, -, hmem⟩
    · simp [Pc.Leads, heq, finish_pc]
    · simp only [List.mem_cons, List.not_mem_nil, or_false] at hmem
      rcases hmem with h | h | h | h <;> simp [Pc.Leads, h]
  | socket => rcases socketBlock_pc pf cfg a s with h | h <;> simp [Pc.Leads, h]
  | stdin => rcases (still_stdinBlock pf a s).2 with h | h <;> simp [Pc.Leads, h]
  | send => rcases (still_sendBlock pf a s).2 with h | h <;> simp [Pc.Leads, h]
  | done rc => exact hpc

/-- If the mode has returned, then `0`, `4` or `5`. -/
def Returns (s : St) : Prop := ∀ rc, s.pc = .done rc → rc ∈ [0, 4, 5]

theorem Pc.Leads.returns (h : p.Leads pf q) (hp : ∀ rc, p = .done rc → rc ∈ [0, 4, 5]) {rc : ℤ} (hq : q = .done rc) :
    rc ∈ [0, 4, 5] := by
  subst hq
  cases p with
  | done rc' =>
    cases h
    exact hp rc rfl
  | loop | poll | socket | stdin | send => cases pf <;> simp_all [Pc.Leads, Pc.next]

theorem Returns.step (hs : Returns s) (pf : Platform) (cfg : CliConfig) (a : Answer) : Returns (step pf cfg s a) :=
  fun _ hrc => (step_leads pf cfg s a).returns hs hrc

/-- With a connection, and a payload that was accepted, nothing is returned before the loop. -/
theorem returns_start (hfd : 0 ≤ sockfd) (hhex : prepare cfg sockfd ≠ .error 1) (now : UInt64) :
    Returns (start cfg sockfd now) ∧ (start cfg sockfd now).pc = .loop := by
  have hprep : ∀ rc, prepare cfg sockfd = .error rc → rc = 1 := by
    intro rc hrc
    unfold prepare at hrc
    rw [if_neg (not_lt.mpr hfd)] at hrc
    dsimp only at hrc
    split_ifs at hrc
    cases hrc
    rfl
  have hloop : (start cfg sockfd now).pc = .loop := by
    unfold start
    cases hp : prepare cfg sockfd with
    | error code =>
      rw [hprep code hp] at hp
      exact absurd hp hhex
    | ok payload => cases payload <;> rfl
  refine ⟨fun rc hrc => ?_, hloop⟩
  rw [hloop] at hrc
  cases hrc

/-- As long as the loop condition is not looked at, there is one block less left. -/
theorem Pc.Leads.left_lt (h : p.Leads pf q) (hloop : p ≠ .loop) (hrun : ∀ rc, p ≠ .done rc) :
    q.left pf < p.left pf := by
  cases p with
  | loop => exact absurd rfl hloop
  | poll =>
    simp only [Pc.Leads, List.mem_cons, List.not_mem_nil, or_false] at h
    rcases h with rfl | rfl | rfl | rfl | rfl <;> simp [Pc.left]
  | socket | stdin | send =>
    simp only [Pc.Leads, List.mem_cons, List.not_mem_nil, or_false] at h
    rcases h with rfl | rfl <;> cases pf <;> simp [Pc.left, Pc.next]
  | done rc => exact absurd rfl (hrun rc)

/-- **After a signal** a step has one block less left. -/
theorem step_left {a : Answer} (ha : a.interrupted = true) (hrun : ∀ rc, s.pc ≠ .done rc) :
    (step pf cfg s a).pc.left pf < s.pc.left pf := by
  by_cases hloop : s.pc = .loop
  · have hfinish : step pf cfg s a = finish cfg a s := by
      unfold step loopBlock
      rw [hloop, ha]
      rfl
    rw [hfinish, finish_pc, hloop]
    exact Nat.zero_lt_one
  · exact (step_leads pf cfg s a).left_lt hloop hrun

end Oneshot

namespace Pipe

/-- Which blocks come after which. -/
def Pc.Leads : Pc → Pc → Prop
  | .poll, q => q ∈ [.poll, .socket, .done 0, .done 5]
  | .socket, q => q ∈ [.stdin, .done 0, .done 5]
  | .stdin, q => q ∈ [.poll, .drain, .done 0] ∨ ∃ bs, bs.length ≤ bufSize ∧ q = .scan bs
  | .scan [], q => q ∈ [.poll, .drain]
  | .scan (_ :: rest), q => q ∈ [.scan rest, .poll, .drain, .done 5]
  | .drain, q => q ∈ [.drain, .done 0]
  | .done rc, q => q = .done rc
  | .fault, q => q = .fault

/-- How many blocks there are before the loop condition is looked at, and the one that does it. -/
def Pc.left : Pc → ℕ
  | .poll => 1
  | .socket => bufSize + 4
  | .stdin => bufSize + 3
  | .scan rest => rest.length + 2
  | .drain => 1
  | .done _ => 0
  | .fault => 0

variable {pf : Platform} {sockfd : ℤ} {a : Answer} {s : St} {p q : Pc}

theorem endIter_leads (s : St) : (endIter s).pc = .poll ∨ (endIter s).pc = .drain := by
  unfold endIter
  cases s.exitRequested with
  | false => exact .inl rfl
  | true => exact .inr rfl

theorem eofBlock_pc (pf : Platform) (sockfd : ℤ) (a : Answer) (hroom : Room s) :
    (eofBlock pf sockfd a s).pc ∈ [.poll, .drain, .done 0] := by
  have hend : ∀ t : St, (endIter t).pc ∈ [.poll, .drain, .done 0] := by
    intro t
    rcases endIter_leads t with h | h <;> simp [h]
  rw [eofBlock_eq hroom]
  split_ifs
  · exact hend _
  · simp [St.ret]
  · exact hend _

theorem lineBlock_pc (pf : Platform) (sockfd : ℤ) (a : Answer) (rest : List Byte) (s : St) :
    (lineBlock pf sockfd a rest s).pc ∈ [.scan rest, .poll, .drain, .done 5] := by
  unfold lineBlock
  dsimp only
  split_ifs
  · rcases endIter_leads { (writeSocket pf sockfd a s.line s).2 with line := [], exitRequested := true } with h | h <;>
      simp [h]
  · simp [St.ret]
  · simp

theorem step_leads (hroom : Room s) (pf : Platform) (sockfd : ℤ) (a : Answer) : s.pc.Leads (step pf sockfd s a).pc := by
  unfold step
  split
  · rename_i hpc
    rw [hpc]
    have hcases := (aside_pollBlock pf a s).2
    rw [hpc] at hcases
    simp only [List.mem_cons, List.not_mem_nil, or_false] at hcases
    rcases hcases with (h | h | h) | ⟨h, -⟩ <;> simp [Pc.Leads, h]
  · rename_i hpc
    rw [hpc]
    have hcases := (aside_socketBlock pf sockfd a s).2
    simp only [List.mem_cons, List.not_mem_nil, or_false] at hcases
    rcases hcases with (h | h) | ⟨h, -⟩ <;> simp [Pc.Leads, h]
  · rename_i hpc
    rw [hpc]
    have hend : ∀ t : St, Pc.Leads .stdin (endIter t).pc := by
      intro t
      left
      rcases endIter_leads t with h | h <;> simp [h]
    rcases stdinBlock_cases pf sockfd a s with
      heq | ⟨-, -, ⟨bs, -, hclip, heq⟩ | ⟨-, heq⟩ | ⟨_, -, -, -, heq⟩ | ⟨_, -, -, heq⟩⟩ <;> rw [heq]
    · exact hend s
    · refine .inr ⟨bs, ?_, rfl⟩
      unfold RecvAns.clip at hclip
      split at hclip
      · cases hclip
        exact List.length_take_le _ _
      · cases hclip
    · exact .inl (eofBlock_pc pf sockfd a hroom)
    · exact hend _
    · exact .inl (eofBlock_pc pf sockfd a hroom)
  · rename_i hpc
    rw [hpc]
    rcases endIter_leads s with h | h <;> simp [Pc.Leads, h]
  · rename_i c rest hpc
    rw [hpc]
    rcases byteBlock_cases pf sockfd a c rest s with ⟨-, heq⟩ | ⟨cap, -, heq⟩ <;> rw [heq]
    · simp [Pc.Leads, St.ret]
    · split_ifs
      · exact lineBlock_pc pf sockfd a rest _
      · simp [Pc.Leads]
  · rename_i hpc
    have hcases := (aside_drainBlock pf sockfd a s).2
    rw [hpc] at hcases ⊢
    exact hcases
  · rename_i hpc
    rw [hpc]
    rfl
  · rename_i hpc
    rw [hpc]
    rfl

/-- If the mode has returned, then `0` or `5`. -/
def Returns (s : St) : Prop := ∀ rc, s.pc = .done rc → rc ∈ [0, 5]

theorem Pc.Leads.returns (h : p.Leads q) (hp : ∀ rc, p = .done rc → rc ∈ [0, 5]) {rc : ℤ} (hq : q = .done rc) :
    rc ∈ [0, 5] := by
  subst hq
  cases p with
  | done rc' =>
    cases h
    exact hp rc rfl
  | scan rest => cases rest <;> simp_all [Pc.Leads]
  | poll | socket | stdin | drain | fault => simp_all [Pc.Leads]

theorem Returns.step (hs : Returns s) (hroom : Room s) (pf : Platform) (sockfd : ℤ) (a : Answer) :
    Returns (step pf sockfd s a) :=
  fun _ hrc => (step_leads hroom pf sockfd a).returns hs hrc

/-- A chunk is no longer than the buffer it is read into. -/
theorem Pc.Leads.left_le (h : p.Leads q) (hp : p.left ≤ bufSize + 4) : q.left ≤ bufSize + 4 := by
  cases p with
  | poll | socket | drain =>
    simp only [Pc.Leads, List.mem_cons, List.not_mem_nil, or_false] at h
    rcases h with rfl | rfl | rfl | rfl <;> simp [Pc.left]
  | stdin =>
    rcases h with hmem | ⟨bs, hlen, rfl⟩
    · simp only [List.mem_cons, List.not_mem_nil, or_false] at hmem
      rcases hmem with rfl | rfl | rfl <;> simp [Pc.left]
    · simp only [Pc.left]
      omega
  | scan rest =>
    cases rest with
    | nil =>
      simp only [Pc.Leads, List.mem_cons, List.not_mem_nil, or_false] at h
      rcases h with rfl | rfl <;> simp [Pc.left]
    | cons c rest =>
      simp only [Pc.left, List.length_cons] at hp
      simp only [Pc.Leads, List.mem_cons, List.not_mem_nil, or_false] at h
      rcases h with rfl | rfl | rfl | rfl <;> simp only [Pc.left] <;> omega
  | done rc =>
    rw [show q = .done rc from h]
    exact hp
  | fault =>
    rw [show q = .fault from h]
    exact hp

/-- Between `poll` and the next, there is one block less left. -/
theorem Pc.Leads.left_lt (h : p.Leads q) (hpoll : p ≠ .poll) (hdrain : p ≠ .drain) (hfault : p ≠ .fault)
    (hrun : ∀ rc, p ≠ .done rc) : q.left < p.left := by
  cases p with
  | poll => exact absurd rfl hpoll
  | drain => exact absurd rfl hdrain
  | socket =>
    simp only [Pc.Leads, List.mem_cons, List.not_mem_nil, or_false] at h
    rcases h with rfl | rfl | rfl <;> simp [Pc.left]
  | stdin =>
    rcases h with hmem | ⟨bs, hlen, rfl⟩
    · simp only [List.mem_cons, List.not_mem_nil, or_false] at hmem
      rcases hmem with rfl | rfl | rfl <;> simp [Pc.left]
    · simp only [Pc.left]
      omega
  | scan rest =>
    cases rest with
    | nil =>
      simp only [Pc.Leads, List.mem_cons, List.not_mem_nil, or_false] at h
      rcases h with rfl | rfl <;> simp [Pc.left]
    | cons c rest =>
      simp only [Pc.Leads, List.mem_cons, List.not_mem_nil, or_false] at h
      rcases h with rfl | rfl | rfl | rfl <;> simp [Pc.left]
  | done rc => exact absurd rfl (hrun rc)
  | fault => exact absurd rfl hfault

/-- **After a signal** a step has one block less left, but for the packets that are printed after an exit line. -/
theorem step_left (hroom : Room s) (ha : a.interrupted = true) (hrun : s.pc ≠ .fault ∧ ∀ rc, s.pc ≠ .done rc) :
    (step pf sockfd s a).pc.left < s.pc.left ∨
      (a.sockRev.pollin = true ∧ (step pf sockfd s a).pc.left ≤ s.pc.left) := by
  by_cases hpoll : s.pc = .poll
  · have hret : step pf sockfd s a = s.ret 0 := by
      unfold step pollBlock
      rw [hpoll, ha]
      rfl
    rw [hret, hpoll]
    exact .inl Nat.zero_lt_one
  · by_cases hdrain : s.pc = .drain
    · unfold step
      rw [hdrain]
      dsimp only
      unfold drainBlock
      dsimp only
      split_ifs with hmore
      · rw [Bool.and_eq_true] at hmore
        refine .inr ⟨hmore.2, ?_⟩
        dsimp only
        rw [hdrain]
      · exact .inl Nat.zero_lt_one
      · exact .inl Nat.zero_lt_one
    · exact .inl ((step_leads hroom pf sockfd a).left_lt hpoll hdrain hrun.1 hrun.2)

end Pipe

namespace Tty

/-- Which blocks come after which. -/
def Pc.Leads (pf : Platform) : Pc → Pc → Prop
  | .poll, q => q ∈ [.poll, .socket, .done 0, .done 5]
  | .socket, q => q ∈ [.keys pf, .done 0, .done 5]
  | .stdin, q => q ∈ [.poll, .typeahead, .done 0, .done 5]
  | .typeahead, q => q ∈ [.poll, .typeahead, .done 0, .done 5]
  | .done rc, q => q = .done rc
  | .fault, q => q = .fault

/-- How many blocks there are before the loop condition is looked at, and the one that does it. -/
def Pc.left : Pc → ℕ
  | .poll => 1
  | .socket => 4
  | .stdin => 3
  | .typeahead => 2
  | .done _ => 0
  | .fault => 0

/-- A step of the loop of one of the builds, as far as it counts here; `more` if there is a key. -/
structure Turn (pf : Platform) (more : Bool) (s t : St) : Prop where
  leads : s.pc.Leads pf t.pc
  /-- Without a key the inner loop ends. -/
  key : s.pc = .typeahead → more = false → t.pc = .poll

variable {pf : Platform} {sockfd : ℤ} {config : Connection} {a : Answer} {s t : St} {p q : Pc} {more : Bool}

/-! ### What both builds have -/

theorem socketBlock_pc (h : socketBlock pf sockfd a s = some t) : t.pc ∈ [.keys pf, .done 0, .done 5] := by
  unfold socketBlock at h
  split_ifs at h
  · simp [leave_pc h]
  · obtain ⟨⟨rc, u⟩, -, h⟩ := Option.bind_eq_some_iff.mp h
    dsimp only at h
    split_ifs at h
    · simp [leave_pc h]
    · simp [leave_pc h]
    · cases h
      simp
  · cases h
    simp

/-- A block that was defined. -/
theorem orFault_of_ne {r : Option St} (h : (orFault s r).pc ≠ .fault) : ∃ t, r = some t ∧ orFault s r = t := by
  cases r with
  | none => exact absurd rfl h
  | some t => exact ⟨t, rfl, rfl⟩

/-- What every result of a block has, the block has if it was defined. -/
theorem orFault_of {r : Option St} {P : St → Prop} (h : (orFault s r).pc ≠ .fault) (hr : ∀ t, r = some t → P t) :
    P (orFault s r) := by
  obtain ⟨t, ht, heq⟩ := orFault_of_ne h
  rw [heq]
  exact hr t ht

/-- Where the session is left, it is over. -/
theorem orFault_leave {u : St} {rc : ℤ} (h : (orFault s (leave a rc u)).pc ≠ .fault) :
    (orFault s (leave a rc u)).pc = .done rc := orFault_of h fun _ ht => leave_pc ht

/-- If the mode has returned, then `0` or `5`. -/
def Returns (s : St) : Prop := ∀ rc, s.pc = .done rc → rc ∈ [0, 5]

theorem Pc.Leads.returns (h : p.Leads pf q) (hp : ∀ rc, p = .done rc → rc ∈ [0, 5]) {rc : ℤ} (hq : q = .done rc) :
    rc ∈ [0, 5] := by
  subst hq
  cases p with
  | done rc' =>
    cases h
    exact hp rc rfl
  | socket => cases pf <;> simp_all [Pc.Leads]
  | poll | stdin | typeahead | fault => simp_all [Pc.Leads]

/-- Before the inner loop, there is one block less left. -/
theorem Pc.Leads.left_lt (h : p.Leads pf q) (hp : p = .socket ∨ p = .stdin) : q.left < p.left := by
  rcases hp with rfl | rfl
  · simp only [Pc.Leads, List.mem_cons, List.not_mem_nil, or_false] at h
    rcases h with rfl | rfl | rfl <;> cases pf <;> simp [Pc.left]
  · simp only [Pc.Leads, List.mem_cons, List.not_mem_nil, or_false] at h
    rcases h with rfl | rfl | rfl | rfl <;> simp [Pc.left]

/-- In the inner loop, there is none more. -/
theorem Pc.Leads.left_le (h : Pc.Leads pf .typeahead q) : q.left ≤ 2 := by
  simp only [Pc.Leads, List.mem_cons, List.not_mem_nil, or_false] at h
  rcases h with rfl | rfl | rfl | rfl <;> simp [Pc.left]

/-- A turn that ends at the loop condition has one block less left, but for the keys that are there already. -/
theorem Turn.left (h : Turn pf more s t) (hrun : ∀ rc, s.pc ≠ .done rc) (hs : s.pc ≠ .fault)
    (hpoll : s.pc = .poll → t.pc = .done 0) :
    t.pc.left < s.pc.left ∨ (more = true ∧ t.pc.left ≤ s.pc.left) := by
  have hleads := h.leads
  cases hpc : s.pc with
  | poll =>
    rw [hpoll hpc]
    exact .inl Nat.zero_lt_one
  | socket | stdin =>
    rw [hpc] at hleads
    exact .inl (hleads.left_lt (by simp))
  | typeahead =>
    rw [hpc] at hleads
    cases more with
    | false =>
      rw [h.key hpc rfl]
      exact .inl Nat.one_lt_two
    | true => exact .inr ⟨rfl, hleads.left_le⟩
  | done rc => exact absurd hpc (hrun rc)
  | fault => exact absurd hpc hs

/-! ### The POSIX loop -/

theorem pollBlock_pc (h : pollBlock a s = some t) : t.pc ∈ [s.pc, .socket, .done 0, .done 5] := by
  unfold pollBlock at h
  split at h
  · simp [leave_pc h]
  · cases hpoll : a.poll with
    | fail err =>
      rw [hpoll] at h
      dsimp only at h
      split_ifs at h
      · simp [leave_pc h]
      · cases h
        simp
      · simp [leave_pc h]
    | timeout | ready =>
      rw [hpoll] at h
      cases h
      simp

theorem stdinBlock_pc (h : stdinBlock sockfd config a s = some t) : t.pc ∈ [.poll, .typeahead, .done 0, .done 5] := by
  unfold stdinBlock at h
  split at h
  · split at h
    · exact keyBlock_pc h
    · simp [leave_pc h]
    · simp [leave_pc h]
  · cases h
    simp

/-- Without a key the inner loop ends. -/
theorem typeaheadBlock_pc (h : typeaheadBlock sockfd config a s = some t) :
    t.pc = .poll ∨ (a.stdinRev.pollin = true ∧ t.pc ∈ [.poll, .typeahead, .done 0, .done 5]) := by
  unfold typeaheadBlock at h
  split at h
  · rename_i hmore
    rw [Bool.and_eq_true] at hmore
    split at h
    · exact .inr ⟨hmore.2, keyBlock_pc h⟩
    · cases h
      exact .inl rfl
    · cases h
      exact .inl rfl
  · cases h
    exact .inl rfl

theorem step_turn (hfault : (step sockfd config s a).pc ≠ .fault) :
    Turn .posix a.stdinRev.pollin s (step sockfd config s a) := by
  unfold step at hfault ⊢
  split at hfault
  · rename_i hpc
    refine orFault_of hfault fun t ht => ⟨?_, fun h => by simp [hpc] at h⟩
    have hmem := pollBlock_pc ht
    rw [hpc] at hmem ⊢
    exact hmem
  · rename_i hpc
    refine orFault_of hfault fun t ht => ⟨?_, fun h => by simp [hpc] at h⟩
    rw [hpc]
    exact socketBlock_pc ht
  · rename_i hpc
    refine orFault_of hfault fun t ht => ⟨?_, fun h => by simp [hpc] at h⟩
    rw [hpc]
    exact stdinBlock_pc ht
  · rename_i hpc
    refine orFault_of hfault fun t ht => ?_
    rcases typeaheadBlock_pc ht with h | ⟨hmore, h⟩
    · exact ⟨by simp [hpc, h, Pc.Leads], fun _ _ => h⟩
    · exact ⟨by rw [hpc]; exact h, fun _ hnone => by simp [hmore] at hnone⟩
  · rename_i rc hpc
    exact ⟨by rw [hpc]; rfl, fun h => by simp [hpc] at h⟩
  · rename_i hpc
    exact ⟨by rw [hpc]; rfl, fun h => by simp [hpc] at h⟩

theorem Returns.step (hs : Returns s) (sockfd : ℤ) (config : Connection) (a : Answer) :
    Returns (step sockfd config s a) := by
  intro rc hrc
  exact (step_turn (by simp [hrc])).leads.returns hs hrc

/-- **After a signal** a step has one block less left, but for the keys that are there already. -/
theorem step_left (ha : a.interrupted = true) (hrun : ∀ rc, s.pc ≠ .done rc) (hs : s.pc ≠ .fault)
    (hfault : (step sockfd config s a).pc ≠ .fault) :
    (step sockfd config s a).pc.left < s.pc.left ∨
      (a.stdinRev.pollin = true ∧ (step sockfd config s a).pc.left ≤ s.pc.left) := by
  refine (step_turn hfault).left hrun hs fun hpc => ?_
  have hstep : step sockfd config s a = orFault s (leave a 0 s) := by
    rw [step, hpc]
    dsimp only
    rw [pollBlock, if_pos ha]
  rw [hstep] at hfault ⊢
  exact orFault_leave hfault

end Tty

namespace WinTty

open Tty

variable {sockfd : ℤ} {config : Connection} {a : Answer} {s t : St}

theorem pollBlock_pc (h : pollBlock a s = some t) : t.pc ∈ [.socket, .done 0, .done 5] := by
  unfold pollBlock at h
  split at h
  · simp [leave_pc h]
  · cases hpoll : a.poll with
    | fail err =>
      rw [hpoll] at h
      dsimp only at h
      split_ifs at h
      · cases h
        simp
      · simp [leave_pc h]
    | timeout | ready =>
      rw [hpoll] at h
      cases h
      simp

/-- Without a key the loop over the keys ends. -/
theorem keysBlock_pc (h : keysBlock sockfd config a s = some t) :
    t.pc = .poll ∨ (a.kbhit = true ∧ t.pc ∈ [.poll, .typeahead, .done 0, .done 5]) := by
  unfold keysBlock at h
  split at h
  · rename_i hkbhit
    exact .inr ⟨hkbhit, keyBlock_pc h⟩
  · cases h
    exact .inl rfl

theorem step_turn (hstdin : s.pc ≠ .stdin) (hfault : (step sockfd config s a).pc ≠ .fault) :
    Turn .windows a.kbhit s (step sockfd config s a) := by
  unfold step at hfault ⊢
  split at hfault
  · rename_i hpc
    refine orFault_of hfault fun t ht => ⟨?_, fun h => by simp [hpc] at h⟩
    rw [hpc]
    exact List.mem_cons_of_mem _ (pollBlock_pc ht)
  · rename_i hpc
    refine orFault_of hfault fun t ht => ⟨?_, fun h => by simp [hpc] at h⟩
    rw [hpc]
    exact socketBlock_pc ht
  · rename_i hpc
    exact absurd hpc hstdin
  · rename_i hpc
    refine orFault_of hfault fun t ht => ?_
    rcases keysBlock_pc ht with h | ⟨hmore, h⟩
    · exact ⟨by simp [hpc, h, Pc.Leads], fun _ _ => h⟩
    · exact ⟨by rw [hpc]; exact h, fun _ hnone => by simp [hmore] at hnone⟩
  · rename_i rc hpc
    exact ⟨by rw [hpc]; rfl, fun h => by simp [hpc] at h⟩
  · rename_i hpc
    exact ⟨by rw [hpc]; rfl, fun h => by simp [hpc] at h⟩

/-- **After a signal** a step has one block less left, but for the keys that are there already. -/
theorem step_left (ha : a.interrupted = true) (hrun : ∀ rc, s.pc ≠ .done rc) (hs : s.pc ≠ .fault)
    (hstdin : s.pc ≠ .stdin) (hfault : (step sockfd config s a).pc ≠ .fault) :
    (step sockfd config s a).pc.left < s.pc.left ∨
      (a.kbhit = true ∧ (step sockfd config s a).pc.left ≤ s.pc.left) := by
  refine (step_turn hstdin hfault).left hrun hs fun hpc => ?_
  have hstep : step sockfd config s a = orFault s (leave a.calls 0 s) := by
    rw [step, hpc]
    dsimp only
    rw [pollBlock, if_pos ha]
  rw [hstep] at hfault ⊢
  exact orFault_leave hfault

end WinTty

end TcpClient
