import TcpClient.Interactive.TtyBlocks
import TcpClient.Lib.Terminal
import TcpClient.Linenoise.EditKeys

/-!
# Packets on the screen

What the server sends is printed in place of the line, and the line again below it. The terminal is
in raw mode, where a line feed is no carriage return, and of what is printed only the line has one: so
the lines of a packet form stairs, and each stands where it should exactly when at most one of them is
not empty (`packet_shown_iff`). The line itself is always as it was (`handleSocketData_screen`).
-/

namespace TcpClient.Tty

open CString Terminal Lines

/-- The lines of a packet; a line end at its end is that of its last line. -/
def packetLines (packet : List Byte) : List (List Byte) :=
  (if packet.getLast? = some 10 then packet.dropLast else packet).splitOn 10

/-- The prompt and the line are shown, with the cursor in its place. -/
structure Displays {cs : Charset} (v : Screen cs) (l : Editor) : Prop where
  mode : v.mode = .ground
  row : text v.row = l.prompt ++ l.text
  col : v.col = l.prompt.length + l.pos

/-- From `v` to `w` the packet has come: in place of the row with the prompt there are the lines of the
packet, each from column 0 on, and the prompt and the line are shown below them. -/
structure Consistent {cs : Charset} (packet : List Byte) (l : Editor) (v w : Screen cs) : Prop where
  lines : w.above.map text = v.above.map text ++ packetLines packet
  current : Displays w l

section Screen

variable {cs : Charset} {v : Screen cs} {l : Editor} {s : St} {before after out packet : List Byte} {sockfd : ℤ}
  {a : Answer}

/-! ### The line -/

/-- A distance that fits in an `int` is printed as it is. -/
theorem cursorBack_eq {n : ℕ} (hn : n < 2 ^ 31) :
    cursorBack n = 27 :: 91 :: (((Nat.toDigits 10 n).map fun c => UInt8.ofNat c.toNat) ++ [68]) := by
  have hint : (n : ℤ).bmod (2 ^ 32) = n := by
    rw [Int.bmod_def]
    omega
  have htext : (toString (n : ℤ)).toList = Nat.toDigits 10 n := Nat.toList_repr
  rw [cursorBack, hint, str, str, str, htext]
  rfl

/-- **The line is drawn on a row that is erased first.** -/
theorem feedAll_redraw (hl : l.Shows before after) (hsize : l.len < 2 ^ 31) (hv : v.mode = .ground)
    {line : List (Glyph cs)} (hline : text line = l.prompt ++ l.text) (hout : linenoiseEditRedraw l = some out) :
    v.feedAll out = { v with row := line, col := l.prompt.length + l.pos } := by
  have hpos := hl.pos_le
  have hlen : line.length = l.prompt.length + l.len := by
    rw [← length_text, hline, List.length_append, Editor.text, List.length_take, min_eq_left hl.len_lt.le]
  have hdrawn : ({ v with row := [], col := 0 } : Screen cs).feedAll (text line) =
      { v with row := line, col := l.prompt.length + l.len } := by
    rw [Screen.feedAll_text (v := { v with row := [], col := 0 }) hv rfl, (indent_eq_self_iff space).mpr (.inl rfl), hlen]
    simp
  have hparts : out = [13, 27, 91, 50, 75] ++ (text line ++
      if l.pos < l.len then cursorBack (l.len - l.pos) else []) := by
    rw [linenoiseEditRedraw, if_pos hl.len_lt.le] at hout
    rw [hline, ← Option.some.inj hout, Editor.text]
    simp [str]
  rw [hparts, Screen.feedAll_append, Screen.feedAll_eraseRow hv, Screen.feedAll_append, hdrawn]
  split_ifs with hback
  · have hn : l.len - l.pos < 2 ^ 31 := by omega
    have hvalue := decimalValue_toDigits (l.len - l.pos)
    have hone : 1 ≤ decimalValue ((Nat.toDigits 10 (l.len - l.pos)).map fun c => UInt8.ofNat c.toNat) := by
      rw [hvalue]
      omega
    have hcol : l.prompt.length + l.len - (l.len - l.pos) = l.prompt.length + l.pos := by omega
    have hmoved := Screen.feedAll_cursorBack (v := { v with row := line, col := l.prompt.length + l.len }) hv
      (fun d hd => byte_of_mem_toDigits hd) hone
    rw [hvalue, hcol] at hmoved
    rw [cursorBack_eq hn, hmoved]
  · have hend : l.len = l.pos := by omega
    rw [hend]
    rfl

/-! ### The packet -/

/-- What is printed of a packet are its lines, each with a line feed behind it. -/
theorem unlines_packetLines (packet : List Byte) :
    unlines 10 (packetLines packet) = packet ++ if packet.getLast? = some 10 then [] else [10] := by
  rw [packetLines, unlines_splitOn]
  split_ifs with hlast
  · rw [List.append_nil]
    exact List.dropLast_append_getLast? _ hlast
  · rfl

/-- A packet of printable bytes and line feeds has lines that can be shown. -/
theorem exists_packetLines (hpacket : ∀ c ∈ packet, cs.prints c = true ∨ c = 10) :
    ∃ lines : List (List (Glyph cs)), lines.map text = packetLines packet := by
  have hline : ∀ line ∈ packetLines packet, ∃ row : List (Glyph cs), text row = line := by
    intro line hmem
    obtain ⟨hsub, hno⟩ := of_mem_splitOn 10 hmem
    refine exists_text fun c hc => (hpacket c ?_).resolve_right fun h10 => hno (h10 ▸ hc)
    have hmem' := hsub.subset hc
    split_ifs at hmem'
    · exact (List.dropLast_sublist _).subset hmem'
    · exact hmem'
  exact (Set.ext_iff.mp (Set.range_list_map text) _).mpr hline

/-- **A packet on the screen**: its lines form stairs in place of the line, which is shown again
below them. -/
theorem handleSocketData_screen (hl : s.editor.Shows before after) (hsize : s.editor.len < 2 ^ 31)
    (hv : Displays v s.editor) (hpos : 0 < (readSocket .posix sockfd a).rc) {lines : List (List (Glyph cs))}
    (hlines : lines.map text = packetLines (readSocket .posix sockfd a).bytes) :
    ∃ out, handleSocketData .posix sockfd a s =
        some (0, { s with log := s.log ++ [.recv (readSocket .posix sockfd a).bytes, .stdout out] }) ∧
      (v.feedAll out).above = v.above ++ stairs space 0 lines ∧ Displays (v.feedAll out) s.editor := by
  obtain ⟨line, hline⟩ := hl.redraw
  have hprinted : [13, 27] ++ str "[2K" ++ (readSocket .posix sockfd a).bytes ++
      (if (readSocket .posix sockfd a).bytes.getLast? = some 10 then [] else [10]) =
        [13, 27, 91, 50, 75] ++ unlines 10 (lines.map text) := by
    rw [hlines, unlines_packetLines, ← List.append_assoc]
    rfl
  have hpacket := Screen.feedAll_unlines (v := { v with row := [], col := 0 }) hv.mode rfl lines
  have hredraw := feedAll_redraw (v := { v with
    above := v.above ++ stairs space 0 lines, row := [], col := 0 + (lines.map List.length).sum }) hl hsize hv.mode
    hv.row hline
  have hscreen : v.feedAll ([13, 27, 91, 50, 75] ++ unlines 10 (lines.map text) ++ line) =
      { v with above := v.above ++ stairs space 0 lines, row := v.row, col := s.editor.prompt.length + s.editor.pos } := by
    rw [Screen.feedAll_append, Screen.feedAll_append, Screen.feedAll_eraseRow hv.mode, hpacket, hredraw]
  refine ⟨[13, 27, 91, 50, 75] ++ unlines 10 (lines.map text) ++ line, ?_, ?_, ?_⟩
  · rw [handleSocketData, if_pos hpos, hline, ← hprinted]
    rfl
  · rw [hscreen]
  · rw [hscreen]
    exact ⟨hv.mode, hv.row, rfl⟩

/-- `handle_socket_data` prints the packet so that the screen is consistent with the line. -/
def LeavesConsistent (sockfd : ℤ) (a : Answer) (s : St) (v : Screen cs) : Prop :=
  ∃ out, handleSocketData .posix sockfd a s =
      some (0, { s with log := s.log ++ [.recv (readSocket .posix sockfd a).bytes, .stdout out] }) ∧
    Consistent (readSocket .posix sockfd a).bytes s.editor v (v.feedAll out)

/-- **The lines of a packet stand where they should exactly when at most one is not empty.** -/
theorem leavesConsistent_iff (hl : s.editor.Shows before after) (hsize : s.editor.len < 2 ^ 31)
    (hv : Displays v s.editor) (hpos : 0 < (readSocket .posix sockfd a).rc)
    (hpacket : ∀ c ∈ (readSocket .posix sockfd a).bytes, cs.prints c = true ∨ c = 10) :
    LeavesConsistent sockfd a s v ↔ ((packetLines (readSocket .posix sockfd a).bytes).filter (· ≠ [])).length ≤ 1 := by
  obtain ⟨lines, hlines⟩ := exists_packetLines hpacket
  obtain ⟨out, hout, habove, hcurrent⟩ := handleSocketData_screen hl hsize hv hpos hlines
  have hshown : (v.feedAll out).above.map text = v.above.map text ++ packetLines (readSocket .posix sockfd a).bytes ↔
      stairs 32 0 (packetLines (readSocket .posix sockfd a).bytes) = packetLines (readSocket .posix sockfd a).bytes := by
    have hstairs : (stairs space 0 lines).map text = stairs 32 0 (packetLines (readSocket .posix sockfd a).bytes) := by
      rw [← hlines]
      exact map_stairs space (·.val) 0 lines
    rw [habove, List.map_append, hstairs, List.append_cancel_left_eq]
  rw [← stairs_eq_self_iff 32, ← hshown]
  constructor
  · rintro ⟨out', hout', hconsistent⟩
    rw [hout] at hout'
    have hlog := congrArg (fun r : ℤ × St => r.2.log) (Option.some.inj hout')
    have hevents := List.append_cancel_left hlog
    obtain rfl : out = out' := by simpa using hevents
    exact hconsistent.lines
  · intro hlevel
    exact ⟨out, hout, hlevel, hcurrent⟩

end Screen

/-- **After a packet the screen is consistent with the line, wherever keys have led it, exactly when at
most one line of the packet is not empty**: behind a line that is not empty no other begins in
column 0. -/
theorem packet_shown_iff {cs : Charset} {completion : Option CompletionCallback} {h : History} {entries : List CStr}
    {buf prompt out : List Byte} {ops : List Op} {l : Editor} {s : St} {v : Screen cs} {sockfd : ℤ} {a : Answer}
    (hh : h.Holds entries) (hbuf : 1 ≤ buf.length) (hsize : buf.length ≤ bufSize)
    (hstart : linenoiseEditStart h buf prompt = some (l, out))
    (hrun : ops.foldlM (sessionStep completion) ⟨h, l⟩ = some s.session) (hv : Displays v s.editor)
    (hpos : 0 < (readSocket .posix sockfd a).rc)
    (hpacket : ∀ c ∈ (readSocket .posix sockfd a).bytes, cs.prints c = true ∨ c = 10) :
    LeavesConsistent sockfd a s v ↔ ((packetLines (readSocket .posix sockfd a).bytes).filter (· ≠ [])).length ≤ 1 := by
  have hs := Session.sound_of_run hh hbuf hstart hrun
  obtain ⟨before, after, hshows⟩ := hs.editor.text
  have hlen : s.editor.len < buf.length := hs.editor.buflen ▸ hshows.len_lt
  have hint : bufSize < 2 ^ 31 := by decide
  exact leavesConsistent_iff hshows (hlen.trans_le (hsize.trans hint.le)) hv hpos hpacket

/-- One line, while `> ` is shown. -/
theorem packet_shown_ok :
    ∃ l out, linenoiseEditStart {} (List.replicate 8 7) prompt = some (l, out) ∧
      LeavesConsistent 3 { recv := .data (str "ok\n") } { history := {}, editor := l }
        ({ row := [⟨62, rfl⟩, ⟨32, rfl⟩], col := 2 } : Screen ascii) := by
  refine ⟨_, _, rfl, ?_⟩
  exact (packet_shown_iff holds_init (show 1 ≤ (List.replicate 8 (7 : Byte)).length by decide) (by decide) rfl
    (show ([] : List Op).foldlM (sessionStep none) ⟨{}, _⟩ = some _ from rfl) ⟨rfl, rfl, rfl⟩ (by decide)
    (by decide +kernel)).mpr (by decide)

/-- Of two lines the second begins where the first has ended. -/
theorem packet_shown_stairs :
    ∃ l out, linenoiseEditStart {} (List.replicate 8 7) prompt = some (l, out) ∧
      Displays ({ row := [⟨62, rfl⟩, ⟨32, rfl⟩], col := 2 } : Screen ascii) l ∧
      ¬ LeavesConsistent 3 { recv := .data (str "ab\ncd\n") } { history := {}, editor := l }
        ({ row := [⟨62, rfl⟩, ⟨32, rfl⟩], col := 2 } : Screen ascii) := by
  obtain ⟨l, out, hstart, hline, -⟩ :=
    linenoiseEditStart_line {} (show 1 ≤ (List.replicate 8 (7 : Byte)).length by decide) prompt
  have hv : Displays ({ row := [⟨62, rfl⟩, ⟨32, rfl⟩], col := 2 } : Screen ascii) l := by
    cases hstart
    exact ⟨rfl, rfl, rfl⟩
  refine ⟨l, out, hstart, hv, ?_⟩
  intro hconsistent
  have hlen : l.len < 2 ^ 31 := by
    rw [hline.shows.len]
    decide
  have hfew := (leavesConsistent_iff (s := { history := {}, editor := l }) hline.shows hlen hv (by decide)
    (by decide +kernel)).mp hconsistent
  exact absurd hfew (by decide)

end TcpClient.Tty
