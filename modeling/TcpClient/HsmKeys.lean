import TcpClient.HsmFormat

/-!
# The key and the check value of an `A1` response

`hsm_format_analysis` takes the payload of a successful `A1` response for a key and, behind it, a
check value. How long the key is depends on the scheme letter in front: a key block says it in its
own text, the other schemes are told apart by how many bytes there are. Whatever that gives, the
two are the payload (`key_partition`). But the number of bytes says nothing about where the key
ends: a double-length key with 16 bytes or more behind it is taken for a triple-length one
(`splitsInto_iff`).
-/

namespace TcpClient

open CString TcpClient.Frame

/-- A successful `A1` response, decoded from `buf`. -/
structure IsKeyResponse (buf : List Byte) (headerLen : ℕ) (resp : HsmResponse) : Prop where
  parsed : hsmParseResponse buf headerLen = some resp
  success : resp.isSuccess = true
  generated : resp.responseCode = str "A1"

/-- `key_len`, for each scheme. -/
def keyLen (payload : List Byte) : ℕ :=
  match payload with
  | [] => 0
  | scheme :: _ =>
    if scheme = 83 then blockKeyLen payload
    else if scheme ∈ str "UTXZYM" then schemeKeyLen payload.length
    else payload.length

/-- `kcv_len` of the schemes `U`, `T`, `X`, `Z`, `Y` and `M`. -/
def schemeKcvLen (rem : ℕ) : ℕ :=
  if 49 ≤ rem then rem - 49 else if 33 ≤ rem then rem - 33 else if 17 ≤ rem then rem - 17 else 0

/-- `kcv_len`, for each scheme; the others are shown without a check value. -/
def kcvLen (payload : List Byte) : ℕ :=
  match payload with
  | [] => 0
  | scheme :: _ =>
    if scheme = 83 then
      if blockKeyLen payload < payload.length then payload.length - blockKeyLen payload else 0
    else if scheme ∈ str "UTXZYM" then schemeKcvLen payload.length
    else 0

/-- The name of the line that shows the key. -/
def keyLabel (payload : List Byte) : List Byte :=
  match payload with
  | [] => []
  | scheme :: _ =>
    if scheme = 83 then str "Key Block (TR-31)........"
    else if scheme ∈ str "UTXZYM" then str "Key......................"
    else str "Key Data................."

/-- `len` bytes of memory from `resp->payload + off` on. -/
def HsmResponse.payloadSlice (resp : HsmResponse) (buf : List Byte) (off len : ℕ) : List Byte :=
  match resp.payload with
  | some pos => (buf.drop (pos + off)).take len
  | none => []

/-- What is printed as the key. -/
def HsmResponse.keySlice (resp : HsmResponse) (buf : List Byte) : List Byte :=
  resp.payloadSlice buf 0 (keyLen (resp.payloadBytes buf))

/-- What is printed as the check value. -/
def HsmResponse.kcvSlice (resp : HsmResponse) (buf : List Byte) : List Byte :=
  resp.payloadSlice buf (keyLen (resp.payloadBytes buf)) (kcvLen (resp.payloadBytes buf))

/-- The line of a check value. -/
def kcvLine (kcv : List Byte) : List Byte := breakdownLine (str "Key Check Value (KCV)....") kcv

/-! ### How long the key is -/

/-- The clamp of scheme `S`: whatever the four characters say, the key has a byte and ends where the
payload does at the latest. -/
theorem blockKeyLen_bounds {payload : List Byte} (hne : payload ≠ []) :
    1 ≤ blockKeyLen payload ∧ blockKeyLen payload ≤ payload.length := by
  have hpos := List.length_pos_iff.mpr hne
  rw [blockKeyLen]
  generalize (if 5 ≤ payload.length then sizeOfInt (atoi (cstr ((payload.drop 1).take 4))) else 0) = blockLen
  split_ifs with h
  · exact ⟨hpos, le_rfl⟩
  · rw [not_or, not_lt] at h
    exact ⟨Nat.one_le_iff_ne_zero.mpr h.1, h.2⟩

/-- The thresholds keep to what there is, and the rest is the check value. -/
theorem schemeKeyLen_bounds {rem : ℕ} (hpos : 0 < rem) :
    1 ≤ schemeKeyLen rem ∧ schemeKeyLen rem ≤ rem ∧ schemeKcvLen rem = rem - schemeKeyLen rem := by
  rw [schemeKeyLen, schemeKcvLen]
  split_ifs with h₄₉ h₃₃ h₁₇ <;> omega

/-- Every scheme: the key has a byte, ends inside the payload, and what is left is the check value. -/
theorem keyLen_bounds {payload : List Byte} (hne : payload ≠ []) :
    1 ≤ keyLen payload ∧ keyLen payload ≤ payload.length ∧ kcvLen payload = payload.length - keyLen payload := by
  have hblock := blockKeyLen_bounds hne
  have hpos := List.length_pos_iff.mpr hne
  have hscheme := schemeKeyLen_bounds hpos
  cases payload with
  | nil => exact absurd rfl hne
  | cons scheme rest =>
    rw [keyLen, kcvLen]
    split_ifs with hS hlt hU
    · exact ⟨hblock.1, hblock.2, rfl⟩
    · exact ⟨hblock.1, hblock.2, by omega⟩
    · exact hscheme
    · exact ⟨hpos, le_rfl, (Nat.sub_self _).symm⟩

/-! ### What is shown -/

/-- The lines about the payload are the key and, if there is one, the check value. -/
theorem generateKeyLines_eq {payload : List Byte} (hne : payload ≠ []) :
    generateKeyLines payload = keyLines (keyLabel payload) payload (keyLen payload) := by
  cases payload with
  | nil => exact absurd rfl hne
  | cons scheme rest =>
    rw [generateKeyLines, keyLabel, keyLen]
    split_ifs with hS hU
    · rfl
    · rfl
    · rw [keyLines, List.take_length, if_neg (lt_irrefl _)]

/-- The breakdown of a successful `A1` response: what it is for an empty payload, and the lines about
the payload. -/
theorem breakdownLines_key {resp : HsmResponse} (hsuccess : resp.isSuccess = true)
    (hgenerated : resp.responseCode = str "A1") (payload : List Byte) :
    breakdownLines resp payload = breakdownLines resp [] ++ generateKeyLines payload := by
  simp only [breakdownLines, hsuccess, hgenerated, if_true, generateKeyLines, List.append_nil]

/-- A slice that keeps to the payload is a slice of it. -/
theorem HsmResponse.payloadSlice_eq {resp : HsmResponse} {buf : List Byte} {off len : ℕ}
    (h : off + len ≤ (resp.payloadBytes buf).length) :
    resp.payloadSlice buf off len = ((resp.payloadBytes buf).drop off).take len := by
  rw [payloadBytes] at h ⊢
  rw [payloadSlice]
  generalize resp.payload = pointer at h ⊢
  cases pointer with
  | none => simp
  | some pos =>
    dsimp only at h ⊢
    rw [List.length_take] at h
    rw [← List.drop_drop, List.drop_take, List.take_take, Nat.min_eq_left (by omega)]

/-- The two slices, read off the payload. -/
theorem HsmResponse.slices_eq {resp : HsmResponse} {buf : List Byte} (hne : resp.payloadBytes buf ≠ []) :
    resp.keySlice buf = (resp.payloadBytes buf).take (keyLen (resp.payloadBytes buf)) ∧
      resp.kcvSlice buf = (resp.payloadBytes buf).drop (keyLen (resp.payloadBytes buf)) := by
  obtain ⟨hpos, hle, hkcv⟩ := keyLen_bounds hne
  constructor
  · rw [keySlice, payloadSlice_eq (by omega)]
    rfl
  · rw [kcvSlice, payloadSlice_eq (by omega), List.take_of_length_le]
    rw [List.length_drop]
    omega

/-- The payload lies in the packet. -/
theorem payloadBytes_infix {buf : List Byte} {headerLen : ℕ} {resp : HsmResponse}
    (h : hsmParseResponse buf headerLen = some resp) :
    resp.payloadBytes buf <:+: buf ∧ (resp.payloadBytes buf).length = resp.payloadLen := by
  obtain ⟨tcp, header, code, err, payload, delim, hbuf, -, hcode, herr, -, -, rfl⟩ := hsmParseResponse_layout h
  rw [hbuf, payloadBytes_hsmFields tcp hcode herr]
  refine ⟨⟨tcpField tcp ++ (header ++ (code ++ err)), delimited delim, ?_⟩, rfl⟩
  simp only [List.append_assoc]

/-- **Key and check value are the payload**, each byte in one of them and none from elsewhere, and
they are what the last lines of the breakdown show. -/
theorem key_partition {buf : List Byte} {headerLen : ℕ} {resp : HsmResponse}
    (h : IsKeyResponse buf headerLen resp) (hne : resp.payloadBytes buf ≠ []) :
    (1 ≤ keyLen (resp.payloadBytes buf) ∧ keyLen (resp.payloadBytes buf) ≤ resp.payloadLen) ∧
      resp.keySlice buf ++ resp.kcvSlice buf = resp.payloadBytes buf ∧ resp.payloadBytes buf <:+: buf ∧
      (resp.payloadBytes buf).length = resp.payloadLen ∧
      breakdownLines resp (resp.payloadBytes buf) =
        breakdownLines resp [] ++ breakdownLine (keyLabel (resp.payloadBytes buf)) (cstr (resp.keySlice buf)) ::
          if resp.kcvSlice buf = [] then [] else [kcvLine (cstr (resp.kcvSlice buf))] := by
  obtain ⟨hslice, hlen⟩ := payloadBytes_infix h.parsed
  obtain ⟨hpos, hle, -⟩ := keyLen_bounds hne
  obtain ⟨hkey, hkcv⟩ := HsmResponse.slices_eq hne
  refine ⟨⟨hpos, hlen ▸ hle⟩, ?_, hslice, hlen, ?_⟩
  · rw [hkey, hkcv, List.take_append_drop]
  · rw [breakdownLines_key h.success h.generated, generateKeyLines_eq hne, keyLines, hkey, hkcv]
    split_ifs with hlt hnil hnil
    · rw [List.drop_eq_nil_iff] at hnil
      omega
    · rfl
    · rfl
    · rw [List.drop_eq_nil_iff] at hnil
      omega

/-- The answer to a key request in a test: a double-length key and six characters of check value. -/
theorem key_partition_U39 :
    ∃ resp, IsKeyResponse (str "A100U946EC35A217E415D333AFAC7EC336116A1B2C3") 0 resp ∧
      resp.keySlice (str "A100U946EC35A217E415D333AFAC7EC336116A1B2C3") ++
        resp.kcvSlice (str "A100U946EC35A217E415D333AFAC7EC336116A1B2C3") =
          resp.payloadBytes (str "A100U946EC35A217E415D333AFAC7EC336116A1B2C3") := by
  obtain ⟨resp, hparsed⟩ :
      ∃ resp, hsmParseResponse (str "A100U946EC35A217E415D333AFAC7EC336116A1B2C3") 0 = some resp := ⟨_, rfl⟩
  have hresp := Option.some.inj (hparsed.symm.trans rfl)
  have h : IsKeyResponse (str "A100U946EC35A217E415D333AFAC7EC336116A1B2C3") 0 resp :=
    ⟨hparsed, by rw [hresp]; rfl, by rw [hresp]; rfl⟩
  exact ⟨resp, h, (key_partition h (by rw [hresp]; decide)).2.1⟩

/-! ### Where a double-length key ends -/

/-- What is taken for the key and for the check value, and what is shown of them. -/
structure SplitsInto (resp : HsmResponse) (buf key kcv : List Byte) : Prop where
  key_eq : resp.keySlice buf = key
  kcv_eq : resp.kcvSlice buf = kcv
  shown : breakdownLines resp (resp.payloadBytes buf) =
    breakdownLines resp [] ++ [breakdownLine (str "Key......................") key, kcvLine kcv]

/-- The thresholds, for a key of 33 bytes with something behind it. -/
theorem schemeKeyLen_double {n : ℕ} : schemeKeyLen (33 + n) = 33 ↔ n ≤ 15 := by
  rw [schemeKeyLen]
  split_ifs with h₄₉ h₃₃ h₁₇ <;> omega

theorem cstr_of_isprint {text : List Byte} (h : ∀ c ∈ text, isprint c = true) : cstr text = text := by
  refine List.takeWhile_eq_self_iff.mpr fun c hc => ?_
  simp only [decide_eq_true_eq]
  rintro rfl
  exact absurd (h 0 hc) (by decide)

/-- **A double-length key is told from its check value as long as that has at most 15 bytes.** -/
theorem splitsInto_iff {buf : List Byte} {headerLen : ℕ} {resp : HsmResponse} {k v : List Byte}
    (h : IsKeyResponse buf headerLen resp) (hpayload : resp.payloadBytes buf = 85 :: k ++ v) (hk : k.length = 32)
    (hprint : ∀ c ∈ k ++ v, isprint c = true) (hv : v ≠ []) :
    SplitsInto resp buf (85 :: k) v ↔ v.length ≤ 15 := by
  have hne : resp.payloadBytes buf ≠ [] := by
    rw [hpayload]
    exact List.cons_ne_nil _ _
  have hlen : (85 :: k).length = 33 := by rw [List.length_cons, hk]
  have hkeyLen : keyLen (resp.payloadBytes buf) = schemeKeyLen (33 + v.length) := by
    rw [hpayload, ← hlen, ← List.length_append]
    rfl
  obtain ⟨hkey, hkcv⟩ := HsmResponse.slices_eq hne
  rw [hkeyLen, hpayload] at hkey hkcv
  rw [← schemeKeyLen_double]
  constructor
  · intro hsplit
    -- the check value has the bytes behind the key, and none more
    have hdrop := congrArg List.length (hkcv.symm.trans hsplit.kcv_eq)
    have hpos := List.length_pos_iff.mpr hv
    rw [List.length_drop, List.length_append, hlen] at hdrop
    omega
  · intro hdouble
    rw [hdouble, ← hlen] at hkey hkcv
    rw [List.take_left] at hkey
    rw [List.drop_left] at hkcv
    refine ⟨hkey, hkcv, ?_⟩
    have hlabel : keyLabel (resp.payloadBytes buf) = str "Key......................" := by
      rw [hpayload]
      rfl
    have hkprint : ∀ c ∈ 85 :: k, isprint c = true :=
      List.forall_mem_cons.mpr ⟨by decide, fun c hc => hprint c (List.mem_append_left _ hc)⟩
    have hvprint : ∀ c ∈ v, isprint c = true := fun c hc => hprint c (List.mem_append_right _ hc)
    rw [(key_partition h hne).2.2.2.2, hlabel, hkey, hkcv, if_neg hv, cstr_of_isprint hkprint, cstr_of_isprint hvprint]

/-- The packet of the test again: six characters of check value are told apart. -/
theorem splitsInto_six :
    ∃ resp, hsmParseResponse (str "A100U946EC35A217E415D333AFAC7EC336116A1B2C3") 0 = some resp ∧
      SplitsInto resp (str "A100U946EC35A217E415D333AFAC7EC336116A1B2C3")
        (str "U946EC35A217E415D333AFAC7EC336116") (str "A1B2C3") := by
  obtain ⟨resp, hparsed⟩ :
      ∃ resp, hsmParseResponse (str "A100U946EC35A217E415D333AFAC7EC336116A1B2C3") 0 = some resp := ⟨_, rfl⟩
  have hresp := Option.some.inj (hparsed.symm.trans rfl)
  have h : IsKeyResponse (str "A100U946EC35A217E415D333AFAC7EC336116A1B2C3") 0 resp :=
    ⟨hparsed, by rw [hresp]; rfl, by rw [hresp]; rfl⟩
  exact ⟨resp, hparsed, (splitsInto_iff (k := str "946EC35A217E415D333AFAC7EC336116") h (by rw [hresp]; rfl) rfl
    (by decide +kernel) (by decide)).mpr (by decide)⟩

/-- Ten more characters of check value, and all sixteen are shown as part of the key. -/
theorem splitsInto_sixteen_fails :
    ∃ resp, IsKeyResponse (str "A100U946EC35A217E415D333AFAC7EC336116A1B2C3D4E5F60718") 0 resp ∧
      resp.payloadBytes (str "A100U946EC35A217E415D333AFAC7EC336116A1B2C3D4E5F60718") =
        str "U946EC35A217E415D333AFAC7EC336116" ++ str "A1B2C3D4E5F60718" ∧
      resp.keySlice (str "A100U946EC35A217E415D333AFAC7EC336116A1B2C3D4E5F60718") =
        str "U946EC35A217E415D333AFAC7EC336116A1B2C3D4E5F60718" ∧
      ¬ SplitsInto resp (str "A100U946EC35A217E415D333AFAC7EC336116A1B2C3D4E5F60718")
        (str "U946EC35A217E415D333AFAC7EC336116") (str "A1B2C3D4E5F60718") := by
  obtain ⟨resp, hparsed⟩ :
      ∃ resp, hsmParseResponse (str "A100U946EC35A217E415D333AFAC7EC336116A1B2C3D4E5F60718") 0 = some resp := ⟨_, rfl⟩
  have hresp := Option.some.inj (hparsed.symm.trans rfl)
  have hkey : resp.keySlice (str "A100U946EC35A217E415D333AFAC7EC336116A1B2C3D4E5F60718") =
      str "U946EC35A217E415D333AFAC7EC336116A1B2C3D4E5F60718" := by
    rw [hresp]
    rfl
  refine ⟨resp, ⟨hparsed, by rw [hresp]; rfl, by rw [hresp]; rfl⟩, by rw [hresp]; rfl, hkey, ?_⟩
  intro h
  have hlen := congrArg List.length (hkey.symm.trans h.key_eq)
  exact absurd hlen (by decide)

end TcpClient
