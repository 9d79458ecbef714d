import Mathlib.Data.Nat.Bitwise
import Mathlib.Tactic.Common

/-!
# Length-prefixed frames

A frame is a payload with its length in front, in two bytes, the high one first.
`be16Bytes` writes the length as a C program does, with shifts and masks, and
`be16` reads it; they undo each other on lengths of 16 bits (`be16_be16Bytes`), and
two bytes are always the length they read as (`be16Bytes_be16`).

`declared s` is the length of the frame at the head of a stream, once its two
length bytes are there; of a stream that starts with a frame it is the length of
that frame (`declared_frame_append`).
-/

namespace TcpClient.Frame

/-- `(len >> 8) & 0xFF` and `len & 0xFF`. -/
def be16Bytes (len : ℕ) : List UInt8 := [UInt8.ofNat (len >>> 8 &&& 0xFF), UInt8.ofNat (len &&& 0xFF)]

/-- `(hi << 8) | lo`. -/
def be16 (hi lo : UInt8) : ℕ := hi.toNat <<< 8 ||| lo.toNat

@[simp] theorem length_be16Bytes (len : ℕ) : (be16Bytes len).length = 2 := rfl

theorem be16_eq (hi lo : UInt8) : be16 hi lo = hi.toNat * 256 + lo.toNat := by
  rw [be16, ← Nat.shiftLeft_add_eq_or_of_lt (by simpa using lo.toNat_lt), Nat.shiftLeft_eq]

theorem be16Bytes_eq (len : ℕ) : be16Bytes len = [UInt8.ofNat (len / 256 % 256), UInt8.ofNat (len % 256)] := by
  have hmask : ∀ n : ℕ, n &&& 0xFF = n % 256 := fun n => Nat.and_two_pow_sub_one_eq_mod n 8
  rw [be16Bytes, hmask, hmask, Nat.shiftRight_eq_div_pow]

/-- **The length reads back.** -/
theorem be16_be16Bytes {len : ℕ} (h : len < 65536) :
    ∃ hi lo, be16Bytes len = [hi, lo] ∧ be16 hi lo = len := by
  refine ⟨_, _, be16Bytes_eq len, ?_⟩
  rw [be16_eq, UInt8.toNat_ofNat', UInt8.toNat_ofNat']
  omega

/-- **Two bytes are the length they read as.** -/
theorem be16Bytes_be16 (hi lo : UInt8) : be16Bytes (be16 hi lo) = [hi, lo] := by
  have hhi := hi.toNat_lt
  have hlo := lo.toNat_lt
  have h₁ : be16 hi lo / 256 % 256 = hi.toNat := by rw [be16_eq]; omega
  have h₂ : be16 hi lo % 256 = lo.toNat := by rw [be16_eq]; omega
  rw [be16Bytes_eq, h₁, h₂, UInt8.ofNat_toNat, UInt8.ofNat_toNat]

/-- A payload with its length in front. -/
def frame (payload : List UInt8) : List UInt8 := be16Bytes payload.length ++ payload

@[simp] theorem length_frame (payload : List UInt8) : (frame payload).length = 2 + payload.length := by
  simp [frame]

/-- The length of the frame at the head of a stream, its two length bytes included. -/
def declared : List UInt8 → Option ℕ
  | hi :: lo :: _ => some (2 + be16 hi lo)
  | _ => none

/-- A stream that starts with two bytes of a longer one declares what the longer does. -/
theorem declared_append {s : List UInt8} (h : 2 ≤ s.length) (t : List UInt8) :
    declared (s ++ t) = declared s := by
  rcases s with _ | ⟨hi, _ | ⟨lo, s⟩⟩
  · exact absurd h (by simp)
  · exact absurd h (by simp)
  · rfl

theorem declared_eq_none {s : List UInt8} : declared s = none ↔ s.length < 2 := by
  rcases s with _ | ⟨hi, _ | ⟨lo, s⟩⟩ <;> simp [declared]

/-- **A stream that starts with a frame declares its length.** -/
theorem declared_frame_append {payload : List UInt8} (h : payload.length < 65536) (t : List UInt8) :
    declared (frame payload ++ t) = some (frame payload).length := by
  obtain ⟨hi, lo, hb, hl⟩ := be16_be16Bytes h
  rw [length_frame, frame, hb]
  simp [declared, hl]

end TcpClient.Frame
