import Mathlib.Data.Nat.Bitwise
import Mathlib.Tactic.Common

/-!
# Hexadecimal notation

The digits are those of `Nat.digitChar`, in either letter case; a byte is written with two of them, the high half
first. A character is a digit when it is the digit of some number below sixteen, which is its value.
-/

namespace TcpClient.Hex

/-- The digit for `n`, as a byte of ASCII. -/
def digit (uppercase : Bool) (n : ℕ) : UInt8 :=
  UInt8.ofNat (if uppercase then (Nat.digitChar n).toUpper else Nat.digitChar n).toNat

/-- A byte in two digits. -/
def ofByte (uppercase : Bool) (byte : UInt8) : List UInt8 :=
  [digit uppercase (byte.toNat / 16), digit uppercase (byte.toNat % 16)]

/-- The number a character is the digit for. -/
def value (c : UInt8) : Option ℕ := (List.range 16).find? fun n => c = digit false n || c = digit true n

/-- A fact about all bytes is 256 facts. -/
theorem forall_byte {p : UInt8 → Prop} (h : ∀ n < 256, p (UInt8.ofNat n)) (c : UInt8) : p c := by
  have hc := h c.toNat c.toNat_lt
  rwa [UInt8.ofNat_toNat] at hc

theorem value_digit (uppercase : Bool) : ∀ n < 16, value (digit uppercase n) = some n := by
  cases uppercase <;> decide

/-- The two halves of a byte, by shift and mask. -/
theorem ofByte_eq (uppercase : Bool) (byte : UInt8) :
    ofByte uppercase byte = [digit uppercase (byte.toNat >>> 4 &&& 0x0F), digit uppercase (byte.toNat &&& 0x0F)] := by
  have hlt := byte.toNat_lt
  have hmask : ∀ n : ℕ, n &&& 0x0F = n % 16 := fun n => Nat.and_two_pow_sub_one_eq_mod n 4
  rw [ofByte, hmask, hmask, Nat.shiftRight_eq_div_pow, Nat.mod_eq_of_lt (by omega : byte.toNat / 2 ^ 4 < 16)]
  rfl

/-- Two halves make the byte they are the halves of. -/
theorem shiftLeft_or (hi : ℕ) {lo : ℕ} (hlo : lo < 16) : hi <<< 4 ||| lo = 16 * hi + lo := by
  rw [← Nat.shiftLeft_add_eq_or_of_lt (show lo < 2 ^ 4 by omega), Nat.shiftLeft_eq]
  omega

end TcpClient.Hex
