import TelemetrySubsystem.Foundations.ByteOrder
import TelemetrySubsystem.SharedPage.Layout

/-! # Words in host order and in network order

The host is little-endian, the network is big-endian.

* **`load16`** and **`load32`** are the words that the host reads from bytes in memory.
* **`ntohs`** turns a 16-bit word in network order into the number it stands for. -/

namespace TelemetrySubsystem

open ByteOrder

/-- A 16-bit load of two bytes. -/
def load16 (b₀ b₁ : UInt8) : UInt16 := UInt16.ofNat (ofBytesLE [b₀, b₁])

/-- A 32-bit load of four bytes. -/
def load32 (b₀ b₁ b₂ b₃ : UInt8) : UInt32 := UInt32.ofNat (ofBytesLE [b₀, b₁, b₂, b₃])

/-- `ntohs`: swap the two bytes. -/
def ntohs (x : UInt16) : UInt16 := (x <<< 8) ||| (x >>> 8)

/-- Shifting by a byte. -/
theorem toNat_shiftRight_eight (x : UInt16) : (x >>> 8).toNat = x.toNat / 2 ^ 8 := by
  rw [UInt16.toNat_shiftRight, Nat.shiftRight_eq_div_pow]
  rfl

/-- The host reads a word from its bytes, least significant first. -/
theorem ofBytesLE_leBytes16 (x : UInt16) : ofBytesLE (leBytes16 x) = x.toNat := by
  have hx : x.toNat < 2 ^ 16 := x.toNat_lt
  simp only [leBytes16, ofBytesLE_cons, ofBytesLE_nil, UInt16.toNat_toUInt8,
    toNat_shiftRight_eight]
  omega

/-- It reads four bytes alike. -/
theorem ofBytesLE_leBytes32 (x : UInt32) : ofBytesLE (leBytes32 x) = x.toNat := by
  have hx : x.toNat < 2 ^ 32 := x.toNat_lt
  simp only [leBytes32, ofBytesLE_cons, ofBytesLE_nil, UInt32.toNat_toUInt8,
    UInt32.toNat_shiftRight, Nat.shiftRight_eq_div_pow, UInt32.toNat_ofNat, Nat.reducePow,
    Nat.reduceMod]
  omega

/-- **`ntohs` reads the bytes of a word from the other end**, most significant first. -/
theorem ntohs_toNat (x : UInt16) : (ntohs x).toNat = ofBytesBE (leBytes16 x) := by
  have hx : x.toNat < 2 ^ 16 := x.toNat_lt
  have hup : (x <<< 8).toNat = (x.toNat % 2 ^ 8) <<< 8 := by
    rw [UInt16.toNat_shiftLeft, Nat.shiftLeft_eq, Nat.shiftLeft_eq]
    show x.toNat * 2 ^ 8 % 2 ^ 16 = _
    omega
  -- the two halves do not overlap
  have hor : (ntohs x).toNat = (x.toNat % 2 ^ 8) <<< 8 + x.toNat / 2 ^ 8 := by
    rw [ntohs, UInt16.toNat_or, hup, toNat_shiftRight_eight,
      Nat.shiftLeft_add_eq_or_of_lt (by omega)]
  rw [hor, Nat.shiftLeft_eq]
  simp only [ofBytesBE, leBytes16, List.reverse_cons, List.reverse_nil, List.nil_append,
    List.cons_append, ofBytesLE_cons, ofBytesLE_nil, UInt16.toNat_toUInt8, toNat_shiftRight_eight]
  omega

/-- A word in network order that is loaded as it stands holds the bytes it was loaded from. -/
theorem leBytes16_load16 (b₀ b₁ : UInt8) : leBytes16 (load16 b₀ b₁) = [b₀, b₁] := by
  refine ofBytesLE_inj rfl ?_
  have hlt : ofBytesLE [b₀, b₁] < 256 ^ 2 := ofBytesLE_lt [b₀, b₁]
  rw [ofBytesLE_leBytes16, load16, UInt16.toNat_ofNat', Nat.mod_eq_of_lt (by omega)]

end TelemetrySubsystem
