import Mathlib.Data.UInt
import Mathlib.Tactic.Common

/-! # The number in a row of bytes

The same bytes read as a number from either end.

* **`ofBytesLE`** has the least significant byte first, **`ofBytesBE`** the most significant one.
* **`toBytesLE`** are the bytes of a number, and `ofBytesLE_toBytesLE` reads them back.
* `ofBytesLE_inj`: rows of one length hold different numbers.
* **`ofBytesBE_eq_ofBytesLE_iff`**: the two readings agree on palindromes only. -/

namespace ByteOrder

/-- The number whose little-endian bytes these are. -/
def ofBytesLE : List UInt8 → ℕ
  | [] => 0
  | b :: bytes => b.toNat + 256 * ofBytesLE bytes

/-- The number whose big-endian bytes these are. -/
def ofBytesBE (bytes : List UInt8) : ℕ := ofBytesLE bytes.reverse

@[simp] theorem ofBytesLE_nil : ofBytesLE [] = 0 := rfl

@[simp] theorem ofBytesLE_cons (b : UInt8) (bytes : List UInt8) :
    ofBytesLE (b :: bytes) = b.toNat + 256 * ofBytesLE bytes := rfl

/-- The number fits into its bytes. -/
theorem ofBytesLE_lt (bytes : List UInt8) : ofBytesLE bytes < 256 ^ bytes.length := by
  induction bytes with
  | nil => exact Nat.one_pos
  | cons b bytes ih =>
      have hb : b.toNat < 256 := b.toNat_lt
      rw [ofBytesLE_cons, List.length_cons, Nat.pow_succ]
      omega

/-- **A number determines its bytes**, when their count is known. -/
theorem ofBytesLE_inj {bytes₁ bytes₂ : List UInt8} (hlen : bytes₁.length = bytes₂.length)
    (h : ofBytesLE bytes₁ = ofBytesLE bytes₂) : bytes₁ = bytes₂ := by
  induction bytes₁ generalizing bytes₂ with
  | nil => exact (List.length_eq_zero_iff.mp hlen.symm).symm
  | cons b bytes ih =>
      cases bytes₂ with
      | nil => cases hlen
      | cons b₂ bytes₂ =>
          have hb : b.toNat < 256 := b.toNat_lt
          have hb₂ : b₂.toNat < 256 := b₂.toNat_lt
          rw [ofBytesLE_cons, ofBytesLE_cons] at h
          have hhead : b = b₂ := UInt8.toNat_inj.mp (by omega)
          have htail : bytes = bytes₂ := ih (Nat.succ.inj hlen) (by omega)
          rw [hhead, htail]

/-- The `k` little-endian bytes of a number. -/
def toBytesLE : ℕ → ℕ → List UInt8
  | 0, _ => []
  | k + 1, n => UInt8.ofNat n :: toBytesLE k (n / 256)

@[simp] theorem length_toBytesLE (k n : ℕ) : (toBytesLE k n).length = k := by
  induction k generalizing n with
  | zero => rfl
  | succ k ih => rw [toBytesLE, List.length_cons, ih]

/-- **The bytes of a number stand for it**, as far as it fits into them. -/
theorem ofBytesLE_toBytesLE (k n : ℕ) : ofBytesLE (toBytesLE k n) = n % 256 ^ k := by
  induction k generalizing n with
  | zero => rw [toBytesLE, ofBytesLE_nil, Nat.pow_zero, Nat.mod_one]
  | succ k ih =>
      have hbyte : (UInt8.ofNat n).toNat = n % 256 := UInt8.toNat_ofNat'
      rw [toBytesLE, ofBytesLE_cons, ih, hbyte, Nat.pow_succ', Nat.mod_mul]

/-- **The byte order is invisible on palindromes**, and only there. -/
theorem ofBytesBE_eq_ofBytesLE_iff {bytes : List UInt8} :
    ofBytesBE bytes = ofBytesLE bytes ↔ bytes.reverse = bytes :=
  ⟨fun h => ofBytesLE_inj List.length_reverse h, fun h => congrArg ofBytesLE h⟩

end ByteOrder
