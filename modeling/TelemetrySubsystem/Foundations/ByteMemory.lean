import TelemetrySubsystem.Foundations.ByteOrder
import Mathlib.Order.Interval.Set.Defs
import Mathlib.Data.Set.Function
import Mathlib.Data.UInt

/-! # Memory as a map from addresses to bytes

Numbers of several bytes are loaded from and stored to memory in little-endian order.

* **`load`** and **`store`** access `n` bytes from an address on.
* **`load_store_same`** and **`load_store_disjoint`** are the two laws that proofs use.
* `store_of_notMem` and `load_congr` say which bytes an access depends on and which it changes.
* **`load_div_mod`** finds a part of a number at its own address.
* **`word`** is a 32-bit word; `load_byte` and `store_byte` are accesses to one byte. -/

namespace ByteMemory

open ByteOrder

/-- **Byte-addressed memory.** -/
abbrev Memory : Type := ℕ → UInt8

/-- The bytes from an address on. -/
def bytesAt (m : Memory) (a n : ℕ) : List UInt8 := (List.range n).map fun i => m (a + i)

/-- Load a number of `n` bytes. -/
def load (m : Memory) (a n : ℕ) : ℕ := ofBytesLE (bytesAt m a n)

/-- Store a number of `n` bytes, as far as it fits. -/
def store (m : Memory) (a n v : ℕ) : Memory :=
  fun x => if a ≤ x then ((toBytesLE n v)[x - a]?).getD (m x) else m x

variable {m m' : Memory} {a b n k v x : ℕ}

/-! ## The bytes of an access -/

/-- One byte, and the bytes behind it. -/
theorem bytesAt_succ (m : Memory) (a n : ℕ) :
    bytesAt m a (n + 1) = m a :: bytesAt m (a + 1) n := by
  rw [bytesAt, List.range_succ_eq_map, List.map_cons, List.map_map, Nat.add_zero, bytesAt]
  refine congrArg _ (List.map_congr_left fun i _ => ?_)
  rw [Function.comp_apply, Nat.succ_eq_add_one, Nat.add_assoc, Nat.add_comm 1 i]

@[simp] theorem length_bytesAt (m : Memory) (a n : ℕ) : (bytesAt m a n).length = n := by
  rw [bytesAt, List.length_map, List.length_range]

/-- A load of no bytes. -/
@[simp] theorem load_zero (m : Memory) (a : ℕ) : load m a 0 = 0 := rfl

/-- A load, byte by byte. -/
theorem load_succ (m : Memory) (a n : ℕ) :
    load m a (n + 1) = (m a).toNat + 256 * load m (a + 1) n := by
  rw [load, bytesAt_succ, ofBytesLE_cons, load]

/-- A loaded number fits into its bytes. -/
theorem load_lt (m : Memory) (a n : ℕ) : load m a n < 256 ^ n := by
  have hlt := ofBytesLE_lt (bytesAt m a n)
  rwa [length_bytesAt] at hlt

/-- **What a load depends on.** -/
theorem load_congr (h : Set.EqOn m m' (Set.Ico a (a + n))) : load m a n = load m' a n := by
  rw [load, load, bytesAt, bytesAt]
  refine congrArg _ (List.map_congr_left fun i hi => h ⟨Nat.le_add_right a i, ?_⟩)
  exact Nat.add_lt_add_left (List.mem_range.mp hi) a

/-- Zeroed memory holds zeros. -/
@[simp] theorem load_zeroed (a n : ℕ) : load (fun _ => 0) a n = 0 := by
  induction n generalizing a with
  | zero => rfl
  | succ n ih => rw [load_succ, ih, UInt8.toNat_zero]

/-- **What a store leaves alone.** -/
theorem store_of_notMem (h : x ∉ Set.Ico a (a + n)) : store m a n v x = m x := by
  rw [store]
  split
  · rename_i hle
    have hge : n ≤ x - a := Nat.le_sub_of_add_le' (Nat.le_of_not_lt fun hlt => h ⟨hle, hlt⟩)
    rw [List.getElem?_eq_none (by rwa [length_toBytesLE]), Option.getD_none]
  · rfl

/-- The bytes that are stored. -/
theorem store_of_lt {i : ℕ} (hi : i < n) :
    store m a n v (a + i) = (toBytesLE n v).get ⟨i, by rwa [length_toBytesLE]⟩ := by
  rw [store, if_pos (Nat.le_add_right a i), Nat.add_sub_cancel_left,
    List.getElem?_eq_getElem (by rwa [length_toBytesLE]), Option.getD_some, List.get_eq_getElem]

/-- What is stored does not depend on what was there. -/
theorem store_congr (hx : x ∈ Set.Ico a (a + n)) : store m a n v x = store m' a n v x := by
  obtain ⟨hle, hlt⟩ := hx
  obtain ⟨i, rfl⟩ := Nat.exists_eq_add_of_le hle
  rw [store_of_lt (Nat.lt_of_add_lt_add_left hlt), store_of_lt (Nat.lt_of_add_lt_add_left hlt)]

/-! ## Loads after stores -/

/-- **A load reads what was stored at its address.** -/
theorem load_store_same (m : Memory) (a n v : ℕ) : load (store m a n v) a n = v % 256 ^ n := by
  have hbytes : bytesAt (store m a n v) a n = toBytesLE n v := by
    refine List.ext_getElem (by simp) fun i hi hi' => ?_
    rw [length_bytesAt] at hi
    simp only [bytesAt, List.getElem_map, List.getElem_range]
    exact store_of_lt hi
  rw [load, hbytes, ofBytesLE_toBytesLE]

/-- **A load does not see a store elsewhere.** -/
theorem load_store_disjoint (h : a + n ≤ b ∨ b + k ≤ a) :
    load (store m a n v) b k = load m b k := by
  refine load_congr fun x hx => store_of_notMem fun hx' => ?_
  obtain ⟨hle, hlt⟩ := hx
  obtain ⟨hle', hlt'⟩ := hx'
  omega

/-- A number that fits is read back. -/
theorem load_store_of_lt (h : v < 256 ^ n) : load (store m a n v) a n = v := by
  rw [load_store_same, Nat.mod_eq_of_lt h]

/-- **A part of a number lies at its own address.** -/
theorem load_div_mod {i : ℕ} (h : i + k ≤ n) (m : Memory) (a : ℕ) :
    load m a n / 256 ^ i % 256 ^ k = load m (a + i) k := by
  induction i generalizing a n with
  | zero =>
      rw [Nat.pow_zero, Nat.div_one, Nat.add_zero]
      induction k generalizing a n with
      | zero => rw [Nat.pow_zero, Nat.mod_one, load_zero]
      | succ k ih =>
          cases n with
          | zero => exact absurd h (by omega)
          | succ n =>
              have hbyte : (m a).toNat < 256 := (m a).toNat_lt
              have htail := ih (n := n) (by omega) (a + 1)
              have hhead : ((m a).toNat + 256 * load m (a + 1) n) / 256 = load m (a + 1) n := by
                omega
              have hlow : ((m a).toNat + 256 * load m (a + 1) n) % 256 = (m a).toNat := by omega
              rw [load_succ, load_succ, Nat.pow_succ', Nat.mod_mul, ← htail, hhead, hlow]
  | succ i ih =>
      cases n with
      | zero => exact absurd h (by omega)
      | succ n =>
          have hbyte : (m a).toNat < 256 := (m a).toNat_lt
          have hhead : load m a (n + 1) / 256 = load m (a + 1) n := by
            rw [load_succ]
            omega
          rw [Nat.pow_succ', ← Nat.div_div_eq_div_mul, hhead, ih (by omega), Nat.add_assoc,
            Nat.add_comm 1 i]

/-! ## Words and bytes -/

/-- A 32-bit word of memory. -/
def word (m : Memory) (a : ℕ) : UInt32 := UInt32.ofNat (load m a 4)

/-- A word that was stored. -/
@[simp] theorem word_store_same (m : Memory) (a : ℕ) (v : UInt32) :
    word (store m a 4 v.toNat) a = v := by
  rw [word, load_store_of_lt v.toNat_lt, UInt32.ofNat_toNat]

/-- A word that was stored elsewhere. -/
theorem word_store_disjoint {m : Memory} {a b n v : ℕ} (h : a + n ≤ b ∨ b + 4 ≤ a) :
    word (store m a n v) b = word m b := by rw [word, load_store_disjoint h, word]

/-- An atomic increment wraps around. -/
theorem word_store_add_one (m : Memory) (a : ℕ) :
    word (store m a 4 (load m a 4 + 1)) a = word m a + 1 := by
  rw [word, word, load_store_same, ← UInt32.toNat_inj, UInt32.toNat_add, UInt32.toNat_ofNat',
    UInt32.toNat_ofNat', UInt32.toNat_one]
  omega

/-- A word that equals a number is loaded as that number. -/
theorem word_eq_iff (m : Memory) (a : ℕ) (v : UInt32) : word m a = v ↔ load m a 4 = v.toNat := by
  have hlt : load m a 4 < 2 ^ 32 := load_lt m a 4
  rw [word, ← UInt32.toNat_inj, UInt32.toNat_ofNat', Nat.mod_eq_of_lt hlt]

/-- A byte is loaded as it is. -/
theorem load_byte (m : Memory) (a : ℕ) : load m a 1 = (m a).toNat := by
  rw [load_succ, load_zero, Nat.mul_zero, Nat.add_zero]

/-- A byte is stored as it is. -/
theorem store_byte (m : Memory) (a : ℕ) (b : UInt8) :
    store m a 1 b.toNat = Function.update m a b := by
  funext x
  by_cases hx : x = a
  · subst hx
    rw [Function.update_self, ← UInt8.toNat_inj, ← load_byte,
      load_store_of_lt (by rw [Nat.pow_one]; exact b.toNat_lt)]
  · rw [Function.update_of_ne hx]
    refine store_of_notMem fun hmem => hx ?_
    obtain ⟨hle, hlt⟩ := hmem
    omega

end ByteMemory
