import Mathlib.Data.UInt
import Mathlib.Tactic.Common

/-! # Wrapping 32-bit counters compared by signed distance

A counter that only ever grows is kept in a `UInt32` word, so the word holds the count modulo
`2^32`. Two such words are compared by the sign of their 32-bit difference, which is the order of
the counts themselves as long as these lie within `2^31` of each other.

* **`atOrPast a b`** is the C test `(int32_t)(a - b) >= 0`.
* `atOrPast_ofNat_iff` reads it back on the unbounded counts; `ofNat_inj_of_near` does the same for
  the equality test.
* **`distFrom e t`** is how far `t` lies ahead of `e`, and `span e h` how many words from `e` on
  pass the test against `h`.
* `next cap i` is the C index step `(i + 1) % cap`, and `next_toNat` its value below the wrap. -/

namespace WrapCounter

/-! ## The signed-distance test -/

/-- `(int32_t)(a - b) >= 0`. -/
def atOrPast (a b : UInt32) : Bool := decide (0 ≤ (a - b).toInt32.toInt)

/-- The signed test reads the top bit of the unsigned difference. -/
theorem atOrPast_iff (a b : UInt32) : atOrPast a b = true ↔ (a - b).toNat < 2 ^ 31 := by
  have hint : (a - b).toInt32.toInt = (a - b).toBitVec.toInt := rfl
  have hnat : (a - b).toBitVec.toNat = (a - b).toNat := rfl
  have hlt : (a - b).toNat < 2 ^ 32 := (a - b).toNat_lt
  rw [atOrPast, decide_eq_true_iff, hint, BitVec.toInt_eq_toNat_cond, hnat]
  split <;> omega

/-- Casting a count to its word keeps it modulo `2^32`. -/
theorem toNat_ofNat (n : ℕ) : (UInt32.ofNat n).toNat = n % 2 ^ 32 := by simp

/-- The word of the next count. -/
theorem ofNat_succ (n : ℕ) : UInt32.ofNat (n + 1) = UInt32.ofNat n + 1 := by
  rw [UInt32.ofNat_add]
  rfl

/-- The unsigned difference of two words is the distance of the counts, when that fits. -/
theorem toNat_ofNat_sub {A B : ℕ} (hle : B ≤ A) (hlt : A - B < 2 ^ 32) :
    (UInt32.ofNat A - UInt32.ofNat B).toNat = A - B := by
  rw [UInt32.toNat_sub, toNat_ofNat, toNat_ofNat]
  omega

/-- The unsigned difference of two words in the other order. -/
theorem toNat_ofNat_sub_of_lt {A B : ℕ} (hlt : A < B) (hnear : B - A ≤ 2 ^ 31) :
    (UInt32.ofNat A - UInt32.ofNat B).toNat = 2 ^ 32 - (B - A) := by
  rw [UInt32.toNat_sub, toNat_ofNat, toNat_ofNat]
  omega

/-- **The signed-distance test orders the counts**, as long as they lie within `2^31`. -/
theorem atOrPast_ofNat_iff {A B : ℕ} (hA : A < B + 2 ^ 31) (hB : B ≤ A + 2 ^ 31) :
    atOrPast (UInt32.ofNat A) (UInt32.ofNat B) = true ↔ B ≤ A := by
  rw [atOrPast_iff]
  rcases Nat.lt_or_ge A B with hlt | hle
  · rw [toNat_ofNat_sub_of_lt hlt (by omega)]
    omega
  · rw [toNat_ofNat_sub hle (by omega)]
    omega

/-- **The equality test separates the counts**, as long as they lie within `2^32`. -/
theorem ofNat_inj_of_near {A B : ℕ} (hA : A < B + 2 ^ 32) (hB : B < A + 2 ^ 32) :
    UInt32.ofNat A = UInt32.ofNat B ↔ A = B := by
  rw [← UInt32.toNat_inj, toNat_ofNat, toNat_ofNat]
  omega

/-- A word below the wrap is the count it was made from. -/
theorem toNat_ofNat_of_lt {n : ℕ} (h : n < 2 ^ 32) : (UInt32.ofNat n).toNat = n := by
  rw [toNat_ofNat, Nat.mod_eq_of_lt h]

/-- **Any two words stand for two counts within half of the wrap of each other.** -/
theorem exists_counts (a b : UInt32) : ∃ A B, UInt32.ofNat A = a ∧ UInt32.ofNat B = b ∧
    B < A + 2 ^ 31 ∧ A ≤ B + 2 ^ 31 := by
  have ha : a.toNat < 2 ^ 32 := a.toNat_lt
  have hb : b.toNat < 2 ^ 32 := b.toNat_lt
  have hword : ∀ {n : ℕ} {w : UInt32}, n % 2 ^ 32 = w.toNat → UInt32.ofNat n = w := by
    intro n w h
    rw [← UInt32.toNat_inj, toNat_ofNat, h]
  -- one lap further on, so that the other count may lie behind
  by_cases hahead : b.toNat < a.toNat + 2 ^ 31
  · by_cases hbehind : a.toNat ≤ b.toNat + 2 ^ 31
    · exact ⟨a.toNat, b.toNat, hword (by omega), hword (by omega), hahead, hbehind⟩
    · exact ⟨a.toNat, b.toNat + 2 ^ 32, hword (by omega), hword (by omega), by omega, by omega⟩
  · exact ⟨a.toNat + 2 ^ 32, b.toNat, hword (by omega), hword (by omega), by omega, by omega⟩

/-! ## Distance ahead of a word -/

/-- How far `t` lies ahead of `e`, going up from `e` and round the wrap. -/
def distFrom (e t : UInt32) : ℕ := (t - e).toNat

/-- The word at a distance lies at that distance. -/
theorem distFrom_add {n : ℕ} (e : UInt32) (h : n < 2 ^ 32) :
    distFrom e (e + UInt32.ofNat n) = n := by
  have he : e.toNat < 2 ^ 32 := e.toNat_lt
  rw [distFrom, UInt32.toNat_sub, UInt32.toNat_add, toNat_ofNat]
  omega

/-- Going up from `e` by the distance of `t` leads to `t`. -/
theorem add_distFrom (e t : UInt32) : e + UInt32.ofNat (distFrom e t) = t := by
  rw [distFrom, UInt32.ofNat_toNat, UInt32.add_comm, UInt32.sub_add_cancel]

/-- Going on by one more. -/
theorem add_ofNat_succ (e : UInt32) (n : ℕ) :
    e + UInt32.ofNat (n + 1) = e + UInt32.ofNat n + 1 := by
  rw [ofNat_succ, UInt32.add_assoc]

/-- **How many words the signed-distance test lets through** on the way up from `e` to `h`. -/
def span (e h : UInt32) : ℕ := if atOrPast h e then distFrom e h + 1 else 0

/-- The test lets at most half of all words through. -/
theorem span_le (e h : UInt32) : span e h ≤ 2 ^ 31 := by
  rw [span]
  split
  · rename_i hle
    exact (atOrPast_iff h e).mp hle
  · exact Nat.zero_le _

/-- **The signed-distance test on the way up**: one word after the other passes until the span is
used up. -/
theorem atOrPast_add_iff {e h : UInt32} {n : ℕ} (hn : n ≤ span e h) :
    atOrPast h (e + UInt32.ofNat n) = true ↔ n < span e h := by
  have hhalf := atOrPast_iff h e
  rw [span] at hn ⊢
  rw [atOrPast_iff]
  have he : e.toNat < 2 ^ 32 := e.toNat_lt
  have hh : h.toNat < 2 ^ 32 := h.toNat_lt
  rw [UInt32.toNat_sub] at hhalf
  rw [UInt32.toNat_sub, UInt32.toNat_add, toNat_ofNat]
  by_cases hle : atOrPast h e = true
  · rw [if_pos hle, distFrom, UInt32.toNat_sub] at hn ⊢
    have hlt := hhalf.mp hle
    omega
  · rw [if_neg hle] at hn ⊢
    have hge := mt hhalf.mpr hle
    omega

/-! ## The index step of a ring -/

/-- `(i + 1) % cap`, in 32-bit arithmetic. -/
def next (cap i : UInt32) : UInt32 := (i + 1) % cap

/-- The index step lands inside the ring, whatever index it starts from. -/
theorem next_lt {cap : UInt32} (hcap : 0 < cap.toNat) (i : UInt32) :
    (next cap i).toNat < cap.toNat := by
  rw [next, UInt32.toNat_mod]
  exact Nat.mod_lt _ hcap

/-- The index step on an index inside the ring. -/
theorem next_toNat {cap i : UInt32} (hi : i.toNat < cap.toNat) :
    (next cap i).toNat = (i.toNat + 1) % cap.toNat := by
  have hlt : cap.toNat < 2 ^ 32 := cap.toNat_lt
  rw [next, UInt32.toNat_mod, UInt32.toNat_add, UInt32.toNat_one,
    Nat.mod_eq_of_lt (by omega : i.toNat + 1 < 2 ^ 32)]

end WrapCounter
