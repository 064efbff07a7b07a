import Mathlib.Data.List.GetD
import Mathlib.Order.CompletePartialOrder
import Mathlib.Order.Interval.Set.Defs
import Mathlib.Order.Interval.Set.Disjoint
import Mathlib.Tactic.Common

/-! # How C lays out structs

The members of a struct follow each other in declaration order, each at the next address that its
alignment allows; the size is rounded up to the strictest alignment among them.

* **`Layout`** is the size and the alignment of a type; **`array`**, **`struct`** and **`packed`**
  build layouts, and **`Layout.aligned`** raises an alignment.
* **`offsets`** are the offsets of the members, and **`memberSpan`** the bytes of a member.
* **`disjoint_memberSpan`**: the bytes of different members are disjoint. -/

namespace StructLayout

/-- **Size and alignment of a type.** -/
structure Layout where
  size : ℕ
  align : ℕ
  deriving DecidableEq, Repr

/-- The next multiple of `a` from `n` on. -/
def alignUp (n a : ℕ) : ℕ := (n + a - 1) / a * a

/-- An array of `n` elements. -/
def array (l : Layout) (n : ℕ) : Layout := ⟨l.size * n, l.align⟩

/-- `__attribute__((aligned(a)))`. -/
def Layout.aligned (l : Layout) (a : ℕ) : Layout := ⟨l.size, max l.align a⟩

/-- The offsets of members that are placed from `start` on. -/
def offsetsFrom (start : ℕ) : List Layout → List ℕ
  | [] => []
  | l :: ls => alignUp start l.align :: offsetsFrom (alignUp start l.align + l.size) ls

/-- Where the last of them ends. -/
def endFrom (start : ℕ) : List Layout → ℕ
  | [] => start
  | l :: ls => endFrom (alignUp start l.align + l.size) ls

/-- **The offsets of the members of a struct.** -/
def offsets (members : List Layout) : List ℕ := offsetsFrom 0 members

/-- The strictest alignment. -/
def maxAlign (members : List Layout) : ℕ := (members.map Layout.align).foldr max 1

/-- **A struct.** -/
def struct (members : List Layout) : Layout :=
  ⟨alignUp (endFrom 0 members) (maxAlign members), maxAlign members⟩

/-- `__attribute__((packed))`: no member is aligned. -/
def packedMembers (members : List Layout) : List Layout := members.map fun l => ⟨l.size, 1⟩

/-- The offset of member number `i`. -/
def offsetOf (members : List Layout) (i : ℕ) : ℕ := (offsets members).getD i 0

/-- The size of member number `i`. -/
def sizeOf (members : List Layout) (i : ℕ) : ℕ := (members[i]?.map Layout.size).getD 0

/-- **The bytes of member number `i`**, in a struct that starts at address 0. -/
def memberSpan (members : List Layout) (i : ℕ) : Set ℕ :=
  Set.Ico (offsetOf members i) (offsetOf members i + sizeOf members i)

variable {members : List Layout} {start a i j : ℕ}

/-! ## Alignment -/

/-- Rounding up does not go down. -/
theorem le_alignUp (ha : 0 < a) (n : ℕ) : n ≤ alignUp n a := by
  have hdiv := Nat.div_add_mod (n + a - 1) a
  have hlt := Nat.mod_lt (n + a - 1) ha
  rw [alignUp, Nat.mul_comm]
  omega

/-! ## Members in a row -/

/-- **Every alignment is one that C allows.** -/
def Aligned (members : List Layout) : Prop := ∀ l ∈ members, 0 < l.align

theorem length_offsetsFrom (start : ℕ) (members : List Layout) :
    (offsetsFrom start members).length = members.length := by
  induction members generalizing start with
  | nil => rfl
  | cons l ls ih => rw [offsetsFrom, List.length_cons, List.length_cons, ih]

/-- The members are placed where they are told to start, or behind. -/
theorem start_le_of_mem (hal : Aligned members) {o : ℕ} (h : o ∈ offsetsFrom start members) :
    start ≤ o := by
  induction members generalizing start with
  | nil => cases h
  | cons l ls ih =>
      have hle : start ≤ alignUp start l.align := le_alignUp (hal l List.mem_cons_self) start
      rw [offsetsFrom, List.mem_cons] at h
      rcases h with rfl | h
      · exact hle
      · have hrest := ih (fun m hm => hal m (List.mem_cons_of_mem l hm)) h
        omega

/-- **A member ends where the next one starts, or before.** -/
theorem offsetsFrom_ends_before (hal : Aligned members) (hij : i < j) (hj : j < members.length) :
    (offsetsFrom start members).getD i 0 + sizeOf members i
      ≤ (offsetsFrom start members).getD j 0 := by
  induction members generalizing start i j with
  | nil => cases hj
  | cons l ls ih =>
      have hal' : Aligned ls := fun m hm => hal m (List.mem_cons_of_mem l hm)
      obtain ⟨j, rfl⟩ := Nat.exists_eq_add_one_of_ne_zero (Nat.ne_zero_of_lt hij)
      have hj' : j < ls.length := Nat.lt_of_succ_lt_succ hj
      cases i with
      | zero =>
          have hmem : (offsetsFrom (alignUp start l.align + l.size) ls).getD j 0
              ∈ offsetsFrom (alignUp start l.align + l.size) ls := by
            rw [List.getD_eq_getElem _ _ (by rwa [length_offsetsFrom])]
            exact List.getElem_mem _
          exact start_le_of_mem hal' hmem
      | succ i => exact ih hal' (Nat.lt_of_succ_lt_succ hij) hj'

/-! ## Members of a struct -/

/-- **Different members share no byte.** -/
theorem disjoint_memberSpan (hal : Aligned members) (hij : i ≠ j) (hi : i < members.length)
    (hj : j < members.length) : Disjoint (memberSpan members i) (memberSpan members j) := by
  wlog hlt : i < j generalizing i j
  · exact (this hij.symm hj hi (by omega)).symm
  have hends : offsetOf members i + sizeOf members i ≤ offsetOf members j :=
    offsetsFrom_ends_before hal hlt hj
  rw [Set.disjoint_left]
  rintro x ⟨-, hx⟩ ⟨hx', -⟩
  omega

end StructLayout
