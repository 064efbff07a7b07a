import Mathlib.Data.Nat.ModEq
import Mathlib.Data.List.Basic
import Mathlib.Logic.Function.Basic
import Mathlib.Tactic.Common

/-! # The unread window of a ring with one empty slot

A ring of `cap` cells is addressed by a read index and a write index. Cells are filled at the write
index, emptied at the read index, and the ring counts as full one cell early, so that equal indices
always mean an empty ring.

* **`window cap cells rd wr`** lists the cells from `rd` cyclically up to `wr`.
* **`Tracks cap cells rd wr log taken`** ties such a ring to the unbounded sequence `log` of
  everything appended and the number `taken` of elements removed: the indices are the two counts
  modulo `cap`, and the cells in between hold the elements not yet removed.
* `Tracks.append`, `Tracks.remove`, `Tracks.store` say what keeps the tie; `Tracks.window_eq` reads
  the window off it, and `Tracks.empty_iff`, `Tracks.full_iff` the two index tests. -/

namespace CyclicWindow

variable {α : Type*}

/-- The cells from `rd` cyclically up to (not including) `wr`. -/
def window (cap : ℕ) (cells : ℕ → α) (rd wr : ℕ) : List α :=
  (List.range ((wr + cap - rd) % cap)).map fun k => cells ((rd + k) % cap)

/-- The window is as long as the cyclic distance of the indices. -/
theorem length_window (cap : ℕ) (cells : ℕ → α) (rd wr : ℕ) :
    (window cap cells rd wr).length = (wr + cap - rd) % cap := by
  rw [window, List.length_map, List.length_range]

/-- **The ring tracks its history**: `log` is everything appended so far, the first `taken` elements
of it have been removed, and at most `cap - 1` are left in the ring. -/
structure Tracks (cap : ℕ) (cells : ℕ → α) (rd wr : ℕ) (log : List α) (taken : ℕ) : Prop where
  /-- Nothing is removed before it is appended. -/
  taken_le : taken ≤ log.length
  /-- One cell stays empty. -/
  room : log.length < taken + cap
  /-- The read index is the number of removals, modulo the capacity. -/
  rd_eq : rd = taken % cap
  /-- The write index is the number of appends, modulo the capacity. -/
  wr_eq : wr = log.length % cap
  /-- The cells of the window hold the elements not yet removed. -/
  cell : ∀ k, taken ≤ k → k < log.length → log[k]? = some (cells (k % cap))

/-- Positions less than one lap apart occupy different cells. -/
theorem mod_ne_of_lt_lap {cap j k : ℕ} (hjk : j < k) (hlap : k < j + cap) : j % cap ≠ k % cap := by
  intro h
  have hdvd : cap ∣ k - j := (Nat.modEq_iff_dvd' hjk.le).mp h
  have hle : cap ≤ k - j := Nat.le_of_dvd (by omega) hdvd
  omega

namespace Tracks

variable {cap rd wr taken : ℕ} {cells : ℕ → α} {log : List α}

/-- An empty ring with both indices at the start. -/
theorem init (hcap : 0 < cap) (cells : ℕ → α) : Tracks cap cells 0 0 [] 0 where
  taken_le := le_rfl
  room := by simpa using hcap
  rd_eq := (Nat.zero_mod cap).symm
  wr_eq := (Nat.zero_mod cap).symm
  cell := fun k _ hk => absurd hk (Nat.not_lt_zero k)

/-- **A ring found with any two indices inside it** tracks some history: put the cells below the
read index in front of the window, and count them as removed. -/
theorem of_lt (cells : ℕ → α) (hrd : rd < cap) (hwr : wr < cap) :
    Tracks cap cells rd wr ((List.range rd).map cells ++ window cap cells rd wr) rd where
  taken_le := by simp
  room := by
    simp only [List.length_append, List.length_map, List.length_range, length_window]
    have := Nat.mod_lt (wr + cap - rd) (Nat.zero_lt_of_lt hrd)
    omega
  rd_eq := (Nat.mod_eq_of_lt hrd).symm
  wr_eq := by
    simp only [List.length_append, List.length_map, List.length_range, length_window]
    rw [Nat.add_mod_mod, show rd + (wr + cap - rd) = wr + cap by omega, Nat.add_mod_right,
      Nat.mod_eq_of_lt hwr]
  cell := fun k hk hlt => by
    simp only [List.length_append, List.length_map, List.length_range, length_window] at hlt
    have hlen : ((List.range rd).map cells).length = rd := by simp
    rw [List.getElem?_append_right (by rw [hlen]; exact hk), hlen, window, List.getElem?_map,
      List.getElem?_range (by omega), Option.map_some, show rd + (k - rd) = k by omega]

/-- The capacity of a tracked ring is positive. -/
theorem cap_pos (h : Tracks cap cells rd wr log taken) : 0 < cap := by
  have := h.taken_le
  have := h.room
  omega

/-- The read index is inside the ring. -/
theorem rd_lt (h : Tracks cap cells rd wr log taken) : rd < cap := by
  rw [h.rd_eq]
  exact Nat.mod_lt _ h.cap_pos

/-- The write index is inside the ring. -/
theorem wr_lt (h : Tracks cap cells rd wr log taken) : wr < cap := by
  rw [h.wr_eq]
  exact Nat.mod_lt _ h.cap_pos

/-- **Equal indices mean an empty ring.** -/
theorem empty_iff (h : Tracks cap cells rd wr log taken) : rd = wr ↔ taken = log.length := by
  rw [h.rd_eq, h.wr_eq]
  constructor
  · intro heq
    by_contra hne
    exact mod_ne_of_lt_lap (lt_of_le_of_ne h.taken_le hne) h.room heq
  · rintro rfl
    rfl

/-- **The full test**: the next write index meets the read index exactly when only the one empty
cell is left. -/
theorem full_iff (h : Tracks cap cells rd wr log taken) :
    (wr + 1) % cap = rd ↔ log.length + 1 = taken + cap := by
  rw [h.rd_eq, h.wr_eq, Nat.mod_add_mod]
  have hle := h.taken_le
  have hroom := h.room
  constructor
  · intro heq
    by_contra hne
    exact mod_ne_of_lt_lap (by omega : taken < log.length + 1) (by omega) heq.symm
  · intro heq
    rw [heq, Nat.add_mod_right]

/-- A store at the write index leaves the window alone. -/
theorem store (h : Tracks cap cells rd wr log taken) (x : α) :
    Tracks cap (Function.update cells wr x) rd wr log taken where
  taken_le := h.taken_le
  room := h.room
  rd_eq := h.rd_eq
  wr_eq := h.wr_eq
  cell := fun k hk hlt => by
    have hne : k % cap ≠ wr := by
      rw [h.wr_eq]
      exact mod_ne_of_lt_lap hlt (by have := h.room; omega)
    rw [Function.update_of_ne hne]
    exact h.cell k hk hlt

/-- **Append**: when the ring is not full, advancing the write index adds the element its cell
holds. -/
theorem append (h : Tracks cap cells rd wr log taken) (hfree : (wr + 1) % cap ≠ rd) :
    Tracks cap cells rd ((wr + 1) % cap) (log ++ [cells wr]) taken where
  taken_le := by
    rw [List.length_append, List.length_singleton]
    exact h.taken_le.trans (Nat.le_succ _)
  room := by
    have hne : log.length + 1 ≠ taken + cap := fun heq => hfree (h.full_iff.mpr heq)
    have := h.room
    rw [List.length_append, List.length_singleton]
    omega
  rd_eq := h.rd_eq
  wr_eq := by rw [h.wr_eq, List.length_append, List.length_singleton, Nat.mod_add_mod]
  cell := fun k hk hlt => by
    rw [List.length_append, List.length_singleton] at hlt
    rcases Nat.lt_succ_iff_lt_or_eq.mp hlt with hlt' | rfl
    · rw [List.getElem?_append_left hlt']
      exact h.cell k hk hlt'
    · -- the new element is what a store has put at the write index beforehand
      rw [List.getElem?_append_right le_rfl, Nat.sub_self, h.wr_eq]
      rfl

/-- **Remove**: when the ring is not empty, advancing the read index removes the oldest element. -/
theorem remove (h : Tracks cap cells rd wr log taken) (hne : rd ≠ wr) :
    Tracks cap cells ((rd + 1) % cap) wr log (taken + 1) where
  taken_le := by
    have hlt : taken ≠ log.length := fun heq => hne (h.empty_iff.mpr heq)
    have := h.taken_le
    omega
  room := by
    have := h.room
    omega
  rd_eq := by rw [h.rd_eq, Nat.mod_add_mod]
  wr_eq := h.wr_eq
  cell := fun k hk hlt => h.cell k (Nat.le_of_succ_le hk) hlt

/-- Any later point of the history may take the place of the read index. -/
theorem skip (h : Tracks cap cells rd wr log taken) {t : ℕ} (hle : taken ≤ t)
    (ht : t ≤ log.length) : Tracks cap cells (t % cap) wr log t where
  taken_le := ht
  room := h.room.trans_le (Nat.add_le_add_right hle cap)
  rd_eq := rfl
  wr_eq := h.wr_eq
  cell := fun k hk hlt => h.cell k (hle.trans hk) hlt

/-- The cell at the read index is the oldest element not yet removed. -/
theorem head_eq (h : Tracks cap cells rd wr log taken) (hne : rd ≠ wr) :
    log[taken]? = some (cells rd) := by
  have hlt : taken < log.length :=
    lt_of_le_of_ne h.taken_le fun heq => hne (h.empty_iff.mpr heq)
  rw [h.rd_eq]
  exact h.cell taken le_rfl hlt

/-- The distance of the two indices is the number of elements not yet removed. -/
theorem length_eq (h : Tracks cap cells rd wr log taken) :
    (wr + cap - rd) % cap = log.length - taken := by
  have hcap := h.cap_pos
  obtain ⟨d, hd⟩ := Nat.exists_eq_add_of_le h.taken_le
  have hlt : d < cap := by have := h.room; omega
  have hrd : taken % cap < cap := Nat.mod_lt _ hcap
  have hwr : wr = (taken % cap + d) % cap := by rw [h.wr_eq, hd, Nat.mod_add_mod]
  rw [h.rd_eq, hd, Nat.add_sub_cancel_left, hwr]
  -- either the write index is still ahead of the read index, or it has wrapped around below it
  rcases Nat.lt_or_ge (taken % cap + d) cap with hsmall | hlarge
  · rw [Nat.mod_eq_of_lt hsmall, show taken % cap + d + cap - taken % cap = d + cap by omega,
      Nat.add_mod_right, Nat.mod_eq_of_lt hlt]
  · rw [Nat.mod_eq_sub_mod hlarge, Nat.mod_eq_of_lt (by omega : taken % cap + d - cap < cap),
      show taken % cap + d - cap + cap - taken % cap = d by omega, Nat.mod_eq_of_lt hlt]

/-- **The window is the rest of the history**: exactly what was appended and not yet removed, in
append order. -/
theorem window_eq (h : Tracks cap cells rd wr log taken) :
    window cap cells rd wr = log.drop taken := by
  apply List.ext_getElem?
  intro k
  rw [window, h.length_eq, List.getElem?_map, List.getElem?_drop]
  rcases Nat.lt_or_ge k (log.length - taken) with hlt | hge
  · rw [List.getElem?_range hlt, Option.map_some, h.rd_eq, Nat.mod_add_mod]
    exact (h.cell (taken + k) (Nat.le_add_right _ _) (by omega)).symm
  · rw [List.getElem?_eq_none (by rw [List.length_range]; exact hge), Option.map_none,
      List.getElem?_eq_none (by omega)]

end Tracks

end CyclicWindow
