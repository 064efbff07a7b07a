import TelemetrySubsystem.TicketPool.CompletedCalls
import TelemetrySubsystem.TicketPool.SkipAheadPass

/-! # A skip-ahead pass over completed calls

Where the `k`-th ticket goes to slot `k % capacity`, completed calls fill the pool like a flight
recorder, and a skip-ahead pass whose horizon hint is the number of calls delivers everything that
is still there.

* **`recent`** lists the tickets from `e` on that `W` calls have left in the pool.
* **`FilledBy.present_iff`**: these are the tickets the slots carry.
* **`FilledBy.skipAheadPass`**: these are the tickets the pass accepts. -/

namespace TelemetrySubsystem

open CyclicWindow WrapCounter

/-- The last `cap` of the first `W` tickets, from ticket `e` on. -/
def recent (cap e W : ℕ) : List ℕ := List.range' (max e (W - cap)) (W - max e (W - cap))

/-- A ticket overwritten before it was read is skipped. -/
theorem recent_of_lap {cap e W : ℕ} (h : e + cap < W) : recent cap e W = recent cap (e + 1) W := by
  rw [recent, recent, Nat.max_eq_right (by omega), Nat.max_eq_right (by omega)]

/-- A ticket still in the pool comes first. -/
theorem recent_cons {cap e W : ℕ} (hlt : e < W) (hlap : W ≤ e + cap) :
    recent cap e W = e :: recent cap (e + 1) W := by
  rw [recent, recent, Nat.max_eq_left (by omega), Nat.max_eq_left (by omega),
    show W - e = W - (e + 1) + 1 by omega, List.range'_succ]

/-- From the newest ticket on there is nothing. -/
theorem recent_of_le {cap e W : ℕ} (h : W ≤ e) : recent cap e W = [] := by
  rw [recent, Nat.max_eq_left (by omega), Nat.sub_eq_zero_of_le h]
  rfl

namespace TicketPool

variable {P F : Type} [DecidableEq F] [Fieldwise P F] {R : TicketPool P F}

/-- One past the last recent ticket is the number of calls. -/
theorem endTicket_recent {e W : ℕ} (hW : 1 ≤ W) (he : e ≤ W) :
    endTicket (recent R.capacity e W) e = W := by
  have hcap := R.capacity_pos
  rw [endTicket, recent, List.getLast?_range']
  split
  · simp only [Option.map_none, Option.getD_none]
    omega
  · simp only [Option.map_some, Option.getD_some]
    omega

section

variable {metrics : ℕ → P} {e W : ℕ} {lane : TicketLane P}

/-- **What the slot of a ticket holds** after `W` calls: nothing before the first lap has reached
it, and then the latest record that belongs there. -/
theorem FilledBy.slot_cases (h : FilledBy R metrics W lane)
    (hidx : ∀ k, k ≤ W → R.slotIdx (UInt32.ofNat k) = k % R.capacity) (he : e ≤ W) :
    (e = W ∧ W < R.capacity ∧ lane.slots (R.slotIdx (UInt32.ofNat e)) = R.zeroSlot) ∨
      ∃ k, k < W ∧ W ≤ k + R.capacity ∧ k % R.capacity = e % R.capacity ∧
        lane.slots (R.slotIdx (UInt32.ofNat e)) = stampedSlot metrics k := by
  have hcap := R.capacity_pos
  rcases h.slot (R.slotIdx (UInt32.ofNat e)) with ⟨hnone, hzero⟩ | ⟨k, hk, hslot⟩
  · -- no call has gone to the slot: ticket `e` is still to come, and so is the first lap there
    obtain rfl : e = W :=
      he.antisymm (Nat.le_of_not_lt fun hlt => hnone e hlt rfl)
    refine .inl ⟨rfl, ?_, hzero⟩
    by_contra hge
    refine hnone (e - R.capacity) (by omega) ?_
    rw [hidx _ (Nat.sub_le _ _), hidx e le_rfl, ← Nat.mod_eq_sub_mod (Nat.le_of_not_lt hge)]
  · have hlt := hk.lt
    have hsame : k % R.capacity = e % R.capacity := by
      rw [← hidx k hlt.le, hk.idx, hidx e he]
    refine .inr ⟨k, hlt, ?_, hsame, hslot⟩
    -- a lap later another call would have gone to the slot
    by_contra hlap
    refine hk.last (k + R.capacity) (by omega) (by omega) ?_
    rw [hidx _ (by omega), Nat.add_mod_right, hsame, hidx e he]

/-- **A recent record is in its slot.** -/
theorem FilledBy.slot_of_recent (h : FilledBy R metrics W lane)
    (hidx : ∀ k, k ≤ W → R.slotIdx (UInt32.ofNat k) = k % R.capacity) (hlt : e < W)
    (hlap : W ≤ e + R.capacity) :
    lane.slots (R.slotIdx (UInt32.ofNat e)) = stampedSlot metrics e := by
  obtain ⟨rfl, -⟩ | ⟨k, hk, hkW, hsame, hslot⟩ := h.slot_cases hidx hlt.le
  · exact absurd hlt (Nat.lt_irrefl _)
  · -- two tickets of one slot within a lap are the same
    rcases Nat.lt_trichotomy k e with hke | rfl | hek
    · exact absurd hsame (mod_ne_of_lt_lap hke (by omega))
    · exact hslot
    · exact absurd hsame.symm (mod_ne_of_lt_lap hek (by omega))

/-- **Which tickets the slots carry** after `W` calls: the last `capacity` of them. -/
theorem FilledBy.present_iff (h : FilledBy R metrics W lane) (hcap : R.capacity ≤ 2 ^ 31)
    (hidx : ∀ k, k ≤ W → R.slotIdx (UInt32.ofNat k) = k % R.capacity) (hW : 1 ≤ W) (he : e ≤ W)
    (hlag : W < e + 2 ^ 31) : R.Present lane e ↔ e < W ∧ W ≤ e + R.capacity := by
  refine ⟨fun hp => ?_, fun ⟨hlt, hlap⟩ => ?_⟩
  · rw [Present] at hp
    obtain ⟨rfl, hsmall, hslot⟩ | ⟨k, hk, hkW, -, hslot⟩ := h.slot_cases hidx he
    · -- an untouched slot carries ticket 0, and ticket 0 is not the next one
      have hzero : UInt32.ofNat 0 = UInt32.ofNat e := by rw [← hp, hslot]; rfl
      have := (ofNat_inj_of_near (by omega) (by omega)).mp hzero
      omega
    · rw [hslot] at hp
      obtain rfl := (ofNat_inj_of_near (by omega) (by omega)).mp hp
      exact ⟨hk, hkW⟩
  · rw [Present, h.slot_of_recent hidx hlt hlap]
    rfl

/-- **The tickets a pass finds** up to the newest one. -/
theorem FilledBy.presentTickets_eq (h : FilledBy R metrics W lane) (hcap : R.capacity ≤ 2 ^ 31)
    (hidx : ∀ k, k ≤ W → R.slotIdx (UInt32.ofNat k) = k % R.capacity) (hW : 1 ≤ W) (n : ℕ) :
    ∀ e, e + n = W + 1 → W < e + 2 ^ 31 →
      R.presentTickets lane e W = recent R.capacity e W := by
  induction n with
  | zero =>
      intro e he _
      rw [presentTickets_of_lt (by omega), recent_of_le (by omega)]
  | succ n ih =>
      intro e he hlag
      have hiff := h.present_iff hcap hidx hW (by omega) hlag
      have hrest := ih (e + 1) (by omega) (by omega)
      by_cases hp : R.Present lane e
      · obtain ⟨hlt, hlap⟩ := hiff.mp hp
        rw [presentTickets_of_present (by omega) hp, hrest, recent_cons hlt hlap]
      · rw [presentTickets_of_not_present (by omega) hp, hrest]
        rw [hiff, not_and, not_le] at hp
        -- a ticket that is not there has been overwritten, or is the one that comes next
        rcases Nat.lt_or_ge e W with hlt | hge
        · exact (recent_of_lap (hp hlt)).symm
        · rw [recent_of_le hge, recent_of_le (by omega)]

/-- The line a pass prints for a recent ticket. -/
def recordLine (metrics : ℕ → P) (t : ℕ) : Line P :=
  ⟨UInt32.ofNat t, metrics t, some ⟨UInt32.ofNat t, some t⟩⟩

/-- **A skip-ahead pass whose horizon hint is the number of calls** delivers every record from its
position on that is still in the pool, in order, and ends at the newest ticket. -/
theorem FilledBy.skipAheadPass (h : FilledBy R metrics W lane) (hcap : R.capacity ≤ 2 ^ 31)
    (hidx : ∀ k, k ≤ W → R.slotIdx (UInt32.ofNat k) = k % R.capacity)
    (hwr : lane.wrIdx = UInt32.ofNat W) (hW : 1 ≤ W) (he : e ≤ W) (hlag : W < e + 2 ^ 31) :
    ∃ lines, R.Pass .skipAhead (UInt32.ofNat e) lane { lane with rdIdx := UInt32.ofNat W } lines ∧
      acceptedLines lines = (recent R.capacity e W).map (recordLine metrics) ∧
      (R.processesFirst = false → acceptedLines lines = lines) := by
  obtain ⟨lines, hpass, hout, hall⟩ := TicketPool.skipAheadPass hwr hlag (by omega)
  rw [h.presentTickets_eq hcap hidx hW (W + 1 - e) e (by omega) hlag] at hpass hout
  rw [endTicket_recent hW he] at hpass
  refine ⟨lines, hpass, hout.trans (List.map_congr_left fun t ht => ?_), hall⟩
  rw [recent, List.mem_range'_1] at ht
  rw [lineOf, h.slot_of_recent hidx (by omega) (by omega)]
  rfl

end

end TicketPool

end TelemetrySubsystem
