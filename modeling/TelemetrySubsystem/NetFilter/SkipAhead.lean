import TelemetrySubsystem.NetFilter.FlightRecorder
import TelemetrySubsystem.TicketPool.RecentRecords

/-! # Skip-ahead mode of the net client

The skip-ahead engine of `zero_copy_consumer_thread` takes `net_ctl.tx.wr_idx` as the horizon up to
which it looks for tickets. The hooks put a slot number plus one there, which is the number of
completed tickets in the first lap only.

* **`DeliversRecent`**: a pass accepts everything from its position on that is still in the pool.
* **`deliversRecent_iff`**: it does in the first lap, and when there is nothing left to deliver.
* **`stops_short_at_lap`**: it stops short of the first record of the second lap. -/

namespace TelemetrySubsystem

open TicketPool WrapCounter

/-- **A complete skip-ahead pass** from position `e` after `N` packets: it accepts exactly the
tickets from `e` on among the last 24, each once and in order, and stores `N` into `rd_idx`. -/
def DeliversRecent (N e : ℕ) (lane : TicketLane NetPacketMetric) : Prop :=
  ∃ lane' lines, netPool.Pass .skipAhead (UInt32.ofNat e) lane lane' lines ∧
    acceptedTickets lines = (recent netfilterSlotCapacity e N).map UInt32.ofNat ∧
    lane'.rdIdx = UInt32.ofNat N

/-- The horizon that `N` hook calls leave behind. -/
def netHorizon (N : ℕ) : ℕ := (N - 1) % netfilterSlotCapacity + 1

section

variable {packets : ℕ → TcpPacket} {N e : ℕ} {lane : TicketLane NetPacketMetric}

/-- **The horizon after completed calls** is the slot number of the last one plus one. -/
theorem wrIdx_eq_netHorizon (hN : 1 ≤ N) (hlt : N < 2 ^ 31)
    (h : netPool.CompletedCalls (hookCalls packets) N lane) :
    lane.wrIdx = UInt32.ofNat (netHorizon N) := by
  rw [hookCalls_eq] at h
  obtain ⟨n, rfl⟩ : ∃ n, N = n + 1 := ⟨N - 1, by omega⟩
  rw [h.wrIdx rfl, slotWord, netPool_slotIdx, Nat.mod_eq_of_lt (by omega : n < 2 ^ 32),
    ← ofNat_succ]
  rfl

/-- Below the wrap of the counter, tickets go round the slots. -/
theorem netPool_slotIdx_of_lt (hlt : N < 2 ^ 31) (k : ℕ) (hk : k ≤ N) :
    netPool.slotIdx (UInt32.ofNat k) = k % netPool.capacity := by
  rw [netPool_slotIdx, Nat.mod_eq_of_lt (by omega : k < 2 ^ 32), netPool_capacity]

/-- **In the first lap a pass is complete**: the horizon is the number of packets. -/
theorem deliversRecent_of_first_lap (hN : 1 ≤ N) (hfirst : N ≤ netfilterSlotCapacity) (he : e ≤ N)
    (h : netPool.CompletedCalls (hookCalls packets) N lane) : DeliversRecent N e lane := by
  have hcap : netfilterSlotCapacity = 24 := rfl
  have hwr : lane.wrIdx = UInt32.ofNat N := by
    rw [wrIdx_eq_netHorizon hN (by omega) h, netHorizon, Nat.mod_eq_of_lt (by omega),
      Nat.sub_add_cancel hN]
  obtain ⟨lines, hpass, -⟩ := skipAheadPass (R := netPool) hwr (e := e) (by omega) (by omega)
  rw [hookCalls_eq] at h
  obtain ⟨htickets, hrd⟩ := acceptedTickets_skipAhead hpass hwr (by omega) (by omega)
  have hpresent := h.filledBy.presentTickets_eq (by decide) (netPool_slotIdx_of_lt (by omega)) hN
    (N + 1 - e) e (by omega) (by omega)
  refine ⟨_, lines, hpass, ?_, ?_⟩
  · rw [htickets, hpresent]
    rfl
  · rw [hrd, hpresent, endTicket_recent hN he]

/-- **With nothing left to deliver a pass is complete**: it starts at the newest ticket. -/
theorem deliversRecent_of_caught_up (hlap : netfilterSlotCapacity < N) (hlt : N < 2 ^ 31)
    (h : netPool.CompletedCalls (hookCalls packets) N lane) : DeliversRecent N N lane := by
  have hhint : netHorizon N ≤ netfilterSlotCapacity := Nat.mod_lt _ netPool.capacity_pos
  have hcap : netfilterSlotCapacity = 24 := rfl
  have hwr := wrIdx_eq_netHorizon (by omega) hlt h
  obtain ⟨lines, hpass, -⟩ := skipAheadPass (R := netPool) hwr (e := N) (by omega) (by omega)
  obtain ⟨htickets, hrd⟩ := acceptedTickets_skipAhead hpass hwr (by omega) (by omega)
  -- the horizon has fallen back below `N`, so the pass looks at nothing
  have hnone : netPool.presentTickets lane N (netHorizon N) = [] :=
    presentTickets_of_lt (by omega)
  refine ⟨_, lines, hpass, ?_, ?_⟩
  · rw [htickets, hnone, recent_of_le le_rfl]
  · rw [hrd, hnone]
    rfl

/-- **After the first lap a pass stops short**: the newest packet lies past the horizon. -/
theorem not_deliversRecent (hlap : netfilterSlotCapacity < N) (hlt : N < 2 ^ 31) (he : e < N)
    (h : netPool.CompletedCalls (hookCalls packets) N lane) : ¬ DeliversRecent N e lane := by
  rintro ⟨lane', lines, hpass, htickets, -⟩
  have hcap : netfilterSlotCapacity = 24 := rfl
  have hhint : netHorizon N = (N - 1) % 24 + 1 := rfl
  have hwr := wrIdx_eq_netHorizon (by omega) hlt h
  -- were the pass complete, it would accept the newest packet, which lies past the horizon
  have hmem : UInt32.ofNat (N - 1) ∈ acceptedTickets lines := by
    rw [htickets, recent]
    exact List.mem_map_of_mem (List.mem_range'_1.mpr (by omega))
  rw [(acceptedTickets_skipAhead hpass hwr (by omega) (by omega)).1] at hmem
  obtain ⟨t, ht, heq⟩ := List.mem_map.mp hmem
  have hle := (mem_presentTickets.mp ht).1.2
  have := (ofNat_inj_of_near (by omega) (by omega)).mp heq
  omega

end

/-- **When a skip-ahead pass is complete**: after `N` completed hook calls on TCP packets a pass
from position `e` accepts exactly what is still in the pool from `e` on and ends at `N`, if and only
if the ring has not gone round or there is nothing left to deliver. -/
theorem deliversRecent_iff (packets : ℕ → TcpPacket) (N e : ℕ) (lane : TicketLane NetPacketMetric)
    (hN : 1 ≤ N) (hlt : N < 2 ^ 31) (he : e ≤ N)
    (h : netPool.CompletedCalls (hookCalls packets) N lane) :
    DeliversRecent N e lane ↔ N ≤ netfilterSlotCapacity ∨ e = N := by
  rcases Nat.lt_or_ge netfilterSlotCapacity N with hlap | hfirst
  · constructor
    · intro hall
      by_contra hnot
      exact not_deliversRecent hlap hlt (by omega) h hall
    · rintro (hfirst | rfl)
      · omega
      · exact deliversRecent_of_caught_up hlap hlt h
  · exact ⟨fun _ => .inl hfirst, fun _ => deliversRecent_of_first_lap hN hfirst he h⟩

/-- After three packets a pass from ticket 1 is complete. -/
theorem deliversRecent_three : ∃ lane,
    netPool.CompletedCalls (hookCalls fun _ => samplePacket) 3 lane ∧ DeliversRecent 3 1 lane := by
  obtain ⟨lane, h⟩ := exists_completedCalls (R := netPool) (fun _ => samplePacket.metric) 3
  rw [← hookCalls_eq fun _ => samplePacket] at h
  have hiff := deliversRecent_iff _ 3 1 lane (by decide) (by decide) (by decide) h
  exact ⟨lane, h, hiff.mpr (.inl (by decide))⟩

/-- **A pass stops short after the first lap**: packet 24 goes to slot 0, the horizon falls back to
1, and a consumer that expects ticket 24 accepts nothing. -/
theorem stops_short_at_lap :
    ¬ ∀ packets N e lane, 1 ≤ N → N < 2 ^ 31 → e ≤ N →
      netPool.CompletedCalls (hookCalls packets) N lane → DeliversRecent N e lane := by
  intro hall
  obtain ⟨lane, h⟩ := exists_completedCalls (R := netPool) (fun _ => samplePacket.metric) 25
  rw [← hookCalls_eq fun _ => samplePacket] at h
  exact not_deliversRecent (by decide) (by decide) (by decide) h
    (hall _ 25 24 lane (by decide) (by decide) (by decide) h)

end TelemetrySubsystem
