import TelemetrySubsystem.NetFilter.Hook
import TelemetrySubsystem.TicketPool.CompletedCalls

/-! # The net flight recorder across the ticket wrap

The slot of a packet is its 32-bit ticket modulo 24, and 24 does not divide `2^32`: the last slot
before the wrap is slot 15, and the next packet goes to slot 0 again.

* **`HoldsLast`**: the slots hold exactly the last 24 packets, each with its ticket.
* **`holdsLast_iff`**: after `N` packets they do exactly when the last 24 tickets do not straddle a
  wrap.
* **`packet_lost_at_wrap`**: one packet after the first wrap they do not. -/

namespace TelemetrySubsystem

open ActionSystem TicketPool WrapCounter

/-- The hook calls on a sequence of TCP packets. -/
def hookCalls (packets : ℕ → TcpPacket) (n : ℕ) : Option NetPacketMetric :=
  hookMetric (some (packets n).skb)

/-- Their steps are steps of `packet_telemetry_hook`. -/
theorem callStep_hook (packets : ℕ → TcpPacket) (n : ℕ)
    (p : TicketLane NetPacketMetric × ProducerPc NetField) :
    netPool.callStep n (hookCalls packets n) p
      = packetTelemetryHook n (some (packets n).skb) p.1 p.2 := rfl

/-- They are the calls with the metrics of the packets. -/
theorem hookCalls_eq (packets : ℕ → TcpPacket) :
    hookCalls packets = fun n => some (packets n).metric := by
  funext n
  exact hookMetric_tcp _

/-- Slot `i` holds packet `n`, stamped with its ticket. -/
def HoldsPacket (packets : ℕ → TcpPacket) (lane : TicketLane NetPacketMetric) (i n : ℕ) : Prop :=
  (lane.slots i).payload = (packets n).metric ∧ (lane.slots i).slotTicket = UInt32.ofNat n

/-- Packet `n` is among the last 24 of `N` packets. -/
def Recent (N n : ℕ) : Prop := n < N ∧ N ≤ n + netfilterSlotCapacity

/-- **The flight recorder**: each of the last `min N 24` packets is in a slot, which carries its
ticket (so no two are in one slot), and no slot holds anything else, except that with fewer than 24
packets the other slots are untouched. -/
structure HoldsLast (packets : ℕ → TcpPacket) (N : ℕ) (lane : TicketLane NetPacketMetric) :
    Prop where
  held : ∀ n, Recent N n → ∃ i, i < netfilterSlotCapacity ∧ HoldsPacket packets lane i n
  only : ∀ i, i < netfilterSlotCapacity →
    (∃ n, Recent N n ∧ HoldsPacket packets lane i n) ∨
      (N < netfilterSlotCapacity ∧ lane.slots i = netPool.zeroSlot)

/-- **The last 24 tickets do not straddle a wrap of the counter.** -/
def WithinOneLap (N : ℕ) : Prop :=
  N < 2 ^ 32 ∨ N % 2 ^ 32 = 0 ∨ netfilterSlotCapacity ≤ N % 2 ^ 32

/-! ## Where tickets land -/

/-- The slot of the `n`-th ticket. -/
theorem netPool_slotIdx (n : ℕ) : netPool.slotIdx (UInt32.ofNat n) = n % 2 ^ 32 % 24 := by
  rw [slotIdx, toNat_ofNat, netPool_capacity]

/-- Recent tickets land in different slots, unless they straddle a wrap. -/
theorem slotIdx_ne_of_recent {N n n' : ℕ} (hlap : WithinOneLap N) (hn : Recent N n) (hlt : n < n')
    (hn' : n' < N) : netPool.slotIdx (UInt32.ofNat n') ≠ netPool.slotIdx (UInt32.ofNat n) := by
  have hcap : netfilterSlotCapacity = 24 := rfl
  obtain ⟨-, hnear⟩ := hn
  simp only [WithinOneLap, hcap] at hlap hnear
  -- both tickets lie between the same two wraps
  have hword : n' % 2 ^ 32 = n % 2 ^ 32 + (n' - n) := by omega
  rw [netPool_slotIdx, netPool_slotIdx, hword]
  omega

/-- Every slot has a recent ticket, unless they straddle a wrap. -/
theorem exists_recent {N i : ℕ} (hlap : WithinOneLap N) (hi : i < netfilterSlotCapacity)
    (hN : netfilterSlotCapacity ≤ N) : ∃ n, Recent N n ∧ netPool.slotIdx (UInt32.ofNat n) = i := by
  have hcap : netfilterSlotCapacity = 24 := rfl
  simp only [WithinOneLap, Recent, hcap] at *
  -- go on from the oldest recent ticket until the slot is `i`
  refine ⟨N - 24 + (i + 24 - (N - 24) % 2 ^ 32 % 24) % 24, ?_, ?_⟩
  · omega
  · rw [netPool_slotIdx]
    omega

/-- **Two recent tickets share a slot when they straddle a wrap**: the wrap goes from slot 15 back
to slot 0. -/
theorem exists_collision {N : ℕ} (hlap : ¬ WithinOneLap N) : ∃ n n', Recent N n ∧ n < n' ∧ n' < N ∧
    netPool.slotIdx (UInt32.ofNat n') = netPool.slotIdx (UInt32.ofNat n) := by
  have hcap : netfilterSlotCapacity = 24 := rfl
  simp only [WithinOneLap, hcap, not_or, not_lt, not_le] at hlap
  obtain ⟨hN, hr, hlt⟩ := hlap
  -- the ticket in slot `s` after the wrap, and the one 16 before it
  have hs : ∃ s, s < N % 2 ^ 32 ∧ s < 16 ∧ N % 2 ^ 32 ≤ s + 8 :=
    ⟨min (N % 2 ^ 32 - 1) 15, by omega, by omega, by omega⟩
  obtain ⟨s, hs, hs16, hnear⟩ := hs
  refine ⟨N - N % 2 ^ 32 - 16 + s, N - N % 2 ^ 32 + s, ⟨by omega, ?_⟩, by omega, by omega, ?_⟩
  · rw [hcap]
    omega
  · rw [netPool_slotIdx, netPool_slotIdx]
    omega

/-! ## The law -/

section

variable {packets : ℕ → TcpPacket} {N : ℕ} {lane : TicketLane NetPacketMetric}

/-- The slot of the last call that went to it holds that call's packet. -/
theorem holdsPacket_of_lastCall {i k : ℕ}
    (hslot : lane.slots i = stampedSlot (fun n => (packets n).metric) k) :
    HoldsPacket packets lane i k := by
  rw [HoldsPacket, hslot]
  exact ⟨rfl, rfl⟩

/-- When the last 24 tickets do not straddle a wrap, the slots hold the last 24 packets. -/
theorem holdsLast_of_withinOneLap (hlap : WithinOneLap N)
    (h : FilledBy netPool (fun n => (packets n).metric) N lane) : HoldsLast packets N lane where
  held := fun n hn => by
    refine ⟨netPool.slotIdx (UInt32.ofNat n), Nat.mod_lt _ netPool.capacity_pos, ?_⟩
    rcases h.slot (netPool.slotIdx (UInt32.ofNat n)) with ⟨hnone, -⟩ | ⟨k, hk, hslot⟩
    · exact absurd rfl (hnone n hn.1)
    · -- the last call to go to the slot of packet `n` is call `n`
      have hkn : k = n := by
        rcases Nat.lt_trichotomy k n with hlt | heq | hgt
        · exact absurd rfl (hk.last n hlt hn.1)
        · exact heq
        · exact absurd hk.idx (slotIdx_ne_of_recent hlap hn hgt hk.lt)
      subst hkn
      exact holdsPacket_of_lastCall hslot
  only := fun i hi => by
    rcases h.slot i with ⟨hnone, hzero⟩ | ⟨k, hk, hslot⟩
    · -- an untouched slot: with 24 packets or more, a recent one would have gone there
      refine .inr ⟨?_, hzero⟩
      by_contra hN
      obtain ⟨n, hn, hidx⟩ := exists_recent hlap hi (Nat.le_of_not_lt hN)
      exact hnone n hn.1 hidx
    · refine .inl ⟨k, ⟨hk.lt, ?_⟩, holdsPacket_of_lastCall hslot⟩
      -- were call `k` not recent, a recent one would have gone there after it
      by_contra hold
      obtain ⟨n, hn, hidx⟩ := exists_recent hlap hi (by omega)
      exact hk.last n (by have := hn.2; omega) hn.1 hidx

/-- **When the last 24 tickets straddle a wrap, a recent packet is lost**: a later one has gone to
its slot, and no other slot can carry its ticket. -/
theorem not_holdsLast_of_straddle (hlap : ¬ WithinOneLap N)
    (h : FilledBy netPool (fun n => (packets n).metric) N lane) : ¬ HoldsLast packets N lane := by
  intro hlast
  have hcap : netfilterSlotCapacity = 24 := rfl
  obtain ⟨n, n', hn, hlt, hn', hsame⟩ := exists_collision hlap
  obtain ⟨i, hi, -, hticket⟩ := hlast.held n hn
  have hN : 2 ^ 32 ≤ N := by
    by_contra hsmall
    exact hlap (.inl (Nat.lt_of_not_le hsmall))
  rcases h.slot i with ⟨hnone, -⟩ | ⟨k, hk, hslot⟩
  · -- past the first wrap every slot has been used
    refine hnone i (by omega) ?_
    rw [netPool_slotIdx]
    omega
  · -- the slot with the ticket of `n` is also the slot of `n'`, which came later
    rw [hslot] at hticket
    have hidx : netPool.slotIdx (UInt32.ofNat n') = i := by
      rw [hsame, ← hticket]
      exact hk.idx
    have hge : n' ≤ k := by
      by_contra hkn
      exact hk.last n' (Nat.lt_of_not_le hkn) hn' hidx
    have hnear := hn.2
    have hkN := hk.lt
    have heq : k = n := (ofNat_inj_of_near (by omega) (by omega)).mp hticket
    omega

end

/-- **When the net pool is a flight recorder**: after `N` completed hook calls on TCP packets the
slots hold exactly the last `min N 24` packets, if and only if the last 24 tickets do not straddle a
wrap of the 32-bit counter. -/
theorem holdsLast_iff (packets : ℕ → TcpPacket) (N : ℕ) (lane : TicketLane NetPacketMetric)
    (h : netPool.CompletedCalls (hookCalls packets) N lane) :
    HoldsLast packets N lane ↔ WithinOneLap N := by
  rw [hookCalls_eq] at h
  refine ⟨fun hlast => ?_, fun hlap => holdsLast_of_withinOneLap hlap h.filledBy⟩
  by_contra hlap
  exact not_holdsLast_of_straddle hlap h.filledBy hlast

/-- After 30 packets the slots hold the last 24. -/
theorem holdsLast_thirty : ∃ lane,
    netPool.CompletedCalls (hookCalls fun _ => samplePacket) 30 lane ∧
      (HoldsLast (fun _ => samplePacket) 30 lane ↔ WithinOneLap 30) := by
  obtain ⟨lane, h⟩ := exists_completedCalls (R := netPool) (fun _ => samplePacket.metric) 30
  rw [← hookCalls_eq fun _ => samplePacket] at h
  exact ⟨lane, h, holdsLast_iff _ 30 lane h⟩

/-- **A packet is lost at the wrap**: after `2^32 + 1` packets the newest one has overwritten the
packet 16 before it, and the oldest of the 24 slots is still there. -/
theorem packet_lost_at_wrap :
    ¬ ∀ packets N lane, netPool.CompletedCalls (hookCalls packets) N lane →
      HoldsLast packets N lane := by
  intro hall
  obtain ⟨lane, h⟩ :=
    exists_completedCalls (R := netPool) (fun _ => samplePacket.metric) (2 ^ 32 + 1)
  have hlap : ¬ WithinOneLap (2 ^ 32 + 1) := by
    have hcap : netfilterSlotCapacity = 24 := rfl
    simp only [WithinOneLap, hcap]
    omega
  rw [← hookCalls_eq fun _ => samplePacket] at h
  have hlast := hall (fun _ => samplePacket) _ lane h
  rw [hookCalls_eq] at h
  exact not_holdsLast_of_straddle hlap h.filledBy hlast

end TelemetrySubsystem
