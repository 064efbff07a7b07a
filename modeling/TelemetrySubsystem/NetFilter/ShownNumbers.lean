import TelemetrySubsystem.NetFilter.Snapshot
import TelemetrySubsystem.TicketPool.CompletedCalls

/-! # The numbers that the readers of the net ring show

The hook stores ports and length as it loads them from the packet, without a conversion.
`telemetry_net_read` converts them when it prints them; in `process_metric` of the net client the
conversions are commented out.

* **`wireNumbers`** are the numbers of the packet itself.
* **`readNumbers_metric`**: `telemetry_net_read` shows these.
* **`readersAgree_iff`**: the two readers agree on byte palindromes only. -/

namespace TelemetrySubsystem

open ActionSystem ByteOrder TicketPool

/-! ## Packet and readers -/

/-- **The numbers of the packet**: what its bytes, most significant first, stand for. -/
def wireNumbers (p : TcpPacket) : ShownNumbers where
  srcPort := ofBytesBE (leBytes16 p.tcpHdr.source)
  destPort := ofBytesBE (leBytes16 p.tcpHdr.dest)
  len := ofBytesBE (leBytes16 p.ipHdr.totLen)

/-- The numbers that `process_metric` shows. -/
def processMetric (m : NetPacketMetric) : ShownNumbers where
  srcPort := m.srcPort.toNat
  destPort := m.destPort.toNat
  len := m.pktLen.toNat

/-- **Both readers report the packet that was seen.** -/
structure ReadersAgree (p : TcpPacket) (slot : Slot NetPacketMetric) : Prop where
  read : readNumbers slot.payload = wireNumbers p
  process : processMetric slot.payload = wireNumbers p

/-- The word has the same bytes from either end. -/
def Palindromic (x : UInt16) : Prop := (leBytes16 x).reverse = leBytes16 x

instance : DecidablePred Palindromic := fun x =>
  inferInstanceAs (Decidable ((leBytes16 x).reverse = leBytes16 x))

/-! ## What they show -/

/-- **`telemetry_net_read` shows the numbers of the packet.** -/
theorem readNumbers_metric (p : TcpPacket) : readNumbers p.metric = wireNumbers p := by
  have hlen : p.ipHdr.totLen.toUInt32.toUInt16 = p.ipHdr.totLen := UInt16.toUInt16_toUInt32 _
  simp only [readNumbers, wireNumbers, TcpPacket.metric, ntohs_toNat, hlen]

/-- A word read without a conversion is the number on the wire for palindromes only. -/
theorem toNat_eq_ofBytesBE_iff (x : UInt16) : x.toNat = ofBytesBE (leBytes16 x) ↔ Palindromic x := by
  rw [← ofBytesLE_leBytes16, eq_comm, ofBytesBE_eq_ofBytesLE_iff, Palindromic]

/-- **`process_metric` shows the numbers of the packet** if they are byte palindromes. -/
theorem processMetric_metric_iff (p : TcpPacket) : processMetric p.metric = wireNumbers p ↔
    Palindromic p.tcpHdr.source ∧ Palindromic p.tcpHdr.dest ∧ Palindromic p.ipHdr.totLen := by
  have hlen : p.ipHdr.totLen.toUInt32.toNat = p.ipHdr.totLen.toNat := UInt16.toNat_toUInt32 _
  simp only [processMetric, wireNumbers, TcpPacket.metric, hlen, ShownNumbers.mk.injEq,
    toNat_eq_ofBytesBE_iff]

/-- The slot of a packet that the hook has recorded. -/
theorem commit_slot (me : ℕ) (m : NetPacketMetric) (lane : TicketLane NetPacketMetric) :
    ((netPool.commit me m lane).slots (netPool.slotIdx (netPool.counter lane))).payload = m := by
  simp only [commit, TicketLane.setSlot, Function.update_self]

/-- **When both readers report the packet**: the hook records every TCP packet, and the two readers
show its numbers for its slot if and only if both ports and the length are byte palindromes. -/
theorem readersAgree_iff (me : ℕ) (p : TcpPacket) (lane : TicketLane NetPacketMetric) :
    ∃ lane' t, Finishes (netPool.callStep me (hookMetric (some p.skb))) (lane, .entry)
        (lane', .done (some t)) ∧
      (ReadersAgree p (lane'.slots (netPool.slotIdx t)) ↔
        Palindromic p.tcpHdr.source ∧ Palindromic p.tcpHdr.dest ∧ Palindromic p.ipHdr.totLen) := by
  refine ⟨netPool.commit me p.metric lane, netPool.counter lane, ?_, ?_⟩
  · rw [hookMetric_tcp]
    exact finishes_commit me p.metric lane
  · rw [← processMetric_metric_iff]
    constructor
    · rintro ⟨-, hprocess⟩
      rwa [commit_slot] at hprocess
    · intro hprocess
      refine ⟨?_, ?_⟩ <;> rw [commit_slot]
      · exact readNumbers_metric p
      · exact hprocess

/-- A packet of 60 bytes from port 443 to port 50000, as a little-endian host loads its header. -/
def httpsPacket : TcpPacket where
  ipHdr := ⟨ipprotoTcp, 0x3c00, 0x0100000a, 0x0200000a⟩
  tcpHdr := ⟨0xbb01, 0x50c3⟩
  isTcp := rfl

/-- **Its ports and its length come out with their bytes swapped** in the net client. -/
theorem httpsPacket_disagree : wireNumbers httpsPacket = ⟨443, 50000, 60⟩ ∧
    ∃ lane' t, Finishes (netPool.callStep 0 (hookMetric (some httpsPacket.skb)))
        (netPool.zeroLane, .entry) (lane', .done (some t)) ∧
      processMetric (lane'.slots (netPool.slotIdx t)).payload = ⟨47873, 20675, 15360⟩ ∧
      ¬ ReadersAgree httpsPacket (lane'.slots (netPool.slotIdx t)) := by
  refine ⟨by decide, netPool.commit 0 httpsPacket.metric netPool.zeroLane,
    netPool.counter netPool.zeroLane, ?_, ?_, fun h => ?_⟩
  · rw [hookMetric_tcp]
    exact finishes_commit 0 httpsPacket.metric netPool.zeroLane
  · rw [commit_slot]
    decide
  · have hprocess := h.process
    rw [commit_slot] at hprocess
    exact absurd hprocess (by decide)

end TelemetrySubsystem
