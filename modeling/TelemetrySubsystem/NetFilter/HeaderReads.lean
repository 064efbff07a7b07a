import TelemetrySubsystem.NetFilter.Hook
import TelemetrySubsystem.SharedPage.HostOrder

/-! # What the hook reads through `tcp_hdr`

A packet as it lies in a socket buffer: the front of it in the linear area, the rest in page
fragments. `tcp_hdr` only adds up offsets, so the pointer it returns is never null, and nothing in
`packet_telemetry_hook` asks how long the linear area is or whether the packet is a later fragment.

* **`Ipv4Buffer`** is the buffer, with what the kernel promises of it as fields.
* **`Ipv4Buffer.hookLoads`** is the extraction of the metric from memory, byte by byte;
  `hookLoads_fst` shows that it is the `hookMetric` of the buffer.
* **`Ipv4Buffer.tcpPorts`** are the ports of the TCP header that the packet carries, if any.
* **`readsOnlyHeader_iff`**: when the hook stays inside that header. -/

namespace TelemetrySubsystem

open ByteOrder

/-! ## The buffer -/

/-- The header length field of an IPv4 header, in 32-bit words. -/
def ihl (header : List UInt8) : ℕ := (header.headD 0 &&& 0x0f).toNat

/-- **An IPv4 packet in a socket buffer**, from its network header on. The linear area contains the
IPv4 header; whether it contains more is open. -/
structure Ipv4Buffer where
  linear : List UInt8
  /-- The bytes of the packet in page fragments. -/
  paged : List UInt8
  /-- What memory holds behind the linear area, by offset from the network header. -/
  behind : ℕ → UInt8
  five_le_ihl : 5 ≤ ihl linear
  header_linear : ihl linear * 4 ≤ linear.length

namespace Ipv4Buffer

variable (b : Ipv4Buffer)

/-- The bytes of the packet. -/
def packet : List UInt8 := b.linear ++ b.paged

/-- The byte that a load at an offset from the network header returns. -/
def byte (i : ℕ) : UInt8 := b.linear[i]?.getD (b.behind i)

/-- A 16-bit load. -/
def word16 (i : ℕ) : UInt16 := load16 (b.byte i) (b.byte (i + 1))

/-- A 32-bit load. -/
def word32 (i : ℕ) : UInt32 :=
  load32 (b.byte i) (b.byte (i + 1)) (b.byte (i + 2)) (b.byte (i + 3))

/-- What `ip_hdr` points to. -/
def ipHdr : IpHdr where
  protocol := b.byte 9
  totLen := b.word16 2
  saddr := b.word32 12
  daddr := b.word32 16

/-- The fragment offset, the low 13 bits of `frag_off`. -/
def fragmentOffset : ℕ := ofBytesBE [b.byte 6, b.byte 7] % 2 ^ 13

/-- The transport header offset. -/
def transportOffset : ℕ := ihl b.linear * 4

/-- What `tcp_hdr` points to, whatever that is. -/
def tcpHdr : TcpHdr where
  source := b.word16 b.transportOffset
  dest := b.word16 (b.transportOffset + 2)

/-- The buffer as the hook sees it: neither pointer is null. -/
def skBuff : SkBuff := ⟨some b.ipHdr, some b.tcpHdr⟩

/-- **The ports of the packet's TCP header**, as bytes on the wire: a later fragment has no TCP
header, and a short packet may end before the ports. -/
def tcpPorts : Option (List UInt8 × List UInt8) :=
  if b.fragmentOffset ≠ 0 then none
  else
    match b.packet.drop b.transportOffset with
    | s₀ :: s₁ :: d₀ :: d₁ :: _ => some ([s₀, s₁], [d₀, d₁])
    | _ => none

/-! ## The loads of the hook -/

/-- Load a 16-bit field of what `tcp_hdr` points to, and note the bytes it was read from. -/
def tcpField (offset : ℕ) : StateM (List ℕ) UInt16 := do
  let i := b.transportOffset + offset
  modify (· ++ [i, i + 1])
  return b.word16 i

/-- **The extraction of the metric in `packet_telemetry_hook`**, with the offsets of all bytes read
through `tcp_hdr`. Both ports are read twice, for the slot and for a log line that is commented
out. -/
def hookLoads : StateM (List ℕ) (Option NetPacketMetric) :=
  if b.ipHdr.protocol ≠ ipprotoTcp then return none
  else do
    let _ ← b.tcpField 0
    let _ ← b.tcpField 2
    let srcPort ← b.tcpField 0
    let destPort ← b.tcpField 2
    return some {
      srcIp := b.ipHdr.saddr
      destIp := b.ipHdr.daddr
      srcPort := srcPort
      destPort := destPort
      pktLen := b.ipHdr.totLen.toUInt32 }

/-- The offsets of the bytes read through `tcp_hdr`. -/
def tcpReads : List ℕ := (b.hookLoads.run []).2

/-- **The hook reads only a TCP header that is there**: where it records, all it reads through
`tcp_hdr` lies in the linear area, and what it records are the ports of the packet's TCP header. -/
def ReadsOnlyHeader : Prop :=
  ∀ m, hookMetric (some b.skBuff) = some m →
    (∀ i ∈ b.tcpReads, i < b.linear.length) ∧
      b.tcpPorts = some (leBytes16 m.srcPort, leBytes16 m.destPort)

variable {b}

/-- **The loads yield the metric that the hook records.** -/
theorem hookLoads_fst : (b.hookLoads.run []).1 = hookMetric (some b.skBuff) := by
  by_cases htcp : b.ipHdr.protocol = ipprotoTcp
  · simp only [hookLoads, hookMetric, skBuff, htcp, ne_eq, not_true_eq_false, if_false]
    rfl
  · simp only [hookLoads, hookMetric, skBuff, htcp, ne_eq, not_false_eq_true, if_true]
    rfl

/-- The metric of a TCP packet, whatever lies behind its IPv4 header. -/
theorem hookMetric_skBuff (htcp : b.ipHdr.protocol = ipprotoTcp) :
    hookMetric (some b.skBuff)
      = some ⟨b.ipHdr.saddr, b.ipHdr.daddr, b.tcpHdr.source, b.tcpHdr.dest,
        b.ipHdr.totLen.toUInt32⟩ :=
  hookMetric_tcp ⟨b.ipHdr, b.tcpHdr, htcp⟩

/-- The bytes read for a TCP packet are the first four behind the IPv4 header. -/
theorem mem_tcpReads (htcp : b.ipHdr.protocol = ipprotoTcp) {i : ℕ} :
    i ∈ b.tcpReads ↔ b.transportOffset ≤ i ∧ i < b.transportOffset + 4 := by
  have hreads : b.tcpReads = [b.transportOffset, b.transportOffset + 1, b.transportOffset + 2,
      b.transportOffset + 2 + 1, b.transportOffset, b.transportOffset + 1, b.transportOffset + 2,
      b.transportOffset + 2 + 1] := by
    simp only [tcpReads, hookLoads, htcp, ne_eq, not_true_eq_false, if_false]
    rfl
  simp only [hreads, List.mem_cons, List.not_mem_nil, or_false]
  omega

/-! ## When there is a header to read -/

/-- A load inside the linear area reads the packet. -/
theorem byte_of_lt {i : ℕ} (hi : i < b.linear.length) : b.byte i = b.linear[i] := by
  rw [byte, List.getElem?_eq_getElem hi, Option.getD_some]

/-- With the ports in the linear area, the ports of the header are the bytes that are loaded. -/
theorem tcpPorts_of_linear (hfirst : b.fragmentOffset = 0)
    (hlinear : b.transportOffset + 4 ≤ b.linear.length) :
    b.tcpPorts = some ([b.byte b.transportOffset, b.byte (b.transportOffset + 1)],
      [b.byte (b.transportOffset + 2), b.byte (b.transportOffset + 2 + 1)]) := by
  have hdrop : b.packet.drop b.transportOffset
      = b.byte b.transportOffset :: b.byte (b.transportOffset + 1)
        :: b.byte (b.transportOffset + 2) :: b.byte (b.transportOffset + 2 + 1)
        :: (b.linear.drop (b.transportOffset + 4) ++ b.paged) := by
    rw [packet, List.drop_append_of_le_length (by omega)]
    rw [List.drop_eq_getElem_cons (by omega), List.drop_eq_getElem_cons (by omega),
      List.drop_eq_getElem_cons (by omega), List.drop_eq_getElem_cons (by omega)]
    rw [byte_of_lt, byte_of_lt, byte_of_lt, byte_of_lt]
    rfl
  rw [tcpPorts, if_neg (not_not.mpr hfirst), hdrop]

/-- A packet whose ports are found is not a later fragment. -/
theorem fragmentOffset_of_tcpPorts {ports : List UInt8 × List UInt8}
    (h : b.tcpPorts = some ports) : b.fragmentOffset = 0 := by
  by_contra hlater
  rw [tcpPorts, if_pos hlater] at h
  cases h

end Ipv4Buffer

/-- **When the hook reads only a TCP header that is there**: for every IPv4 packet with protocol
TCP, if and only if the packet is not a later fragment and its linear area goes on for at least four
bytes behind the IPv4 header. -/
theorem readsOnlyHeader_iff (b : Ipv4Buffer) (htcp : b.ipHdr.protocol = ipprotoTcp) :
    b.ReadsOnlyHeader ↔
      b.fragmentOffset = 0 ∧ b.transportOffset + 4 ≤ b.linear.length := by
  constructor
  · intro h
    obtain ⟨hreads, hports⟩ := h _ (Ipv4Buffer.hookMetric_skBuff htcp)
    have hlast := hreads (b.transportOffset + 3)
      ((Ipv4Buffer.mem_tcpReads htcp).mpr ⟨by omega, by omega⟩)
    exact ⟨Ipv4Buffer.fragmentOffset_of_tcpPorts hports, by omega⟩
  · rintro ⟨hfirst, hlinear⟩ m hm
    rw [Ipv4Buffer.hookMetric_skBuff htcp] at hm
    cases hm
    refine ⟨fun i hi => ?_, ?_⟩
    · have := ((Ipv4Buffer.mem_tcpReads htcp).mp hi).2
      omega
    · rw [Ipv4Buffer.tcpPorts_of_linear hfirst hlinear]
      simp only [Ipv4Buffer.tcpHdr, Ipv4Buffer.word16, leBytes16_load16]

/-- The IPv4 header of a TCP packet with the given `frag_off`, 20 bytes long. -/
def sampleIpv4Header (fragHigh fragLow : UInt8) : List UInt8 :=
  [0x45, 0, 0, 60, 0, 1, fragHigh, fragLow, 64, 6, 0, 0, 10, 0, 0, 1, 10, 0, 0, 2]

/-- A packet from port 443 to port 50000 whose ports are in the linear area. -/
def wholePacket : Ipv4Buffer where
  linear := sampleIpv4Header 0 0 ++ [0x01, 0xbb, 0xc3, 0x50]
  paged := List.replicate 36 0
  behind _ := 0
  five_le_ihl := by decide
  header_linear := by decide

/-- It is read as it should be. -/
theorem readsOnlyHeader_wholePacket : wholePacket.ReadsOnlyHeader :=
  (readsOnlyHeader_iff wholePacket (by decide)).mpr ⟨by decide, by decide⟩

/-- The second fragment of a packet: the data of the stream goes on behind the IPv4 header. -/
def laterFragment : Ipv4Buffer where
  linear := sampleIpv4Header 0 1 ++ [0x47, 0x45, 0x54, 0x20, 0x2f, 0x20, 0x48, 0x54]
  paged := []
  behind _ := 0
  five_le_ihl := by decide
  header_linear := by decide

/-- **Data is recorded as ports**: the hook takes the first bytes of a later fragment for a TCP
header. -/
theorem data_recorded_as_ports :
    laterFragment.ipHdr.protocol = ipprotoTcp ∧ ¬ laterFragment.ReadsOnlyHeader := by
  have htcp : laterFragment.ipHdr.protocol = ipprotoTcp := by decide
  refine ⟨htcp, fun h => ?_⟩
  have hports := (h _ (Ipv4Buffer.hookMetric_skBuff htcp)).2
  have hfirst := Ipv4Buffer.fragmentOffset_of_tcpPorts hports
  exact absurd hfirst (by decide)

end TelemetrySubsystem
