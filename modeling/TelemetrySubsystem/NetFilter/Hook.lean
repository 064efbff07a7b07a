import TelemetrySubsystem.SharedPage.Layout
import TelemetrySubsystem.TicketPool.System

/-! # The net filter: `packet_telemetry_hook` and its pool

* **`netPool`** is the pool of 24 slots in `net_buffer`, with a ticket dispenser and a horizon hint.
* **`hookMetric`** is what the hook extracts from a packet, after its early exits;
  **`packetTelemetryHook`** is one access of the hook.

The page is allocated before the hook can be registered, so `ring_ptr` is not null. The hook also
loads `rd_idx`, for a lap test that is compiled out; that load has no effect and no step. -/

namespace TelemetrySubsystem

/-! ## The pool -/

/-- The fields of `struct net_packet_metric`. -/
inductive NetField
  | srcIp
  | destIp
  | srcPort
  | destPort
  | pktLen
  deriving DecidableEq, Repr

instance : Fieldwise NetPacketMetric NetField where
  value
    | .srcIp, m => m.srcIp.toNat
    | .destIp, m => m.destIp.toNat
    | .srcPort, m => m.srcPort.toNat
    | .destPort, m => m.destPort.toNat
    | .pktLen, m => m.pktLen.toNat
  copy
    | .srcIp, src, dst => { dst with srcIp := src.srcIp }
    | .destIp, src, dst => { dst with destIp := src.destIp }
    | .srcPort, src, dst => { dst with srcPort := src.srcPort }
    | .destPort, src, dst => { dst with destPort := src.destPort }
    | .pktLen, src, dst => { dst with pktLen := src.pktLen }
  value_copy f g src dst := by cases f <;> cases g <;> rfl
  ext p q h := by
    obtain ⟨_, _, _, _, _⟩ := p
    obtain ⟨_, _, _, _, _⟩ := q
    rw [NetPacketMetric.mk.injEq]
    exact ⟨UInt32.toNat_inj.mp (h .srcIp), UInt32.toNat_inj.mp (h .destIp),
      UInt16.toNat_inj.mp (h .srcPort), UInt16.toNat_inj.mp (h .destPort),
      UInt32.toNat_inj.mp (h .pktLen)⟩

/-- `NETFILTER_SLOT_SIZE`. -/
def netfilterSlotSize : ℕ := 32

/-- `NETFILTER_SLOT_CAPACITY`. -/
def netfilterSlotCapacity : ℕ := netfilterRingBufferCapacity.toNat / netfilterSlotSize

/-- `TELEMETRY_FLAG_NET_THREAD_ACTIVE`. -/
def flagNetThreadActive : UInt32 := 1 <<< (2 : UInt32)

/-- **The net pool**: `telemetry_payload_pool_t` behind `net_tenant_lane_t`. The two ports share a
32-bit word. -/
def netPool : TicketPool NetPacketMetric NetField where
  capacity := netfilterSlotCapacity
  words := [[.srcIp], [.destIp], [.srcPort, .destPort], [.pktLen]]
  publishesHint := true
  processesFirst := true
  threadActive := flagNetThreadActive
  zeroPayload := ⟨0, 0, 0, 0, 0⟩
  capacity_pos := by decide
  fields_ne_nil := by decide
  mem_words f := by cases f <;> decide
  nodup_words := by decide

@[simp] theorem netPool_capacity : netPool.capacity = 24 := rfl

/-! ## The hook -/

/-- The fields of `struct iphdr` that the hook reads, in network byte order. -/
structure IpHdr where
  protocol : UInt8
  totLen : UInt16
  saddr : UInt32
  daddr : UInt32
  deriving DecidableEq, Repr

/-- The fields of `struct tcphdr` that the hook reads, in network byte order. -/
structure TcpHdr where
  source : UInt16
  dest : UInt16
  deriving DecidableEq, Repr

/-- A socket buffer as the hook sees it: what `ip_hdr` and `tcp_hdr` point to. -/
structure SkBuff where
  ipHdr : Option IpHdr
  tcpHdr : Option TcpHdr
  deriving DecidableEq, Repr

/-- `IPPROTO_TCP`. -/
def ipprotoTcp : UInt8 := 6

/-- **What the hook records of a packet**, or `none` where it returns early. All fields are stored
as they stand in the headers, in network byte order. -/
def hookMetric : Option SkBuff → Option NetPacketMetric
  | none => none
  | some skb =>
      match skb.ipHdr with
      | none => none
      | some networkHeader =>
          if networkHeader.protocol ≠ ipprotoTcp then none
          else
            match skb.tcpHdr with
            | none => none
            | some transportHeader =>
                some {
                  srcIp := networkHeader.saddr
                  destIp := networkHeader.daddr
                  srcPort := transportHeader.source
                  destPort := transportHeader.dest
                  pktLen := networkHeader.totLen.toUInt32 }

/-- One access of `packet_telemetry_hook`. -/
def packetTelemetryHook (me : ℕ) (skb : Option SkBuff) (lane : TicketLane NetPacketMetric)
    (pc : ProducerPc NetField) : Option (TicketLane NetPacketMetric × ProducerPc NetField) :=
  netPool.producerStep me (hookMetric skb) lane pc

/-- **A TCP packet**: an IPv4 header with protocol TCP and a TCP header. -/
structure TcpPacket where
  ipHdr : IpHdr
  tcpHdr : TcpHdr
  isTcp : ipHdr.protocol = ipprotoTcp

/-- The socket buffer of a TCP packet. -/
def TcpPacket.skb (p : TcpPacket) : SkBuff := ⟨some p.ipHdr, some p.tcpHdr⟩

/-- The metric of a TCP packet. -/
def TcpPacket.metric (p : TcpPacket) : NetPacketMetric :=
  ⟨p.ipHdr.saddr, p.ipHdr.daddr, p.tcpHdr.source, p.tcpHdr.dest, p.ipHdr.totLen.toUInt32⟩

/-- **The hook records every TCP packet.** -/
@[simp] theorem hookMetric_tcp (p : TcpPacket) : hookMetric (some p.skb) = some p.metric := by
  simp only [hookMetric, TcpPacket.skb, p.isTcp, ne_eq, not_true_eq_false, if_false]
  rfl

/-- A TCP packet of 60 bytes from port 443 to port 50000. -/
def samplePacket : TcpPacket where
  ipHdr := ⟨ipprotoTcp, 60, 0x0a000001, 0x0a000002⟩
  tcpHdr := ⟨443, 50000⟩
  isTcp := rfl

/-- **The net filter at work**: hook calls on the given packets, and the net client. -/
abbrev netNext (packets : ℕ → Option SkBuff) :
    PoolState NetPacketMetric NetField → PoolAction → Option (PoolState NetPacketMetric NetField) :=
  netPool.poolNext fun c => hookMetric (packets c)

/-- Its producers are calls of the hook. -/
theorem netNext_producer (packets : ℕ → Option SkBuff) (s : PoolState NetPacketMetric NetField)
    (c : ℕ) :
    netNext packets s (.producer c)
      = (packetTelemetryHook c (packets c) s.lane (s.producer c)).map fun p =>
          { s with lane := p.1, producer := Function.update s.producer c p.2 } := rfl

end TelemetrySubsystem
