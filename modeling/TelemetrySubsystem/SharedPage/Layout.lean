import Mathlib.Data.UInt
import Mathlib.Tactic.Common

/-! # The shared page: capacities, flags, error codes and the net metric

The kernel allocates one zeroed 4096-byte page and splits it into control lanes and per-tenant
buffers. This file holds the constants of that layout which the modelled functions read, and the
16-byte metric that both push functions copy byte by byte. -/

namespace TelemetrySubsystem

/-! ## Capacities and flags -/

/-- `TELEMETRY_RING_BUFFER_CAPACITY`, the size of `char_buffer` (and `RING_BUFFER_CAPACITY` of the
char device). -/
def ringBufferCapacity : UInt32 := 1024

/-- `TELEMETRY_NETFILTER_RING_BUFFER_CAPACITY`, the size of `net_buffer`. -/
def netfilterRingBufferCapacity : UInt32 := 768

/-- `TELEMETRY_FLAG_WRITER_ASLEEP`. -/
def flagWriterAsleep : UInt32 := 1 <<< (0 : UInt32)

@[simp] theorem ringBufferCapacity_toNat : ringBufferCapacity.toNat = 1024 := rfl

@[simp] theorem netfilterRingBufferCapacity_toNat : netfilterRingBufferCapacity.toNat = 768 := rfl

/-! ## Error codes -/

/-- `-EFAULT`. -/
def negEFAULT : ℤ := -14

/-- `-ENODEV`. -/
def negENODEV : ℤ := -19

/-- `-ENOSPC`. -/
def negENOSPC : ℤ := -28

/-- `-ERESTARTSYS`, what an interrupted wait returns. -/
def negERESTARTSYS : ℤ := -512

/-! ## The net metric -/

/-- `struct net_packet_metric`. The hook stores every field in network byte order, as it finds it in
the packet. -/
structure NetPacketMetric where
  srcIp : UInt32
  destIp : UInt32
  srcPort : UInt16
  destPort : UInt16
  pktLen : UInt32
  deriving DecidableEq, Repr

/-- The two bytes of a 16-bit word on a little-endian host. -/
def leBytes16 (x : UInt16) : List UInt8 := [x.toUInt8, (x >>> 8).toUInt8]

/-- The four bytes of a 32-bit word on a little-endian host. -/
def leBytes32 (x : UInt32) : List UInt8 :=
  [x.toUInt8, (x >>> 8).toUInt8, (x >>> 16).toUInt8, (x >>> 24).toUInt8]

/-- The packed struct as `(char *)metric` sees it. -/
def NetPacketMetric.bytes (m : NetPacketMetric) : List UInt8 :=
  leBytes32 m.srcIp ++ leBytes32 m.destIp ++ leBytes16 m.srcPort ++ leBytes16 m.destPort
    ++ leBytes32 m.pktLen

/-- `sizeof(struct net_packet_metric)`. -/
def sizeofNetPacketMetric : ℕ := 16

/-- The packed struct fills exactly its 16 bytes. -/
@[simp] theorem NetPacketMetric.length_bytes (m : NetPacketMetric) :
    m.bytes.length = sizeofNetPacketMetric := rfl

end TelemetrySubsystem
