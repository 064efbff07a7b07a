import TelemetrySubsystem.Foundations.StructLayout
import TelemetrySubsystem.SharedPage.Layout
import Mathlib.Data.List.Basic

/-! # The shared page: where its members lie

`shared_telemetry_ring` and the structs inside it, laid out by the rules of C. Kernel and clients
compile the same header, so both compute the addresses that are computed here.

* **`RingMember`** names the members of the page; `RingMember.span` is where one lies.
* **`tenantLane`** and **`netTenantLane`** are the two views of a control lane;
  `netTenantLane_fits` says that one can be cast to the other.
* **`netPayloadSlot`** and **`blockPayloadSlot`** are the slots of the two pools.
* **`RingMember.disjoint`**: no two members share a byte. -/

namespace TelemetrySubsystem

open StructLayout

/-! ## Scalars and lanes -/

/-- `telemetry_u32`. -/
def telemetryU32 : Layout := ⟨4, 4⟩

/-- `telemetry_u16`. -/
def telemetryU16 : Layout := ⟨2, 2⟩

/-- `char`. -/
def plainChar : Layout := ⟨1, 1⟩

/-- The cache line of `ALIGN_TO_CACHELINE`. -/
def cachelineBytes : ℕ := 64

/-- A struct member behind `ALIGN_TO_CACHELINE`. -/
def onCacheline (members : List Layout) : Layout := (struct members).aligned cachelineBytes

/-- `tenant_lane_t`: `rx`, `tx` and `ctrl`. -/
def tenantLane : List Layout :=
  [onCacheline [telemetryU32], onCacheline [telemetryU32], onCacheline [telemetryU32]]

/-- `net_tenant_lane_t`, whose `tx` holds the ticket dispenser behind `wr_idx`. -/
def netTenantLane : List Layout :=
  [onCacheline [telemetryU32], onCacheline [telemetryU32, telemetryU32], onCacheline [telemetryU32]]

/-- **The cast of a lane to `net_tenant_lane_t`**: it is as large, and its members are in the same
places. -/
theorem netTenantLane_fits :
    struct netTenantLane = struct tenantLane ∧ offsets netTenantLane = offsets tenantLane := by
  decide

/-! ## The page -/

/-- The members of `shared_telemetry_ring`. -/
inductive RingMember
  | charCtl
  | netCtl
  | blockCtl
  | memCtl
  | cpuCtl
  | metaPad
  | charBuffer
  | netBuffer
  | blockBuffer
  | memoryBuffer
  | cpuBuffer
  deriving DecidableEq, Repr

namespace RingMember

/-- `TELEMETRY_PAGE_SIZE`. -/
def telemetryPageSize : ℕ := 4096

/-- `ZONE_A_SIZE`. -/
def zoneASize : ℕ := 1024

/-- The members in the order of their declaration. -/
def all : List RingMember :=
  [charCtl, netCtl, blockCtl, memCtl, cpuCtl, metaPad, charBuffer, netBuffer, blockBuffer,
    memoryBuffer, cpuBuffer]

/-- The types of the members. -/
def layout : RingMember → Layout
  | charCtl | netCtl | blockCtl | memCtl | cpuCtl => struct tenantLane
  | metaPad => array plainChar (zoneASize - 5 * 192)
  | charBuffer => array plainChar ringBufferCapacity.toNat
  | netBuffer => array plainChar netfilterRingBufferCapacity.toNat
  | blockBuffer | memoryBuffer => array plainChar 512
  | cpuBuffer => array plainChar 256

/-- **`shared_telemetry_ring`**. -/
def sharedTelemetryRing : List Layout := all.map layout

/-- The position of a member. -/
def index (m : RingMember) : ℕ := all.idxOf m

/-- The address of a member, from the start of the page. -/
def address (m : RingMember) : ℕ := offsetOf sharedTelemetryRing m.index

/-- The size of a member. -/
def size (m : RingMember) : ℕ := sizeOf sharedTelemetryRing m.index

/-- **The bytes of a member.** -/
def span (m : RingMember) : Set ℕ := memberSpan sharedTelemetryRing m.index

/-- A member's bytes, spelled out. -/
theorem span_eq (m : RingMember) : m.span = Set.Ico m.address (m.address + m.size) := rfl

theorem index_lt (m : RingMember) : m.index < sharedTelemetryRing.length := by
  cases m <;> decide

/-- The page is filled exactly. -/
example : (struct sharedTelemetryRing).size = telemetryPageSize := by decide

/-- The alignments are those that C knows. -/
theorem aligned_sharedTelemetryRing : Aligned sharedTelemetryRing := by
  intro l hl
  obtain ⟨m, -, rfl⟩ := List.mem_map.mp hl
  cases m <;> decide

/-- **No two members share a byte.** -/
theorem disjoint {m m' : RingMember} (h : m ≠ m') : Disjoint m.span m'.span := by
  refine disjoint_memberSpan aligned_sharedTelemetryRing (fun hidx => h ?_) m.index_lt m'.index_lt
  have hmem : ∀ m : RingMember, m ∈ all := fun m => by cases m <;> decide
  exact List.idxOf_inj (hmem m) |>.mp hidx

/-! ## Control words -/

/-- `rx.rd_idx` of a lane. -/
def rdIdx (lane : RingMember) : ℕ := lane.address + offsetOf tenantLane 0

/-- `tx.wr_idx` of a lane. -/
def wrIdx (lane : RingMember) : ℕ := lane.address + offsetOf tenantLane 1

/-- `tx.ticket_dispenser` of a lane that is cast to `net_tenant_lane_t`. -/
def ticketDispenser (lane : RingMember) : ℕ :=
  lane.address + offsetOf netTenantLane 1 + offsetOf [telemetryU32, telemetryU32] 1

/-- `ctrl.state_flags` of a lane. -/
def stateFlags (lane : RingMember) : ℕ := lane.address + offsetOf tenantLane 2

/-- **The bytes of a tenant**: its lane and its buffer. -/
def tenantBytes (lane buffer : RingMember) : Set ℕ := lane.span ∪ buffer.span

/-- Tenants with different lanes and different buffers share no byte. -/
theorem disjoint_tenantBytes {lane buffer lane' buffer' : RingMember}
    (h : [lane, buffer, lane', buffer'].Nodup) :
    Disjoint (tenantBytes lane buffer) (tenantBytes lane' buffer') := by
  simp only [List.nodup_cons, List.mem_cons, List.not_mem_nil, or_false, not_or] at h
  rw [tenantBytes, tenantBytes, Set.disjoint_union_left, Set.disjoint_union_right,
    Set.disjoint_union_right]
  exact ⟨⟨disjoint h.1.2.1, disjoint h.1.2.2⟩, disjoint h.2.1.1, disjoint h.2.1.2⟩

end RingMember

/-! ## Slots -/

/-- `struct net_packet_metric`, which is packed. -/
def netPacketMetric : List Layout :=
  packedMembers [telemetryU32, telemetryU32, telemetryU16, telemetryU16, telemetryU32]

/-- `net_payload_slot_t`. -/
def netPayloadSlot : List Layout := [struct netPacketMetric, telemetryU32, array plainChar 12]

/-- `struct block_io_metric`, which is packed. -/
def blockIoMetric : List Layout := packedMembers (List.replicate 8 telemetryU32)

/-- `block_payload_slot_t`. -/
def blockPayloadSlot : List Layout := [struct blockIoMetric, telemetryU32, array plainChar 28]

end TelemetrySubsystem
