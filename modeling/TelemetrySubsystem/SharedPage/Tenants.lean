import TelemetrySubsystem.BlockFilter.Commit
import TelemetrySubsystem.CharRing.PageAccess
import TelemetrySubsystem.NetFilter.Hook
import TelemetrySubsystem.TicketPool.PageAccess

/-! # The three tenants of the shared page

The char device, the net filter and the block filter share one page, each with a lane and a buffer
of its own.

* **`netPlace`** and **`blockPlace`** are the places of the two pools.
* **`PageReachable`**: the steps of all threads of all tenants interleave on the bytes of the page.
* **`tenants_isolated`**: whatever the threads of one tenant do, the other tenants' threads and
  bytes are in a state that they reach alone.
* **`page_elsewhere`**: no other byte is ever written, on the page or off it. -/

namespace TelemetrySubsystem

open ActionSystem ByteMemory SharedMemory StructLayout

/-! ## Where the pools lie -/

/-- The position of a field in `struct net_packet_metric`. -/
def NetField.index : NetField → ℕ
  | .srcIp => 0
  | .destIp => 1
  | .srcPort => 2
  | .destPort => 3
  | .pktLen => 4

/-- **The place of the net pool**: `net_ctl`, cast to `net_tenant_lane_t`, and `net_buffer`, cast to
`telemetry_payload_pool_t`. -/
def netPlace : PoolLayout netPool where
  control := RingMember.address .netCtl
  controlSize := RingMember.size .netCtl
  rdIdx := RingMember.rdIdx .netCtl
  wrIdx := RingMember.wrIdx .netCtl
  ticketCounter := RingMember.ticketDispenser .netCtl
  stateFlags := RingMember.stateFlags .netCtl
  pool := RingMember.address .netBuffer
  slotSize := (struct netPayloadSlot).size
  ticketOffset := offsetOf netPayloadSlot 1
  offset f := offsetOf netPayloadSlot 0 + offsetOf netPacketMetric f.index
  size f := sizeOf netPacketMetric f.index
  ofValues v := ⟨UInt32.ofNat (v .srcIp), UInt32.ofNat (v .destIp), UInt16.ofNat (v .srcPort),
    UInt16.ofNat (v .destPort), UInt32.ofNat (v .pktLen)⟩
  control_le := by decide
  rdIdx_le := by decide
  wrIdx_le := by decide
  stateFlags_le := by decide
  control_pool := by decide
  counter_apart := by decide
  counter_eq := by decide
  offset_le f := by cases f <;> decide
  offset_apart f g := by cases f <;> cases g <;> decide
  ticketOffset_le := by decide
  words_le := by decide
  word_span := by decide
  value_lt f p := by
    cases f
    · exact p.srcIp.toNat_lt
    · exact p.destIp.toNat_lt
    · exact p.srcPort.toNat_lt
    · exact p.destPort.toNat_lt
    · exact p.pktLen.toNat_lt
  value_ofValues f v := by cases f <;> rfl
  value_zero f := by cases f <;> rfl

/-- The position of a field in `struct block_io_metric`. -/
def BlockField.index : BlockField → ℕ
  | .devMajor => 0
  | .devMinor => 1
  | .sectorLow => 2
  | .sectorHigh => 3
  | .nrSectors => 4
  | .bytes => 5
  | .op => 6
  | .flags => 7

/-- **The place of the block pool**: `block_ctl`, whose `wr_idx` is the ticket counter, and
`block_buffer`, cast to `block_payload_pool_t`. -/
def blockPlace : PoolLayout blockPool where
  control := RingMember.address .blockCtl
  controlSize := RingMember.size .blockCtl
  rdIdx := RingMember.rdIdx .blockCtl
  wrIdx := RingMember.wrIdx .blockCtl
  ticketCounter := RingMember.wrIdx .blockCtl
  stateFlags := RingMember.stateFlags .blockCtl
  pool := RingMember.address .blockBuffer
  slotSize := (struct blockPayloadSlot).size
  ticketOffset := offsetOf blockPayloadSlot 1
  offset f := offsetOf blockPayloadSlot 0 + offsetOf blockIoMetric f.index
  size f := sizeOf blockIoMetric f.index
  ofValues v := ⟨UInt32.ofNat (v .devMajor), UInt32.ofNat (v .devMinor),
    UInt32.ofNat (v .sectorLow), UInt32.ofNat (v .sectorHigh), UInt32.ofNat (v .nrSectors),
    UInt32.ofNat (v .bytes), UInt32.ofNat (v .op), UInt32.ofNat (v .flags)⟩
  control_le := by decide
  rdIdx_le := by decide
  wrIdx_le := by decide
  stateFlags_le := by decide
  control_pool := by decide
  counter_apart := by decide
  counter_eq := by decide
  offset_le f := by cases f <;> decide
  offset_apart f g := by cases f <;> cases g <;> decide
  ticketOffset_le := by decide
  words_le := by decide
  word_span := by decide
  value_lt f p := by cases f <;> exact UInt32.toNat_lt _
  value_ofValues f v := by cases f <;> rfl
  value_zero f := by cases f <;> rfl

/-- The bytes of the net filter are its lane and its buffer. -/
theorem region_netPlace : netPlace.region = RingMember.tenantBytes .netCtl .netBuffer := by
  have hsize : netPlace.slotSize * netPool.capacity = RingMember.size .netBuffer := by decide
  rw [PoolLayout.region, hsize]
  rfl

/-- The bytes of the block filter are its lane and its buffer. -/
theorem region_blockPlace :
    blockPlace.region = RingMember.tenantBytes .blockCtl .blockBuffer := by
  have hsize : blockPlace.slotSize * blockPool.capacity = RingMember.size .blockBuffer := by decide
  rw [PoolLayout.region, hsize]
  rfl

/-! ## All tenants at work -/

/-- The tenants that have code. -/
inductive PageTenant
  | char
  | net
  | block
  deriving DecidableEq, Repr

/-- **What the system is given to do**: the calls that write to the char device, the packets that
pass the hook, and the metrics that are committed. -/
structure PageInput where
  calls : ℕ → WriterCall
  packets : ℕ → Option SkBuff
  metrics : ℕ → Option BlockIoMetric

/-- The tenants of the page. -/
def pageTenant (i : PageInput) : PageTenant → Tenant
  | .char => charTenant i.calls
  | .net => netPlace.tenant fun c => hookMetric (i.packets c)
  | .block => blockPlace.tenant i.metrics

/-- No thread of theirs has taken a step. -/
def pageIdle (i : PageInput) : ∀ t, (pageTenant i t).Local
  | .char => charIdle i.calls
  | .net => PoolLayout.idleThreads netPool
  | .block => PoolLayout.idleThreads blockPool

/-- The lane and the buffer of a tenant. -/
def PageTenant.bytes : PageTenant → Set ℕ
  | .char => RingMember.tenantBytes .charCtl .charBuffer
  | .net => RingMember.tenantBytes .netCtl .netBuffer
  | .block => RingMember.tenantBytes .blockCtl .blockBuffer

/-- A tenant's region is its lane and its buffer. -/
theorem region_pageTenant (i : PageInput) (t : PageTenant) :
    (pageTenant i t).region = t.bytes := by
  cases t with
  | char => rfl
  | net => exact region_netPlace
  | block => exact region_blockPlace

/-- **The tenants share no byte.** -/
theorem disjoint_pageTenant (i : PageInput) :
    Pairwise fun t t' => Disjoint (pageTenant i t).region (pageTenant i t').region := by
  intro t t' hne
  rw [region_pageTenant, region_pageTenant]
  cases t <;> cases t'
  all_goals first
    | exact absurd rfl hne
    | exact RingMember.disjoint_tenantBytes (by decide)

/-- Every tenant starts where its invariant holds. -/
theorem pageIdle_inv (i : PageInput) (t : PageTenant) :
    (pageTenant i t).Inv (fun _ => 0) (pageIdle i t) := by
  cases t with
  | char => exact charTenant_start i.calls
  | net => exact PoolLayout.copyInRange_idle netPool
  | block => exact PoolLayout.copyInRange_idle blockPool

/-- **What the whole system reaches** from the zeroed page, one access of one thread at a time, with
one reader of the char device. -/
abbrev PageReachable (i : PageInput) :
    Memory × (∀ t, (pageTenant i t).Local) → Prop :=
  SystemReachable (pageTenant i) (fun _ => 0) (pageIdle i)

/-- **The tenants are isolated.** In every state the whole system reaches, the bytes of every tenant
decode to a state that the tenant's own threads reach with nobody else on the page. -/
theorem tenants_isolated {i : PageInput} {s : Memory × (∀ t, (pageTenant i t).Local)}
    (h : PageReachable i s) :
    ReachableUnder charNext (fun _ a => a.OneReader) (charInit i.calls)
        (decodeChar s.1 (s.2 .char)) ∧
      Reachable (netNext i.packets) netPool.poolInit (netPlace.decode s.1 (s.2 .net)) ∧
      Reachable (blockNext i.metrics) blockPool.poolInit (blockPlace.decode s.1 (s.2 .block)) := by
  have hown := isolated (disjoint_pageTenant i) (pageIdle_inv i) h
  refine ⟨?_, ?_, ?_⟩
  · obtain ⟨m, hrun, hagree⟩ := hown .char
    have hreach := Tenant.inv_of_reachable (pageIdle_inv i .char) hrun
    exact (pageTenant i .char).inv_congr hagree hreach
  · obtain ⟨m, hrun, hagree⟩ := hown .net
    have hreach := netPlace.reachable_decode hrun
    exact netPlace.decode_congr hagree (s.2 .net) ▸ hreach
  · obtain ⟨m, hrun, hagree⟩ := hown .block
    have hreach := blockPlace.reachable_decode hrun
    exact blockPlace.decode_congr hagree (s.2 .block) ▸ hreach

/-- One byte to write, a packet, and a block metric. -/
def samplePage : PageInput where
  calls _ := .devWrite [7]
  packets _ := some samplePacket.skb
  metrics _ := some sampleBlockMetric

/-- The `dev_write`, and then the first hook call and the first commit, step by step in turn. -/
def allTenantsRun : List (Σ t, (pageTenant samplePage t).Action) :=
  List.replicate 8 ⟨.char, CharAction.writer 0 .ok⟩
    ++ (List.replicate 9 [⟨.net, PoolAction.producer 0⟩, ⟨.block, PoolAction.producer 0⟩]).flatten
    ++ [⟨.block, PoolAction.producer 0⟩]

/-- The steps are those of the three kernel calls. -/
theorem allTenantsRun_ok : ∀ a ∈ allTenantsRun, (pageTenant samplePage a.1).ok a.2 := by
  intro a ha
  simp only [allTenantsRun, List.mem_append, List.mem_flatten, List.mem_replicate,
    List.mem_singleton] at ha
  rcases ha with (⟨-, rfl⟩ | ⟨l, ⟨-, rfl⟩, ha⟩) | rfl
  · trivial
  · rcases List.mem_pair.mp ha with rfl | rfl <;> trivial
  · trivial

/-- The `wr_idx` of the three lanes. -/
def writeWords (m : Memory) : List UInt32 :=
  [RingMember.charCtl, .netCtl, .blockCtl].map fun lane => word m (RingMember.wrIdx lane)

/-- A state of the whole system in which each tenant has stored a record of its own. -/
theorem samplePage_reachable : ∃ s, PageReachable samplePage s ∧ writeWords s.1 = [1, 1, 1] := by
  have hrun : (exec (systemNext (pageTenant samplePage)) (fun _ => 0, pageIdle samplePage)
      allTenantsRun).map (fun s => writeWords s.1) = some [1, 1, 1] := by decide +kernel
  obtain ⟨s, hs, hwords⟩ := Option.map_eq_some_iff.mp hrun
  exact ⟨s, .of_exec (p := fun a => (pageTenant samplePage a.1).ok a.2) allTenantsRun
    allTenantsRun_ok hs .start, hwords⟩

/-- All three have stored, and each has seen a run of its own. -/
theorem tenants_isolated_sample : ∃ s : Memory × (∀ t, (pageTenant samplePage t).Local),
    writeWords s.1 = [1, 1, 1] ∧
      ReachableUnder charNext (fun _ a => a.OneReader) (charInit samplePage.calls)
        (decodeChar s.1 (s.2 .char)) ∧
      Reachable (netNext samplePage.packets) netPool.poolInit (netPlace.decode s.1 (s.2 .net)) ∧
      Reachable (blockNext samplePage.metrics) blockPool.poolInit
        (blockPlace.decode s.1 (s.2 .block)) := by
  obtain ⟨s, h, hwords⟩ := samplePage_reachable
  exact ⟨s, hwords, tenants_isolated h⟩

/-- **Nothing else is written**: outside the three lanes and the three buffers every byte is as it
was allocated, the other lanes and buffers, the padding and all memory off the page included. -/
theorem page_elsewhere {i : PageInput} {s : Memory × (∀ t, (pageTenant i t).Local)}
    (h : PageReachable i s) {x : ℕ} (hx : ∀ t : PageTenant, x ∉ t.bytes) : s.1 x = 0 := by
  refine eqOn_compl_of_reachable (disjoint_pageTenant i) (pageIdle_inv i) h ?_
  intro hmem
  obtain ⟨t, ht⟩ := Set.mem_iUnion.mp hmem
  exact hx t (region_pageTenant i t ▸ ht)

/-- The lane of the memory tenant stays zero. -/
theorem page_elsewhere_memCtl :
    ∃ s : Memory × (∀ t, (pageTenant samplePage t).Local),
      writeWords s.1 = [1, 1, 1] ∧ s.1 (RingMember.address .memCtl) = 0 := by
  obtain ⟨s, h, hwords⟩ := samplePage_reachable
  have hmem (t : PageTenant) : RingMember.address .memCtl ∉ t.bytes := by
    have hin : RingMember.address .memCtl ∈ RingMember.span .memCtl := by
      rw [RingMember.span_eq]
      exact ⟨le_rfl, by decide⟩
    have hapart {m : RingMember} (hne : RingMember.memCtl ≠ m) :
        RingMember.address .memCtl ∉ m.span :=
      Set.disjoint_left.mp (RingMember.disjoint hne) hin
    cases t <;> exact fun h => h.elim (hapart (by decide)) (hapart (by decide))
  exact ⟨s, hwords, page_elsewhere h hmem⟩

/-! ## Two levels of one design -/

/-- **The pools on bytes and the pools on lanes have the same runs**: any list of steps of any hook
calls, or commits, and the client, taken on the bytes of a zeroed page, goes through where it does
on the lane, and ends in bytes that decode to the same state. -/
theorem poolRuns_decode (packets : ℕ → Option SkBuff) (metrics : ℕ → Option BlockIoMetric)
    (as : List PoolAction) :
    exec (netNext packets) netPool.poolInit as
        = (exec (netPlace.pageNext fun c => hookMetric (packets c))
            (fun _ => 0, PoolLayout.idleThreads netPool) as).map
          (fun s => netPlace.decode s.1 s.2) ∧
      exec (blockNext metrics) blockPool.poolInit as
        = (exec (blockPlace.pageNext metrics)
            (fun _ => 0, PoolLayout.idleThreads blockPool) as).map
          (fun s => blockPlace.decode s.1 s.2) :=
  ⟨netPlace.exec_decode _ as, blockPlace.exec_decode metrics as⟩

/-- **The pools withstand a corrupted page**: whatever is stored to memory, by anybody and at any
time, a step of a hook call, of a commit or of a client changes bytes of its own lane and its own
buffer only. -/
theorem pools_withstand (i : PageInput) (m₀ : Memory) :
    (∀ s s' a, Reachable (pageTenant i .net).hostileNext (m₀, pageIdle i .net) s →
        (pageTenant i .net).next s a = some s' →
        Set.EqOn s'.1 s.1 (RingMember.tenantBytes .netCtl .netBuffer)ᶜ) ∧
      ∀ s s' a, Reachable (pageTenant i .block).hostileNext (m₀, pageIdle i .block) s →
        (pageTenant i .block).next s a = some s' →
        Set.EqOn s'.1 s.1 (RingMember.tenantBytes .blockCtl .blockBuffer)ᶜ := by
  refine ⟨fun s s' a h hnext => ?_, fun s s' a h hnext => ?_⟩
  · have hcompl := Tenant.hostile_next_compl (fun hin => hin) (fun _ => trivial)
      (PoolLayout.copyInRange_idle netPool) h hnext
    rwa [region_pageTenant] at hcompl
  · have hcompl := Tenant.hostile_next_compl (fun hin => hin) (fun _ => trivial)
      (PoolLayout.copyInRange_idle blockPool) h hnext
    rwa [region_pageTenant] at hcompl

/-- A stranger fills memory with ones, and the next hook call still leaves `char_ctl` alone. -/
theorem pools_withstand_ones :
    ∃ s, (pageTenant samplePage .net).next (fun _ => 255, pageIdle samplePage .net)
        (PoolAction.producer 0) = some s ∧ s.1 (RingMember.address .charCtl) = 255 := by
  have hreach : Reachable (pageTenant samplePage .net).hostileNext
      (fun _ => 0, pageIdle samplePage .net) (fun _ => 255, pageIdle samplePage .net) :=
    ReachableUnder.start.step (a := .inr fun _ => 255) trivial rfl
  refine ⟨_, rfl, ?_⟩
  refine (pools_withstand samplePage fun _ => 0).1 _ _ (PoolAction.producer 0) hreach rfl ?_
  have hin : RingMember.address .charCtl ∈ RingMember.span .charCtl := by
    rw [RingMember.span_eq]
    exact ⟨le_rfl, by decide⟩
  have hapart {m : RingMember} (hne : RingMember.charCtl ≠ m) :
      RingMember.address .charCtl ∉ m.span :=
    Set.disjoint_left.mp (RingMember.disjoint hne) hin
  exact fun h => h.elim (hapart (by decide)) (hapart (by decide))

end TelemetrySubsystem
