import TelemetrySubsystem.BlockFilter.Commit
import TelemetrySubsystem.TicketPool.RecentRecords

/-! # Skip-ahead mode of the block client

The skip-ahead engine of `block_zero_copy_consumer_thread` takes `block_ctl.tx.wr_idx` as its
horizon, and that word is the ticket counter itself. The capacity 8 divides `2^32`, so tickets go
round the slots across the wrap of the counter as well.

* **`bioLine`** is what should be printed for a bio.
* **`skipAhead_delivers_recent`**: a pass prints exactly that, for everything from its position on
  that is still in the pool. -/

namespace TelemetrySubsystem

open TicketPool WrapCounter

/-- **A bio on a device**: `bi_bdev` is not null. -/
structure ValidBio where
  bio : Bio
  dev : UInt32
  hasDev : bio.biBdev = some dev

/-- The metric of a valid bio. -/
def ValidBio.metric (api : BlockApi) (b : ValidBio) : BlockIoMetric := metricOf api b.dev b.bio

/-- **Every valid bio is recorded.** -/
@[simp] theorem bioMetric_valid (api : BlockApi) (b : ValidBio) :
    bioMetric api (some b.bio) = some (b.metric api) := by
  rw [bioMetric, b.hasDev]
  rfl

/-- The calls of `block_telemetry_bio_submit` on a sequence of valid bios. -/
def submitCalls (api : BlockApi) (bios : ℕ → ValidBio) (n : ℕ) : Option BlockIoMetric :=
  bioMetric api (some (bios n).bio)

/-- Their steps are steps of `block_telemetry_bio_submit`. -/
theorem callStep_submit (api : BlockApi) (bios : ℕ → ValidBio) (n : ℕ)
    (p : TicketLane BlockIoMetric × ProducerPc BlockField) :
    blockPool.callStep n (submitCalls api bios n) p
      = blockTelemetryBioSubmit api n (some (bios n).bio) p.1 p.2 := rfl

/-- They are commits of the metrics of the bios. -/
theorem submitCalls_eq (api : BlockApi) (bios : ℕ → ValidBio) :
    submitCalls api bios = fun n => some ((bios n).metric api) := by
  funext n
  exact bioMetric_valid api _

/-- **What should be printed for the bio of ticket `t`**: its device, its full sector, its size in
sectors and in bytes, its operation and its flags. -/
def bioLine (api : BlockApi) (bios : ℕ → ValidBio) (t : ℕ) : BlockLine where
  ticket := UInt32.ofNat t
  devMajor := api.major (bios t).dev
  devMinor := api.minor (bios t).dev
  sector := (bios t).bio.biSector
  nsect := UInt32.ofNat ((bios t).bio.biSize.toNat / 512)
  bytes := (bios t).bio.biSize
  op := api.bioOp (bios t).bio.biOpf
  flags := (bios t).bio.biOpf

/-- What the block client prints for a line. -/
def Line.printed (l : Line BlockIoMetric) : BlockLine := processBlockMetric l.slotTicket l.metric

/-- **The record of a bio prints as it should**: the sector is put together again and the size is
counted in sectors. -/
theorem printed_recordLine (api : BlockApi) (bios : ℕ → ValidBio) (t : ℕ) :
    (recordLine (fun n => (bios n).metric api) t).printed = bioLine api bios t := by
  have hsect : (bios t).bio.biSize >>> 9 = UInt32.ofNat ((bios t).bio.biSize.toNat / 512) := by
    rw [← toNat_shiftRight_nine, UInt32.ofNat_toNat]
  simp only [Line.printed, recordLine, processBlockMetric, ValidBio.metric, metricOf, bioLine,
    sector_recombine, hsect]

/-! ## The ticket counter as horizon -/

/-- The slot of the `k`-th ticket, across every wrap of the counter. -/
theorem blockPool_slotIdx (k : ℕ) :
    blockPool.slotIdx (UInt32.ofNat k) = k % blockPool.capacity := by
  rw [slotIdx, toNat_ofNat, blockPool_capacity]
  omega

/-- **The horizon after completed calls** is their number. -/
theorem blockPool_wrIdx {metrics : ℕ → BlockIoMetric} {W : ℕ} {lane : TicketLane BlockIoMetric}
    (h : FilledBy blockPool metrics W lane) : lane.wrIdx = UInt32.ofNat W := h.counter

/-! ## The law -/

/-- **A skip-ahead pass of the block client is complete**: after `W` completed calls on valid bios,
a pass from position `e` prints exactly the records of the tickets from `e` on among the last 8,
each once and in order, with everything as in its bio, and stores `W` into `rd_idx`. Both counts are
unbounded; the pass starts at `e` and stores `W` modulo `2^32`. -/
theorem skipAhead_delivers_recent (api : BlockApi) (bios : ℕ → ValidBio) (W e : ℕ)
    (lane : TicketLane BlockIoMetric) (hW : 1 ≤ W) (he : e ≤ W) (hlag : W - e < 2 ^ 31)
    (h : blockPool.CompletedCalls (submitCalls api bios) W lane) :
    ∃ lines,
      blockPool.Pass .skipAhead (UInt32.ofNat e) lane { lane with rdIdx := UInt32.ofNat W } lines ∧
      lines.map Line.printed = (recent blockfilterSlotCapacity e W).map (bioLine api bios) ∧
      acceptedTickets lines = (recent blockfilterSlotCapacity e W).map UInt32.ofNat := by
  rw [submitCalls_eq] at h
  have hfilled := h.filledBy
  obtain ⟨lines, hpass, hout, hall⟩ := hfilled.skipAheadPass (by decide)
    (fun k _ => blockPool_slotIdx k) (blockPool_wrIdx hfilled) hW he (by omega)
  rw [hall rfl] at hout
  refine ⟨lines, hpass, ?_, ?_⟩
  · rw [hout, List.map_map]
    exact List.map_congr_left fun t _ => printed_recordLine api bios t
  · rw [hout, acceptedTickets, List.filterMap_map]
    exact congrFun List.filterMap_eq_map' _

/-- A write of 4096 bytes at a sector past `2^32`, on device 8:0. -/
def sampleBio : ValidBio where
  bio := ⟨some 0x800000, 0x100000800, 4096, 1⟩
  dev := 0x800000
  hasDev := rfl

/-- The macros of a kernel with 20 minor bits and 8 operation bits. -/
def sampleApi : BlockApi where
  major dev := dev >>> 20
  minor dev := dev &&& 0xfffff
  bioOp opf := opf &&& 0xff

/-- After ten bios a pass from ticket 1 prints tickets 2 to 9. -/
theorem skipAhead_delivers_ten : ∃ lane lines,
    blockPool.CompletedCalls (submitCalls sampleApi fun _ => sampleBio) 10 lane ∧
      blockPool.Pass .skipAhead (UInt32.ofNat 1) lane { lane with rdIdx := UInt32.ofNat 10 } lines ∧
      lines.map Line.printed = [2, 3, 4, 5, 6, 7, 8, 9].map (bioLine sampleApi fun _ => sampleBio) ∧
      acceptedTickets lines = [2, 3, 4, 5, 6, 7, 8, 9] := by
  obtain ⟨lane, h⟩ :=
    exists_completedCalls (R := blockPool) (fun _ => sampleBio.metric sampleApi) 10
  rw [← submitCalls_eq sampleApi fun _ => sampleBio] at h
  obtain ⟨lines, hpass, hprinted, htickets⟩ := skipAhead_delivers_recent sampleApi _ 10 1 lane
    (by decide) (by decide) (by decide) h
  exact ⟨lane, lines, h, hpass, hprinted, htickets⟩

end TelemetrySubsystem
