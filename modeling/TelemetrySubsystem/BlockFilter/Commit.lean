import TelemetrySubsystem.TicketPool.System

/-! # The block filter: `block_telemetry_bio_submit`, its pool, and `process_block_metric`

* **`blockPool`** is the pool of 8 slots in `block_buffer`, whose `wr_idx` is the ticket counter.
* **`bioMetric`** is what `block_telemetry_bio_submit` makes of a bio, after its early exit;
  **`blockTelemetryCommitMetric`** is one access of the commit.
* **`processBlockMetric`** is the line the block client prints. -/

namespace TelemetrySubsystem

/-! ## The pool -/

/-- `struct block_io_metric`. -/
structure BlockIoMetric where
  devMajor : UInt32
  devMinor : UInt32
  sectorLow : UInt32
  sectorHigh : UInt32
  nrSectors : UInt32
  bytes : UInt32
  op : UInt32
  flags : UInt32
  deriving DecidableEq, Repr

/-- The fields of `struct block_io_metric`. -/
inductive BlockField
  | devMajor
  | devMinor
  | sectorLow
  | sectorHigh
  | nrSectors
  | bytes
  | op
  | flags
  deriving DecidableEq, Repr

/-- A field of a block metric. -/
def BlockIoMetric.field (m : BlockIoMetric) : BlockField → UInt32
  | .devMajor => m.devMajor
  | .devMinor => m.devMinor
  | .sectorLow => m.sectorLow
  | .sectorHigh => m.sectorHigh
  | .nrSectors => m.nrSectors
  | .bytes => m.bytes
  | .op => m.op
  | .flags => m.flags

instance : Fieldwise BlockIoMetric BlockField where
  value f m := (m.field f).toNat
  copy
    | .devMajor, src, dst => { dst with devMajor := src.devMajor }
    | .devMinor, src, dst => { dst with devMinor := src.devMinor }
    | .sectorLow, src, dst => { dst with sectorLow := src.sectorLow }
    | .sectorHigh, src, dst => { dst with sectorHigh := src.sectorHigh }
    | .nrSectors, src, dst => { dst with nrSectors := src.nrSectors }
    | .bytes, src, dst => { dst with bytes := src.bytes }
    | .op, src, dst => { dst with op := src.op }
    | .flags, src, dst => { dst with flags := src.flags }
  value_copy f g src dst := by cases f <;> cases g <;> rfl
  ext p q h := by
    have hfield (f : BlockField) : p.field f = q.field f := UInt32.toNat_inj.mp (h f)
    obtain ⟨_, _, _, _, _, _, _, _⟩ := p
    obtain ⟨_, _, _, _, _, _, _, _⟩ := q
    rw [BlockIoMetric.mk.injEq]
    exact ⟨hfield .devMajor, hfield .devMinor, hfield .sectorLow, hfield .sectorHigh,
      hfield .nrSectors, hfield .bytes, hfield .op, hfield .flags⟩

/-- `TELEMETRY_BLOCKFILTER_RING_BUFFER_CAPACITY`, the size of `block_buffer`. -/
def blockfilterRingBufferCapacity : ℕ := 512

/-- `BLOCKFILTER_SLOT_SIZE`. -/
def blockfilterSlotSize : ℕ := 64

/-- `BLOCKFILTER_SLOT_CAPACITY`. -/
def blockfilterSlotCapacity : ℕ := blockfilterRingBufferCapacity / blockfilterSlotSize

/-- `TELEMETRY_FLAG_BLOCK_THREAD_ACTIVE`. -/
def flagBlockThreadActive : UInt32 := 1 <<< (4 : UInt32)

/-- **The block pool**: `block_payload_pool_t` behind a plain `tenant_lane_t`. -/
def blockPool : TicketPool BlockIoMetric BlockField where
  capacity := blockfilterSlotCapacity
  words := [[.devMajor], [.devMinor], [.sectorLow], [.sectorHigh], [.nrSectors], [.bytes], [.op],
    [.flags]]
  publishesHint := false
  processesFirst := false
  threadActive := flagBlockThreadActive
  zeroPayload := ⟨0, 0, 0, 0, 0, 0, 0, 0⟩
  capacity_pos := by decide
  fields_ne_nil := by decide
  mem_words f := by cases f <;> decide
  nodup_words := by decide

@[simp] theorem blockPool_capacity : blockPool.capacity = 8 := rfl

/-! ## The kernel side -/

/-- The kernel's macros that take a device number or an operation word apart. -/
structure BlockApi where
  /-- `MAJOR(dev)`. -/
  major : UInt32 → UInt32
  /-- `MINOR(dev)`. -/
  minor : UInt32 → UInt32
  /-- `bio_op(bio)`, a function of `bi_opf`. -/
  bioOp : UInt32 → UInt32

/-- The fields of `struct bio` that the hook reads. `biBdev` is the device number `bio_dev` finds
behind `bi_bdev`, or `none` for a null pointer. -/
structure Bio where
  biBdev : Option UInt32
  biSector : UInt64
  biSize : UInt32
  biOpf : UInt32
  deriving DecidableEq, Repr

/-- The metric that is built from a bio on the device `dev`. -/
def metricOf (api : BlockApi) (dev : UInt32) (bio : Bio) : BlockIoMetric where
  devMajor := api.major dev
  devMinor := api.minor dev
  sectorLow := bio.biSector.toUInt32
  sectorHigh := (bio.biSector >>> 32).toUInt32
  nrSectors := bio.biSize >>> 9
  bytes := bio.biSize
  op := api.bioOp bio.biOpf
  flags := bio.biOpf

/-- **What `block_telemetry_bio_submit` commits for a bio**, or `none` where it returns early. -/
def bioMetric (api : BlockApi) : Option Bio → Option BlockIoMetric
  | none => none
  | some bio => bio.biBdev.map fun dev => metricOf api dev bio

/-- A write of 4096 bytes at sector 2048 of device 8:0. -/
def sampleBlockMetric : BlockIoMetric := ⟨8, 0, 2048, 0, 8, 4096, 1, 1⟩

/-- One access of `block_telemetry_commit_metric`; `metric` is `none` for a null pointer. -/
def blockTelemetryCommitMetric (me : ℕ) (metric : Option BlockIoMetric)
    (lane : TicketLane BlockIoMetric) (pc : ProducerPc BlockField) :
    Option (TicketLane BlockIoMetric × ProducerPc BlockField) :=
  blockPool.producerStep me metric lane pc

/-- One access of `block_telemetry_bio_submit`, which builds the metric in a local variable and
commits it. -/
def blockTelemetryBioSubmit (api : BlockApi) (me : ℕ) (bio : Option Bio)
    (lane : TicketLane BlockIoMetric) (pc : ProducerPc BlockField) :
    Option (TicketLane BlockIoMetric × ProducerPc BlockField) :=
  blockTelemetryCommitMetric me (bioMetric api bio) lane pc

/-- **The block filter at work**: commits of the given metrics, and the block client. -/
abbrev blockNext (metrics : ℕ → Option BlockIoMetric) :
    PoolState BlockIoMetric BlockField → PoolAction → Option (PoolState BlockIoMetric BlockField) :=
  blockPool.poolNext metrics

/-- Its producers are calls of the commit. -/
theorem blockNext_producer (metrics : ℕ → Option BlockIoMetric)
    (s : PoolState BlockIoMetric BlockField) (c : ℕ) :
    blockNext metrics s (.producer c)
      = (blockTelemetryCommitMetric c (metrics c) s.lane (s.producer c)).map fun p =>
          { s with lane := p.1, producer := Function.update s.producer c p.2 } := rfl

/-! ## The client side -/

/-- The numbers in a line of `process_block_metric`. -/
structure BlockLine where
  ticket : UInt32
  devMajor : UInt32
  devMinor : UInt32
  sector : UInt64
  nsect : UInt32
  bytes : UInt32
  op : UInt32
  flags : UInt32
  deriving DecidableEq, Repr

/-- `process_block_metric` on the slot contents it has read. -/
def processBlockMetric (slotTicket : UInt32) (metric : BlockIoMetric) : BlockLine where
  ticket := slotTicket
  devMajor := metric.devMajor
  devMinor := metric.devMinor
  sector := (metric.sectorHigh.toUInt64 <<< 32) ||| metric.sectorLow.toUInt64
  nsect := metric.nrSectors
  bytes := metric.bytes
  op := metric.op
  flags := metric.flags

/-- **Splitting a sector and recombining it** gives the sector back. -/
theorem sector_recombine (sector : UInt64) :
    ((sector >>> 32).toUInt32.toUInt64 <<< 32) ||| sector.toUInt32.toUInt64 = sector := by
  have hlt : sector.toNat < 2 ^ 64 := sector.toNat_lt
  have hhigh : ((sector >>> 32).toUInt32.toUInt64 <<< 32).toNat
      = (sector.toNat / 2 ^ 32) <<< 32 := by
    rw [UInt64.toNat_shiftLeft, UInt32.toNat_toUInt64, UInt64.toNat_toUInt32,
      UInt64.toNat_shiftRight]
    simp only [UInt64.toNat_ofNat, Nat.shiftLeft_eq, Nat.shiftRight_eq_div_pow, Nat.reducePow,
      Nat.reduceMod]
    omega
  have hlow : sector.toUInt32.toUInt64.toNat = sector.toNat % 2 ^ 32 := by simp
  rw [← UInt64.toNat_inj, UInt64.toNat_or, hhigh, hlow,
    ← Nat.shiftLeft_add_eq_or_of_lt (Nat.mod_lt _ (by decide)), Nat.shiftLeft_eq]
  omega

/-- **`bytes >> 9` counts whole sectors.** -/
theorem toNat_shiftRight_nine (bytes : UInt32) : (bytes >>> 9).toNat = bytes.toNat / 512 := by
  rw [UInt32.toNat_shiftRight, Nat.shiftRight_eq_div_pow]
  rfl

end TelemetrySubsystem
