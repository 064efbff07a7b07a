import TelemetrySubsystem.CharRing.Fifo

/-! # The threads of the stress test

One thread writes messages with `dev_write`, the other takes them out of the char ring: `consumer`
through `dev_read`, `zero_copy_consumer` straight from the mapped page. The second one skips most of
its kicks while it drains the ring.

* **`ZeroCopyConsumer`**, **`ConsumerThread`** and **`ProducerThread`** are the threads with their
  locals and counters.
* **`zeroCopyStep`**, **`consumerThreadStep`**, **`producerThreadStep`** are one access of each.

The user copies go to and from buffers on the threads' own stacks, so they do not fault. -/

namespace TelemetrySubsystem

open WrapCounter

/-! ## `zero_copy_consumer` -/

/-- Program points of `zero_copy_consumer`, each in front of one access. -/
inductive ZeroCopyPc
  /-- Load `rd_idx`: an iteration starts. -/
  | loadRd
  /-- Load `wr_idx` and compare. -/
  | loadWr (currentReadIndex : UInt32)
  /-- Load the byte. -/
  | loadByte (currentReadIndex : UInt32)
  /-- Store `rd_idx` and count the byte. -/
  | storeRd (currentReadIndex : UInt32)
  /-- Load `state_flags`, to kick the writer or to skip the kick. -/
  | loadFlags
  /-- Issue `TELEMETRY_IOC_WAKE_WRITER`. -/
  | kick
  /-- Empty: load `state_flags`. -/
  | emptyFlags
  /-- Empty: issue `TELEMETRY_IOC_WAKE_WRITER`. -/
  | emptyKick
  /-- Empty: load `writer_is_finished_flag`. -/
  | testFinished
  /-- Returned. -/
  | done
  deriving DecidableEq, Repr

/-- **`zero_copy_consumer` with its locals.** Nothing that is proved depends on the value of
`kick_count`, an `int` in the source and unbounded here. -/
structure ZeroCopyConsumer where
  pc : ZeroCopyPc
  kickCount : ℤ
  readerCount : ℕ
  deriving DecidableEq, Repr

/-- The thread at the head of its loop. -/
def ZeroCopyConsumer.start (kickCount : ℤ) : ZeroCopyConsumer := ⟨.loadRd, kickCount, 0⟩

/-- **One step of `zero_copy_consumer`**; `finished` is the value of `writer_is_finished_flag`. -/
def zeroCopyStep (moduloDivisor : ℤ) (finished : Bool) (r : ByteRing) (k : ZeroCopyConsumer) :
    Option (ByteRing × ZeroCopyConsumer) :=
  match k.pc with
  | .loadRd => some (r, { k with pc := .loadWr r.rdIdx })
  | .loadWr currentReadIndex =>
      if currentReadIndex ≠ r.wrIdx then some (r, { k with pc := .loadByte currentReadIndex })
      else some (r, { k with pc := .emptyFlags })
  | .loadByte currentReadIndex => some (r, { k with pc := .storeRd currentReadIndex })
  | .storeRd currentReadIndex =>
      some
        ({ r with rdIdx := next ringBufferCapacity currentReadIndex, removed := r.removed + 1 },
          { k with pc := .loadFlags, readerCount := k.readerCount + 1 })
  | .loadFlags =>
      if r.stateFlags &&& flagWriterAsleep ≠ 0 then
        if k.kickCount = 0 then some (r, { k with pc := .kick })
        else
          -- the kick is skipped, and counted
          some (r, { k with pc := .loadRd, kickCount := (k.kickCount + 1).tmod moduloDivisor })
      else some (r, { k with pc := .loadRd })
  | .kick => some (r.wakeUp, { k with pc := .loadRd, kickCount := 1 })
  | .emptyFlags =>
      if r.stateFlags &&& flagWriterAsleep ≠ 0 then some (r, { k with pc := .emptyKick })
      else some (r, { k with pc := .testFinished })
  | .emptyKick => some (r.wakeUp, { k with pc := .testFinished })
  | .testFinished => some (r, { k with pc := if finished then .done else .loadRd })
  | .done => none

/-! ## `consumer` -/

/-- Program points of `consumer` outside `dev_read`. -/
inductive ConsumerThreadPc
  /-- Call `read`. -/
  | call
  /-- Inside `dev_read`, or just back from it. -/
  | inside
  /-- Nothing was read: load `writer_is_finished_flag`. -/
  | testFinished
  /-- Returned. -/
  | done
  deriving DecidableEq, Repr

/-- **`consumer` with its `dev_read` calls** and its count. -/
structure ConsumerThread where
  pc : ConsumerThreadPc
  read : DevRead
  readerCount : ℕ
  deriving DecidableEq, Repr

/-- The thread at the head of its loop. -/
def ConsumerThread.start : ConsumerThread := ⟨.call, .start, 0⟩

/-- `sizeof(buf) - 1`. -/
def consumerReadSize : ℕ := 32 - 1

/-- **One step of `consumer`.** -/
def consumerThreadStep (finished : Bool) (r : ByteRing) (k : ConsumerThread) :
    Option (ByteRing × ConsumerThread) :=
  match k.pc with
  | .call =>
      (devReadStep r k.read (.call consumerReadSize)).map fun p =>
        (p.1, { k with pc := .inside, read := p.2 })
  | .inside =>
      match k.read.pc with
      | .idle bytesRead =>
          if 0 < bytesRead then
            some (r, { k with pc := .call, readerCount := k.readerCount + bytesRead.toNat })
          else if bytesRead = 0 then some (r, { k with pc := .testFinished })
          else some (r, { k with pc := .call })
      | _ => (devReadStep r k.read .ok).map fun p => (p.1, { k with read := p.2 })
  | .testFinished => some (r, { k with pc := if finished then .done else .call })
  | .done => none

/-! ## `producer` -/

/-- `sprintf(msg, "VAL_%d", i)`. -/
def message (i : ℕ) : List UInt8 :=
  ("VAL_".toList ++ Nat.toDigits 10 i).map fun c => UInt8.ofNat c.toNat

/-- Program points of `producer` outside `dev_write`. -/
inductive ProducerThreadPc
  /-- `i < iterations`. -/
  | loop
  /-- Inside `dev_write`, or just back from it. -/
  | inside
  /-- Store `writer_is_finished_flag`. -/
  | finish
  /-- Returned. -/
  | done
  deriving DecidableEq, Repr

/-- **`producer` with its `dev_write` calls** and its counts. -/
structure ProducerThread where
  pc : ProducerThreadPc
  i : ℕ
  write : DevWrite
  writerCount : ℕ
  totalBytes : ℕ
  deriving DecidableEq, Repr

/-- The thread before its first iteration. -/
def ProducerThread.start : ProducerThread := ⟨.loop, 0, .start [], 0, 0⟩

/-- **One step of `producer`**, on the ring and on `writer_is_finished_flag`. -/
def producerThreadStep (iterations : ℕ) (r : ByteRing) (finished : Bool) (p : ProducerThread) :
    Option (ByteRing × Bool × ProducerThread) :=
  match p.pc with
  | .loop =>
      if p.i < iterations then
        some (r, finished, { p with pc := .inside, write := .start (message p.i) })
      else some (r, finished, { p with pc := .finish })
  | .inside =>
      match p.write.pc with
      | .done bytesWritten =>
          some (r, finished, { p with
            pc := .loop
            i := p.i + 1
            writerCount :=
              if 0 < bytesWritten then p.writerCount + bytesWritten.toNat else p.writerCount
            totalBytes := p.totalBytes + (message p.i).length })
      | _ =>
          (devWriteStep 0 r p.write .ok).map fun q => (q.1, finished, { p with write := q.2 })
  | .finish => some (r, true, { p with pc := .done })
  | .done => none

end TelemetrySubsystem
