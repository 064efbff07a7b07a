import TelemetrySubsystem.Foundations.WrapCounter
import TelemetrySubsystem.SharedPage.Layout

/-! # The byte rings: one memory access at a time

The char ring is filled by `dev_write` and `telemetry_shared_char_dev_push_metric` under
`telemetry_char_write_lock` and drained by `dev_read` without a lock; the net lane is filled as a
byte ring by `telemetry_net_dev_push_metric`, without a lock. Each of these functions is given here
as a step function over a program counter, one load, store, lock operation or user copy to a step,
so that calls can be interleaved between any two accesses.

* **`ByteRing`** is what the calls share: a lane's control words, the buffer, the spinlock and the
  wait queue, and two history variables that no step reads.
* **`devWriteStep`**, **`telemetrySharedCharDevPushMetric`**, **`telemetryNetDevPushMetric`** and
  **`devReadStep`** are the four functions.
* **`DevWriteMove`** says once what a step of `dev_write`, the longest of them, can do.

Barriers have no step of their own: memory is sequentially consistent. -/

namespace TelemetrySubsystem

open WrapCounter
open Function (update)

/-! ## The shared state -/

/-- **A lane used as a byte ring**, with the lock and the wait queue that guard it. Memory behind
the buffer is addressed from the buffer's start, so an index past the capacity is a cell outside the
tenant's buffer. -/
structure ByteRing where
  rdIdx : UInt32
  wrIdx : UInt32
  stateFlags : UInt32
  /-- Memory from the first byte of the buffer on. -/
  buffer : ℕ → UInt8
  /-- The call that holds `telemetry_char_write_lock`. -/
  lock : Option ℕ
  /-- The calls enqueued on `char_wait_queue` and not woken since. -/
  waitQueue : List ℕ
  /-- History: every byte appended, with the call that appended it. -/
  appended : List (ℕ × UInt8)
  /-- History: how often `rd_idx` was advanced. -/
  removed : ℕ

/-- The ring of the zeroed page. -/
def ByteRing.zeroed : ByteRing where
  rdIdx := 0
  wrIdx := 0
  stateFlags := 0
  buffer := fun _ => 0
  lock := none
  waitQueue := []
  appended := []
  removed := 0

/-- `wake_up_interruptible`: no waiter is exclusive, so every entry is dequeued and runnable. -/
def ByteRing.wakeUp (r : ByteRing) : ByteRing := { r with waitQueue := [] }

/-- Advance `wr_idx`, which appends the byte found in the cell it leaves. -/
def ByteRing.publish (r : ByteRing) (me : ℕ) (nextWriteIndex : UInt32) : ByteRing :=
  { r with
    wrIdx := nextWriteIndex
    appended := r.appended ++ [(me, r.buffer r.wrIdx.toNat)] }

/-- What the environment does at a step that can go more than one way: it succeeds, the user copy
faults, or a signal is pending. -/
inductive Outcome
  | ok
  | fault
  | signal
  deriving DecidableEq, Repr

/-! ## `dev_write` -/

/-- Where `wait_event_interruptible` stands when it tests its condition: before it enqueues the
task, after it did, or with a signal pending. -/
inductive WaitPhase
  | first
  | queued
  | interrupted
  deriving DecidableEq, Repr

/-- Program points of `dev_write`, each in front of one access. -/
inductive DevWritePc
  /-- The test for the zero-length kick. -/
  | entry
  /-- `spin_lock_irqsave` at the loop head. -/
  | acquire
  /-- Load `wr_idx` for `next_write_index`. -/
  | loadWr
  /-- Load `rd_idx` and compare. -/
  | loadRd (nextWriteIndex : UInt32)
  /-- Full: load `state_flags` to raise the sleep flag. -/
  | raiseLoad
  /-- Full: store `state_flags` with the sleep flag raised. -/
  | raiseStore (stateFlags : UInt32)
  /-- Full: unlock before sleeping. -/
  | raiseRelease
  /-- `wait_event_interruptible`: load `wr_idx` for the condition. -/
  | condWr (phase : WaitPhase)
  /-- `wait_event_interruptible`: load `rd_idx` and decide the condition. -/
  | condRd (phase : WaitPhase) (nextWriteIndex : UInt32)
  /-- `prepare_to_wait_event`. -/
  | prepare
  /-- `schedule()`: off the processor until dequeued by a wake-up or hit by a signal. -/
  | asleep
  /-- Woken: lock to clear the flag. -/
  | reacquire
  /-- Woken: load `state_flags`. -/
  | clearLoad
  /-- Woken: store `state_flags` with the sleep flag cleared. -/
  | clearStore (stateFlags : UInt32)
  /-- Woken: unlock and go round the loop again. -/
  | clearRelease
  /-- Load `wr_idx` as the index of the store. -/
  | index (nextWriteIndex : UInt32)
  /-- `get_user` into the cell. -/
  | copy (nextWriteIndex idx : UInt32)
  /-- Store `wr_idx`. -/
  | publish (nextWriteIndex : UInt32)
  /-- Unlock, count the byte and test `len`. -/
  | release
  /-- Unlock after a failed `get_user`. -/
  | faultRelease
  /-- Returned. -/
  | done (ret : ℤ)
  deriving DecidableEq, Repr

/-- The locals of a `dev_write` call: the bytes of the user buffer still to be written (so `len` is
its length) and `bytes_written`. -/
structure DevWrite where
  pc : DevWritePc
  rest : List UInt8
  bytesWritten : ℕ
  deriving DecidableEq, Repr

/-- A `dev_write` call on the given user buffer, before its first step. -/
def DevWrite.start (buffer : List UInt8) : DevWrite := ⟨.entry, buffer, 0⟩

/-- `while (len > 0)`. -/
def DevWrite.loopHead (rest : List UInt8) (bytesWritten : ℕ) : DevWrite :=
  if rest = [] then ⟨.done bytesWritten, rest, bytesWritten⟩ else ⟨.acquire, rest, bytesWritten⟩

/-- **One step of `dev_write`** by call `me`. A failed `get_user` has zeroed its destination, the
cell at `wr_idx`, before the error return. -/
def devWriteStep (me : ℕ) (r : ByteRing) (w : DevWrite) (o : Outcome) :
    Option (ByteRing × DevWrite) :=
  match w.pc with
  | .entry =>
      if w.rest = [] then some (r.wakeUp, { w with pc := .done 0 })
      else some (r, { w with pc := .acquire })
  | .acquire =>
      if r.lock = none then some ({ r with lock := some me }, { w with pc := .loadWr }) else none
  | .loadWr => some (r, { w with pc := .loadRd (next ringBufferCapacity r.wrIdx) })
  | .loadRd nextWriteIndex =>
      if nextWriteIndex = r.rdIdx then some (r, { w with pc := .raiseLoad })
      else some (r, { w with pc := .index nextWriteIndex })
  | .raiseLoad => some (r, { w with pc := .raiseStore (r.stateFlags ||| flagWriterAsleep) })
  | .raiseStore stateFlags =>
      some ({ r with stateFlags := stateFlags }, { w with pc := .raiseRelease })
  | .raiseRelease => some ({ r with lock := none }, { w with pc := .condWr .first })
  | .condWr phase =>
      some (r, { w with pc := .condRd phase (next ringBufferCapacity r.wrIdx) })
  | .condRd phase nextWriteIndex =>
      if nextWriteIndex = r.rdIdx then
        match phase with
        | .first => some (r, { w with pc := .prepare })
        | .queued => some (r, { w with pc := .asleep })
        | .interrupted => some (r, { w with pc := .done negERESTARTSYS })
      else
        -- the condition holds: `finish_wait` leaves the queue and the wait returns 0
        some ({ r with waitQueue := r.waitQueue.filter (· ≠ me) }, { w with pc := .reacquire })
  | .prepare =>
      if o = .signal then some (r, { w with pc := .condWr .interrupted })
      else some ({ r with waitQueue := me :: r.waitQueue }, { w with pc := .condWr .queued })
  | .asleep =>
      if o = .signal then
        -- back in `prepare_to_wait_event`: dequeued, and the condition is tested once more
        some ({ r with waitQueue := r.waitQueue.filter (· ≠ me) },
          { w with pc := .condWr .interrupted })
      else if me ∈ r.waitQueue then none
      else some (r, { w with pc := .prepare })
  | .reacquire =>
      if r.lock = none then some ({ r with lock := some me }, { w with pc := .clearLoad }) else none
  | .clearLoad => some (r, { w with pc := .clearStore (r.stateFlags &&& ~~~flagWriterAsleep) })
  | .clearStore stateFlags =>
      some ({ r with stateFlags := stateFlags }, { w with pc := .clearRelease })
  | .clearRelease => some ({ r with lock := none }, { w with pc := .acquire })
  | .index nextWriteIndex => some (r, { w with pc := .copy nextWriteIndex r.wrIdx })
  | .copy nextWriteIndex idx =>
      match w.rest with
      | [] => none
      | b :: _ =>
          if o = .fault then
            some ({ r with buffer := update r.buffer idx.toNat 0 }, { w with pc := .faultRelease })
          else
            some ({ r with buffer := update r.buffer idx.toNat b },
              { w with pc := .publish nextWriteIndex })
  | .publish nextWriteIndex => some (r.publish me nextWriteIndex, { w with pc := .release })
  | .release =>
      some ({ r with lock := none }, DevWrite.loopHead w.rest.tail (w.bytesWritten + 1))
  | .faultRelease => some ({ r with lock := none }, { w with pc := .done negEFAULT })
  | .done _ => none

/-- **What a step of `dev_write` can do**, by program point and with the tests it has passed; `rest`
and `n` are the locals before the step. -/
inductive DevWriteMove (me : ℕ) (r : ByteRing) (rest : List UInt8) (n : ℕ) (o : Outcome) :
    DevWritePc → ByteRing → DevWrite → Prop
  | kick : rest = [] → DevWriteMove me r rest n o .entry r.wakeUp ⟨.done 0, rest, n⟩
  | enter : rest ≠ [] → DevWriteMove me r rest n o .entry r ⟨.acquire, rest, n⟩
  | acquire : r.lock = none →
      DevWriteMove me r rest n o .acquire { r with lock := some me } ⟨.loadWr, rest, n⟩
  | loadWr : DevWriteMove me r rest n o .loadWr r
      ⟨.loadRd (next ringBufferCapacity r.wrIdx), rest, n⟩
  | full {nxt : UInt32} : nxt = r.rdIdx →
      DevWriteMove me r rest n o (.loadRd nxt) r ⟨.raiseLoad, rest, n⟩
  | free {nxt : UInt32} : nxt ≠ r.rdIdx →
      DevWriteMove me r rest n o (.loadRd nxt) r ⟨.index nxt, rest, n⟩
  | raiseLoad : DevWriteMove me r rest n o .raiseLoad r
      ⟨.raiseStore (r.stateFlags ||| flagWriterAsleep), rest, n⟩
  | raiseStore {v : UInt32} : DevWriteMove me r rest n o (.raiseStore v) { r with stateFlags := v }
      ⟨.raiseRelease, rest, n⟩
  | raiseRelease : DevWriteMove me r rest n o .raiseRelease { r with lock := none }
      ⟨.condWr .first, rest, n⟩
  | condWr {phase : WaitPhase} : DevWriteMove me r rest n o (.condWr phase) r
      ⟨.condRd phase (next ringBufferCapacity r.wrIdx), rest, n⟩
  | stillFullFirst {nxt : UInt32} : nxt = r.rdIdx →
      DevWriteMove me r rest n o (.condRd .first nxt) r ⟨.prepare, rest, n⟩
  | stillFullQueued {nxt : UInt32} : nxt = r.rdIdx →
      DevWriteMove me r rest n o (.condRd .queued nxt) r ⟨.asleep, rest, n⟩
  /-- A signal ends the wait on a full ring. -/
  | restart {nxt : UInt32} : nxt = r.rdIdx →
      DevWriteMove me r rest n o (.condRd .interrupted nxt) r ⟨.done negERESTARTSYS, rest, n⟩
  | waited {phase : WaitPhase} {nxt : UInt32} : nxt ≠ r.rdIdx →
      DevWriteMove me r rest n o (.condRd phase nxt)
        { r with waitQueue := r.waitQueue.filter (· ≠ me) } ⟨.reacquire, rest, n⟩
  | signalled : o = .signal →
      DevWriteMove me r rest n o .prepare r ⟨.condWr .interrupted, rest, n⟩
  | enqueue : o ≠ .signal →
      DevWriteMove me r rest n o .prepare { r with waitQueue := me :: r.waitQueue }
        ⟨.condWr .queued, rest, n⟩
  | disturbed : o = .signal →
      DevWriteMove me r rest n o .asleep { r with waitQueue := r.waitQueue.filter (· ≠ me) }
        ⟨.condWr .interrupted, rest, n⟩
  | woken : o ≠ .signal → me ∉ r.waitQueue →
      DevWriteMove me r rest n o .asleep r ⟨.prepare, rest, n⟩
  | reacquire : r.lock = none →
      DevWriteMove me r rest n o .reacquire { r with lock := some me } ⟨.clearLoad, rest, n⟩
  | clearLoad : DevWriteMove me r rest n o .clearLoad r
      ⟨.clearStore (r.stateFlags &&& ~~~flagWriterAsleep), rest, n⟩
  | clearStore {v : UInt32} : DevWriteMove me r rest n o (.clearStore v) { r with stateFlags := v }
      ⟨.clearRelease, rest, n⟩
  | clearRelease :
      DevWriteMove me r rest n o .clearRelease { r with lock := none } ⟨.acquire, rest, n⟩
  | index {nxt : UInt32} :
      DevWriteMove me r rest n o (.index nxt) r ⟨.copy nxt r.wrIdx, rest, n⟩
  /-- A failed `get_user`. -/
  | spoil {nxt idx : UInt32} : rest ≠ [] → o = .fault →
      DevWriteMove me r rest n o (.copy nxt idx)
        { r with buffer := update r.buffer idx.toNat 0 } ⟨.faultRelease, rest, n⟩
  | fill {nxt idx : UInt32} {b : UInt8} {bs : List UInt8} : rest = b :: bs → o ≠ .fault →
      DevWriteMove me r rest n o (.copy nxt idx)
        { r with buffer := update r.buffer idx.toNat b } ⟨.publish nxt, rest, n⟩
  | publish {nxt : UInt32} :
      DevWriteMove me r rest n o (.publish nxt) (r.publish me nxt) ⟨.release, rest, n⟩
  /-- That was the last byte. -/
  | finish : rest.tail = [] →
      DevWriteMove me r rest n o .release { r with lock := none } ⟨.done ↑(n + 1), rest.tail, n + 1⟩
  | again : rest.tail ≠ [] →
      DevWriteMove me r rest n o .release { r with lock := none } ⟨.acquire, rest.tail, n + 1⟩
  | faultRelease :
      DevWriteMove me r rest n o .faultRelease { r with lock := none } ⟨.done negEFAULT, rest, n⟩

/-- **Inversion of a step of `dev_write`.** -/
theorem devWriteStep_move {me : ℕ} {r r' : ByteRing} {w w' : DevWrite} {o : Outcome}
    (h : devWriteStep me r w o = some (r', w')) :
    DevWriteMove me r w.rest w.bytesWritten o w.pc r' w' := by
  obtain ⟨pc, rest, n⟩ := w
  cases pc
  all_goals simp only [devWriteStep] at h
  case entry =>
    split at h <;> cases h
    · exact .kick ‹_›
    · exact .enter ‹_›
  case acquire =>
    split at h <;> cases h
    exact .acquire ‹_›
  case loadRd nxt =>
    split at h <;> cases h
    · exact .full ‹_›
    · exact .free ‹_›
  case condRd phase nxt =>
    split at h
    · cases phase <;> cases h
      · exact .stillFullFirst ‹_›
      · exact .stillFullQueued ‹_›
      · exact .restart ‹_›
    · cases h
      exact .waited ‹_›
  case prepare =>
    split at h <;> cases h
    · exact .signalled ‹_›
    · exact .enqueue ‹_›
  case asleep =>
    split at h
    · cases h
      exact .disturbed ‹_›
    · split at h <;> cases h
      exact .woken ‹_› ‹_›
  case reacquire =>
    split at h <;> cases h
    exact .reacquire ‹_›
  case copy nxt idx =>
    cases rest with
    | nil => cases h
    | cons b bs =>
        simp only at h
        split at h <;> cases h
        · exact .spoil (List.cons_ne_nil b bs) ‹_›
        · exact .fill rfl ‹_›
  case release =>
    cases h
    unfold DevWrite.loopHead
    split
    · exact .finish ‹_›
    · exact .again ‹_›
  case done => cases h
  all_goals cases h
  case loadWr => exact .loadWr
  case raiseLoad => exact .raiseLoad
  case raiseStore => exact .raiseStore
  case raiseRelease => exact .raiseRelease
  case condWr => exact .condWr
  case clearLoad => exact .clearLoad
  case clearStore => exact .clearStore
  case clearRelease => exact .clearRelease
  case index => exact .index
  case publish => exact .publish
  case faultRelease => exact .faultRelease

/-! ## The two metric pushes -/

/-- Program points of a metric push; `i` is the loop counter. -/
inductive PushPc
  /-- The null checks. -/
  | entry
  /-- `spin_lock_irqsave`. -/
  | acquire
  /-- Load `wr_idx` for `next_write`. -/
  | loadWr (i : ℕ)
  /-- Load `rd_idx` and compare. -/
  | loadRd (i : ℕ) (nextWrite : UInt32)
  /-- Load `wr_idx` as the index of the store. -/
  | index (i : ℕ) (nextWrite : UInt32)
  /-- Store byte `i` of the metric. -/
  | copy (i : ℕ) (nextWrite idx : UInt32)
  /-- Store `wr_idx`. -/
  | publish (i : ℕ) (nextWrite : UInt32)
  /-- Unlock and return. -/
  | release (ret : ℤ)
  /-- Returned. -/
  | done (ret : ℤ)
  deriving DecidableEq, Repr

/-- Return, through the unlock where the push holds the lock. -/
def PushPc.leave (locked : Bool) (ret : ℤ) : PushPc := if locked then .release ret else .done ret

/-- `for (i = 0; i < bytes_to_write; i++)`. -/
def PushPc.loopHead (locked : Bool) (i : ℕ) : PushPc :=
  if i < sizeofNetPacketMetric then .loadWr i else .leave locked 0

/-- **One step of a metric push** into a ring of `actualBufferSize` bytes, with or without the write
lock. `metric` is `none` for a null pointer. -/
def pushMetricStep (actualBufferSize : UInt32) (locked : Bool) (metric : Option NetPacketMetric)
    (me : ℕ) (r : ByteRing) : PushPc → Option (ByteRing × PushPc)
  | .entry =>
      if metric = none then some (r, .done negENODEV)
      else some (r, if locked then .acquire else .loopHead locked 0)
  | .acquire =>
      if r.lock = none then some ({ r with lock := some me }, .loopHead locked 0) else none
  | .loadWr i => some (r, .loadRd i (next actualBufferSize r.wrIdx))
  | .loadRd i nextWrite =>
      if nextWrite = r.rdIdx then some (r, .leave locked negENOSPC)
      else some (r, .index i nextWrite)
  | .index i nextWrite => some (r, .copy i nextWrite r.wrIdx)
  | .copy i nextWrite idx =>
      match metric with
      | none => none
      | some m =>
          some ({ r with buffer := update r.buffer idx.toNat (m.bytes.getD i 0) },
            .publish i nextWrite)
  | .publish i nextWrite => some (r.publish me nextWrite, .loopHead locked (i + 1))
  | .release ret => some ({ r with lock := none }, .done ret)
  | .done _ => none

/-- One step of `telemetry_shared_char_dev_push_metric`. -/
def telemetrySharedCharDevPushMetric (metric : Option NetPacketMetric) (me : ℕ) (r : ByteRing)
    (pc : PushPc) : Option (ByteRing × PushPc) :=
  pushMetricStep ringBufferCapacity true metric me r pc

/-- One step of `telemetry_net_dev_push_metric`. -/
def telemetryNetDevPushMetric (metric : Option NetPacketMetric) (me : ℕ) (r : ByteRing)
    (pc : PushPc) : Option (ByteRing × PushPc) :=
  pushMetricStep netfilterRingBufferCapacity false metric me r pc

/-! ## `dev_read` -/

/-- What the environment does to a reader: it starts the next call with some length, lets the step
succeed, or makes `put_user` fault. -/
inductive ReadOutcome
  | call (len : ℕ)
  | ok
  | fault
  deriving DecidableEq, Repr

/-- Program points of `dev_read`. -/
inductive DevReadPc
  /-- Between calls; holds what the last call returned. -/
  | idle (ret : ℤ)
  /-- Load `wr_idx` into `snapshot_write_index`. -/
  | loadWr
  /-- Load `rd_idx` and compare. -/
  | loadRd (snapshotWriteIndex : UInt32)
  /-- Load `rd_idx` as the index of the load. -/
  | index
  /-- Load the byte. -/
  | loadByte (idx : UInt32)
  /-- `put_user`. -/
  | putUser (byte : UInt8)
  /-- Load `rd_idx` to advance it. -/
  | reload
  /-- Store `rd_idx`. -/
  | advance (nextReadIndex : UInt32)
  /-- Wake the writers if any byte was read, and return. -/
  | leave
  deriving DecidableEq, Repr

/-- The locals of a reader thread that makes one `dev_read` call after another: `len` and
`bytes_read` of the running call, `data_ready`, and all bytes put to user space so far. -/
structure DevRead where
  pc : DevReadPc
  len : ℕ
  bytesRead : ℕ
  dataReady : Bool
  output : List UInt8
  deriving DecidableEq, Repr

/-- A reader thread before its first call. -/
def DevRead.start : DevRead := ⟨.idle 0, 0, 0, false, []⟩

/-- `while ( len > 0 )`. -/
def DevRead.loopHead (d : DevRead) : DevRead :=
  if 0 < d.len then { d with pc := .loadWr } else { d with pc := .leave }

/-- **One step of `dev_read`**. -/
def devReadStep (r : ByteRing) (d : DevRead) (o : ReadOutcome) : Option (ByteRing × DevRead) :=
  match d.pc with
  | .idle _ =>
      match o with
      | .call len =>
          some (r, DevRead.loopHead { d with len := len, bytesRead := 0, dataReady := false })
      | _ => none
  | .loadWr => some (r, { d with pc := .loadRd r.wrIdx })
  | .loadRd snapshotWriteIndex =>
      if r.rdIdx = snapshotWriteIndex then some (r, { d with pc := .leave })
      else some (r, { d with pc := .index })
  | .index => some (r, { d with pc := .loadByte r.rdIdx })
  | .loadByte idx => some (r, { d with pc := .putUser (r.buffer idx.toNat) })
  | .putUser byte =>
      -- a fault returns from the middle of the loop, past the wake-up at the end
      if o = .fault then some (r, { d with pc := .idle negEFAULT })
      else some (r, { d with pc := .reload, output := d.output ++ [byte] })
  | .reload => some (r, { d with pc := .advance (next ringBufferCapacity r.rdIdx) })
  | .advance nextReadIndex =>
      some ({ r with rdIdx := nextReadIndex, removed := r.removed + 1 },
        DevRead.loopHead
          { d with len := d.len - 1, bytesRead := d.bytesRead + 1, dataReady := true })
  | .leave =>
      some (if d.dataReady then r.wakeUp else r, { d with pc := .idle d.bytesRead })

end TelemetrySubsystem
