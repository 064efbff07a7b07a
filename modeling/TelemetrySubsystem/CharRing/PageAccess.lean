import TelemetrySubsystem.CharRing.Fifo
import TelemetrySubsystem.Foundations.SharedMemory
import TelemetrySubsystem.SharedPage.Page

/-! # The char ring, one access to memory at a time

Writers and reader reach the ring through the shared page: its three control words in `char_ctl` and
its bytes in `char_buffer`. The spinlock and the wait queue are variables of the kernel module and
not on the page.

* **`CharThreads`** is what is not on the page; **`decodeChar`** reads the rest off it.
* **`charAccess`** is the access of a step, and how the step goes on.
* **`charNext_decode`**: with one reader, a step on the page is, decoded, the step on the ring. It
  rests on the invariant of the ring: a store outside the buffer would hit another tenant.
* **`charTenant`** is the ring as a tenant of the page. -/

namespace TelemetrySubsystem

open ActionSystem ByteMemory SharedMemory WrapCounter
open Function (update)

/-! ## Decoding -/

/-- `char_ctl.rx.rd_idx`. -/
def charRdIdx : ℕ := RingMember.rdIdx .charCtl

/-- `char_ctl.tx.wr_idx`. -/
def charWrIdx : ℕ := RingMember.wrIdx .charCtl

/-- `char_ctl.ctrl.state_flags`. -/
def charStateFlags : ℕ := RingMember.stateFlags .charCtl

/-- `char_buffer[i]`. -/
def charByte (i : ℕ) : ℕ := RingMember.address .charBuffer + i

/-- The three control words come before the buffer, a cache line apart. -/
theorem char_places : charRdIdx = 0 ∧ charWrIdx = 64 ∧ charStateFlags = 128 ∧
    ∀ i, charByte i = 1024 + i := by
  refine ⟨by decide, by decide, by decide, fun i => ?_⟩
  have haddr : RingMember.address .charBuffer = 1024 := by decide
  rw [charByte, haddr]

/-- **What the threads of the char ring keep outside the page**, and the history of the ring. -/
structure CharThreads where
  writer : ℕ → Writer
  reader : ℕ → DevRead
  /-- The call that holds `telemetry_char_write_lock`. -/
  lock : Option ℕ
  /-- `char_wait_queue`. -/
  waitQueue : List ℕ
  /-- History: every byte appended, with the call that appended it. -/
  appended : List (ℕ × UInt8)
  /-- History: how often `rd_idx` was advanced. -/
  removed : ℕ

/-- The ring, as the bytes of the page have it. -/
def decodeRing (m : Memory) (l : CharThreads) : ByteRing where
  rdIdx := word m charRdIdx
  wrIdx := word m charWrIdx
  stateFlags := word m charStateFlags
  buffer := fun i => if i < 1024 then m (charByte i) else 0
  lock := l.lock
  waitQueue := l.waitQueue
  appended := l.appended
  removed := l.removed

/-- **The state of the char device**, as the bytes of the page have it. -/
def decodeChar (m : Memory) (l : CharThreads) : CharState := ⟨decodeRing m l, l.writer, l.reader⟩

/-! ## What a store does to the ring -/

/-- **Store `rd_idx`.** -/
theorem decodeRing_store_rdIdx (m : Memory) (l : CharThreads) (v : UInt32) :
    decodeRing (store m charRdIdx 4 v.toNat) l = { decodeRing m l with rdIdx := v } := by
  obtain ⟨hrd, hwr, hflags, hbyte⟩ := char_places
  have hbuf (i : ℕ) : store m charRdIdx 4 v.toNat (charByte i) = m (charByte i) := by
    refine store_of_notMem ?_
    rw [hrd, hbyte, Set.mem_Ico]
    omega
  simp only [decodeRing, word_store_same, hbuf]
  rw [word_store_disjoint (b := charWrIdx) (by omega),
    word_store_disjoint (b := charStateFlags) (by omega)]

/-- **Store `wr_idx`.** -/
theorem decodeRing_store_wrIdx (m : Memory) (l : CharThreads) (v : UInt32) :
    decodeRing (store m charWrIdx 4 v.toNat) l = { decodeRing m l with wrIdx := v } := by
  obtain ⟨hrd, hwr, hflags, hbyte⟩ := char_places
  have hbuf (i : ℕ) : store m charWrIdx 4 v.toNat (charByte i) = m (charByte i) := by
    refine store_of_notMem ?_
    rw [hwr, hbyte, Set.mem_Ico]
    omega
  simp only [decodeRing, word_store_same, hbuf]
  rw [word_store_disjoint (b := charRdIdx) (by omega),
    word_store_disjoint (b := charStateFlags) (by omega)]

/-- **Store `state_flags`.** -/
theorem decodeRing_store_stateFlags (m : Memory) (l : CharThreads) (v : UInt32) :
    decodeRing (store m charStateFlags 4 v.toNat) l = { decodeRing m l with stateFlags := v } := by
  obtain ⟨hrd, hwr, hflags, hbyte⟩ := char_places
  have hbuf (i : ℕ) : store m charStateFlags 4 v.toNat (charByte i) = m (charByte i) := by
    refine store_of_notMem ?_
    rw [hflags, hbyte, Set.mem_Ico]
    omega
  simp only [decodeRing, word_store_same, hbuf]
  rw [word_store_disjoint (b := charRdIdx) (by omega),
    word_store_disjoint (b := charWrIdx) (by omega)]

/-- **Store a byte of the buffer.** -/
theorem decodeRing_store_byte {idx : ℕ} (hidx : idx < 1024) (m : Memory) (l : CharThreads)
    (b : UInt8) :
    decodeRing (store m (charByte idx) 1 b.toNat) l
      = { decodeRing m l with buffer := update (decodeRing m l).buffer idx b } := by
  obtain ⟨hrd, hwr, hflags, hbyte⟩ := char_places
  have hbuf : (fun i => if i < 1024 then store m (charByte idx) 1 b.toNat (charByte i) else 0)
      = update (fun i => if i < 1024 then m (charByte i) else 0) idx b := by
    funext i
    rw [store_byte]
    by_cases hi : i = idx
    · subst hi
      rw [Function.update_self, Function.update_self, if_pos hidx]
    · have hne : charByte i ≠ charByte idx := by
        rw [hbyte, hbyte]
        omega
      rw [Function.update_of_ne hi, Function.update_of_ne hne]
  have hidx' := hbyte idx
  simp only [decodeRing, hbuf]
  rw [word_store_disjoint (b := charRdIdx) (by omega),
    word_store_disjoint (b := charWrIdx) (by omega),
    word_store_disjoint (b := charStateFlags) (by omega)]

/-- A byte of the buffer. -/
theorem decodeRing_load_byte {idx : ℕ} (hidx : idx < 1024) (m : Memory) (l : CharThreads) :
    UInt8.ofNat (load m (charByte idx) 1) = (decodeRing m l).buffer idx := by
  rw [load_byte, UInt8.ofNat_toNat]
  exact (if_pos hidx).symm

/-! ## The access of every step -/

/-- **The access of a step of `dev_write`** by call `me`. -/
def devWriteAccess (me : ℕ) (l : CharThreads) (w : DevWrite) (o : Outcome) :
    Option (MemOp × (ℕ → CharThreads)) :=
  let goOn (l : CharThreads) (pc : DevWritePc) : CharThreads :=
    { l with writer := update l.writer me (.devWrite { w with pc := pc }) }
  match w.pc with
  | .entry =>
      if w.rest = [] then some (.skip, fun _ => goOn { l with waitQueue := [] } (.done 0))
      else some (.skip, fun _ => goOn l .acquire)
  | .acquire =>
      if l.lock = none then some (.skip, fun _ => goOn { l with lock := some me } .loadWr) else none
  | .loadWr => some (.load charWrIdx 4, fun v =>
      goOn l (.loadRd (next ringBufferCapacity (UInt32.ofNat v))))
  | .loadRd nextWriteIndex => some (.load charRdIdx 4, fun v =>
      goOn l (if nextWriteIndex = UInt32.ofNat v then .raiseLoad else .index nextWriteIndex))
  | .raiseLoad => some (.load charStateFlags 4, fun v =>
      goOn l (.raiseStore (UInt32.ofNat v ||| flagWriterAsleep)))
  | .raiseStore stateFlags =>
      some (.store charStateFlags 4 stateFlags.toNat, fun _ => goOn l .raiseRelease)
  | .raiseRelease => some (.skip, fun _ => goOn { l with lock := none } (.condWr .first))
  | .condWr phase => some (.load charWrIdx 4, fun v =>
      goOn l (.condRd phase (next ringBufferCapacity (UInt32.ofNat v))))
  | .condRd phase nextWriteIndex => some (.load charRdIdx 4, fun v =>
      if nextWriteIndex = UInt32.ofNat v then
        match phase with
        | .first => goOn l .prepare
        | .queued => goOn l .asleep
        | .interrupted => goOn l (.done negERESTARTSYS)
      else goOn { l with waitQueue := l.waitQueue.filter (· ≠ me) } .reacquire)
  | .prepare =>
      if o = .signal then some (.skip, fun _ => goOn l (.condWr .interrupted))
      else some (.skip, fun _ => goOn { l with waitQueue := me :: l.waitQueue } (.condWr .queued))
  | .asleep =>
      if o = .signal then
        some (.skip, fun _ =>
          goOn { l with waitQueue := l.waitQueue.filter (· ≠ me) } (.condWr .interrupted))
      else if me ∈ l.waitQueue then none
      else some (.skip, fun _ => goOn l .prepare)
  | .reacquire =>
      if l.lock = none then some (.skip, fun _ => goOn { l with lock := some me } .clearLoad)
      else none
  | .clearLoad => some (.load charStateFlags 4, fun v =>
      goOn l (.clearStore (UInt32.ofNat v &&& ~~~flagWriterAsleep)))
  | .clearStore stateFlags =>
      some (.store charStateFlags 4 stateFlags.toNat, fun _ => goOn l .clearRelease)
  | .clearRelease => some (.skip, fun _ => goOn { l with lock := none } .acquire)
  | .index nextWriteIndex => some (.load charWrIdx 4, fun v =>
      goOn l (.copy nextWriteIndex (UInt32.ofNat v)))
  | .copy nextWriteIndex idx =>
      match w.rest with
      | [] => none
      | b :: _ =>
          if o = .fault then
            some (.store (charByte idx.toNat) 1 (0 : UInt8).toNat, fun _ => goOn l .faultRelease)
          else
            some (.store (charByte idx.toNat) 1 b.toNat, fun _ => goOn l (.publish nextWriteIndex))
  | .publish nextWriteIndex => some (.store charWrIdx 4 nextWriteIndex.toNat, fun _ =>
      goOn { l with appended := l.appended ++ [(me, w.rest.headD 0)] } .release)
  | .release => some (.skip, fun _ =>
      { l with
        lock := none
        writer := update l.writer me
          (.devWrite (DevWrite.loopHead w.rest.tail (w.bytesWritten + 1))) })
  | .faultRelease => some (.skip, fun _ => goOn { l with lock := none } (.done negEFAULT))
  | .done _ => none

/-- **The access of a step of `telemetry_shared_char_dev_push_metric`** by call `me`. -/
def charPushAccess (me : ℕ) (metric : Option NetPacketMetric) (l : CharThreads) (pc : PushPc) :
    Option (MemOp × (ℕ → CharThreads)) :=
  let goOn (l : CharThreads) (pc : PushPc) : CharThreads :=
    { l with writer := update l.writer me (.push metric pc) }
  match pc with
  | .entry => some (.skip, fun _ => goOn l (if metric = none then .done negENODEV else .acquire))
  | .acquire =>
      if l.lock = none then
        some (.skip, fun _ => goOn { l with lock := some me } (.loopHead true 0))
      else none
  | .loadWr i => some (.load charWrIdx 4, fun v =>
      goOn l (.loadRd i (next ringBufferCapacity (UInt32.ofNat v))))
  | .loadRd i nextWrite => some (.load charRdIdx 4, fun v =>
      goOn l (if nextWrite = UInt32.ofNat v then .leave true negENOSPC else .index i nextWrite))
  | .index i nextWrite => some (.load charWrIdx 4, fun v =>
      goOn l (.copy i nextWrite (UInt32.ofNat v)))
  | .copy i nextWrite idx =>
      metric.map fun mt =>
        (.store (charByte idx.toNat) 1 (mt.bytes.getD i 0).toNat, fun _ =>
          goOn l (.publish i nextWrite))
  | .publish i nextWrite => some (.store charWrIdx 4 nextWrite.toNat, fun _ =>
      goOn { l with appended := l.appended ++ [(me, metricByte metric i)] }
        (.loopHead true (i + 1)))
  | .release ret => some (.skip, fun _ => goOn { l with lock := none } (.done ret))
  | .done _ => none

/-- **The access of a step of `dev_read`** by thread `d`. -/
def devReadAccess (d : ℕ) (l : CharThreads) (o : ReadOutcome) :
    Option (MemOp × (ℕ → CharThreads)) :=
  let x := l.reader d
  let goOn (x : DevRead) : CharThreads := { l with reader := update l.reader d x }
  match x.pc with
  | .idle _ =>
      match o with
      | .call len => some (.skip, fun _ =>
          goOn (DevRead.loopHead { x with len := len, bytesRead := 0, dataReady := false }))
      | _ => none
  | .loadWr => some (.load charWrIdx 4, fun v => goOn { x with pc := .loadRd (UInt32.ofNat v) })
  | .loadRd snapshotWriteIndex => some (.load charRdIdx 4, fun v =>
      goOn { x with pc := if UInt32.ofNat v = snapshotWriteIndex then .leave else .index })
  | .index => some (.load charRdIdx 4, fun v => goOn { x with pc := .loadByte (UInt32.ofNat v) })
  | .loadByte idx => some (.load (charByte idx.toNat) 1, fun v =>
      goOn { x with pc := .putUser (UInt8.ofNat v) })
  | .putUser byte =>
      if o = .fault then some (.skip, fun _ => goOn { x with pc := .idle negEFAULT })
      else some (.skip, fun _ => goOn { x with pc := .reload, output := x.output ++ [byte] })
  | .reload => some (.load charRdIdx 4, fun v =>
      goOn { x with pc := .advance (next ringBufferCapacity (UInt32.ofNat v)) })
  | .advance nextReadIndex => some (.store charRdIdx 4 nextReadIndex.toNat, fun _ =>
      { goOn (DevRead.loopHead
          { x with len := x.len - 1, bytesRead := x.bytesRead + 1, dataReady := true }) with
        removed := l.removed + 1 })
  | .leave => some (.skip, fun _ =>
      { goOn { x with pc := .idle x.bytesRead } with
        waitQueue := if x.dataReady then [] else l.waitQueue })

/-- **The access of a step of the char device.** -/
def charAccess (l : CharThreads) : CharAction → Option (MemOp × (ℕ → CharThreads))
  | .writer c o =>
      match l.writer c with
      | .devWrite w => devWriteAccess c l w o
      | .push metric pc => charPushAccess c metric l pc
  | .reader d o => devReadAccess d l o
  | .ioctlWakeWriter => some (.skip, fun _ => { l with waitQueue := [] })
  | .mapStoreRd v => some (.store charRdIdx 4 v.toNat, fun _ => l)

/-! ## A step on the page is a step on the ring -/

/-- The state after a writer's step. -/
def withWriter (m : Memory) (l : CharThreads) (me : ℕ) (r : ByteRing) (w : Writer) : CharState :=
  { decodeChar m l with ring := r, writer := update l.writer me w }

/-- **A step of `dev_write` on the page** is, decoded, its step on the ring. -/
theorem devWriteStep_decode {m : Memory} {l : CharThreads} (ht : (decodeRing m l).Tracked)
    (me : ℕ) (w : DevWrite) (o : Outcome) (hf : w.stage.Facts (decodeRing m l)) :
    (devWriteStep me (decodeRing m l) w o).map
        (fun p => withWriter m l me p.1 (.devWrite p.2))
      = (perform m (devWriteAccess me l w o)).map fun s => decodeChar s.1 s.2 := by
  obtain ⟨pc, rest, n⟩ := w
  cases pc with
  | loadWr | raiseLoad | condWr | clearLoad | index | raiseRelease | clearRelease | faultRelease
  | release | done => rfl
  | entry | prepare =>
      simp only [devWriteStep, devWriteAccess]
      split <;> rfl
  | acquire | reacquire =>
      simp only [devWriteStep, devWriteAccess]
      by_cases hlock : l.lock = none
      · have hring : (decodeRing m l).lock = none := hlock
        rw [if_pos hlock, if_pos hring]
        rfl
      · have hring : (decodeRing m l).lock ≠ none := hlock
        rw [if_neg hlock, if_neg hring]
        rfl
  | loadRd nxt =>
      simp only [devWriteStep, devWriteAccess, perform_some, Option.map_some, MemOp.exec]
      have hrd : (decodeRing m l).rdIdx = UInt32.ofNat (load m charRdIdx 4) := rfl
      by_cases heq : nxt = UInt32.ofNat (load m charRdIdx 4)
      · simp only [hrd, ← heq, if_true]
        rfl
      · simp only [hrd, heq, if_false]
        rfl
  | condRd phase nxt =>
      simp only [devWriteStep, devWriteAccess, perform_some, Option.map_some, MemOp.exec]
      have hrd : (decodeRing m l).rdIdx = UInt32.ofNat (load m charRdIdx 4) := rfl
      by_cases heq : nxt = UInt32.ofNat (load m charRdIdx 4)
      · simp only [hrd, ← heq, if_true]
        cases phase <;> rfl
      · simp only [hrd, heq, if_false]
        rfl
  | asleep =>
      simp only [devWriteStep, devWriteAccess]
      by_cases ho : o = .signal
      · rw [if_pos ho, if_pos ho]
        rfl
      · rw [if_neg ho, if_neg ho]
        by_cases hmem : me ∈ l.waitQueue
        · have hring : me ∈ (decodeRing m l).waitQueue := hmem
          rw [if_pos hmem, if_pos hring]
          rfl
        · have hring : me ∉ (decodeRing m l).waitQueue := hmem
          rw [if_neg hmem, if_neg hring]
          rfl
  | raiseStore v | clearStore v =>
      simp only [devWriteStep, devWriteAccess, perform_some, Option.map_some, MemOp.exec,
        ← decodeRing_store_stateFlags]
      rfl
  | copy nxt idx =>
      -- the cell aimed at is the one of the write index, so it lies in the buffer
      obtain ⟨-, -, hidx⟩ := hf
      have hlt : idx.toNat < 1024 := hidx ▸ ht.wr_lt
      cases rest with
      | nil => rfl
      | cons b bs =>
          simp only [devWriteStep, devWriteAccess]
          by_cases ho : o = .fault
          · simp only [if_pos ho, perform_some, Option.map_some, MemOp.exec,
              ← decodeRing_store_byte hlt]
            rfl
          · simp only [if_neg ho, perform_some, Option.map_some, MemOp.exec,
              ← decodeRing_store_byte hlt]
            rfl
  | publish nxt =>
      -- the byte published is the one that was put into the cell
      obtain ⟨-, -, hbyte⟩ := hf
      simp only [devWriteStep, devWriteAccess, perform_some, Option.map_some, MemOp.exec,
        ByteRing.publish, hbyte]
      rw [withWriter, decodeChar, decodeChar, decodeRing_store_wrIdx]
      rfl

/-- **A step of `telemetry_shared_char_dev_push_metric` on the page** is, decoded, its step on the
ring. -/
theorem charPushStep_decode {m : Memory} {l : CharThreads} (ht : (decodeRing m l).Tracked)
    (me : ℕ) (metric : Option NetPacketMetric) (pc : PushPc)
    (hf : (pc.stage metric).Facts (decodeRing m l)) :
    (telemetrySharedCharDevPushMetric metric me (decodeRing m l) pc).map
        (fun p => withWriter m l me p.1 (.push metric p.2))
      = (perform m (charPushAccess me metric l pc)).map fun s => decodeChar s.1 s.2 := by
  unfold telemetrySharedCharDevPushMetric
  cases pc with
  | loadWr | index | release | done => rfl
  | entry =>
      simp only [pushMetricStep, charPushAccess]
      split <;> rfl
  | acquire =>
      simp only [pushMetricStep, charPushAccess]
      by_cases hlock : l.lock = none
      · have hring : (decodeRing m l).lock = none := hlock
        rw [if_pos hlock, if_pos hring]
        rfl
      · have hring : (decodeRing m l).lock ≠ none := hlock
        rw [if_neg hlock, if_neg hring]
        rfl
  | loadRd i nxt =>
      simp only [pushMetricStep, charPushAccess, perform_some, Option.map_some, MemOp.exec]
      have hrd : (decodeRing m l).rdIdx = UInt32.ofNat (load m charRdIdx 4) := rfl
      by_cases heq : nxt = UInt32.ofNat (load m charRdIdx 4)
      · simp only [hrd, ← heq, if_true]
        rfl
      · simp only [hrd, heq, if_false]
        rfl
  | copy i nxt idx =>
      obtain ⟨-, -, hidx⟩ := hf
      have hlt : idx.toNat < 1024 := hidx ▸ ht.wr_lt
      cases metric with
      | none => rfl
      | some mt =>
          simp only [pushMetricStep, charPushAccess, perform_some, Option.map_some, MemOp.exec,
            ← decodeRing_store_byte hlt]
          rfl
  | publish i nxt =>
      obtain ⟨-, -, hbyte⟩ := hf
      simp only [pushMetricStep, charPushAccess, perform_some, Option.map_some, MemOp.exec,
        ByteRing.publish, hbyte]
      rw [withWriter, decodeChar, decodeChar, decodeRing_store_wrIdx]
      rfl

/-- **A step of `dev_read` on the page** is, decoded, its step on the ring. -/
theorem devReadStep_decode {m : Memory} {l : CharThreads} (ht : (decodeRing m l).Tracked) (d : ℕ)
    (o : ReadOutcome) (hf : (l.reader d).Facts (decodeRing m l)) :
    (devReadStep (decodeRing m l) (l.reader d) o).map
        (fun p => ({ decodeChar m l with
          ring := p.1, reader := update l.reader d p.2 } : CharState))
      = (perform m (devReadAccess d l o)).map fun s => decodeChar s.1 s.2 := by
  unfold devReadStep devReadAccess
  rcases hx : l.reader d with ⟨pc, len, n, ready, out⟩
  rw [hx] at hf
  cases pc with
  | loadWr | index | reload => rfl
  | idle => cases o <;> rfl
  | loadRd snapshot =>
      simp only [perform_some, Option.map_some, MemOp.exec]
      have hrd : (decodeRing m l).rdIdx = UInt32.ofNat (load m charRdIdx 4) := rfl
      by_cases heq : UInt32.ofNat (load m charRdIdx 4) = snapshot
      · simp only [hrd, heq, if_true]
        rfl
      · simp only [hrd, heq, if_false]
        rfl
  | loadByte idx =>
      have hlt : idx.toNat < 1024 := hf.2 ▸ ht.rd_lt
      simp only [perform_some, Option.map_some, MemOp.exec, ← decodeRing_load_byte hlt]
      rfl
  | putUser byte =>
      simp only
      by_cases ho : o = .fault
      · rw [if_pos ho, if_pos ho]
        rfl
      · rw [if_neg ho, if_neg ho]
        rfl
  | advance nxt =>
      simp only [perform_some, Option.map_some, MemOp.exec]
      rw [decodeChar, decodeChar, decodeRing_store_rdIdx]
      rfl
  | leave => cases ready <;> rfl

/-- **A step on the page is, decoded, the step on the ring**, along runs with one reader. -/
theorem charNext_decode {calls : ℕ → WriterCall} {m : Memory} {l : CharThreads}
    (hinv : FifoInv calls (decodeChar m l)) {a : CharAction} (hone : a.OneReader) :
    charNext (decodeChar m l) a
      = (perform m (charAccess l a)).map fun s => decodeChar s.1 s.2 := by
  cases a with
  | writer c o =>
      have hf : (l.writer c).stage.Facts (decodeRing m l) := hinv.facts c
      simp only [charNext, charAccess]
      cases hw : l.writer c with
      | devWrite w =>
          rw [hw] at hf
          simp only [decodeChar, hw, writerStep, Option.map_map]
          exact devWriteStep_decode hinv.tracked c w o hf
      | push metric pc =>
          rw [hw] at hf
          simp only [decodeChar, hw, writerStep, Option.map_map]
          exact charPushStep_decode hinv.tracked c metric pc hf
  | reader d o =>
      obtain rfl : d = 0 := hone
      exact devReadStep_decode hinv.tracked 0 o hinv.reader
  | ioctlWakeWriter => rfl
  | mapStoreRd v => exact absurd hone id

/-! ## The ring as a tenant of the page -/

/-- **The bytes of the char ring**: `char_ctl` and `char_buffer`. -/
def charRegion : Set ℕ := RingMember.tenantBytes .charCtl .charBuffer

/-- The bytes of the char ring, in numbers. -/
theorem charRegion_eq : charRegion = Set.Ico 0 192 ∪ Set.Ico 1024 2048 := by
  have hctl : RingMember.address .charCtl = 0 ∧ RingMember.size .charCtl = 192 := by decide
  have hbuf : RingMember.address .charBuffer = 1024 ∧ RingMember.size .charBuffer = 1024 := by
    decide
  rw [charRegion, RingMember.tenantBytes, RingMember.span_eq, RingMember.span_eq, hctl.1, hctl.2,
    hbuf.1, hbuf.2]

/-- A range in the lane. -/
theorem charLane_subset {a n : ℕ} (h : a + n ≤ 192) : Set.Ico a (a + n) ⊆ charRegion := by
  rw [charRegion_eq]
  rintro x ⟨-, hx⟩
  exact .inl ⟨Nat.zero_le x, by omega⟩

/-- A byte of the buffer. -/
theorem charByte_subset {idx : ℕ} (h : idx < 1024) :
    Set.Ico (charByte idx) (charByte idx + 1) ⊆ charRegion := by
  rw [charRegion_eq, char_places.2.2.2]
  rintro x ⟨hx, hx'⟩
  exact .inr ⟨by omega, by omega⟩

/-- **What is decoded depends on the bytes of the char ring only.** -/
theorem decodeChar_congr {m m' : Memory} (h : Set.EqOn m m' charRegion) (l : CharThreads) :
    decodeChar m l = decodeChar m' l := by
  obtain ⟨hrd, hwr, hflags, -⟩ := char_places
  have hword {a : ℕ} (ha : a + 4 ≤ 192) : word m a = word m' a := by
    rw [word, word, load_congr (h.mono (charLane_subset ha))]
  have hbuf (i : ℕ) : (if i < 1024 then m (charByte i) else 0)
      = if i < 1024 then m' (charByte i) else 0 := by
    split
    · rename_i hi
      exact h (charByte_subset hi ⟨le_rfl, Nat.lt_succ_self _⟩)
    · rfl
  simp only [decodeChar, decodeRing, hbuf]
  rw [hword (a := charRdIdx) (by omega), hword (a := charWrIdx) (by omega),
    hword (a := charStateFlags) (by omega)]

/-- The control words are bytes of the char ring. -/
theorem charWords_subset : Set.Ico charRdIdx (charRdIdx + 4) ⊆ charRegion ∧
    Set.Ico charWrIdx (charWrIdx + 4) ⊆ charRegion ∧
    Set.Ico charStateFlags (charStateFlags + 4) ⊆ charRegion := by
  obtain ⟨hrd, hwr, hflags, -⟩ := char_places
  exact ⟨charLane_subset (by omega), charLane_subset (by omega), charLane_subset (by omega)⟩

/-- The accesses of `dev_write`. -/
theorem devWriteAccess_within {m : Memory} {l : CharThreads} (ht : (decodeRing m l).Tracked)
    {me : ℕ} {w : DevWrite} {o : Outcome} (hf : w.stage.Facts (decodeRing m l)) {op : MemOp}
    {k : ℕ → CharThreads} (h : devWriteAccess me l w o = some (op, k)) :
    op.footprint ⊆ charRegion := by
  obtain ⟨hrd, hwr, hflags⟩ := charWords_subset
  have hskip : MemOp.skip.footprint ⊆ charRegion := Set.empty_subset _
  obtain ⟨pc, rest, n⟩ := w
  cases pc with
  | raiseRelease | clearRelease | release | faultRelease => cases h; exact hskip
  | loadWr | condWr | index | publish => cases h; exact hwr
  | loadRd | condRd => cases h; exact hrd
  | raiseLoad | raiseStore | clearLoad | clearStore => cases h; exact hflags
  | entry | prepare | acquire | reacquire =>
      simp only [devWriteAccess] at h
      split at h <;> cases h <;> exact hskip
  | asleep =>
      simp only [devWriteAccess] at h
      split at h
      · cases h
        exact hskip
      · split at h <;> cases h
        exact hskip
  | copy nxt idx =>
      obtain ⟨-, -, hidx⟩ := hf
      have hcell : Set.Ico (charByte idx.toNat) (charByte idx.toNat + 1) ⊆ charRegion :=
        charByte_subset (hidx ▸ ht.wr_lt)
      cases rest with
      | nil => cases h
      | cons b bs =>
          simp only [devWriteAccess] at h
          split at h <;> cases h <;> exact hcell
  | done => cases h

/-- The accesses of `telemetry_shared_char_dev_push_metric`. -/
theorem charPushAccess_within {m : Memory} {l : CharThreads} (ht : (decodeRing m l).Tracked)
    {me : ℕ} {metric : Option NetPacketMetric} {pc : PushPc}
    (hf : (pc.stage metric).Facts (decodeRing m l)) {op : MemOp} {k : ℕ → CharThreads}
    (h : charPushAccess me metric l pc = some (op, k)) : op.footprint ⊆ charRegion := by
  obtain ⟨hrd, hwr, -⟩ := charWords_subset
  have hskip : MemOp.skip.footprint ⊆ charRegion := Set.empty_subset _
  cases pc with
  | entry | release => cases h; exact hskip
  | acquire =>
      simp only [charPushAccess] at h
      split at h <;> cases h
      exact hskip
  | loadWr | index | publish => cases h; exact hwr
  | loadRd => cases h; exact hrd
  | copy i nxt idx =>
      obtain ⟨mt, -, heq⟩ := Option.map_eq_some_iff.mp h
      cases heq
      obtain ⟨-, -, hidx⟩ := hf
      exact charByte_subset (hidx ▸ ht.wr_lt)
  | done => cases h

/-- The accesses of `dev_read`. -/
theorem devReadAccess_within {m : Memory} {l : CharThreads} (ht : (decodeRing m l).Tracked)
    {d : ℕ} {o : ReadOutcome} (hf : (l.reader d).Facts (decodeRing m l)) {op : MemOp}
    {k : ℕ → CharThreads} (h : devReadAccess d l o = some (op, k)) :
    op.footprint ⊆ charRegion := by
  obtain ⟨hrd, hwr, -⟩ := charWords_subset
  have hskip : MemOp.skip.footprint ⊆ charRegion := Set.empty_subset _
  unfold devReadAccess at h
  rcases hx : l.reader d with ⟨pc, len, n, ready, out⟩
  rw [hx] at h hf
  cases pc with
  | idle =>
      cases o <;> cases h
      exact hskip
  | leave => cases h; exact hskip
  | loadWr => cases h; exact hwr
  | loadRd | index | reload | advance => cases h; exact hrd
  | loadByte idx =>
      cases h
      exact charByte_subset (hf.2 ▸ ht.rd_lt)
  | putUser byte =>
      simp only at h
      split at h <;> cases h <;> exact hskip

/-- **Every access of the char ring is within its bytes**, along runs with one reader. -/
theorem charAccess_within {calls : ℕ → WriterCall} {m : Memory} {l : CharThreads}
    (hinv : FifoInv calls (decodeChar m l)) {a : CharAction} (hone : a.OneReader) {op : MemOp}
    {k : ℕ → CharThreads} (h : charAccess l a = some (op, k)) : op.footprint ⊆ charRegion := by
  cases a with
  | writer c o =>
      have hf : (l.writer c).stage.Facts (decodeRing m l) := hinv.facts c
      simp only [charAccess] at h
      split at h
      · rename_i w hw
        rw [hw] at hf
        exact devWriteAccess_within hinv.tracked hf h
      · rename_i metric pc hw
        rw [hw] at hf
        exact charPushAccess_within hinv.tracked hf h
  | reader d o =>
      obtain rfl : d = 0 := hone
      exact devReadAccess_within hinv.tracked hinv.reader h
  | ioctlWakeWriter =>
      cases h
      exact Set.empty_subset _
  | mapStoreRd v => exact absurd hone id

/-- The threads before their first step. -/
def charIdle (calls : ℕ → WriterCall) : CharThreads where
  writer := fun c => (calls c).start
  reader := fun _ => .start
  lock := none
  waitQueue := []
  appended := []
  removed := 0

/-- **On a zeroed page the ring is the zeroed one.** -/
theorem decodeChar_zeroed (calls : ℕ → WriterCall) :
    decodeChar (fun _ => 0) (charIdle calls) = charInit calls := by
  have hword (a : ℕ) : word (fun _ => 0) a = 0 := by
    rw [word, load_zeroed]
    rfl
  have hring : decodeRing (fun _ => 0) (charIdle calls) = ByteRing.zeroed := by
    simp only [decodeRing, hword, ite_self]
    rfl
  rw [decodeChar, hring]
  rfl

/-- **The char ring as a tenant of the page**, with one reader. Its invariant is that what the page
holds is a state the ring can reach. -/
def charTenant (calls : ℕ → WriterCall) : Tenant where
  Local := CharThreads
  Action := CharAction
  region := charRegion
  access := charAccess
  ok := CharAction.OneReader
  Inv := fun m l => ReachableUnder charNext (fun _ a => a.OneReader) (charInit calls)
    (decodeChar m l)
  inv_congr := fun hagree hreach => decodeChar_congr hagree _ ▸ hreach
  inv_step := by
    intro m m' l l' a hreach hone h
    have hstep := charNext_decode (m := m) (fifoInv_of_reachable hreach) hone
    rw [h, Option.map_some] at hstep
    exact hreach.step hone hstep
  within := fun hreach hone h => charAccess_within (fifoInv_of_reachable hreach) hone h

/-- The invariant holds on the zeroed page. -/
theorem charTenant_start (calls : ℕ → WriterCall) :
    (charTenant calls).Inv (fun _ => 0) (charIdle calls) := by
  have hstart : ReachableUnder charNext (fun _ a => a.OneReader) (charInit calls)
      (decodeChar (fun _ => 0) (charIdle calls)) := by
    rw [decodeChar_zeroed]
    exact .start
  exact hstart

/-- A step of the char device on the page. -/
def charPageNext (s : Memory × CharThreads) (a : CharAction) : Option (Memory × CharThreads) :=
  perform s.1 (charAccess s.2 a)

/-- **Runs on the page are runs on the ring**: any list of steps with one reader, taken on a zeroed
page and then decoded, is what the same steps make of the zeroed ring. -/
theorem exec_decodeChar (calls : ℕ → WriterCall) (as : List CharAction)
    (hone : ∀ a ∈ as, a.OneReader) :
    exec charNext (charInit calls) as
      = (exec charPageNext (fun _ => 0, charIdle calls) as).map fun s => decodeChar s.1 s.2 := by
  rw [← decodeChar_zeroed]
  exact exec_map (I := fun s : Memory × CharThreads => (charTenant calls).Inv s.1 s.2)
    (p := CharAction.OneReader) (f := fun s : Memory × CharThreads => decodeChar s.1 s.2)
    (t := (fun _ => 0, charIdle calls))
    (fun s a hreach hone => charNext_decode (fifoInv_of_reachable hreach) hone)
    (fun s a s' hreach hone h => (charTenant calls).inv_step hreach hone h) as hone
    (charTenant_start calls)

/-- Eight steps of a one-byte `dev_write`, and a `dev_read` of length one. -/
def oneByteRun : List CharAction :=
  List.replicate 8 (.writer 0 .ok) ++ .reader 0 (.call 1) :: List.replicate 8 (.reader 0 .ok)

/-- One byte through the ring leaves both index words of the page at 1. -/
theorem exec_decodeChar_one_byte : ∃ m l,
    exec charPageNext (fun _ => 0, charIdle fun _ => .devWrite [7]) oneByteRun = some (m, l) ∧
      word m charRdIdx = 1 ∧ word m charWrIdx = 1 ∧
      exec charNext (charInit fun _ => .devWrite [7]) oneByteRun = some (decodeChar m l) := by
  refine ⟨_, _, rfl, rfl, rfl, ?_⟩
  exact exec_decodeChar (fun _ => .devWrite [7]) oneByteRun (by decide)

end TelemetrySubsystem
