import TelemetrySubsystem.CharRing.Steps

/-! # The append protocol of the char ring's writers

What both kinds of writer do to the ring, with the details that do not matter to its contents left
out: take the lock, compute the next write index, find it free, aim at the cell of `wr_idx`, fill
it, publish it, and let go of the lock.

* **`AppendStage`** is how far a writer has come, and `AppendStage.Facts` what it may rely on there.
* **`StageStep`** is one step of the protocol.
* **`writerStep_stageStep`**: every step of `dev_write` and of
  `telemetry_shared_char_dev_push_metric` is a step of the protocol.
* `StageStep.effect` and `StageStep.facts` are the protocol's step lemmas: what a step does to the
  ring's contents, and that it establishes the facts of the stage it enters. -/

namespace TelemetrySubsystem

open WrapCounter
open Function (update)

/-! ## Writers -/

/-- A call that appends to the char ring, with its arguments. -/
inductive WriterCall
  | devWrite (buffer : List UInt8)
  | push (metric : Option NetPacketMetric)
  deriving DecidableEq, Repr

/-- A writer call under way: its locals and program counter. -/
inductive Writer
  | devWrite (w : DevWrite)
  | push (metric : Option NetPacketMetric) (pc : PushPc)
  deriving DecidableEq, Repr

/-- A call before its first step. -/
def WriterCall.start : WriterCall → Writer
  | .devWrite buffer => .devWrite (DevWrite.start buffer)
  | .push metric => .push metric .entry

/-- One step of a writer call. -/
def writerStep (me : ℕ) (r : ByteRing) (o : Outcome) : Writer → Option (ByteRing × Writer)
  | .devWrite w => (devWriteStep me r w o).map fun p => (p.1, .devWrite p.2)
  | .push metric pc =>
      (telemetrySharedCharDevPushMetric metric me r pc).map fun p => (p.1, .push metric p.2)

/-- **Inversion of a writer's step**: it is a step of the function that the call runs. -/
theorem writerStep_cases {me : ℕ} {r r' : ByteRing} {o : Outcome} {w w' : Writer}
    (h : writerStep me r o w = some (r', w')) :
    (∃ x x', w = .devWrite x ∧ w' = .devWrite x' ∧ devWriteStep me r x o = some (r', x')) ∨
      ∃ metric pc pc', w = .push metric pc ∧ w' = .push metric pc' ∧
        telemetrySharedCharDevPushMetric metric me r pc = some (r', pc') := by
  cases w with
  | devWrite x =>
      obtain ⟨p, hstep, heq⟩ := Option.map_eq_some_iff.mp h
      cases heq
      exact .inl ⟨x, p.2, rfl, rfl, hstep⟩
  | push metric pc =>
      obtain ⟨p, hstep, heq⟩ := Option.map_eq_some_iff.mp h
      cases heq
      exact .inr ⟨metric, pc, p.2, rfl, rfl, hstep⟩

/-! ## Stages -/

/-- How far a writer has come with appending one byte. -/
inductive AppendStage
  /-- Not holding the lock. -/
  | outside
  /-- Holding the lock. -/
  | inside
  /-- Holding the lock, with the next write index computed. -/
  | computed (n : UInt32)
  /-- The next write index was found free. -/
  | free (n : UInt32)
  /-- Aiming at a cell. -/
  | aimed (n idx : UInt32)
  /-- The cell is filled. -/
  | filled (n : UInt32) (b : UInt8)
  deriving DecidableEq

/-- The byte number `i` of a metric behind a pointer. -/
def metricByte (metric : Option NetPacketMetric) (i : ℕ) : UInt8 :=
  metric.elim 0 fun m => m.bytes.getD i 0

/-- The stage of a `dev_write` call. -/
def DevWrite.stage (w : DevWrite) : AppendStage :=
  match w.pc with
  | .loadWr | .raiseLoad | .raiseStore _ | .raiseRelease | .clearLoad | .clearStore _
  | .clearRelease | .release | .faultRelease => .inside
  | .loadRd n => .computed n
  | .index n => .free n
  | .copy n idx => .aimed n idx
  | .publish n => .filled n (w.rest.headD 0)
  | _ => .outside

/-- The stage of a metric push. -/
def PushPc.stage (metric : Option NetPacketMetric) : PushPc → AppendStage
  | .loadWr _ | .release _ => .inside
  | .loadRd _ n => .computed n
  | .index _ n => .free n
  | .copy _ n idx => .aimed n idx
  | .publish i n => .filled n (metricByte metric i)
  | .entry | .acquire | .done _ => .outside

/-- The stage of a writer call. -/
def Writer.stage : Writer → AppendStage
  | .devWrite w => w.stage
  | .push metric pc => pc.stage metric

/-- **What a writer may rely on at a stage.** -/
def AppendStage.Facts (r : ByteRing) : AppendStage → Prop
  | .outside | .inside => True
  | .computed n => n = next ringBufferCapacity r.wrIdx
  | .free n => n = next ringBufferCapacity r.wrIdx ∧ n ≠ r.rdIdx
  | .aimed n idx => n = next ringBufferCapacity r.wrIdx ∧ n ≠ r.rdIdx ∧ idx = r.wrIdx
  | .filled n b =>
      n = next ringBufferCapacity r.wrIdx ∧ n ≠ r.rdIdx ∧ r.buffer r.wrIdx.toNat = b

/-- **What a writer may rely on whatever happens to the read index**: the facts about `wr_idx` and
the cell it points to. -/
def AppendStage.Aims (r : ByteRing) : AppendStage → Prop
  | .outside | .inside => True
  | .computed n | .free n => n = next ringBufferCapacity r.wrIdx
  | .aimed n idx => n = next ringBufferCapacity r.wrIdx ∧ idx = r.wrIdx
  | .filled n b => n = next ringBufferCapacity r.wrIdx ∧ r.buffer r.wrIdx.toNat = b

/-- They are part of the facts. -/
theorem AppendStage.Facts.aims {r : ByteRing} {st : AppendStage} (h : st.Facts r) : st.Aims r := by
  cases st with
  | outside => trivial
  | inside => trivial
  | computed n => exact h
  | free n => exact h.1
  | aimed n idx => exact ⟨h.1, h.2.2⟩
  | filled n b => exact ⟨h.1, h.2.2⟩

/-- They depend on the write index and the buffer only. -/
theorem AppendStage.Aims.congr {r r' : ByteRing} {st : AppendStage} (h : st.Aims r)
    (hwr : r'.wrIdx = r.wrIdx) (hbuf : r'.buffer = r.buffer) : st.Aims r' := by
  cases st <;> simp only [AppendStage.Aims, hwr, hbuf] at h ⊢ <;> exact h

/-! ## The protocol -/

/-- Two rings with the same indices, bytes and history: only the flags, the lock or the wait queue
may differ. -/
structure SameContents (r r' : ByteRing) : Prop where
  rdIdx : r'.rdIdx = r.rdIdx
  wrIdx : r'.wrIdx = r.wrIdx
  buffer : r'.buffer = r.buffer
  appended : r'.appended = r.appended
  removed : r'.removed = r.removed

/-- A ring has its own contents. -/
theorem SameContents.refl (r : ByteRing) : SameContents r r := ⟨rfl, rfl, rfl, rfl, rfl⟩

/-- **One step of the append protocol** by call `me`. -/
inductive StageStep (me : ℕ) (r : ByteRing) : AppendStage → ByteRing → AppendStage → Prop
  /-- Away from the lock, the contents and the lock stay as they are. -/
  | idle {r' : ByteRing} : SameContents r r' → r'.lock = r.lock →
      StageStep me r .outside r' .outside
  /-- Take the free lock. -/
  | acquire : r.lock = none → StageStep me r .outside { r with lock := some me } .inside
  /-- Let go of the lock. -/
  | release : StageStep me r .inside { r with lock := none } .outside
  /-- Other work under the lock. -/
  | work {r' : ByteRing} : SameContents r r' → r'.lock = r.lock → StageStep me r .inside r' .inside
  /-- Compute the next write index. -/
  | compute : StageStep me r .inside r (.computed (next ringBufferCapacity r.wrIdx))
  /-- The ring is full. -/
  | full {n : UInt32} : n = r.rdIdx → StageStep me r (.computed n) r .inside
  /-- The ring is not full. -/
  | free {n : UInt32} : n ≠ r.rdIdx → StageStep me r (.computed n) r (.free n)
  /-- Aim at the cell of `wr_idx`. -/
  | aim {n : UInt32} : StageStep me r (.free n) r (.aimed n r.wrIdx)
  /-- Fill the cell. -/
  | fill {n idx : UInt32} (b : UInt8) :
      StageStep me r (.aimed n idx) { r with buffer := update r.buffer idx.toNat b } (.filled n b)
  /-- The copy into the cell fails. -/
  | spoil {n idx : UInt32} (b : UInt8) :
      StageStep me r (.aimed n idx) { r with buffer := update r.buffer idx.toNat b } .inside
  /-- Publish the cell. -/
  | publish {n : UInt32} {b : UInt8} : StageStep me r (.filled n b) (r.publish me n) .inside

/-- The loop head of a locked push is inside the lock. -/
theorem PushPc.loopHead_stage (metric : Option NetPacketMetric) (i : ℕ) :
    (PushPc.loopHead true i).stage metric = .inside := by
  unfold PushPc.loopHead
  split <;> rfl

/-- **`dev_write` follows the append protocol.** -/
theorem devWriteStep_stageStep {me : ℕ} {r r' : ByteRing} {w w' : DevWrite} {o : Outcome}
    (h : devWriteStep me r w o = some (r', w')) : StageStep me r w.stage r' w'.stage := by
  obtain ⟨pc, rest, n⟩ := w
  cases devWriteStep_move h with
  -- at the loop head, and once more after waking up to clear the flag
  | acquire hfree | reacquire hfree => exact .acquire hfree
  | loadWr => exact .compute
  | full hfull => exact .full hfull
  | free hfree => exact .free hfree
  | index => exact .aim
  | fill hrest =>
      subst hrest
      exact .fill _
  -- a failed `get_user` leaves a zero in the free cell
  | spoil => exact .spoil 0
  | publish => exact .publish
  | raiseRelease | clearRelease | faultRelease | finish | again => exact .release
  | raiseLoad | clearLoad => exact .work (.refl r) rfl
  | raiseStore | clearStore => exact .work ⟨rfl, rfl, rfl, rfl, rfl⟩ rfl
  -- around the wait only the queue changes, which is no part of the contents
  | _ => exact .idle ⟨rfl, rfl, rfl, rfl, rfl⟩ rfl

/-- **`telemetry_shared_char_dev_push_metric` follows the append protocol.** -/
theorem push_stageStep {metric : Option NetPacketMetric} {me : ℕ} {r r' : ByteRing}
    {pc pc' : PushPc} (h : telemetrySharedCharDevPushMetric metric me r pc = some (r', pc')) :
    StageStep me r (pc.stage metric) r' (pc'.stage metric) := by
  unfold telemetrySharedCharDevPushMetric at h
  cases pc
  all_goals simp only [pushMetricStep, if_true] at h
  case entry => split at h <;> cases h <;> exact .idle (.refl r) rfl
  case acquire =>
    split at h
    · next hfree =>
        cases h
        rw [PushPc.loopHead_stage]
        exact .acquire hfree
    · cases h
  case loadRd i nxt =>
    split at h
    · next hfull =>
        cases h
        exact .full hfull
    · next hfree =>
        cases h
        exact .free hfree
  case copy i nxt idx =>
    -- past the null checks there is a metric to copy from, and the copy cannot fault
    cases metric with
    | none => cases h
    | some m =>
        cases h
        exact .fill _
  case publish i nxt =>
    cases h
    rw [PushPc.loopHead_stage]
    exact .publish
  all_goals cases h
  case loadWr => exact .compute
  case index => exact .aim
  case release => exact .release

/-- **Every writer follows the append protocol.** -/
theorem writerStep_stageStep {me : ℕ} {r r' : ByteRing} {w w' : Writer} {o : Outcome}
    (h : writerStep me r o w = some (r', w')) : StageStep me r w.stage r' w'.stage := by
  obtain ⟨x, x', rfl, rfl, hstep⟩ | ⟨metric, pc, pc', rfl, rfl, hstep⟩ := writerStep_cases h
  · exact devWriteStep_stageStep hstep
  · exact push_stageStep hstep

/-! ## What a step of the protocol does -/

/-- **The effect of a writer's step on the ring's contents**: none, a store into the free cell at
`wr_idx`, or an append. -/
inductive WriterEffect (me : ℕ) (r r' : ByteRing) : Prop
  | same : SameContents r r' → WriterEffect me r r'
  | fill (b : UInt8) : r' = { r with buffer := update r.buffer r.wrIdx.toNat b } →
      WriterEffect me r r'
  | append : next ringBufferCapacity r.wrIdx ≠ r.rdIdx →
      r' = r.publish me (next ringBufferCapacity r.wrIdx) → WriterEffect me r r'

/-- What a step does to the contents follows from the facts of its stage. -/
theorem StageStep.effect {me : ℕ} {r r' : ByteRing} {st st' : AppendStage}
    (h : StageStep me r st r' st') (hf : st.Facts r) : WriterEffect me r r' := by
  cases h with
  | idle hsame _ => exact .same hsame
  | work hsame _ => exact .same hsame
  | acquire _ => exact .same ⟨rfl, rfl, rfl, rfl, rfl⟩
  | release => exact .same ⟨rfl, rfl, rfl, rfl, rfl⟩
  | compute => exact .same (.refl r)
  | full _ => exact .same (.refl r)
  | free _ => exact .same (.refl r)
  | aim => exact .same (.refl r)
  -- the cell aimed at is the one at `wr_idx`, by the facts of the stage
  | fill b => exact .fill b (by rw [hf.2.2])
  | spoil b => exact .fill b (by rw [hf.2.2])
  | publish => exact .append (hf.1 ▸ hf.2.1) (by rw [hf.1])

/-- **The protocol establishes its facts**: a step leads from the facts of its stage to the facts of
the next. -/
theorem StageStep.facts {me : ℕ} {r r' : ByteRing} {st st' : AppendStage}
    (h : StageStep me r st r' st') (hf : st.Facts r) : st'.Facts r' := by
  cases h with
  | compute => rfl
  | free hne => exact ⟨hf, hne⟩
  | aim => exact ⟨hf.1, hf.2, rfl⟩
  | @fill n idx b =>
      obtain ⟨hn, hne, rfl⟩ := hf
      exact ⟨hn, hne, Function.update_self ..⟩
  | _ => trivial

/-- The protocol establishes its aims, too. -/
theorem StageStep.aims {me : ℕ} {r r' : ByteRing} {st st' : AppendStage}
    (h : StageStep me r st r' st') (hf : st.Aims r) : st'.Aims r' := by
  cases h with
  | compute => rfl
  | free _ => exact hf
  | aim => exact ⟨hf, rfl⟩
  | @fill n idx b =>
      obtain ⟨hn, rfl⟩ := hf
      exact ⟨hn, Function.update_self ..⟩
  | _ => trivial

/-- A step appends nothing, or one byte of the call that takes it. -/
theorem StageStep.appended {me : ℕ} {r r' : ByteRing} {st st' : AppendStage}
    (h : StageStep me r st r' st') :
    r'.appended = r.appended ∨ ∃ b, r'.appended = r.appended ++ [(me, b)] := by
  cases h with
  | idle hsame _ => exact .inl hsame.appended
  | work hsame _ => exact .inl hsame.appended
  | publish => exact .inr ⟨_, rfl⟩
  | _ => exact .inl rfl

/-- Off the lock a writer leaves the contents alone. -/
theorem StageStep.same_of_outside {me : ℕ} {r r' : ByteRing} {st' : AppendStage}
    (h : StageStep me r .outside r' st') : SameContents r r' := by
  cases h with
  | idle hsame _ => exact hsame
  | acquire _ => exact ⟨rfl, rfl, rfl, rfl, rfl⟩

/-- A writer acts under the lock: off the lock it can only take it, and what it holds it keeps or
gives back. -/
theorem StageStep.lock {me : ℕ} {r r' : ByteRing} {st st' : AppendStage}
    (h : StageStep me r st r' st') :
    (r'.lock = r.lock ∧ (st = .outside ↔ st' = .outside)) ∨
      (st = .outside ∧ r.lock = none ∧ r'.lock = some me) ∨
      (st ≠ .outside ∧ r'.lock = none ∧ st' = .outside) := by
  cases h with
  | idle _ hlock => exact .inl ⟨hlock, Iff.rfl⟩
  | work _ hlock => exact .inl ⟨hlock, by simp⟩
  | acquire hfree => exact .inr (.inl ⟨rfl, hfree, rfl⟩)
  | release => exact .inr (.inr ⟨by simp, rfl, rfl⟩)
  | publish => exact .inl ⟨rfl, by simp⟩
  | _ => exact .inl ⟨rfl, by simp⟩

end TelemetrySubsystem
