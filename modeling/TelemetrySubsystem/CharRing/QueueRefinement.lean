import TelemetrySubsystem.CharRing.Fifo
import TelemetrySubsystem.Foundations.BoundedQueue
import TelemetrySubsystem.MetricPush.Alone

/-! # The char ring refines a bounded queue

Every call of the char device takes many steps, with other calls in between. Seen from outside it is
a row of operations on a queue of 1023 bytes, each of which happens in one of these steps.

* **`ByteRing.queue`** is the queue that a page holds.
* **`charOps`** says in which steps the operations happen: a byte goes in when `wr_idx` is stored
  and out when `rd_idx` is stored; a writer is turned away when it compares with `rd_idx`, and the
  reader finds nothing when it loads `wr_idx`.
* **`RefinesQueue`** is the law: the operations in the order of their steps are a history of the
  queue, and the calls behave as it says. -/

namespace TelemetrySubsystem

open ActionSystem BoundedQueue CyclicWindow WrapCounter
open Function (update)

/-! ## The queue and the operations -/

/-- The bytes that fit in: one cell stays empty. -/
def charQueueCapacity : ℕ := ringBufferCapacity.toNat - 1

/-- **The queue that the page holds**: the bytes from `rd_idx` cyclically up to `wr_idx`. -/
def ByteRing.queue (r : ByteRing) : List UInt8 := r.unread ringBufferCapacity

/-- The operation that happens in the next step of a writer call. -/
def writerOps (c : ℕ) (r : ByteRing) (w : Writer) : List (QueueOp ℕ UInt8) :=
  match w.stage with
  | .computed n => if n = r.rdIdx then [.refuse c] else []
  | .filled _ b => [.enqueue c b]
  | _ => []

/-- The operation that happens in the next step of the reader. What it takes out is the byte that it
has put to user space. -/
def readerOps (r : ByteRing) (d : DevRead) : List (QueueOp ℕ UInt8) :=
  match d.pc with
  | .loadWr => if r.rdIdx = r.wrIdx then [.empty] else []
  | .advance _ => [.dequeue (d.output.getLastD 0)]
  | _ => []

/-- **The operation that happens in an action.** -/
def charOps (s : CharState) : CharAction → List (QueueOp ℕ UInt8)
  | .writer c _ => writerOps c s.ring (s.writer c)
  | .reader d _ => readerOps s.ring (s.reader d)
  | .ioctlWakeWriter | .mapStoreRd _ => []

/-! ## One step -/

section Steps

variable {r r' : ByteRing} {c : ℕ}

/-- In a tracked ring the queue is what has been appended and not removed. -/
theorem ByteRing.Tracked.queue_eq (h : r.Tracked) : r.queue = r.log.drop r.removed :=
  Tracks.window_eq h

/-- The queue depends on the contents only. -/
theorem SameContents.queue (h : SameContents r r') : r'.queue = r.queue := by
  simp only [ByteRing.queue, ByteRing.unread, h.buffer, h.rdIdx, h.wrIdx]

/-- A store at the write index is outside the queue. -/
theorem ByteRing.Tracked.queue_store (h : r.Tracked) (b : UInt8) :
    ByteRing.queue { r with buffer := update r.buffer r.wrIdx.toNat b } = r.queue :=
  (Tracks.window_eq (Tracks.store h b)).trans (Tracks.window_eq h).symm

/-- The ring is full when the queue is. -/
theorem ByteRing.Tracked.length_queue (h : r.Tracked)
    (hfull : next ringBufferCapacity r.wrIdx = r.rdIdx) :
    r.queue.length = charQueueCapacity := by
  have hlen := (Tracks.full_iff h).mp (by rw [← h.next_wr, hfull])
  have hcap : charQueueCapacity = 1023 := rfl
  rw [h.queue_eq, List.length_drop]
  omega

/-- **A step of a writer is its operation on the queue.** -/
theorem exec_writerOps {o : Outcome} {w w' : Writer} (ht : r.Tracked) (hf : w.stage.Facts r)
    (hstep : writerStep c r o w = some (r', w')) :
    exec (queueNext charQueueCapacity) r.queue (writerOps c r w) = some r'.queue ∧
      r'.appended = r.appended ++ (writerOps c r w).filterMap QueueOp.entered := by
  have hstage := writerStep_stageStep hstep
  rw [writerOps]
  generalize w.stage = st, w'.stage = st' at hstage hf
  cases hstage with
  | idle hsame _ | work hsame _ =>
      exact ⟨by rw [hsame.queue]; rfl, hsame.appended.trans (List.append_nil _).symm⟩
  | acquire _ | release | compute | aim => exact ⟨rfl, (List.append_nil _).symm⟩
  | full hfull =>
      obtain rfl := hfull
      simp only [if_pos]
      refine ⟨?_, (List.append_nil _).symm⟩
      rw [exec_cons, queueNext, if_pos (ht.length_queue hf.symm)]
      rfl
  | free hne =>
      simp only [if_neg hne]
      exact ⟨rfl, (List.append_nil _).symm⟩
  | fill b | spoil b =>
      obtain ⟨-, -, rfl⟩ := hf
      exact ⟨by rw [ht.queue_store]; rfl, (List.append_nil _).symm⟩
  | @publish n b =>
      obtain ⟨rfl, hfree, rfl⟩ := hf
      have ht' := ht.writer_effect (.append hfree rfl : WriterEffect c r _)
      have hqueue : (r.publish c (next ringBufferCapacity r.wrIdx)).queue
          = r.queue ++ [r.buffer r.wrIdx.toNat] := by
        rw [ht'.queue_eq, ht.queue_eq, ByteRing.log_publish]
        exact List.drop_append_of_le_length ht.taken_le
      have hlt : r.queue.length < charQueueCapacity := by
        have hroom := Tracks.room ht'
        have hcap : charQueueCapacity = 1023 := rfl
        rw [ByteRing.log_publish, List.length_append, List.length_singleton] at hroom
        have hremoved : (r.publish c (next ringBufferCapacity r.wrIdx)).removed = r.removed := rfl
        rw [ht.queue_eq, List.length_drop]
        omega
      refine ⟨?_, rfl⟩
      rw [exec_cons, queueNext, if_pos hlt, hqueue]
      rfl

/-- **A step of the reader is its operation on the queue.** -/
theorem exec_readerOps {o : ReadOutcome} {d d' : DevRead} (ht : r.Tracked) (hf : d.Facts r)
    (hd : d.Delivered r) (hstep : devReadStep r d o = some (r', d')) :
    exec (queueNext charQueueCapacity) r.queue (readerOps r d) = some r'.queue := by
  obtain ⟨pc, len, n, ready, out⟩ := d
  cases pc
  all_goals simp only [devReadStep] at hstep
  case idle =>
    cases o <;> cases hstep
    rfl
  case loadWr =>
    cases hstep
    simp only [readerOps]
    split
    case isTrue hempty =>
      have hnone : r.queue = [] := by
        rw [ht.queue_eq, ht.empty_iff.mp hempty]
        exact List.drop_length
      rw [exec_cons, queueNext, if_pos hnone]
      rfl
    case isFalse => rfl
  case advance nxt =>
    obtain ⟨hne, rfl⟩ := hf
    obtain ⟨hout, hle⟩ := hd
    cases hstep
    -- the byte put to user space is the oldest one in the queue
    have hhead := Tracks.head_eq ht (ByteRing.Tracked.toNat_ne hne)
    have hout' : out = r.log.take r.removed ++ [r.buffer r.rdIdx.toNat] := by
      have htake : out = r.log.take (r.removed + 1) := hout
      rw [htake, List.take_add_one, hhead]
      rfl
    have hqueue : r.queue = r.buffer r.rdIdx.toNat :: r.log.drop (r.removed + 1) := by
      obtain ⟨hlt, hget⟩ := List.getElem?_eq_some_iff.mp hhead
      rw [ht.queue_eq, List.drop_eq_getElem_cons hlt, hget]
    simp only [readerOps, hout', List.getLastD_concat]
    rw [exec_cons, queueNext, hqueue, List.head?_cons, if_pos rfl]
    exact congrArg some (ht.remove hne).queue_eq.symm
  case loadRd | putUser => split at hstep <;> cases hstep <;> rfl
  case leave => cases ready <;> cases hstep <;> rfl
  all_goals
    cases hstep
    rfl

end Steps

/-! ## What the callers see -/

/-- Program points of `dev_write` behind the branch for a full ring. -/
def DevWritePc.turnedAway : DevWritePc → Bool
  | .raiseLoad | .raiseStore _ | .raiseRelease | .condWr _ | .condRd _ _ | .prepare | .asleep
  | .reacquire | .clearLoad | .clearStore _ | .clearRelease => true
  | .done ret => ret = negERESTARTSYS
  | _ => false

/-- Program points of a push that returns because the ring is full. -/
def PushPc.refused : PushPc → Bool
  | .release ret | .done ret => ret = negENOSPC
  | _ => false

/-- **A writer has been turned away**: it waits, or it returns with an error for that reason. -/
def Writer.TurnedAway : Writer → Prop
  | .devWrite w => w.pc.turnedAway = true
  | .push _ pc => pc.refused = true

/-- The reader has found the queue empty and has taken nothing out since. -/
def EmptySince (ops : List (QueueOp ℕ UInt8)) : Prop :=
  ∃ before after, ops = before ++ .empty :: after ∧ ∀ op ∈ after, op.taken = none

/-- **What the reader knows about the queue** at its program point. -/
def DevRead.SawEmpty (ops : List (QueueOp ℕ UInt8)) (r : ByteRing) (d : DevRead) : Prop :=
  match d.pc with
  | .loadRd snapshot => r.rdIdx = snapshot → EmptySince ops
  | .leave => 0 < d.len → EmptySince ops
  | _ => True

section Callers

variable {r r' : ByteRing} {c c' : ℕ} {ops more : List (QueueOp ℕ UInt8)}

/-- A writer's operations are its own. -/
theorem refuse_mem_writerOps {w : Writer} (h : .refuse c' ∈ writerOps c r w) : c' = c := by
  rw [writerOps] at h
  split at h
  · split at h
    · exact QueueOp.refuse.inj (List.mem_singleton.mp h)
    · cases h
  · cases List.mem_singleton.mp h
  · cases h

/-- A writer takes nothing out. -/
theorem taken_writerOps {w : Writer} {op : QueueOp ℕ UInt8} (h : op ∈ writerOps c r w) :
    op.taken = none := by
  rw [writerOps] at h
  split at h
  · split at h
    · obtain rfl := List.mem_singleton.mp h
      rfl
    · cases h
  · obtain rfl := List.mem_singleton.mp h
    rfl
  · cases h

/-- **`dev_write` waits because it has been turned away.** -/
theorem devWrite_turnedAway {o : Outcome} {w w' : DevWrite}
    (hstep : devWriteStep c r w o = some (r', w')) (h : w'.pc.turnedAway = true) :
    w.pc.turnedAway = true ∨ .refuse c ∈ writerOps c r (.devWrite w) := by
  obtain ⟨pc, rest, n⟩ := w
  cases devWriteStep_move hstep with
  | full hfull =>
      refine .inr ?_
      simp only [writerOps, Writer.stage, DevWrite.stage, if_pos hfull]
      exact List.mem_singleton_self _
  | finish =>
      have hret : ((n + 1 : ℕ) : ℤ) = -512 := of_decide_eq_true h
      omega
  | kick | enter | acquire | loadWr | free | index | spoil | fill | publish | again | faultRelease
  | clearRelease => cases h
  | _ => exact .inl rfl

/-- The loop of a push does not end with an error. -/
theorem loopHead_refused (locked : Bool) (i : ℕ) : (PushPc.loopHead locked i).refused = false := by
  rw [PushPc.loopHead]
  split
  · rfl
  · cases locked <;> rfl

/-- When a push refuses. -/
theorem refuse_mem_push {metric : Option NetPacketMetric} {pc : PushPc} :
    .refuse c ∈ writerOps c r (.push metric pc) ↔ ∃ i, pc = .loadRd i r.rdIdx := by
  cases pc with
  | loadRd i nxt =>
      by_cases hfull : nxt = r.rdIdx <;>
        simp [writerOps, Writer.stage, PushPc.stage, hfull]
  | _ => simp [writerOps, Writer.stage, PushPc.stage]

/-- **A push returns `-ENOSPC` exactly when it has been turned away.** -/
theorem push_turnedAway {metric : Option NetPacketMetric} {pc pc' : PushPc}
    (hstep : telemetrySharedCharDevPushMetric metric c r pc = some (r', pc')) :
    pc'.refused = true ↔ pc.refused = true ∨ .refuse c ∈ writerOps c r (.push metric pc) := by
  rw [refuse_mem_push]
  unfold telemetrySharedCharDevPushMetric at hstep
  cases pc
  all_goals simp only [pushMetricStep, if_true] at hstep
  case entry =>
    split at hstep <;> cases hstep <;> simp [PushPc.refused, negENODEV, negENOSPC]
  case acquire =>
    split at hstep
    · cases hstep
      rw [loopHead_refused]
      simp [PushPc.refused]
    · cases hstep
  case loadRd i nxt =>
    split at hstep <;> rename_i hfull <;> cases hstep <;>
      simp [PushPc.refused, PushPc.leave, hfull]
  case copy =>
    cases metric with
    | none => cases hstep
    | some m =>
        cases hstep
        simp [PushPc.refused]
  case publish =>
    cases hstep
    rw [loopHead_refused]
    simp [PushPc.refused]
  case done => cases hstep
  all_goals
    cases hstep
    simp [PushPc.refused]

/-- The reader puts nothing in and turns nobody away. -/
theorem readerOps_own {d : DevRead} {op : QueueOp ℕ UInt8} (h : op ∈ readerOps r d) :
    op.entered = none ∧ op ≠ .refuse c := by
  rw [readerOps] at h
  split at h
  · split at h
    · obtain rfl := List.mem_singleton.mp h
      exact ⟨rfl, nofun⟩
    · cases h
  · obtain rfl := List.mem_singleton.mp h
    exact ⟨rfl, nofun⟩
  · cases h

/-- **A writer is turned away in the step in which it refuses.** -/
theorem turnedAway_step {o : Outcome} {w w' : Writer}
    (hstep : writerStep c r o w = some (r', w')) (h : w'.TurnedAway) :
    w.TurnedAway ∨ .refuse c ∈ writerOps c r w := by
  obtain ⟨x, x', rfl, rfl, hmove⟩ | ⟨metric, pc, pc', rfl, rfl, hmove⟩ := writerStep_cases hstep
  · exact devWrite_turnedAway hmove h
  · exact (push_turnedAway hmove).mp h

/-- What the reader has found stays true while nothing is taken out. -/
theorem EmptySince.append (h : EmptySince ops) (hmore : ∀ op ∈ more, op.taken = none) :
    EmptySince (ops ++ more) := by
  obtain ⟨before, after, rfl, hafter⟩ := h
  refine ⟨before, after ++ more, by rw [List.append_assoc, List.cons_append], fun op hop => ?_⟩
  exact (List.mem_append.mp hop).elim (hafter op) (hmore op)

/-- A writer's step leaves the reader with what it knows. -/
theorem DevRead.SawEmpty.writer_step {d : DevRead} (h : d.SawEmpty ops r)
    (hrd : r'.rdIdx = r.rdIdx) (hmore : ∀ op ∈ more, op.taken = none) :
    d.SawEmpty (ops ++ more) r' := by
  obtain ⟨pc, len, n, ready, out⟩ := d
  cases pc with
  | loadRd snapshot => exact fun heq => (h (hrd ▸ heq)).append hmore
  | leave => exact fun hlen => (h hlen).append hmore
  | _ => trivial

/-- **The reader leaves its loop early because it has found the queue empty.** -/
theorem DevRead.SawEmpty.reader_step {o : ReadOutcome} {d d' : DevRead} (h : d.SawEmpty ops r)
    (hstep : devReadStep r d o = some (r', d')) : d'.SawEmpty (ops ++ readerOps r d) r' := by
  have hhead : ∀ (e : DevRead) (ls : List (QueueOp ℕ UInt8)) (q : ByteRing),
      e.loopHead.SawEmpty ls q := by
    intro e ls q
    rw [DevRead.loopHead]
    split
    · trivial
    · exact fun hlen => absurd hlen ‹_›
  obtain ⟨pc, len, n, ready, out⟩ := d
  cases pc
  all_goals simp only [devReadStep] at hstep
  case idle =>
    cases o <;> cases hstep
    exact hhead _ _ _
  case loadWr =>
    cases hstep
    intro heq
    simp only [readerOps, if_pos heq]
    exact ⟨ops, [], rfl, fun op hop => by cases hop⟩
  case loadRd snapshot =>
    split at hstep
    · next heq =>
        cases hstep
        exact fun _ => (h heq).append fun op hop => by cases hop
    · cases hstep
      trivial
  case putUser => split at hstep <;> cases hstep <;> trivial
  case advance =>
    cases hstep
    exact hhead _ _ _
  all_goals
    cases hstep
    trivial

end Callers

/-! ## The law -/

/-- **The char ring refines a bounded queue**: `ops` are the operations of a run in the order of
their steps. -/
structure RefinesQueue (ops : List (QueueOp ℕ UInt8)) (s : CharState) : Prop where
  /-- They are a history of the queue, and what it holds in the end is what the page holds. -/
  history : exec (queueNext charQueueCapacity) [] ops = some s.ring.queue
  /-- The page never holds more than 1023 bytes. -/
  length_le : s.ring.queue.length ≤ charQueueCapacity
  /-- What went in is what the calls have appended, each byte with its call. -/
  entered : ops.filterMap QueueOp.entered = s.ring.appended
  /-- What went out is what the reader has delivered and consumed. -/
  taken : ops.filterMap QueueOp.taken = (s.reader 0).output.take s.ring.removed
  /-- A call that waits for room has found the queue full. -/
  waits : ∀ c w, s.writer c = .devWrite w → w.pc.turnedAway = true → .refuse c ∈ ops
  /-- A push returns `-ENOSPC` exactly when it has found the queue full. -/
  refused : ∀ c m pc, s.writer c = .push m pc → (pc.refused = true ↔ .refuse c ∈ ops)
  /-- It was full then: 1023 bytes had gone in and not come out. -/
  full : ∀ c, .refuse c ∈ ops → ∃ before after q, ops = before ++ .refuse c :: after ∧
    exec (queueNext charQueueCapacity) [] before = some q ∧ q.length = charQueueCapacity
  /-- A `dev_read` that leaves its loop early has found the queue empty after its last byte. -/
  sawEmpty : (s.reader 0).pc = .leave → 0 < (s.reader 0).len → EmptySince ops

/-- **The invariant of an observed run.** -/
structure QueueInv (calls : ℕ → WriterCall) (s : CharState) (ops : List (QueueOp ℕ UInt8)) :
    Prop where
  fifo : FifoInv calls s
  history : exec (queueNext charQueueCapacity) [] ops = some s.ring.queue
  entered : ops.filterMap QueueOp.entered = s.ring.appended
  turnedAway : ∀ c, (s.writer c).TurnedAway → .refuse c ∈ ops
  pushed : ∀ c m pc, s.writer c = .push m pc → .refuse c ∈ ops → pc.refused = true
  sawEmpty : (s.reader 0).SawEmpty ops s.ring

namespace QueueInv

variable {calls : ℕ → WriterCall} {s : CharState} {ops : List (QueueOp ℕ UInt8)}

/-- The history goes on. -/
theorem extend {more : List (QueueOp ℕ UInt8)} {r : ByteRing} (h : QueueInv calls s ops)
    (hmore : exec (queueNext charQueueCapacity) s.ring.queue more = some r.queue) :
    exec (queueNext charQueueCapacity) [] (ops ++ more) = some r.queue := by
  rw [exec_append, h.history]
  exact hmore

/-- **A writer's step keeps the invariant.** -/
theorem writer_step (h : QueueInv calls s ops) {c : ℕ} {o : Outcome} {r : ByteRing} {w : Writer}
    (hstep : writerStep c s.ring o (s.writer c) = some (r, w)) :
    QueueInv calls { s with ring := r, writer := update s.writer c w }
      (ops ++ writerOps c s.ring (s.writer c)) := by
  obtain ⟨hhistory, happended⟩ := exec_writerOps h.fifo.tracked (h.fifo.facts c) hstep
  have heff := h.fifo.writers.effect hstep
  have hrd : r.rdIdx = s.ring.rdIdx := heff.log_prefix.2.1
  refine ⟨h.fifo.writer_step hstep, h.extend hhistory, ?_, fun c' htd => ?_,
    fun c' m pc hw hmem => ?_, h.sawEmpty.writer_step hrd fun op hop => taken_writerOps hop⟩
  · rw [List.filterMap_append, h.entered]
    exact happended.symm
  · rw [List.mem_append]
    simp only at htd
    by_cases hc : c' = c
    · subst hc
      rw [Function.update_self] at htd
      exact (turnedAway_step hstep htd).imp_left (h.turnedAway c')
    · rw [Function.update_of_ne hc] at htd
      exact .inl (h.turnedAway c' htd)
  · rw [List.mem_append] at hmem
    simp only at hw
    by_cases hc : c' = c
    · subst hc
      rw [Function.update_self] at hw
      subst hw
      obtain ⟨x, x', -, hx, -⟩ | ⟨metric, pc₀, pc', hold, hnew, hmove⟩ := writerStep_cases hstep
      · cases hx
      · cases hnew
        rw [hold] at hmem
        exact (push_turnedAway hmove).mpr (hmem.imp_left (h.pushed c' m pc₀ hold))
    · rw [Function.update_of_ne hc] at hw
      exact h.pushed c' m pc hw (hmem.resolve_right fun hown => hc (refuse_mem_writerOps hown))

/-- **The reader's step keeps the invariant.** -/
theorem reader_step (h : QueueInv calls s ops) {o : ReadOutcome} {r : ByteRing} {x : DevRead}
    (hstep : devReadStep s.ring (s.reader 0) o = some (r, x)) :
    QueueInv calls { s with ring := r, reader := update s.reader 0 x }
      (ops ++ readerOps s.ring (s.reader 0)) := by
  have hhistory := exec_readerOps h.fifo.tracked h.fifo.reader h.fifo.delivered hstep
  have hx : update s.reader 0 x 0 = x := Function.update_self ..
  have hnone : (readerOps s.ring (s.reader 0)).filterMap QueueOp.entered = [] :=
    List.filterMap_eq_nil_iff.mpr fun op hop => (readerOps_own (c := 0) hop).1
  have happended : r.appended = s.ring.appended := (devReadStep_kept hstep).appended
  refine ⟨h.fifo.reader_step hstep, h.extend hhistory, ?_, fun c htd => ?_,
    fun c m pc hw hmem => ?_, ?_⟩
  · rw [List.filterMap_append, hnone, List.append_nil, h.entered]
    exact happended.symm
  · exact List.mem_append_left _ (h.turnedAway c htd)
  · refine h.pushed c m pc hw ((List.mem_append.mp hmem).resolve_right fun hown => ?_)
    exact (readerOps_own hown).2 rfl
  · simp only [hx]
    exact h.sawEmpty.reader_step hstep

/-- Waking the writers keeps the invariant. -/
theorem wakeUp (h : QueueInv calls s ops) :
    QueueInv calls { s with ring := s.ring.wakeUp } ops where
  fifo := h.fifo.wakeUp
  history := h.history
  entered := h.entered
  turnedAway := h.turnedAway
  pushed := h.pushed
  sawEmpty := h.sawEmpty

/-- **The step lemma.** -/
theorem next (h : QueueInv calls s ops) {a : CharAction} {s' : CharState} (hok : a.OneReader)
    (hnext : charNext s a = some s') : QueueInv calls s' (ops ++ charOps s a) := by
  obtain ⟨c, o, r, w, rfl, hstep, rfl⟩ | ⟨d, o, r, x, rfl, hstep, rfl⟩ | ⟨rfl, rfl⟩ | ⟨v, rfl, -⟩ :=
    charNext_cases hnext
  · exact h.writer_step hstep
  · obtain rfl : d = 0 := hok
    exact h.reader_step hstep
  · rw [charOps, List.append_nil]
    exact h.wakeUp
  · exact absurd hok id

/-- It holds on the zeroed page. -/
theorem init (calls : ℕ → WriterCall) : QueueInv calls (charInit calls) [] where
  fifo := FifoInv.init calls
  history := congrArg some ByteRing.zeroed_tracked.queue_eq.symm
  entered := rfl
  turnedAway := fun c h => by
    have hstart : (charInit calls).writer c = (calls c).start := rfl
    rw [hstart] at h
    cases hcall : calls c <;> rw [hcall] at h <;> cases h
  pushed := fun c m pc _ h => by cases h
  sawEmpty := trivial

end QueueInv

/-- **Every run of the char device is a history of a queue of 1023 bytes**, for any number of writer
calls and one reader. -/
theorem refinesQueue (calls : ℕ → WriterCall) (as : List CharAction) (s : CharState)
    (hone : ∀ a ∈ as, a.OneReader) (h : exec charNext (charInit calls) as = some s) :
    RefinesQueue (labels charNext charOps (charInit calls) as) s := by
  have hinv := exec_labels charOps (I := QueueInv calls)
    (fun _ _ _ _ hi hok hnext => hi.next hok hnext) as hone (QueueInv.init calls) h
  rw [List.nil_append] at hinv
  refine ⟨hinv.history, exec_queue_length_le (Nat.zero_le _) hinv.history, hinv.entered, ?_,
    fun c w hw hwait => hinv.turnedAway c ?_,
    fun c m pc hw => ⟨fun href => hinv.turnedAway c ?_, hinv.pushed c m pc hw⟩,
    fun c hmem => full_of_refuse hmem hinv.history, fun hpc hlen => ?_⟩
  · -- what went in is the log, and what is left is its end
    have hfifo := exec_queue_fifo hinv.history
    obtain ⟨hout, hle⟩ := hinv.fifo.delivered
    rw [List.nil_append, hinv.entered, hinv.fifo.tracked.queue_eq] at hfifo
    have hlog : s.ring.log = s.ring.appended.map Prod.snd := rfl
    rw [hout, List.take_take, Nat.min_eq_left (Nat.le_add_right _ _)]
    rw [← hlog] at hfifo
    exact List.append_cancel_right (hfifo.symm.trans (List.take_append_drop _ _).symm)
  · rw [hw]
    exact hwait
  · rw [hw]
    exact href
  · have hsaw := hinv.sawEmpty
    unfold DevRead.SawEmpty at hsaw
    rw [hpc] at hsaw
    exact hsaw hlen

/-- The push between two bytes of a `dev_write`, as a history of the queue: the reader takes bytes
while others go in, and then finds the queue empty. -/
theorem refinesQueue_push_between_bytes :
    ∃ s, exec charNext (charInit writeAndPush) pushBetweenBytes = some s ∧
      labels charNext charOps (charInit writeAndPush) pushBetweenBytes
        = .enqueue 0 100 :: (countedMetric.bytes.take 9).map (.enqueue 1)
          ++ [.dequeue 100, .dequeue 1, .dequeue 2]
          ++ (countedMetric.bytes.drop 9).map (.enqueue 1) ++ [.enqueue 0 101]
          ++ (countedMetric.bytes.drop 2).map .dequeue ++ [.dequeue 101, .empty] ∧
      RefinesQueue (labels charNext charOps (charInit writeAndPush) pushBetweenBytes) s := by
  have hrun : (exec charNext (charInit writeAndPush) pushBetweenBytes).isSome = true := by
    decide +kernel
  obtain ⟨s, hs⟩ := Option.isSome_iff_exists.mp hrun
  exact ⟨s, hs, by decide +kernel, refinesQueue _ pushBetweenBytes s (by decide +kernel) hs⟩

end TelemetrySubsystem
