import TelemetrySubsystem.StressTest.Threads

/-! # Does the stress test read everything it wrote?

The reading thread returns when it has found the ring empty and then finds
`writer_is_finished_flag` set. Between the two it does not look at the ring again.

* **`StressState`** is the stress test: one producer, one reading thread of either kind, the ring
  and the flag.
* **`AllRead`** is what should hold when both have returned.
* **`FinishesInTime`** is the condition on the store of the flag, and `allRead_of_finishesInTime`
  the law for the runs that meet it; `reader_leaves_bytes` shows runs outside it. -/

namespace TelemetrySubsystem

open ActionSystem WrapCounter

/-! ## The stress test -/

/-- The `dev_read` call is going to return 0: it has loaded a `wr_idx` equal to `rd_idx`, or is past
that test. -/
def DevRead.FoundEmpty (r : ByteRing) (d : DevRead) : Prop :=
  d.bytesRead = 0 ∧ (d.pc = .loadRd r.rdIdx ∨ d.pc = .leave ∨ ∃ ret, d.pc = .idle ret)

/-- The reading thread, of either kind. -/
inductive ReaderThread
  | consumer (k : ConsumerThread)
  | zeroCopy (k : ZeroCopyConsumer)
  deriving DecidableEq, Repr

namespace ReaderThread

/-- One step of the reading thread. -/
def step (moduloDivisor : ℤ) (finished : Bool) (r : ByteRing) :
    ReaderThread → Option (ByteRing × ReaderThread)
  | consumer k => (consumerThreadStep finished r k).map fun p => (p.1, .consumer p.2)
  | zeroCopy k => (zeroCopyStep moduloDivisor finished r k).map fun p => (p.1, .zeroCopy p.2)

/-- `reader_count`. -/
def readerCount : ReaderThread → ℕ
  | consumer k => k.readerCount
  | zeroCopy k => k.readerCount

/-- The thread has returned. -/
def Returned : ReaderThread → Prop
  | consumer k => k.pc = .done
  | zeroCopy k => k.pc = .done

instance : DecidablePred Returned
  | consumer _ => inferInstanceAs (Decidable (_ = _))
  | zeroCopy _ => inferInstanceAs (Decidable (_ = _))

/-- **The thread is committed to its exit test**: it has found the ring empty, or has loaded the
`wr_idx` that will show it empty, and has yet to load `writer_is_finished_flag`. -/
def Committed (r : ByteRing) : ReaderThread → Prop
  | consumer k => k.pc = .testFinished ∨ k.pc = .inside ∧ k.read.FoundEmpty r
  | zeroCopy k => k.pc = .emptyFlags ∨ k.pc = .emptyKick ∨ k.pc = .testFinished

end ReaderThread

/-- **The stress test.** -/
structure StressState where
  ring : ByteRing
  /-- `writer_is_finished_flag`. -/
  finished : Bool
  producer : ProducerThread
  reader : ReaderThread

/-- A step of one of the two threads. -/
inductive StressAction
  | producer
  | reader
  deriving DecidableEq, Repr

/-- The zeroed page, with both threads about to start. -/
def stressInit (reader : ReaderThread) : StressState := ⟨.zeroed, false, .start, reader⟩

/-- **One step of the stress test.** -/
def stressNext (iterations : ℕ) (moduloDivisor : ℤ) (s : StressState) :
    StressAction → Option StressState
  | .producer =>
      (producerThreadStep iterations s.ring s.finished s.producer).map fun p =>
        { s with ring := p.1, finished := p.2.1, producer := p.2.2 }
  | .reader =>
      (s.reader.step moduloDivisor s.finished s.ring).map fun p =>
        { s with ring := p.1, reader := p.2 }

/-- **Everything has been read** once both threads have returned: the counts agree and the ring is
empty. -/
def AllRead (s : StressState) : Prop :=
  s.producer.pc = .done → s.reader.Returned →
    s.reader.readerCount = s.producer.writerCount ∧ s.ring.rdIdx = s.ring.wrIdx

/-- **The condition on a step**: the producer does not store `writer_is_finished_flag` while the
reader is committed to its exit test, unless the ring is empty. -/
def FinishesInTime (s : StressState) (a : StressAction) : Prop :=
  a = .producer → s.producer.pc = .finish → s.reader.Committed s.ring →
    s.ring.rdIdx = s.ring.wrIdx

/-! ## The producer -/

/-- The bytes a `dev_write` call has appended: one more than counted between the store of `wr_idx`
and the count. -/
def DevWrite.written (w : DevWrite) : ℕ := w.bytesWritten + if w.pc = .release then 1 else 0

/-- **The call has met no error**, and returns what it has written. -/
def DevWrite.Smooth (w : DevWrite) : Prop :=
  match w.pc with
  | .entry => w.bytesWritten = 0
  | .condWr phase | .condRd phase _ => phase ≠ .interrupted
  | .faultRelease => False
  | .done ret => ret = w.bytesWritten
  | _ => True

/-- **Without faults and signals a call meets no error**, and what it appends is counted. -/
theorem devWriteStep_written {me : ℕ} {r r' : ByteRing} {w w' : DevWrite} (hsmooth : w.Smooth)
    (h : devWriteStep me r w .ok = some (r', w')) :
    w'.Smooth ∧ r'.appended.length + w.written = r.appended.length + w'.written := by
  obtain ⟨pc, rest, n⟩ := w
  cases devWriteStep_move h with
  | kick =>
      obtain rfl : n = 0 := hsmooth
      exact ⟨rfl, rfl⟩
  | condWr => exact ⟨hsmooth, rfl⟩
  | restart => exact absurd rfl hsmooth
  | faultRelease => exact absurd hsmooth id
  | signalled ho | disturbed ho | spoil _ ho => cases ho
  | raiseRelease | stillFullFirst | stillFullQueued | enqueue =>
      exact ⟨by simp [DevWrite.Smooth], rfl⟩
  | publish =>
      refine ⟨trivial, ?_⟩
      simp only [ByteRing.publish, DevWrite.written, List.length_append, List.length_singleton]
      simp
      omega
  | finish =>
      refine ⟨?_, ?_⟩
      · simp [DevWrite.Smooth]
      · simp [DevWrite.written]
  | again =>
      refine ⟨trivial, ?_⟩
      simp [DevWrite.written]
  | _ => exact ⟨trivial, rfl⟩

/-- **What the producer may rely on**: the facts of its call, and that its count and the bytes of
its call under way add up to what was appended. -/
structure ProducerThread.Facts (r : ByteRing) (p : ProducerThread) : Prop where
  stage : p.write.stage.Facts r
  smooth : p.pc = .inside → p.write.Smooth
  count : p.writerCount + (if p.pc = .inside then p.write.written else 0) = r.appended.length

/-- **What one step of the producer does**: it keeps its facts and has a writer's effect; and it
either is the store of `writer_is_finished_flag` before the return, or leaves the flag alone. -/
theorem producerThreadStep_spec {iterations : ℕ} {r r' : ByteRing} {finished finished' : Bool}
    {p p' : ProducerThread} (h : p.Facts r)
    (hstep : producerThreadStep iterations r finished p = some (r', finished', p')) :
    p'.Facts r' ∧ WriterEffect 0 r r' ∧
      ((p.pc = .finish ∧ r' = r ∧ p'.pc = .done) ∨ (p'.pc ≠ .done ∧ finished' = finished)) := by
  obtain ⟨hstage, hsmooth, hcount⟩ := h
  obtain ⟨pc, i, write, writerCount, totalBytes⟩ := p
  cases pc with
  | loop =>
      simp only [producerThreadStep] at hstep
      split at hstep <;> cases hstep
      · exact ⟨⟨trivial, fun _ => rfl, hcount⟩, .same (.refl r), .inr ⟨by simp, rfl⟩⟩
      · exact ⟨⟨hstage, by rintro ⟨⟩, hcount⟩, .same (.refl r), .inr ⟨by simp, rfl⟩⟩
  | inside =>
      simp only [producerThreadStep] at hstep
      split at hstep
      · -- the call is back: its return value is what it has written
        next ret hpc =>
          cases hstep
          have hret : ret = write.bytesWritten := by
            have hs := hsmooth rfl
            simp only [DevWrite.Smooth, hpc] at hs
            exact hs
          refine ⟨⟨hstage, by rintro ⟨⟩, ?_⟩, .same (.refl r), .inr ⟨by simp, rfl⟩⟩
          simp [DevWrite.written, hpc] at hcount ⊢
          split <;> omega
      · obtain ⟨⟨r₁, w⟩, hwrite, heq⟩ := Option.map_eq_some_iff.mp hstep
        cases heq
        have hst := devWriteStep_stageStep hwrite
        obtain ⟨hsmooth', hwritten⟩ := devWriteStep_written (hsmooth rfl) hwrite
        refine ⟨⟨hst.facts hstage, fun _ => hsmooth', ?_⟩, hst.effect hstage, .inr ⟨by simp, rfl⟩⟩
        have hold : writerCount + write.written = r.appended.length := hcount
        have hnew : r₁.appended.length + write.written = r.appended.length + w.written := hwritten
        show writerCount + w.written = r₁.appended.length
        omega
  | finish =>
      cases hstep
      exact ⟨⟨hstage, by rintro ⟨⟩, hcount⟩, .same (.refl r), .inl ⟨rfl, rfl, rfl⟩⟩
  | done => cases hstep

/-! ## The reading thread -/

/-- **What `zero_copy_consumer` may rely on**: its indices are fresh, and it has counted the bytes
it has removed. -/
structure ZeroCopyConsumer.Facts (r : ByteRing) (k : ZeroCopyConsumer) : Prop where
  readIndex : ∀ idx, k.pc = .loadWr idx → idx = r.rdIdx
  nonempty : ∀ idx, k.pc = .loadByte idx ∨ k.pc = .storeRd idx → idx = r.rdIdx ∧ r.rdIdx ≠ r.wrIdx
  count : k.readerCount = r.removed

/-- **What `consumer` may rely on**: the facts of its call, which returns what it has read, and that
its count and the bytes of its call under way add up to what was removed. -/
structure ConsumerThread.Facts (r : ByteRing) (k : ConsumerThread) : Prop where
  read : k.read.Facts r
  delivered : k.read.Delivered r
  outside : k.pc ≠ .inside → ∃ ret, k.read.pc = .idle ret
  inside : k.pc = .inside → ∀ ret, k.read.pc = .idle ret → ret = k.read.bytesRead
  count : k.readerCount + (if k.pc = .inside then k.read.bytesRead else 0) = r.removed

/-- What the reading thread may rely on. -/
def ReaderThread.Facts (r : ByteRing) : ReaderThread → Prop
  | consumer k => k.Facts r
  | zeroCopy k => k.Facts r

/-- **The effect of a step of the reading thread on the contents**: none, or one byte removed. -/
def ReadEffect (r r' : ByteRing) : Prop :=
  SameContents r r' ∨ r.rdIdx ≠ r.wrIdx ∧
    r' = { r with rdIdx := next ringBufferCapacity r.rdIdx, removed := r.removed + 1 }

/-- **What one step of the reading thread does**: it keeps its facts and removes a byte at most; it
commits itself to its exit test only when the ring is empty; and it returns from that test, when the
flag is set. -/
structure ReadStep (finished : Bool) (r : ByteRing) (k : ReaderThread) (r' : ByteRing)
    (k' : ReaderThread) : Prop where
  facts : k'.Facts r'
  effect : ReadEffect r r'
  committed : k'.Committed r' → (k.Committed r ∧ SameContents r r') ∨ r'.rdIdx = r'.wrIdx
  returned : k'.Returned → k.Committed r ∧ SameContents r r' ∧ finished = true

/-- A step of `zero_copy_consumer`. -/
theorem zeroCopyStep_spec {moduloDivisor : ℤ} {finished : Bool} {r r' : ByteRing}
    {k k' : ZeroCopyConsumer} (h : k.Facts r)
    (hstep : zeroCopyStep moduloDivisor finished r k = some (r', k')) :
    ReadStep finished r (.zeroCopy k) r' (.zeroCopy k') := by
  obtain ⟨hread, hne, hcount⟩ := h
  obtain ⟨pc, kick, n⟩ := k
  cases pc
  all_goals simp only [zeroCopyStep] at hstep
  case loadRd =>
    cases hstep
    exact ⟨⟨fun idx hidx => by cases hidx; rfl, by simp, hcount⟩, .inl (.refl r),
      by simp [ReaderThread.Committed], by rintro ⟨⟩⟩
  case loadWr idx =>
    obtain rfl := hread idx rfl
    split at hstep
    · next hdiff =>
        cases hstep
        refine ⟨⟨by simp, fun idx hidx => ?_, hcount⟩, .inl (.refl r),
          by simp [ReaderThread.Committed], by rintro ⟨⟩⟩
        simp only [ZeroCopyPc.loadByte.injEq, reduceCtorEq, or_false] at hidx
        exact ⟨hidx.symm, hdiff⟩
    · next hsame =>
        -- both indices are loaded: the ring is empty
        cases hstep
        exact ⟨⟨by simp, by simp, hcount⟩, .inl (.refl r), fun _ => .inr (not_not.mp hsame),
          by rintro ⟨⟩⟩
  case loadByte idx =>
    cases hstep
    refine ⟨⟨by simp, fun idx' hidx => ?_, hcount⟩, .inl (.refl r),
      by simp [ReaderThread.Committed], by rintro ⟨⟩⟩
    simp only [ZeroCopyPc.storeRd.injEq, reduceCtorEq, false_or] at hidx
    exact hidx ▸ hne idx (.inl rfl)
  case storeRd idx =>
    cases hstep
    obtain ⟨rfl, hdiff⟩ := hne idx (.inr rfl)
    exact ⟨⟨by simp, by simp, congrArg (· + 1) hcount⟩, .inr ⟨hdiff, rfl⟩,
      by simp [ReaderThread.Committed], by rintro ⟨⟩⟩
  case loadFlags =>
    split at hstep
    · split at hstep <;> cases hstep <;>
        exact ⟨⟨by simp, by simp, hcount⟩, .inl (.refl r), by simp [ReaderThread.Committed],
          by rintro ⟨⟩⟩
    · cases hstep
      exact ⟨⟨by simp, by simp, hcount⟩, .inl (.refl r), by simp [ReaderThread.Committed],
        by rintro ⟨⟩⟩
  case kick =>
    cases hstep
    exact ⟨⟨by simp, by simp, hcount⟩, .inl ⟨rfl, rfl, rfl, rfl, rfl⟩,
      by simp [ReaderThread.Committed], by rintro ⟨⟩⟩
  case emptyFlags =>
    split at hstep <;> cases hstep <;>
      exact ⟨⟨by simp, by simp, hcount⟩, .inl (.refl r), fun _ => .inl ⟨.inl rfl, .refl r⟩,
        by rintro ⟨⟩⟩
  case emptyKick =>
    cases hstep
    exact ⟨⟨by simp, by simp, hcount⟩, .inl ⟨rfl, rfl, rfl, rfl, rfl⟩,
      fun _ => .inl ⟨.inr (.inl rfl), rfl, rfl, rfl, rfl, rfl⟩, by rintro ⟨⟩⟩
  case testFinished =>
    cases hstep
    cases finished with
    | false =>
        exact ⟨⟨by simp, by simp, hcount⟩, .inl (.refl r), by simp [ReaderThread.Committed],
          by rintro ⟨⟩⟩
    | true =>
        exact ⟨⟨by simp, by simp, hcount⟩, .inl (.refl r), by simp [ReaderThread.Committed],
          fun _ => ⟨.inr (.inr rfl), .refl r, rfl⟩⟩
  case done => cases hstep

/-- **A step inside `dev_read`** counts what it removes, and the call returns its count. -/
theorem devReadStep_bytesRead {r r' : ByteRing} {d d' : DevRead}
    (h : devReadStep r d .ok = some (r', d')) :
    r'.removed + d.bytesRead = r.removed + d'.bytesRead ∧
      ∀ ret, d'.pc = .idle ret → ret = d'.bytesRead := by
  obtain ⟨pc, len, n, ready, out⟩ := d
  cases pc
  all_goals simp only [devReadStep] at h
  case idle => cases h
  case loadRd => split at h <;> cases h <;> exact ⟨rfl, by simp⟩
  case putUser =>
    simp only [reduceCtorEq, if_false] at h
    cases h
    exact ⟨rfl, by simp⟩
  case advance nxt =>
    cases h
    unfold DevRead.loopHead
    split
    · refine ⟨?_, by simp⟩
      simp only
      omega
    · refine ⟨?_, by simp⟩
      simp only
      omega
  case leave =>
    cases h
    refine ⟨?_, fun ret hret => ?_⟩
    · cases ready <;> rfl
    · cases hret
      rfl
  all_goals
    cases h
    exact ⟨rfl, by simp⟩

/-- **A call finds the ring empty when it is.** -/
theorem devReadStep_foundEmpty {r r' : ByteRing} {d d' : DevRead}
    (h : devReadStep r d .ok = some (r', d')) (hempty : d'.FoundEmpty r') :
    (d.FoundEmpty r ∧ SameContents r r') ∨ r'.rdIdx = r'.wrIdx := by
  obtain ⟨hzero, hpc'⟩ := hempty
  obtain ⟨pc, len, n, ready, out⟩ := d
  cases pc
  all_goals simp only [devReadStep] at h
  case idle => cases h
  case loadWr =>
    cases h
    simp only [DevReadPc.loadRd.injEq, reduceCtorEq, exists_false, or_false] at hpc'
    exact .inr hpc'.symm
  case loadRd snapshot =>
    split at h
    · next hsame =>
        cases h
        exact .inl ⟨⟨hzero, .inl (by rw [hsame])⟩, .refl r⟩
    · cases h
      simp at hpc'
  case putUser =>
    simp only [reduceCtorEq, if_false] at h
    cases h
    simp at hpc'
  case advance nxt =>
    -- this call has read something
    cases h
    rw [(DevRead.loopHead_counters _).2.1] at hzero
    cases hzero
  case leave =>
    cases h
    refine .inl ⟨⟨hzero, .inr (.inl rfl)⟩, ?_⟩
    cases ready <;> exact ⟨rfl, rfl, rfl, rfl, rfl⟩
  all_goals
    cases h
    simp at hpc'

/-- A step of `consumer`. -/
theorem consumerThreadStep_spec {finished : Bool} {r r' : ByteRing} {k k' : ConsumerThread}
    (ht : r.Tracked) (h : k.Facts r) (hstep : consumerThreadStep finished r k = some (r', k')) :
    ReadStep finished r (.consumer k) r' (.consumer k') := by
  obtain ⟨hread, hdel, hout, hin, hcount⟩ := h
  obtain ⟨pc, d, n⟩ := k
  cases pc with
  | call =>
      obtain ⟨⟨r₁, d₁⟩, hcall, heq⟩ := Option.map_eq_some_iff.mp hstep
      cases heq
      obtain ⟨hfacts, hdel', -⟩ := devReadStep_spec ht hread hdel hcall
      -- the call starts with its loop test
      obtain ⟨ret, (hidle : d.pc = .idle ret)⟩ := hout (by simp)
      simp only [devReadStep, hidle, DevRead.loopHead, consumerReadSize] at hcall
      cases hcall
      refine ⟨⟨hfacts, hdel', by simp, by simp, hcount⟩, .inl (.refl r), ?_, by rintro ⟨⟩⟩
      simp [ReaderThread.Committed, DevRead.FoundEmpty]
  | inside =>
      simp only [consumerThreadStep] at hstep
      have hold : n + d.bytesRead = r.removed := hcount
      split at hstep
      · -- the call is back
        next ret hidle =>
          have hret : ret = d.bytesRead := hin rfl ret hidle
          split at hstep
          · cases hstep
            refine ⟨⟨hread, hdel, fun _ => ⟨ret, hidle⟩, by simp, ?_⟩, .inl (.refl r),
              by simp [ReaderThread.Committed], by rintro ⟨⟩⟩
            show n + ret.toNat + 0 = r.removed
            omega
          · split at hstep <;> cases hstep
            · have hzero : d.bytesRead = 0 := by omega
              refine ⟨⟨hread, hdel, fun _ => ⟨ret, hidle⟩, by simp, ?_⟩, .inl (.refl r),
                fun _ => .inl ⟨.inr ⟨rfl, hzero, .inr (.inr ⟨ret, hidle⟩)⟩, .refl r⟩,
                by rintro ⟨⟩⟩
              show n + 0 = r.removed
              omega
            · omega
      · obtain ⟨⟨r₁, d₁⟩, hinside, heq⟩ := Option.map_eq_some_iff.mp hstep
        cases heq
        obtain ⟨hfacts, hdel', heff⟩ := devReadStep_spec ht hread hdel hinside
        obtain ⟨hbytes, hret⟩ := devReadStep_bytesRead hinside
        refine ⟨⟨hfacts, hdel', by simp, fun _ => hret, ?_⟩, heff, fun hcommitted => ?_,
          by rintro ⟨⟩⟩
        · show n + d₁.bytesRead = r₁.removed
          omega
        · have hempty : d₁.FoundEmpty r₁ := by
            simpa [ReaderThread.Committed] using hcommitted
          exact (devReadStep_foundEmpty hinside hempty).imp_left fun hfound =>
            ⟨.inr ⟨rfl, hfound.1⟩, hfound.2⟩
  | testFinished =>
      cases hstep
      obtain ⟨ret, hidle⟩ := hout (by simp)
      cases finished with
      | false =>
          exact ⟨⟨hread, hdel, fun _ => ⟨ret, hidle⟩, by simp, hcount⟩, .inl (.refl r),
            by simp [ReaderThread.Committed], by rintro ⟨⟩⟩
      | true =>
          exact ⟨⟨hread, hdel, fun _ => ⟨ret, hidle⟩, by simp, hcount⟩, .inl (.refl r),
            by simp [ReaderThread.Committed], fun _ => ⟨.inl rfl, .refl r, rfl⟩⟩
  | done => cases hstep

/-- **A step of the reading thread**, of either kind. -/
theorem readerStep_spec {moduloDivisor : ℤ} {finished : Bool} {r r' : ByteRing}
    {k k' : ReaderThread} (ht : r.Tracked) (h : k.Facts r)
    (hstep : k.step moduloDivisor finished r = some (r', k')) : ReadStep finished r k r' k' := by
  cases k with
  | consumer k =>
      obtain ⟨⟨r₁, k₁⟩, hk, heq⟩ := Option.map_eq_some_iff.mp hstep
      cases heq
      exact consumerThreadStep_spec ht h hk
  | zeroCopy k =>
      obtain ⟨⟨r₁, k₁⟩, hk, heq⟩ := Option.map_eq_some_iff.mp hstep
      cases heq
      exact zeroCopyStep_spec h hk

/-! ## Interference -/

/-- **The producer takes nothing from the reading thread.** -/
theorem ReaderThread.Facts.writer_effect {r r' : ByteRing} {me : ℕ} {k : ReaderThread}
    (h : k.Facts r) (he : WriterEffect me r r') : k.Facts r' := by
  obtain ⟨-, hrd, hremoved⟩ := he.log_prefix
  cases k with
  | consumer k =>
      exact ⟨h.read.writer_effect he, h.delivered.writer_effect he, h.outside, h.inside,
        hremoved ▸ h.count⟩
  | zeroCopy k =>
      refine ⟨fun idx hidx => hrd ▸ h.readIndex idx hidx, fun idx hidx => ?_, hremoved ▸ h.count⟩
      obtain ⟨hfresh, hne⟩ := h.nonempty idx hidx
      refine ⟨hrd ▸ hfresh, ?_⟩
      -- an append does not fill the ring up to the read index
      cases he with
      | same hsame =>
          rw [hsame.rdIdx, hsame.wrIdx]
          exact hne
      | fill b hr =>
          subst hr
          exact hne
      | append hfree hr =>
          subst hr
          exact hfree.symm

/-- The commitment does not depend on what the producer does. -/
theorem ReaderThread.Committed.congr {r r' : ByteRing} {k : ReaderThread} (h : k.Committed r')
    (hrd : r'.rdIdx = r.rdIdx) : k.Committed r := by
  cases k with
  | consumer k =>
      simp only [ReaderThread.Committed, DevRead.FoundEmpty, hrd] at h ⊢
      exact h
  | zeroCopy k => exact h

/-- **The reading thread takes nothing from the producer.** -/
theorem ProducerThread.Facts.read_effect {r r' : ByteRing} {p : ProducerThread} (h : p.Facts r)
    (ht : r.Tracked) (he : ReadEffect r r') : p.Facts r' := by
  rcases he with hsame | ⟨hne, rfl⟩
  · exact ⟨h.stage.congr hsame, h.smooth, hsame.appended ▸ h.count⟩
  · exact ⟨h.stage.remove ht hne, h.smooth, h.count⟩

/-- The reading thread keeps the ring tracked. -/
theorem ReadEffect.tracked {r r' : ByteRing} (h : ReadEffect r r') (ht : r.Tracked) :
    r'.Tracked := by
  rcases h with hsame | ⟨hne, rfl⟩
  · exact ht.congr hsame
  · exact ht.remove hne

/-! ## The invariant -/

/-- **The invariant**: both threads have their facts; the flag is set when the producer has
returned; and once it is set, a reader committed to its exit test, or past it, has an empty ring
behind it. -/
structure StressInv (s : StressState) : Prop where
  tracked : s.ring.Tracked
  producer : s.producer.Facts s.ring
  finished : s.finished = true ↔ s.producer.pc = .done
  reader : s.reader.Facts s.ring
  settled : s.finished = true → s.reader.Committed s.ring → s.ring.rdIdx = s.ring.wrIdx
  returned : s.reader.Returned → s.finished = true ∧ s.ring.rdIdx = s.ring.wrIdx

/-- **A step of the producer keeps the invariant**, if it stores the flag in time. -/
theorem StressInv.producer_step {iterations : ℕ} {s : StressState} (h : StressInv s)
    (hok : FinishesInTime s .producer) {r : ByteRing} {finished : Bool} {p : ProducerThread}
    (hstep : producerThreadStep iterations s.ring s.finished s.producer = some (r, finished, p)) :
    StressInv { s with ring := r, finished := finished, producer := p } := by
  obtain ⟨hfacts, heff, hflag⟩ := producerThreadStep_spec h.producer hstep
  -- a producer that takes a step has not returned, and so neither has the reader
  have hrunning : s.finished = false := by
    by_contra hset
    have hdone := h.finished.mp (Bool.not_eq_false _ |>.mp hset)
    simp only [producerThreadStep, hdone] at hstep
    cases hstep
  have hreading : ¬ s.reader.Returned := fun hret => by
    rw [(h.returned hret).1] at hrunning
    cases hrunning
  have hrd : r.rdIdx = s.ring.rdIdx := heff.log_prefix.2.1
  refine ⟨h.tracked.writer_effect heff, hfacts, ?_, h.reader.writer_effect heff,
    fun hset hcommitted => ?_, fun hret => absurd hret hreading⟩
  · rcases hflag with ⟨hpc, rfl, hdone⟩ | ⟨hne, rfl⟩
    · simp only [producerThreadStep, hpc] at hstep
      cases hstep
      exact iff_of_true rfl rfl
    · exact iff_of_false (by simp [hrunning]) hne
  · rcases hflag with ⟨hpc, rfl, -⟩ | ⟨-, rfl⟩
    · exact hok rfl hpc hcommitted
    · rw [hrunning] at hset
      cases hset

/-- **A step of the reading thread keeps the invariant.** -/
theorem StressInv.reader_step {moduloDivisor : ℤ} {s : StressState} (h : StressInv s)
    {r : ByteRing} {k : ReaderThread}
    (hstep : s.reader.step moduloDivisor s.finished s.ring = some (r, k)) :
    StressInv { s with ring := r, reader := k } := by
  obtain ⟨hfacts, heff, hcommit, hreturn⟩ := readerStep_spec h.tracked h.reader hstep
  have hempty : s.finished = true → s.reader.Committed s.ring → SameContents s.ring r →
      r.rdIdx = r.wrIdx := by
    intro hset hcommitted hsame
    rw [hsame.rdIdx, hsame.wrIdx]
    exact h.settled hset hcommitted
  refine ⟨heff.tracked h.tracked, h.producer.read_effect h.tracked heff, h.finished, hfacts,
    fun hset hcommitted => ?_, fun hret => ?_⟩
  · rcases hcommit hcommitted with ⟨hold, hsame⟩ | hnow
    · exact hempty hset hold hsame
    · exact hnow
  · obtain ⟨hold, hsame, hset⟩ := hreturn hret
    exact ⟨hset, hempty hset hold hsame⟩

/-- **One step keeps the invariant.** -/
theorem StressInv.next {iterations : ℕ} {moduloDivisor : ℤ} {s s' : StressState} {a : StressAction}
    (h : StressInv s) (hok : FinishesInTime s a)
    (hnext : stressNext iterations moduloDivisor s a = some s') : StressInv s' := by
  cases a with
  | producer =>
      obtain ⟨⟨r, finished, p⟩, hstep, rfl⟩ := Option.map_eq_some_iff.mp hnext
      exact h.producer_step hok hstep
  | reader =>
      obtain ⟨⟨r, k⟩, hstep, rfl⟩ := Option.map_eq_some_iff.mp hnext
      exact h.reader_step hstep

/-- A reading thread about to start. -/
def ReaderThread.Starting : ReaderThread → Prop
  | consumer k => k = .start
  | zeroCopy k => k = .start 0

/-- The invariant holds before the first step. -/
theorem stressInv_init {reader : ReaderThread} (h : reader.Starting) :
    StressInv (stressInit reader) := by
  refine ⟨ByteRing.zeroed_tracked, ⟨trivial, by rintro ⟨⟩, rfl⟩, by simp [stressInit,
    ProducerThread.start], ?_, by rintro ⟨⟩, fun hret => ?_⟩
  · cases reader with
    | consumer k =>
        obtain rfl : k = .start := h
        exact ⟨trivial, ⟨rfl, le_rfl⟩, fun _ => ⟨0, rfl⟩, by rintro ⟨⟩, rfl⟩
    | zeroCopy k =>
        obtain rfl : k = .start 0 := h
        exact ⟨by rintro _ ⟨⟩, by rintro _ (⟨⟨⟩⟩ | ⟨⟨⟩⟩), rfl⟩
  · cases reader with
    | consumer k =>
        obtain rfl : k = .start := h
        cases hret
    | zeroCopy k =>
        obtain rfl : k = .start 0 := h
        cases hret

/-- What has been counted when the reading thread has returned. -/
theorem ReaderThread.Facts.readerCount {r : ByteRing} {k : ReaderThread} (h : k.Facts r)
    (hret : k.Returned) : k.readerCount = r.removed := by
  cases k with
  | consumer k =>
      have hpc : k.pc = .done := hret
      have hcount := h.count
      rw [hpc] at hcount
      exact hcount
  | zeroCopy k => exact h.count

/-! ## The law -/

/-- **The stress test reads everything it wrote**, with any number of iterations, either reading
thread and any order of the accesses, as long as `writer_is_finished_flag` is stored in time. -/
theorem allRead_of_finishesInTime (iterations : ℕ) (moduloDivisor : ℤ) (reader : ReaderThread)
    (hreader : reader.Starting) (s : StressState)
    (h : ReachableUnder (stressNext iterations moduloDivisor) FinishesInTime
      (stressInit reader) s) :
    AllRead s := by
  have hinv : StressInv s :=
    h.invariant (stressInv_init hreader) fun _ _ _ hi hok hnext => hi.next hok hnext
  intro hdone hret
  obtain ⟨-, hempty⟩ := hinv.returned hret
  have hwritten := hinv.producer.count
  rw [if_neg (by simp [hdone]), Nat.add_zero] at hwritten
  have hremoved : s.ring.removed = s.ring.appended.length := by
    rw [hinv.tracked.empty_iff.mp hempty, ByteRing.log, List.length_map]
  refine ⟨?_, hempty⟩
  rw [hinv.reader.readerCount hret, hremoved, hwritten]

/-- The reading thread is at the head of its loop when the flag is stored. -/
def finishesInTimeCheck (s : StressState) : StressAction → Bool
  | .producer => s.producer.pc != .finish || match s.reader with
    | .consumer k => k.pc == .call
    | .zeroCopy k => k.pc == .loadRd
  | .reader => true

/-- There it is not committed to its exit test. -/
theorem finishesInTime_of_check (s : StressState) (a : StressAction)
    (h : finishesInTimeCheck s a = true) : FinishesInTime s a := by
  rintro rfl hpc hcommitted
  simp only [finishesInTimeCheck, hpc, bne_self_eq_false, Bool.false_or] at h
  cases hreader : s.reader with
  | consumer k =>
      rw [hreader] at h hcommitted
      simp only [beq_iff_eq] at h
      simp [ReaderThread.Committed, h] at hcommitted
  | zeroCopy k =>
      rw [hreader] at h hcommitted
      simp only [beq_iff_eq] at h
      simp [ReaderThread.Committed, h] at hcommitted

/-- One message of five bytes, written and then read with either thread. -/
theorem allRead_one_message :
    (∃ s, s.producer.pc = .done ∧ s.reader.Returned ∧ s.producer.writerCount = 5 ∧ AllRead s) ∧
      ∃ s, s.producer.pc = .done ∧ s.reader.Returned ∧ s.producer.writerCount = 5 ∧ AllRead s := by
  have hconsumer : ((exec (checked (stressNext 1 1024) finishesInTimeCheck)
      (stressInit (.consumer .start))
      (List.replicate 40 .producer ++ List.replicate 46 .reader)).map fun s =>
        (s.producer.pc, decide s.reader.Returned, s.producer.writerCount))
      = some (.done, true, 5) := by decide +kernel
  have hzeroCopy : ((exec (checked (stressNext 1 1024) finishesInTimeCheck)
      (stressInit (.zeroCopy (.start 0)))
      (List.replicate 40 .producer ++ List.replicate 29 .reader)).map fun s =>
        (s.producer.pc, decide s.reader.Returned, s.producer.writerCount))
      = some (.done, true, 5) := by decide +kernel
  obtain ⟨s, hexec, hs⟩ := Option.map_eq_some_iff.mp hconsumer
  obtain ⟨t, hexec', ht⟩ := Option.map_eq_some_iff.mp hzeroCopy
  simp only [Prod.mk.injEq, decide_eq_true_eq] at hs ht
  obtain ⟨hdone, hret, hwritten⟩ := hs
  obtain ⟨hdone', hret', hwritten'⟩ := ht
  have hall : AllRead s := allRead_of_finishesInTime 1 1024 (.consumer .start) rfl s
    (.of_check finishesInTime_of_check _ hexec .start)
  have hall' : AllRead t := allRead_of_finishesInTime 1 1024 (.zeroCopy (.start 0)) rfl t
    (.of_check finishesInTime_of_check _ hexec' .start)
  exact ⟨⟨s, hdone, hret, hwritten, hall⟩, t, hdone', hret', hwritten', hall'⟩

/-- **The reading thread returns with bytes left unread**: it finds the ring empty, the producer
writes its message and stores the flag, and the reader finds the flag set. So it goes with either
thread. -/
theorem reader_leaves_bytes :
    (∃ s, Reachable (stressNext 1 1024) (stressInit (.consumer .start)) s ∧
      s.reader.readerCount = 0 ∧ s.producer.writerCount = 5 ∧ ¬ AllRead s) ∧
    ∃ s, Reachable (stressNext 1 1024) (stressInit (.zeroCopy (.start 0))) s ∧
      s.reader.readerCount = 0 ∧ s.producer.writerCount = 5 ∧ ¬ AllRead s := by
  have hlate : ∀ s : StressState, s.producer.pc = .done → s.producer.writerCount = 5 →
      s.reader.Returned → s.reader.readerCount = 0 → ¬ AllRead s := by
    intro s hdone hwritten hret hread hall
    obtain ⟨hcounts, -⟩ := hall hdone hret
    rw [hread, hwritten] at hcounts
    cases hcounts
  have hconsumer : ((exec (stressNext 1 1024) (stressInit (.consumer .start))
      (List.replicate 5 .reader ++ List.replicate 40 .producer ++ [.reader])).map fun s =>
        (s.producer.pc, s.producer.writerCount, decide s.reader.Returned, s.reader.readerCount))
      = some (.done, 5, true, 0) := by decide +kernel
  have hzeroCopy : ((exec (stressNext 1 1024) (stressInit (.zeroCopy (.start 0)))
      (List.replicate 3 .reader ++ List.replicate 40 .producer ++ [.reader])).map fun s =>
        (s.producer.pc, s.producer.writerCount, decide s.reader.Returned, s.reader.readerCount))
      = some (.done, 5, true, 0) := by decide +kernel
  obtain ⟨s, hexec, hs⟩ := Option.map_eq_some_iff.mp hconsumer
  obtain ⟨t, hexec', ht⟩ := Option.map_eq_some_iff.mp hzeroCopy
  simp only [Prod.mk.injEq, decide_eq_true_eq] at hs ht
  obtain ⟨hdone, hwritten, hret, hread⟩ := hs
  obtain ⟨hdone', hwritten', hret', hread'⟩ := ht
  exact ⟨⟨s, Reachable.of_exec _ hexec, hread, hwritten, hlate s hdone hwritten hret hread⟩,
    t, Reachable.of_exec _ hexec', hread', hwritten', hlate t hdone' hwritten' hret' hread'⟩

end TelemetrySubsystem
