import TelemetrySubsystem.CharRing.Progress
import TelemetrySubsystem.Foundations.CyclicWindow

/-! # The char ring is a FIFO

With any number of writer calls and one reader thread, interleaved access by access, the char ring
is a first-in first-out queue of at most 1023 bytes.

* **`ByteRing.Tracked`** ties the ring to its history: the indices count appends and removals, and
  the cells in between hold the bytes not yet removed. Each writer effect and each reader step keeps
  it (`Tracked.writer_effect`, `Tracked.remove`).
* **`DevRead.Facts`** is what the unlocked reader may rely on. Its snapshot of `wr_idx` may be
  stale, but only on the safe side: it was the write index at a moment no earlier than the last
  removal.
* **`FifoInv`** collects the invariant; **`CharFifo`** is the law read off it, and
  `charFifo_of_reachable` says that it holds in every reachable state. -/

namespace TelemetrySubsystem

open ActionSystem CyclicWindow WrapCounter
open Function (update)

/-! ## The ring and its history -/

/-- All bytes appended so far, in append order. -/
def ByteRing.log (r : ByteRing) : List UInt8 := r.appended.map Prod.snd

/-- **The char ring tracks its history.** -/
def ByteRing.Tracked (r : ByteRing) : Prop :=
  Tracks 1024 r.buffer r.rdIdx.toNat r.wrIdx.toNat r.log r.removed

/-- Publishing appends the byte of the published cell to the log. -/
theorem ByteRing.log_publish (r : ByteRing) (me : ℕ) (n : UInt32) :
    (r.publish me n).log = r.log ++ [r.buffer r.wrIdx.toNat] := by
  simp [ByteRing.publish, ByteRing.log]

/-- A prefix can be extended by the element that comes next. -/
theorem prefix_concat_of_getElem? {l L : List UInt8} {b : UInt8} (h : l <+: L)
    (hb : L[l.length]? = some b) : l ++ [b] <+: L := by
  obtain ⟨hlt, hget⟩ := List.getElem?_eq_some_iff.mp hb
  have hconcat := List.concat_get_prefix h hlt
  rwa [List.get_eq_getElem, hget] at hconcat

/-- The zeroed page tracks the empty history. -/
theorem ByteRing.zeroed_tracked : ByteRing.zeroed.Tracked := Tracks.init (by decide) _

namespace ByteRing.Tracked

variable {r r' : ByteRing}

/-- The next write index of a tracked ring, as a number. -/
theorem next_wr (h : r.Tracked) :
    (next ringBufferCapacity r.wrIdx).toNat = (r.wrIdx.toNat + 1) % 1024 :=
  next_toNat h.wr_lt

/-- The next read index of a tracked ring, as a number. -/
theorem next_rd (h : r.Tracked) :
    (next ringBufferCapacity r.rdIdx).toNat = (r.rdIdx.toNat + 1) % 1024 :=
  next_toNat h.rd_lt

/-- Unequal index words are unequal indices. -/
theorem toNat_ne {a b : UInt32} (h : a ≠ b) : a.toNat ≠ b.toNat := fun heq =>
  h (UInt32.toNat_inj.mp heq)

/-- **Equal index words mean that everything appended has been removed.** -/
theorem empty_iff (h : r.Tracked) : r.rdIdx = r.wrIdx ↔ r.removed = r.log.length := by
  rw [← UInt32.toNat_inj]
  exact Tracks.empty_iff h

/-- The tie depends on the contents only. -/
theorem congr (h : r.Tracked) (hsame : SameContents r r') : r'.Tracked := by
  unfold ByteRing.Tracked ByteRing.log
  rw [hsame.buffer, hsame.rdIdx, hsame.wrIdx, hsame.appended, hsame.removed]
  exact h

/-- **A writer's effect keeps the tie.** -/
theorem writer_effect {me : ℕ} (h : r.Tracked) (he : WriterEffect me r r') : r'.Tracked := by
  cases he with
  | same hsame => exact h.congr hsame
  | fill b hr' =>
      subst hr'
      exact Tracks.store h b
  | append hfree hr' =>
      subst hr'
      have hfree' : (r.wrIdx.toNat + 1) % 1024 ≠ r.rdIdx.toNat := h.next_wr ▸ toNat_ne hfree
      have happ := Tracks.append h hfree'
      unfold ByteRing.Tracked
      rw [ByteRing.log_publish, show (r.publish me (next ringBufferCapacity r.wrIdx)).wrIdx
        = next ringBufferCapacity r.wrIdx from rfl, h.next_wr]
      exact happ

/-- **Advancing the read index of a non-empty ring keeps the tie.** -/
theorem remove (h : r.Tracked) (hne : r.rdIdx ≠ r.wrIdx) :
    ByteRing.Tracked
      { r with rdIdx := next ringBufferCapacity r.rdIdx, removed := r.removed + 1 } := by
  have hrem := Tracks.remove h (toNat_ne hne)
  rw [← h.next_rd] at hrem
  exact hrem

/-- After a removal the ring is not full, so a write index found free stays free. -/
theorem next_wr_ne_of_remove (h : r.Tracked) (hne : r.rdIdx ≠ r.wrIdx) :
    next ringBufferCapacity r.wrIdx ≠ next ringBufferCapacity r.rdIdx := by
  intro heq
  have hfull := (Tracks.full_iff (h.remove hne)).mp
    (by rw [← UInt32.toNat_inj, h.next_wr] at heq; exact heq)
  have hroom := Tracks.room h
  simp only [ByteRing.log] at hfull hroom
  omega

end ByteRing.Tracked

/-! ## The reader -/

/-- Whether a byte has been put to user space and its cell not yet released. -/
def DevRead.pending (d : DevRead) : ℕ :=
  match d.pc with
  | .reload | .advance _ => 1
  | _ => 0

/-- **What the one reader may rely on** at its program point. -/
def DevRead.Facts (r : ByteRing) (d : DevRead) : Prop :=
  match d.pc with
  | .loadRd snapshot => ∃ k, r.removed ≤ k ∧ k ≤ r.log.length ∧ snapshot.toNat = k % 1024
  | .index | .reload => r.rdIdx ≠ r.wrIdx
  | .loadByte idx => r.rdIdx ≠ r.wrIdx ∧ idx = r.rdIdx
  | .putUser byte => r.rdIdx ≠ r.wrIdx ∧ byte = r.buffer r.rdIdx.toNat
  | .advance n => r.rdIdx ≠ r.wrIdx ∧ n = next ringBufferCapacity r.rdIdx
  | _ => True

/-- The reader's output is what it has removed, and the byte it is about to. -/
def DevRead.Delivered (r : ByteRing) (d : DevRead) : Prop :=
  d.output = r.log.take (r.removed + d.pending) ∧ r.removed + d.pending ≤ r.log.length

/-- The loop head of the reader has nothing to rely on and nothing pending. -/
theorem DevRead.loopHead_facts (r : ByteRing) (d : DevRead) :
    d.loopHead.Facts r ∧ d.loopHead.pending = 0 ∧ d.loopHead.output = d.output := by
  unfold DevRead.loopHead
  split <;> exact ⟨trivial, rfl, rfl⟩

/-- The loop head keeps the counters. -/
theorem DevRead.loopHead_counters (d : DevRead) :
    d.loopHead.dataReady = d.dataReady ∧ d.loopHead.bytesRead = d.bytesRead ∧
      ∀ ret, d.loopHead.pc ≠ .idle ret := by
  unfold DevRead.loopHead
  split <;> exact ⟨rfl, rfl, by rintro _ ⟨⟩⟩

/-- A writer's effect takes nothing from the reader: the cell at the read index is not the free one,
and an append only adds to the unread bytes. -/
theorem DevRead.Facts.writer_effect {r r' : ByteRing} {me : ℕ} {d : DevRead} (h : d.Facts r)
    (he : WriterEffect me r r') : d.Facts r' := by
  cases he with
  | same hsame =>
      unfold DevRead.Facts ByteRing.log at *
      rw [hsame.buffer, hsame.rdIdx, hsame.wrIdx, hsame.appended, hsame.removed]
      exact h
  | fill b hr' =>
      subst hr'
      obtain ⟨pc, len, n, ready, out⟩ := d
      cases pc with
      | putUser byte =>
          -- the byte in hand came from the read index, and the free cell is elsewhere
          obtain ⟨hne, hbyte⟩ := h
          refine ⟨hne, hbyte.trans ?_⟩
          exact (Function.update_of_ne (ByteRing.Tracked.toNat_ne hne) ..).symm
      | _ => exact h
  | append hfree hr' =>
      subst hr'
      have hne' : r.rdIdx ≠ next ringBufferCapacity r.wrIdx := hfree.symm
      obtain ⟨pc, len, n, ready, out⟩ := d
      cases pc with
      | loadRd snapshot =>
          -- the snapshot is stale now: it still lies between the removals and the appends
          obtain ⟨k, hlo, hhi, hk⟩ := h
          refine ⟨k, hlo, ?_, hk⟩
          rw [ByteRing.log_publish, List.length_append]
          exact hhi.trans (Nat.le_add_right _ _)
      | index => exact hne'
      | reload => exact hne'
      | loadByte idx => exact ⟨hne', h.2⟩
      | putUser byte => exact ⟨hne', h.2⟩
      | advance n => exact ⟨hne', h.2⟩
      | _ => trivial

/-- A writer adds to the log at most, and leaves the read index and the removals alone. -/
theorem WriterEffect.log_prefix {me : ℕ} {r r' : ByteRing} (h : WriterEffect me r r') :
    r.log <+: r'.log ∧ r'.rdIdx = r.rdIdx ∧ r'.removed = r.removed := by
  cases h with
  | same hsame =>
      unfold ByteRing.log
      rw [hsame.appended, hsame.rdIdx, hsame.removed]
      exact ⟨List.prefix_rfl, rfl, rfl⟩
  | fill b hr =>
      subst hr
      exact ⟨List.prefix_rfl, rfl, rfl⟩
  | append _ hr =>
      subst hr
      rw [ByteRing.log_publish]
      exact ⟨List.prefix_append _ _, rfl, rfl⟩

/-- The reader's output is not affected by what writers append. -/
theorem DevRead.Delivered.writer_effect {r r' : ByteRing} {me : ℕ} {d : DevRead}
    (h : d.Delivered r) (he : WriterEffect me r r') : d.Delivered r' := by
  obtain ⟨hout, hle⟩ := h
  cases he with
  | same hsame =>
      unfold DevRead.Delivered ByteRing.log at *
      rw [hsame.appended, hsame.removed]
      exact ⟨hout, hle⟩
  | fill b hr' =>
      subst hr'
      exact ⟨hout, hle⟩
  | append _ hr' =>
      subst hr'
      have hrem : (r.publish me (next ringBufferCapacity r.wrIdx)).removed = r.removed := rfl
      unfold DevRead.Delivered
      rw [ByteRing.log_publish, hrem, List.take_append_of_le_length hle, List.length_append]
      exact ⟨hout, hle.trans (Nat.le_add_right _ _)⟩

/-- A snapshot that differs from the read index shows that the ring is not empty, stale or not. -/
theorem ByteRing.Tracked.nonempty_of_snapshot {r : ByteRing} (ht : r.Tracked) {snapshot : UInt32}
    {k : ℕ} (hlo : r.removed ≤ k) (hhi : k ≤ r.log.length) (hk : snapshot.toNat = k % 1024)
    (hne : r.rdIdx ≠ snapshot) : r.rdIdx ≠ r.wrIdx := by
  intro heq
  -- were the ring empty, the snapshot would be squeezed to the read index itself
  have hrem : r.removed = k := le_antisymm hlo (ht.empty_iff.mp heq ▸ hhi)
  apply hne
  rw [← UInt32.toNat_inj, hk, ← hrem]
  exact Tracks.rd_eq ht

/-- **What one step of the reader does**: it keeps the tie, its own facts and its output, and either
leaves the contents alone or removes one byte from a non-empty ring. -/
theorem devReadStep_spec {r r' : ByteRing} {d d' : DevRead} {o : ReadOutcome} (ht : r.Tracked)
    (hf : d.Facts r) (hd : d.Delivered r) (h : devReadStep r d o = some (r', d')) :
    d'.Facts r' ∧ d'.Delivered r' ∧ (SameContents r r' ∨ r.rdIdx ≠ r.wrIdx ∧
      r' = { r with rdIdx := next ringBufferCapacity r.rdIdx, removed := r.removed + 1 }) := by
  obtain ⟨pc, len, n, ready, out⟩ := d
  cases pc
  all_goals simp only [devReadStep] at h
  case idle ret =>
    cases o <;> cases h
    obtain ⟨hfacts, hpend, hout⟩ :=
      DevRead.loopHead_facts r (⟨.idle ret, _, 0, false, out⟩ : DevRead)
    refine ⟨hfacts, ?_, .inl (.refl r)⟩
    unfold DevRead.Delivered
    rw [hpend, hout]
    exact hd
  case loadWr =>
    -- the snapshot is fresh: everything appended so far
    cases h
    refine ⟨⟨r.log.length, ht.taken_le, le_rfl, Tracks.wr_eq ht⟩, hd, .inl (.refl r)⟩
  case loadRd snapshot =>
    split at h
    · cases h
      exact ⟨trivial, hd, .inl (.refl r)⟩
    · next hne =>
        cases h
        obtain ⟨k, hlo, hhi, hk⟩ := hf
        exact ⟨ht.nonempty_of_snapshot hlo hhi hk hne, hd, .inl (.refl r)⟩
  case index =>
    cases h
    exact ⟨⟨hf, rfl⟩, hd, .inl (.refl r)⟩
  case loadByte idx =>
    cases h
    obtain ⟨hne, rfl⟩ := hf
    exact ⟨⟨hne, rfl⟩, hd, .inl (.refl r)⟩
  case putUser byte =>
    split at h
    · -- a fault leaves the byte in the ring
      cases h
      exact ⟨trivial, hd, .inl (.refl r)⟩
    · cases h
      obtain ⟨hne, rfl⟩ := hf
      obtain ⟨hout, hle⟩ := hd
      refine ⟨hne, ?_, .inl (.refl r)⟩
      -- the byte put to user space is the oldest one not yet removed
      have hhead : r.log[r.removed]? = some (r.buffer r.rdIdx.toNat) :=
        Tracks.head_eq ht (ByteRing.Tracked.toNat_ne hne)
      have hlt : r.removed < r.log.length := by
        by_contra hge
        rw [List.getElem?_eq_none (Nat.le_of_not_lt hge)] at hhead
        cases hhead
      refine ⟨?_, hlt⟩
      have hout' : out = r.log.take r.removed := hout
      simp only [DevRead.pending]
      rw [List.take_add_one, hhead, hout']
      rfl
  case reload =>
    cases h
    exact ⟨⟨hf, rfl⟩, hd, .inl (.refl r)⟩
  case advance n =>
    cases h
    obtain ⟨hne, rfl⟩ := hf
    refine ⟨(DevRead.loopHead_facts _ _).1, ?_, .inr ⟨hne, rfl⟩⟩
    unfold DevRead.Delivered
    rw [(DevRead.loopHead_facts r _).2.1, (DevRead.loopHead_facts r _).2.2]
    exact hd
  case leave =>
    cases h
    refine ⟨trivial, ?_, .inl ?_⟩
    · cases ready <;> exact hd
    · cases ready <;> exact ⟨rfl, rfl, rfl, rfl, rfl⟩

/-! ## The invariant -/

/-- **The invariant of the char ring** with one reader. -/
structure FifoInv (calls : ℕ → WriterCall) (s : CharState) : Prop where
  lockHeld : LockHeld s
  tracked : s.ring.Tracked
  facts : ∀ c, (s.writer c).stage.Facts s.ring
  progress : ∀ c, (s.writer c).Progress (calls c) c s.ring.appended
  reader : (s.reader 0).Facts s.ring
  delivered : (s.reader 0).Delivered s.ring

/-- Facts about the contents survive a step that leaves the contents alone. -/
theorem AppendStage.Facts.congr {r r' : ByteRing} {st : AppendStage} (h : st.Facts r)
    (hsame : SameContents r r') : st.Facts r' := by
  cases st <;> simp only [AppendStage.Facts, hsame.wrIdx, hsame.rdIdx, hsame.buffer] at h ⊢ <;>
    exact h

/-- A removal leaves a writer's facts alone: it only makes room. -/
theorem AppendStage.Facts.remove {r : ByteRing} {st : AppendStage} (h : st.Facts r)
    (ht : r.Tracked) (hne : r.rdIdx ≠ r.wrIdx) :
    st.Facts { r with rdIdx := next ringBufferCapacity r.rdIdx, removed := r.removed + 1 } := by
  have hroom := ht.next_wr_ne_of_remove hne
  cases st with
  | outside => trivial
  | inside => trivial
  | computed n => exact h
  | free n => exact ⟨h.1, h.1 ▸ hroom⟩
  | aimed n idx => exact ⟨h.1, h.1 ▸ hroom, h.2.2⟩
  | filled n b => exact ⟨h.1, h.1 ▸ hroom, h.2.2⟩

/-- **The writers' part of the invariant**: it names no reader, so it holds for any number of them
as long as they only remove bytes that are there. -/
structure WritersInv (s : CharState) : Prop where
  lockHeld : LockHeld s
  tracked : s.ring.Tracked
  facts : ∀ c, (s.writer c).stage.Facts s.ring

namespace WritersInv

variable {s : CharState}

/-- What a writer's step does to the contents. -/
theorem effect (h : WritersInv s) {c : ℕ} {o : Outcome} {r : ByteRing} {w : Writer}
    (hstep : writerStep c s.ring o (s.writer c) = some (r, w)) : WriterEffect c s.ring r :=
  (writerStep_stageStep hstep).effect (h.facts c)

/-- **A writer's step keeps the writers' part.** -/
theorem writer_step (h : WritersInv s) {c : ℕ} {o : Outcome} {r : ByteRing} {w : Writer}
    (hstep : writerStep c s.ring o (s.writer c) = some (r, w)) :
    WritersInv { s with ring := r, writer := update s.writer c w } where
  lockHeld := h.lockHeld.writer_step (writerStep_stageStep hstep)
  tracked := h.tracked.writer_effect (h.effect hstep)
  facts := fun c' => by
    rcases eq_or_ne c' c with rfl | hne
    · simp only [Function.update_self]
      exact (writerStep_stageStep hstep).facts (h.facts c')
    · simp only [Function.update_of_ne hne]
      rcases h.lockHeld.outside_or_same (writerStep_stageStep hstep) hne with hout | hsame
      · rw [hout]
        trivial
      · exact (h.facts c').congr hsame

/-- A step that leaves the contents, the lock and the writers alone keeps the writers' part. -/
theorem same (h : WritersInv s) {s' : CharState} (hsame : SameContents s.ring s'.ring)
    (hlock : s'.ring.lock = s.ring.lock) (hwriter : s'.writer = s.writer) : WritersInv s' where
  lockHeld := fun c hc => hlock.trans (h.lockHeld c (hwriter ▸ hc))
  tracked := h.tracked.congr hsame
  facts := fun c => hwriter ▸ (h.facts c).congr hsame

/-- A removal from a ring that is not empty keeps the writers' part. -/
theorem remove (h : WritersInv s) {s' : CharState} (hne : s.ring.rdIdx ≠ s.ring.wrIdx)
    (hring : s'.ring = { s.ring with
      rdIdx := next ringBufferCapacity s.ring.rdIdx, removed := s.ring.removed + 1 })
    (hwriter : s'.writer = s.writer) : WritersInv s' where
  lockHeld := fun c hc => by
    rw [hring]
    exact h.lockHeld c (hwriter ▸ hc)
  tracked := hring ▸ h.tracked.remove hne
  facts := fun c => by
    rw [hring, hwriter]
    exact (h.facts c).remove h.tracked hne

/-- It holds on the zeroed page. -/
theorem init (calls : ℕ → WriterCall) : WritersInv (charInit calls) where
  lockHeld := fun c hc => absurd (calls c).start_stage hc
  tracked := ByteRing.zeroed_tracked
  facts := fun c => by
    show (calls c).start.stage.Facts _
    rw [(calls c).start_stage]
    trivial

end WritersInv

/-- The writers' part of the invariant. -/
theorem FifoInv.writers {calls : ℕ → WriterCall} {s : CharState} (h : FifoInv calls s) :
    WritersInv s := ⟨h.lockHeld, h.tracked, h.facts⟩

/-- **A writer's step keeps the invariant.** -/
theorem FifoInv.writer_step {calls : ℕ → WriterCall} {s : CharState} (h : FifoInv calls s) {c : ℕ}
    {o : Outcome} {r : ByteRing} {w : Writer}
    (hstep : writerStep c s.ring o (s.writer c) = some (r, w)) :
    FifoInv calls { s with ring := r, writer := update s.writer c w } := by
  have heff := h.writers.effect hstep
  obtain ⟨hlock, htracked, hfacts⟩ := h.writers.writer_step hstep
  exact ⟨hlock, htracked, hfacts,
    h.lockHeld.progress_step (fun c' => (h.facts c').aims) h.progress hstep,
    h.reader.writer_effect heff, h.delivered.writer_effect heff⟩

/-- **The reader's step keeps the invariant.** -/
theorem FifoInv.reader_step {calls : ℕ → WriterCall} {s : CharState} (h : FifoInv calls s)
    {o : ReadOutcome} {r : ByteRing} {x : DevRead}
    (hstep : devReadStep s.ring (s.reader 0) o = some (r, x)) :
    FifoInv calls { s with ring := r, reader := update s.reader 0 x } := by
  obtain ⟨hfacts, hdel, heff⟩ := devReadStep_spec h.tracked h.reader h.delivered hstep
  have hx : update s.reader 0 x 0 = x := Function.update_self ..
  have hw : WritersInv { s with ring := r, reader := update s.reader 0 x } ∧
      r.appended = s.ring.appended := by
    rcases heff with hsame | ⟨hne, hr⟩
    · exact ⟨h.writers.same hsame (devReadStep_kept hstep).lock rfl, hsame.appended⟩
    · refine ⟨h.writers.remove hne hr rfl, ?_⟩
      rw [hr]
  obtain ⟨⟨hlock, htracked, hwfacts⟩, happ⟩ := hw
  refine ⟨hlock, htracked, hwfacts, fun c => ?_, ?_, ?_⟩
  · simp only [happ]
    exact h.progress c
  · simp only [hx]
    exact hfacts
  · simp only [hx]
    exact hdel

/-- The invariant holds on the zeroed page. -/
theorem FifoInv.init (calls : ℕ → WriterCall) : FifoInv calls (charInit calls) where
  lockHeld := (WritersInv.init calls).lockHeld
  tracked := (WritersInv.init calls).tracked
  facts := (WritersInv.init calls).facts
  progress := fun c => (calls c).start_progress c
  reader := trivial
  delivered := ⟨rfl, le_rfl⟩

/-- The wake-up ioctl keeps the invariant. -/
theorem FifoInv.wakeUp {calls : ℕ → WriterCall} {s : CharState} (h : FifoInv calls s) :
    FifoInv calls { s with ring := s.ring.wakeUp } where
  lockHeld := h.lockHeld
  tracked := h.tracked
  facts := fun c => (h.facts c).congr ⟨rfl, rfl, rfl, rfl, rfl⟩
  progress := h.progress
  reader := h.reader
  delivered := h.delivered

/-- **The invariant holds in every reachable state.** -/
theorem fifoInv_of_reachable {calls : ℕ → WriterCall} {s : CharState}
    (h : ReachableUnder charNext (fun _ a => a.OneReader) (charInit calls) s) :
    FifoInv calls s := by
  refine h.invariant (FifoInv.init calls) fun s a s' hi hok hnext => ?_
  obtain ⟨c, o, r, w, -, hstep, rfl⟩ | ⟨d, o, r, x, rfl, hstep, rfl⟩ | ⟨-, rfl⟩ | ⟨v, rfl, -⟩ :=
    charNext_cases hnext
  · exact hi.writer_step hstep
  · obtain rfl : d = 0 := hok
    exact hi.reader_step hstep
  · exact hi.wakeUp
  · exact absurd hok id

/-! ## The law -/

/-- **The char ring is a FIFO.** The indices stay inside the buffer; the bytes from `rd_idx`
cyclically up to `wr_idx` are those appended and not yet consumed, in append order; the reader's
output is a prefix of the append order that covers everything consumed; each call's bytes keep their
own order; and the bytes of a push that returned 0 stand together. -/
structure CharFifo (calls : ℕ → WriterCall) (s : CharState) : Prop where
  rdIdx_lt : s.ring.rdIdx < ringBufferCapacity
  wrIdx_lt : s.ring.wrIdx < ringBufferCapacity
  unread : window 1024 s.ring.buffer s.ring.rdIdx.toNat s.ring.wrIdx.toNat
    = (s.ring.appended.map Prod.snd).drop s.ring.removed
  output : (s.reader 0).output <+: s.ring.appended.map Prod.snd
  consumed : s.ring.removed ≤ (s.reader 0).output.length
  order : ∀ c, bytesOf c s.ring.appended <+: (calls c).data
  contiguous : ∀ c m, s.writer c = .push (some m) (.done 0) →
    ∃ pre post, s.ring.appended = pre ++ tagged c m.bytes ++ post

/-- **In every reachable state of any number of writers and one reader the char ring is a FIFO.** -/
theorem charFifo_of_reachable {calls : ℕ → WriterCall} {s : CharState}
    (h : ReachableUnder charNext (fun _ a => a.OneReader) (charInit calls) s) :
    CharFifo calls s := by
  have hinv := fifoInv_of_reachable h
  obtain ⟨hout, hle⟩ := hinv.delivered
  refine ⟨hinv.tracked.rd_lt, hinv.tracked.wr_lt, Tracks.window_eq hinv.tracked, ?_, ?_,
    fun c => (hinv.progress c).share_le, ?_⟩
  · rw [hout]
    exact List.take_prefix _ _
  · rw [hout, List.length_take_of_le hle]
    exact Nat.le_add_right _ _
  · intro c m hdone
    have hprog := hinv.progress c
    rw [hdone] at hprog
    have hcall : calls c = .push (some m) := hprog.1
    rw [hcall] at hprog
    exact hprog.contiguous

/-- A metric whose bytes are 1 to 16. -/
def countedMetric : NetPacketMetric := ⟨0x04030201, 0x08070605, 0x0A09, 0x0C0B, 0x100F0E0D⟩

/-- A `dev_write` of two bytes; all other calls push the metric. -/
def writeAndPush : ℕ → WriterCall
  | 0 => .devWrite [100, 101]
  | _ => .push (some countedMetric)

/-- The push comes between the two bytes of the `dev_write`; a `dev_read` of 20 bytes starts in the
middle of the push. -/
def pushBetweenBytes : List CharAction :=
  List.replicate 8 (.writer 0 .ok) ++ List.replicate 50 (.writer 1 .ok)
    ++ .reader 0 (.call 20) :: List.replicate 21 (.reader 0 .ok)
    ++ List.replicate 33 (.writer 1 .ok) ++ List.replicate 7 (.writer 0 .ok)
    ++ List.replicate 108 (.reader 0 .ok)

/-- Two writers and a reader: the metric comes out in one piece, between the bytes of the other
call. -/
theorem charFifo_push_between_bytes :
    ∃ s, exec charNext (charInit writeAndPush) pushBetweenBytes = some s ∧
      CharFifo writeAndPush s ∧ s.writer 1 = .push (some countedMetric) (.done 0) ∧
      (s.reader 0).output = 100 :: countedMetric.bytes ++ [101] := by
  have hrun : (exec charNext (charInit writeAndPush) pushBetweenBytes).map
      (fun s => (s.writer 1, (s.reader 0).output))
        = some (.push (some countedMetric) (.done 0), 100 :: countedMetric.bytes ++ [101]) := by
    decide +kernel
  obtain ⟨s, hs, heq⟩ := Option.map_eq_some_iff.mp hrun
  obtain ⟨hdone, hout⟩ := Prod.mk.inj heq
  have hreach : ReachableUnder charNext (fun _ a => a.OneReader) (charInit writeAndPush) s :=
    .of_exec pushBetweenBytes (by decide +kernel) hs .start
  exact ⟨s, hs, charFifo_of_reachable hreach, hdone, hout⟩

end TelemetrySubsystem
