import TelemetrySubsystem.CharRing.AppendProtocol
import TelemetrySubsystem.Foundations.ActionSystem

/-! # The char device as a system of interleaved calls

Any number of writer calls (`dev_write`, `telemetry_shared_char_dev_push_metric`) and of reader
threads (`dev_read`) share one char ring. One action is one step of one of them, or one of the two
things a process that maps the page can do to a sleeping writer: store `rd_idx`, and issue
`TELEMETRY_IOC_WAKE_WRITER`.

* **`CharState`**, **`charNext`**, **`charInit`** are the system.
* `charNext_cases` is its inversion lemma, from which every invariant is derived. -/

namespace TelemetrySubsystem

open ActionSystem
open Function (update)

/-- **The state of the char device**: the ring, every writer call and every reader thread. A call or
thread that never takes a step has not been made. -/
structure CharState where
  ring : ByteRing
  writer : ℕ → Writer
  reader : ℕ → DevRead

/-- One step of the char device. -/
inductive CharAction
  /-- A writer call takes a step. -/
  | writer (c : ℕ) (o : Outcome)
  /-- A reader thread takes a step. -/
  | reader (d : ℕ) (o : ReadOutcome)
  /-- `telemetry_mmap_ioctl` with `TELEMETRY_IOC_WAKE_WRITER`. -/
  | ioctlWakeWriter
  /-- A process that maps the page stores `char_ctl.rx.rd_idx`. -/
  | mapStoreRd (v : UInt32)
  deriving DecidableEq, Repr

/-- The zeroed page, with the given writer calls about to start. -/
def charInit (calls : ℕ → WriterCall) : CharState where
  ring := .zeroed
  writer := fun c => (calls c).start
  reader := fun _ => .start

/-- **The transitions of the char device.** -/
def charNext (s : CharState) : CharAction → Option CharState
  | .writer c o =>
      (writerStep c s.ring o (s.writer c)).map fun p =>
        { s with ring := p.1, writer := update s.writer c p.2 }
  | .reader d o =>
      (devReadStep s.ring (s.reader d) o).map fun p =>
        { s with ring := p.1, reader := update s.reader d p.2 }
  | .ioctlWakeWriter => some { s with ring := s.ring.wakeUp }
  | .mapStoreRd v => some { s with ring := { s.ring with rdIdx := v } }

/-- **What a step of the char device is**: a step of one writer, a step of one reader, a wake-up, or
a store to `rd_idx` from user space. -/
theorem charNext_cases {s s' : CharState} {a : CharAction} (h : charNext s a = some s') :
    (∃ c o r w, a = .writer c o ∧ writerStep c s.ring o (s.writer c) = some (r, w) ∧
        s' = { s with ring := r, writer := update s.writer c w }) ∨
      (∃ d o r x, a = .reader d o ∧ devReadStep s.ring (s.reader d) o = some (r, x) ∧
        s' = { s with ring := r, reader := update s.reader d x }) ∨
      (a = .ioctlWakeWriter ∧ s' = { s with ring := s.ring.wakeUp }) ∨
      (∃ v, a = .mapStoreRd v ∧ s' = { s with ring := { s.ring with rdIdx := v } }) := by
  cases a with
  | writer c o =>
      obtain ⟨⟨r, w⟩, hstep, rfl⟩ := Option.map_eq_some_iff.mp h
      exact .inl ⟨c, o, r, w, rfl, hstep, rfl⟩
  | reader d o =>
      obtain ⟨⟨r, x⟩, hstep, rfl⟩ := Option.map_eq_some_iff.mp h
      exact .inr (.inl ⟨d, o, r, x, rfl, hstep, rfl⟩)
  | ioctlWakeWriter =>
      cases h
      exact .inr (.inr (.inl ⟨rfl, rfl⟩))
  | mapStoreRd v =>
      cases h
      exact .inr (.inr (.inr ⟨v, rfl, rfl⟩))

/-- The actions of a system with one reader: only thread 0 reads, and nobody stores `rd_idx` from
user space. -/
def CharAction.OneReader : CharAction → Prop
  | .reader d _ => d = 0
  | .mapStoreRd _ => False
  | _ => True

instance : DecidablePred CharAction.OneReader
  | .reader d _ => inferInstanceAs (Decidable (d = 0))
  | .mapStoreRd _ => inferInstanceAs (Decidable False)
  | .writer _ _ | .ioctlWakeWriter => inferInstanceAs (Decidable True)

/-! ## Mutual exclusion -/

/-- **Mutual exclusion**: a writer inside its critical section holds the lock. -/
def LockHeld (s : CharState) : Prop := ∀ c, (s.writer c).stage ≠ .outside → s.ring.lock = some c

/-- While one writer is inside its critical section, every other one is outside. -/
theorem LockHeld.outside {s : CharState} (h : LockHeld s) {c c' : ℕ} (hne : c ≠ c')
    (hc : (s.writer c).stage ≠ .outside) : (s.writer c').stage = .outside := by
  by_contra hc'
  have heq : some c = some c' := (h c hc).symm.trans (h c' hc')
  exact hne (Option.some.inj heq)

/-- **What the readers' side leaves alone**: it owns the read index and may empty the wait queue. -/
structure KeptByReaders (r r' : ByteRing) : Prop where
  wrIdx : r'.wrIdx = r.wrIdx
  buffer : r'.buffer = r.buffer
  appended : r'.appended = r.appended
  stateFlags : r'.stateFlags = r.stateFlags
  lock : r'.lock = r.lock

/-- **A step of `dev_read`** leaves the writers' side alone. -/
theorem devReadStep_kept {r r' : ByteRing} {d d' : DevRead} {o : ReadOutcome}
    (h : devReadStep r d o = some (r', d')) : KeptByReaders r r' := by
  obtain ⟨pc, len, n, ready, out⟩ := d
  cases pc
  all_goals simp only [devReadStep] at h
  case idle =>
    cases o <;> cases h
    exact ⟨rfl, rfl, rfl, rfl, rfl⟩
  case loadRd | putUser => split at h <;> cases h <;> exact ⟨rfl, rfl, rfl, rfl, rfl⟩
  case leave => cases ready <;> cases h <;> exact ⟨rfl, rfl, rfl, rfl, rfl⟩
  all_goals
    cases h
    exact ⟨rfl, rfl, rfl, rfl, rfl⟩

/-- A writer's step keeps mutual exclusion. -/
theorem LockHeld.writer_step {s : CharState} (h : LockHeld s) {c : ℕ} {r : ByteRing} {w : Writer}
    (hstep : StageStep c s.ring (s.writer c).stage r w.stage) :
    LockHeld { s with ring := r, writer := update s.writer c w } := by
  intro c' hc'
  simp only at hc' ⊢
  by_cases heq : c' = c
  · subst heq
    rw [Function.update_self] at hc'
    rcases hstep.lock with ⟨hlock, hiff⟩ | ⟨_, _, hlock⟩ | ⟨_, _, hout⟩
    · rw [hlock]
      exact h c' fun hst => hc' (hiff.mp hst)
    · exact hlock
    · exact absurd hout hc'
  · -- the other writer is inside, so the one that steps is not, and cannot have taken the lock
    rw [Function.update_of_ne heq] at hc'
    have hout : (s.writer c).stage = .outside := h.outside heq hc'
    rcases hstep.lock with ⟨hlock, _⟩ | ⟨_, hfree, _⟩ | ⟨hin, _, _⟩
    · rw [hlock]
      exact h c' hc'
    · rw [h c' hc'] at hfree
      cases hfree
    · exact absurd hout hin

/-- While another writer is inside its critical section, a writer's step leaves the contents
alone. -/
theorem LockHeld.outside_or_same {s : CharState} (h : LockHeld s) {c : ℕ} {r : ByteRing}
    {st : AppendStage} (hstep : StageStep c s.ring (s.writer c).stage r st) {c' : ℕ}
    (hne : c' ≠ c) : (s.writer c').stage = .outside ∨ SameContents s.ring r := by
  by_cases hst : (s.writer c').stage = .outside
  · exact .inl hst
  · rw [h.outside hne hst] at hstep
    exact .inr hstep.same_of_outside

/-- No call holds the lock at the start. -/
theorem WriterCall.start_stage (call : WriterCall) : call.start.stage = .outside := by
  cases call <;> rfl

end TelemetrySubsystem
