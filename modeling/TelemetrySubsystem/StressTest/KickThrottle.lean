import TelemetrySubsystem.CharRing.SleepFlag
import TelemetrySubsystem.StressTest.Threads

/-! # Kick throttling

While it drains the ring, `zero_copy_consumer` kicks a sleeping writer only when `kick_count` is
zero; in an iteration that finds the ring empty it kicks whenever the sleep flag is set. With one
writer the second kick makes up for all that were skipped: a sleeping writer has the flag set.

* **`KickState`** is one caller of `dev_write`, one `zero_copy_consumer`, and what has happened
  since the writer blocked.
* **`KickState.Stranded`** is what should not come about, `KickInv` the invariant that rules it out.
* **`not_stranded_of_reachable`** is the law. -/

namespace TelemetrySubsystem

open ActionSystem

/-! ## One writer and one consumer -/

/-- **A caller of `dev_write` and `zero_copy_consumer` on the char ring.** -/
structure KickState where
  ring : ByteRing
  writer : DevWrite
  consumer : ZeroCopyConsumer
  /-- History: the consumer's iteration was started while the writer was blocked, and the writer has
  been blocked ever since. -/
  startedSince : Bool
  /-- History: such an iteration has found the ring empty and has been completed, and the writer has
  been blocked ever since. -/
  emptySince : Bool

/-- One step of the two. -/
inductive KickAction
  /-- The writer makes its next call. -/
  | call (buffer : List UInt8)
  /-- The call takes a step; `get_user` may fault. -/
  | write (fault : Bool)
  /-- The consumer takes a step; `finished` is the value of `writer_is_finished_flag`. -/
  | consume (finished : Bool)
  deriving DecidableEq, Repr

/-- The zeroed page; no call has been made. -/
def kickInit (kickCount : ℤ) : KickState where
  ring := .zeroed
  writer := ⟨.done 0, [], 0⟩
  consumer := .start kickCount
  startedSince := false
  emptySince := false

/-- **The writer is blocked**: it sleeps on `char_wait_queue` and no wake-up has been issued
since. -/
def KickState.Blocked (s : KickState) : Prop := s.writer.pc = .asleep ∧ 0 ∈ s.ring.waitQueue

instance : DecidablePred KickState.Blocked := fun _ => inferInstanceAs (Decidable (_ ∧ _))

/-- A step of one of the two. -/
def kickStep (moduloDivisor : ℤ) (s : KickState) : KickAction → Option KickState
  | .call buffer =>
      match s.writer.pc with
      | .done _ => some { s with writer := .start buffer }
      | _ => none
  | .write fault =>
      (devWriteStep 0 s.ring s.writer (if fault then .fault else .ok)).map fun p =>
        { s with ring := p.1, writer := p.2 }
  | .consume finished =>
      (zeroCopyStep moduloDivisor finished s.ring s.consumer).map fun p =>
        { s with ring := p.1, consumer := p.2 }

/-- The step starts an iteration of the consumer. -/
def KickState.starts (s : KickState) : KickAction → Bool
  | .consume _ => s.consumer.pc == .loadRd
  | _ => false

/-- The step completes an iteration that has found the ring empty. -/
def KickState.completesEmpty (s : KickState) : KickAction → Bool
  | .consume _ => s.consumer.pc == .testFinished
  | _ => false

/-- **One step**, with the history brought up to date. -/
def kickNext (moduloDivisor : ℤ) (s : KickState) (a : KickAction) : Option KickState :=
  (kickStep moduloDivisor s a).map fun s' =>
    { s' with
      startedSince := decide s'.Blocked && (s.starts a || s.startedSince)
      emptySince := decide s'.Blocked && (s.emptySince || s.completesEmpty a && s.startedSince) }

/-- **The writer is stranded**: since it blocked, no wake-up has been issued although the consumer
has started and completed an iteration that found the ring empty. -/
def KickState.Stranded (s : KickState) : Prop := s.Blocked ∧ s.emptySince = true

/-! ## The invariant -/

/-- **The invariant**: a writer that has raised the flag finds it set, and an iteration started
since the writer blocked does not get to its end by way of an empty ring. -/
structure KickInv (s : KickState) : Prop where
  raiseWord : (Writer.devWrite s.writer).RaiseWord
  flagSet : (Writer.devWrite s.writer).raised = true → s.ring.FlagSet
  started : s.startedSince = true → s.Blocked ∧ s.consumer.pc ≠ .testFinished
  empty : s.emptySince = false

/-- A writer that sleeps has raised the flag. -/
theorem KickInv.flagSet_of_asleep {s : KickState} (h : KickInv s) (hpc : s.writer.pc = .asleep) :
    s.ring.FlagSet := by
  apply h.flagSet
  simp [Writer.raised, DevWritePc.waits, hpc]

/-- A blocked writer takes no step and makes no call. -/
theorem not_blocked_of_kickStep {m : ℤ} {s s' : KickState} {a : KickAction}
    (h : kickStep m s a = some s') (ha : ∀ finished, a ≠ .consume finished) : ¬ s.Blocked := by
  rintro ⟨hpc, hqueue⟩
  cases a with
  | call buffer =>
      simp only [kickStep, hpc] at h
      cases h
  | write fault =>
      obtain ⟨p, hstep, -⟩ := Option.map_eq_some_iff.mp h
      simp only [devWriteStep, hpc, hqueue, if_true] at hstep
      cases fault <;> cases hstep
  | consume finished => exact ha finished rfl

/-- **What a step of the consumer does**: it leaves the flags alone, and when the flag is set it
comes to the end of an empty iteration only by way of a wake-up. -/
theorem zeroCopyStep_kick {m : ℤ} {finished : Bool} {r r' : ByteRing} {k k' : ZeroCopyConsumer}
    (h : zeroCopyStep m finished r k = some (r', k')) :
    r'.stateFlags = r.stateFlags ∧
      (k'.pc = .testFinished → r.FlagSet → r'.waitQueue = []) := by
  obtain ⟨pc, count, n⟩ := k
  cases pc
  all_goals simp only [zeroCopyStep] at h
  case loadFlags =>
    split at h
    · split at h <;> cases h <;> exact ⟨rfl, by rintro ⟨⟩⟩
    · cases h
      exact ⟨rfl, by rintro ⟨⟩⟩
  case emptyFlags =>
    split at h
    · cases h
      exact ⟨rfl, by rintro ⟨⟩⟩
    · next hclear =>
        cases h
        exact ⟨rfl, fun _ hset => absurd hset hclear⟩
  case emptyKick =>
    cases h
    exact ⟨rfl, fun _ _ => rfl⟩
  case testFinished =>
    cases finished <;> cases h <;> exact ⟨rfl, by rintro ⟨⟩⟩
  case loadWr => split at h <;> cases h <;> exact ⟨rfl, by rintro ⟨⟩⟩
  case done => cases h
  all_goals
    cases h
    exact ⟨rfl, by rintro ⟨⟩⟩

/-- **A step of the writer keeps the flag in order.** -/
theorem KickInv.writer_step {m : ℤ} {s s' : KickState} {a : KickAction} (h : KickInv s)
    (hstep : kickStep m s a = some s') (ha : ∀ finished, a ≠ .consume finished) :
    (Writer.devWrite s'.writer).RaiseWord ∧
      ((Writer.devWrite s'.writer).raised = true → s'.ring.FlagSet) := by
  cases a with
  | call buffer =>
      simp only [kickStep] at hstep
      split at hstep
      · cases hstep
        exact ⟨raiseWord_of_raises rfl, by rintro ⟨⟩⟩
      · cases hstep
  | write fault =>
      obtain ⟨p, hwrite, rfl⟩ := Option.map_eq_some_iff.mp hstep
      obtain ⟨hword, hflag⟩ := devWriteStep_flag h.raiseWord hwrite
      refine ⟨hword, fun hraised => ?_⟩
      rcases hflag with ⟨hsame, hold⟩ | hset | ⟨-, -, hlow⟩
      · exact (h.flagSet (hold hraised)).congr hsame
      · exact hset
      · rw [hlow] at hraised
        cases hraised
  | consume finished => exact absurd rfl (ha finished)

/-- **One step keeps the invariant.** -/
theorem KickInv.next {m : ℤ} {s s' : KickState} {a : KickAction} (h : KickInv s)
    (hnext : kickNext m s a = some s') : KickInv s' := by
  obtain ⟨t, hstep, rfl⟩ := Option.map_eq_some_iff.mp hnext
  by_cases ha : ∀ finished, a ≠ .consume finished
  · -- the writer was not blocked, so the history is empty
    obtain ⟨hword, hflag⟩ := h.writer_step hstep ha
    have hfree := not_blocked_of_kickStep hstep ha
    have hnot : s.startedSince = false := by
      by_contra hstarted
      exact hfree (h.started (Bool.not_eq_false _ |>.mp hstarted)).1
    have hstarts : s.starts a = false := by
      cases a with
      | consume finished => exact absurd rfl (ha finished)
      | call | write => rfl
    refine ⟨hword, hflag, fun hstarted => ?_, ?_⟩
    · rw [hstarts, hnot] at hstarted
      simp at hstarted
    · simp [h.empty, hnot]
  · simp only [not_forall, not_not] at ha
    obtain ⟨finished, rfl⟩ := ha
    obtain ⟨⟨r, k⟩, hconsume, rfl⟩ := Option.map_eq_some_iff.mp hstep
    obtain ⟨hflags, hkick⟩ := zeroCopyStep_kick hconsume
    refine ⟨h.raiseWord, fun hraised => (h.flagSet hraised).congr hflags, fun hstarted => ?_, ?_⟩
    · simp only [Bool.and_eq_true, decide_eq_true_eq] at hstarted
      obtain ⟨hblocked, -⟩ := hstarted
      refine ⟨hblocked, fun hend => ?_⟩
      -- the flag is set while the writer sleeps, so the empty iteration has woken it
      have hqueue : r.waitQueue = [] := hkick hend (h.flagSet_of_asleep hblocked.1)
      have hmem : 0 ∈ r.waitQueue := hblocked.2
      rw [hqueue] at hmem
      cases hmem
    · have hnone : (s.completesEmpty (.consume finished) && s.startedSince) = false := by
        by_contra hcontra
        simp only [Bool.not_eq_false, Bool.and_eq_true, KickState.completesEmpty,
          beq_iff_eq] at hcontra
        exact (h.started hcontra.2).2 hcontra.1
      simp only [h.empty, hnone, Bool.or_false, Bool.and_false]

/-- The invariant holds before the first call. -/
theorem kickInv_init (kickCount : ℤ) : KickInv (kickInit kickCount) where
  raiseWord := raiseWord_of_raises rfl
  flagSet := by rintro ⟨⟩
  started := by rintro ⟨⟩
  empty := rfl

/-! ## The law -/

/-- **Kick throttling never strands a single writer**: whatever `kick_count` starts from, whatever
the divisor, and in any order of the accesses, a blocked writer is woken no later than by the first
iteration that is started after it blocked and finds the ring empty. -/
theorem not_stranded_of_reachable (kickCount moduloDivisor : ℤ) (s : KickState)
    (h : Reachable (kickNext moduloDivisor) (kickInit kickCount) s) : ¬ s.Stranded := by
  have hinv : KickInv s :=
    h.invariant (kickInv_init kickCount) fun _ _ _ hs _ hnext => hs.next hnext
  rintro ⟨-, hempty⟩
  rw [hinv.empty] at hempty
  cases hempty

/-- The call on 1024 bytes has written `k` of them, and the consumer has not started. -/
def kickFilled (k : ℕ) : KickState where
  ring := filledRing k
  writer := filledWrite k
  consumer := .start 1
  startedSince := false
  emptySince := false

/-- The ring can be filled up to its last free cell. -/
theorem kickFilled_reachable {k : ℕ} (hk : k ≤ 1023) :
    Reachable (kickNext 1024) (kickInit 1) (kickFilled k) := by
  induction k with
  | zero =>
      refine Reachable.of_exec [.call (List.replicate 1024 7), .write false] ?_
      simp only [kickFilled, filledRing, Nat.not_lt_zero, if_false]
      rfl
  | succ k ih =>
      let embed : ByteRing × DevWrite → KickState := fun p => ⟨p.1, p.2, .start 1, false, false⟩
      have hstep : ∀ p, kickNext 1024 (embed p) (.write false)
          = (devWriteStep 0 p.1 p.2 .ok).map embed := by
        intro p
        simp only [embed, kickNext, kickStep, Option.map_map]
        refine congrFun (congrArg Option.map (funext fun q => ?_)) _
        simp [KickState.starts, KickState.completesEmpty]
      have hrun := exec_replicate_embed embed hstep 7 (filledRing k, filledWrite k)
      rw [filledRing_succ hk] at hrun
      exact ReachableUnder.of_exec _ (fun _ _ => trivial) hrun (ih (Nat.le_of_succ_le hk))

/-- **A skipped kick**: the writer sleeps on the full ring, and the consumer takes a byte and goes
on without waking it. -/
theorem not_stranded_skipped_kick : ∃ s, Reachable (kickNext 1024) (kickInit 1) s ∧ s.Blocked ∧
    s.consumer = ⟨.loadRd, 2, 1⟩ ∧ s.startedSince = true ∧ ¬ s.Stranded := by
  have hrun : ∃ s, exec (kickNext 1024) (kickFilled 1023)
      (List.replicate 11 (.write false) ++ List.replicate 5 (.consume false)) = some s ∧
      s.Blocked ∧ s.consumer = ⟨.loadRd, 2, 1⟩ ∧ s.startedSince = true :=
    ⟨_, rfl, ⟨rfl, List.mem_singleton_self 0⟩, rfl, rfl⟩
  obtain ⟨s, hexec, hblocked, hconsumer, hstarted⟩ := hrun
  have hreach : Reachable (kickNext 1024) (kickInit 1) s :=
    ReachableUnder.of_exec _ (fun _ _ => trivial) hexec (kickFilled_reachable le_rfl)
  exact ⟨s, hreach, hblocked, hconsumer, hstarted, not_stranded_of_reachable 1 1024 s hreach⟩

end TelemetrySubsystem
