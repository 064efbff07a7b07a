import TelemetrySubsystem.TicketPool.System

/-! # The active flag of a consumer

A consumer thread raises its flag in `state_flags` before its first pass and clears it after its
last one, each time with a load and a store.

* **`FlagAt`** is the value of `state_flags` at every program point; no other party of the lane
  stores to it. -/

namespace TelemetrySubsystem

open ActionSystem

variable {P F : Type}

/-- The program points of a pass, in either mode. -/
def ConsumerPc.passing : ConsumerPc P F → Bool
  | .terminated | .raiseLoad | .raiseStore _ | .loadRd | .loop | .clearLoad | .clearStore _ => false
  | _ => true

namespace TicketPool

section Passing

theorem passStart_passing (k : Consumer P F) : (passStart k).passing = true := by
  rw [passStart]
  split <;> rfl

theorem roundHead_passing (k : Consumer P F) : (roundHead k).passing = true := by
  rw [roundHead]
  split
  · rfl
  · split <;> rfl

theorem resume_passing (k : Consumer P F) (after : AfterProcess) :
    (resume k after).pc.passing = true := by
  cases after with
  | advance => exact roundHead_passing _
  | _ => rfl

end Passing

variable [DecidableEq F] [Fieldwise P F] (R : TicketPool P F)

theorem scanHead_passing (k : Consumer P F) (scanTicket : UInt32) :
    (R.scanHead k scanTicket).passing = true := by
  rw [scanHead]
  split
  · split <;> rfl
  · rfl

theorem missing_passing (k : Consumer P F) : (R.missing k).passing = true := by
  rw [missing]
  split
  · rfl
  · exact R.scanHead_passing k _

theorem afterCopy_passing (k : Consumer P F) (i w : ℕ) : (R.afterCopy k i w).passing = true := by
  rw [afterCopy]
  split
  · rfl
  · split
    · rfl
    · exact roundHead_passing k

/-- **The active flag follows the thread**: `state_flags` at every program point. -/
def FlagAt (stateFlags : UInt32) : ConsumerPc P F → Prop
  | .terminated | .raiseLoad => stateFlags = 0
  | .raiseStore f => stateFlags = 0 ∧ f = R.threadActive
  | .clearStore f => stateFlags = R.threadActive ∧ f = 0
  | _ => stateFlags = R.threadActive

variable {R}

/-- In a pass the flag is raised. -/
theorem FlagAt.of_passing {stateFlags : UInt32} {pc : ConsumerPc P F}
    (hpc : pc.passing = true) : R.FlagAt stateFlags pc ↔ stateFlags = R.threadActive := by
  cases pc with
  | terminated | raiseLoad | raiseStore | loadRd | loop | clearLoad | clearStore => cases hpc
  | _ => exact Iff.rfl

/-- **A step of the thread** keeps the flag with it. -/
theorem FlagAt.step {run : Bool} {lane lane' : TicketLane P} {k k' : Consumer P F}
    (h : R.FlagAt lane.stateFlags k.pc) (hstep : R.consumerStep run lane k = some (lane', k')) :
    R.FlagAt lane'.stateFlags k'.pc := by
  cases hpc : k.pc <;> simp only [consumerStep, hpc] at hstep <;> rw [hpc] at h
  case terminated => cases hstep
  case raiseLoad =>
    cases hstep
    have hzero : lane.stateFlags = 0 := h
    exact ⟨hzero, by simp only [hzero, UInt32.zero_or]⟩
  case raiseStore =>
    cases hstep
    exact h.2
  case clearLoad =>
    cases hstep
    have hactive : lane.stateFlags = R.threadActive := h
    exact ⟨hactive, by simp only [hactive, UInt32.and_not_self]⟩
  case clearStore =>
    cases hstep
    exact h.2
  case loop =>
    cases hstep
    cases run
    · exact h
    · exact (FlagAt.of_passing (passStart_passing k)).mpr h
  case copy i w =>
    cases hstep
    exact (FlagAt.of_passing (R.afterCopy_passing k i w)).mpr h
  case loadHint =>
    cases hstep
    exact (FlagAt.of_passing (roundHead_passing _)).mpr h
  case loadTicket =>
    split at hstep <;> cases hstep <;> exact h
  case compare =>
    split at hstep <;> cases hstep
    · exact h
    · exact (FlagAt.of_passing (R.missing_passing k)).mpr h
  case scanLoad =>
    split at hstep <;> cases hstep
    · exact (FlagAt.of_passing (roundHead_passing _)).mpr h
    · exact (FlagAt.of_passing (R.scanHead_passing k _)).mpr h
  case processField after t rest metric =>
    cases rest <;> cases hstep
    · exact (FlagAt.of_passing (resume_passing _ after)).mpr h
    · exact h
  case loadRd | processTicket | storeRd =>
    cases hstep
    exact h

/-- A call leaves the flags and `rd_idx` alone. -/
theorem ProducerMove.sameReader {me : ℕ} {metric : Option P} {lane lane' : TicketLane P}
    {pc pc' : ProducerPc F} (h : R.ProducerMove me metric lane pc lane' pc') :
    lane'.stateFlags = lane.stateFlags ∧ lane'.rdIdx = lane.rdIdx := by
  cases h with
  | claim =>
      rw [TicketPool.claim]
      split <;> exact ⟨rfl, rfl⟩
  | _ => exact ⟨rfl, rfl⟩

/-- **The flag follows the thread in every run.** -/
theorem flagAt_of_reachable {calls : ℕ → Option P} {s : PoolState P F}
    (h : Reachable (R.poolNext calls) R.poolInit s) :
    R.FlagAt s.lane.stateFlags s.consumer.pc := by
  have hinit : R.FlagAt R.poolInit.lane.stateFlags R.poolInit.consumer.pc := rfl
  refine h.invariant (I := fun s => R.FlagAt s.lane.stateFlags s.consumer.pc) hinit ?_
  intro s a s' hs _ hnext
  cases a with
  | producer c =>
      obtain ⟨⟨lane, pc⟩, hstep, rfl⟩ := Option.map_eq_some_iff.mp hnext
      simp only [(producerStep_move hstep).sameReader.1]
      exact hs
  | spawn mode =>
      rw [poolNext] at hnext
      split at hnext <;> cases hnext
      rename_i hpc
      rw [hpc] at hs
      exact hs
  | consumer run =>
      obtain ⟨⟨lane, k⟩, hstep, rfl⟩ := Option.map_eq_some_iff.mp hnext
      exact hs.step hstep

end TicketPool

end TelemetrySubsystem
