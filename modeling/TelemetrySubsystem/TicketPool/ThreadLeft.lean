import TelemetrySubsystem.TicketPool.ActiveFlag
import TelemetrySubsystem.TicketPool.EveryPass

/-! # What is left of the consumer thread

Wherever the thread stands in a run of the pool, in either mode and among any producers, the
accesses that are left of its pass are bounded, and so are those left of the thread once
`run_signal` has been cleared.

* **`PassLeft`** bounds a pass, **`ThreadLeft`** the thread; **`threadLeft_of_reachable`** holds in
  every run. -/

namespace TelemetrySubsystem

open ActionSystem

namespace TicketPool

variable {P F : Type} [DecidableEq F] [Fieldwise P F] {R : TicketPool P F}

/-! ## What is left of a pass -/

/-- The lines printed before do not matter to the thread. -/
theorem consumerStep_lines (run : Bool) (lane : TicketLane P) (k : Consumer P F)
    (old : List (Line P)) :
    R.consumerStep run lane { k with lines := old ++ k.lines }
      = (R.consumerStep run lane k).map fun q =>
          (q.1, { q.2 with lines := old ++ q.2.lines }) := by
  cases hpc : k.pc with
  | processField after t rest metric =>
      cases rest with
      | cons =>
          simp only [consumerStep, hpc]
          rfl
      | nil =>
          simp only [consumerStep, hpc, List.append_assoc]
          cases after <;> rfl
  | loadTicket | compare | scanLoad =>
      simp only [consumerStep, hpc]
      split <;> rfl
  | _ =>
      simp only [consumerStep, hpc]
      rfl

/-- **What is left of a pass**: at most `n` accesses. -/
inductive PassLeft (R : TicketPool P F) (rdIdx : UInt32) (k : Consumer P F) (n : ℕ) : Prop
  | skipAhead {p : PassRecord P} : HealAt rdIdx p k → k.pc.inPass = true →
      R.accessesLeft p k ≤ n → PassLeft R rdIdx k n
  | scatterGather {e : UInt32} {old : List (Line P)} {k₀ : Consumer P F} : GatherAt R e k₀ →
      k = { k₀ with lines := old ++ k₀.lines } → R.gatherLeft k₀ ≤ n → PassLeft R rdIdx k n

variable (R) in
/-- A bound on the accesses of a pass, in either mode. -/
def passBound : ℕ := max (R.roundsCost (2 ^ 31) + 1) (R.gatherLeft (R.passAt .scatterGather 0))

/-- **At the start of a pass.** -/
theorem passLeft_start {rdIdx : UInt32} {k : Consumer P F} (hexp : k.expectedTicket = rdIdx) :
    PassLeft R rdIdx { k with pc := passStart k } R.passBound := by
  rw [passStart]
  split
  · rename_i hmode
    have hat : GatherAt R rdIdx { k with pc := .copy 0 0, lines := [] } :=
      .copying rfl R.capacity_pos (Nat.zero_le _) (gathering_start hmode hexp rfl) rfl
    have hk (q : ConsumerPc P F) :
        { k with pc := q, lines := k.lines ++ [] } = { k with pc := q } := by
      rw [List.append_nil]
    exact .scatterGather hat (hk _).symm (le_max_right _ _)
  · rename_i hmode
    exact .skipAhead (.hint rfl hmode hexp rfl) rfl (le_max_left _ _)

/-- **An access inside a pass** uses some of it up, or ends it. -/
theorem PassLeft.step (hcap : R.capacity < 2 ^ 32) {run : Bool} {lane lane' : TicketLane P}
    {k k' : Consumer P F} {n : ℕ} (h : PassLeft R lane.rdIdx k n)
    (hstep : R.consumerStep run lane k = some (lane', k')) :
    (k'.pc = .loop ∧ k'.expectedTicket = lane'.rdIdx ∧ 0 < n) ∨
      ∃ m < n, PassLeft R lane'.rdIdx k' m := by
  cases h with
  | @skipAhead p hat hpass hle =>
      by_cases hpc : k.pc = .storeRd
      · left
        rw [accessesLeft, hpc] at hle
        simp only [consumerStep, hpc] at hstep
        cases hstep
        exact ⟨rfl, rfl, hle⟩
      · right
        obtain ⟨hpass', hlt⟩ := hat.access_lt hpass hpc hstep
        exact ⟨_, hlt.trans_le hle, .skipAhead (hat.access rfl hstep).at' hpass' le_rfl⟩
  | @scatterGather e old k₀ hat hk hle =>
      subst hk
      rw [consumerStep_lines] at hstep
      obtain ⟨⟨lane₀, k₁⟩, hstep₀, heq⟩ := Option.map_eq_some_iff.mp hstep
      cases heq
      by_cases hpc : k₀.pc = .storeRd
      · left
        rw [gatherLeft, hpc] at hle
        simp only [consumerStep, hpc] at hstep₀
        cases hstep₀
        exact ⟨rfl, rfl, hle⟩
      · right
        obtain ⟨hat', hlt⟩ := hat.access hcap hpc hstep₀
        exact ⟨_, hlt.trans_le hle, .scatterGather hat' rfl le_rfl⟩

/-- A pass that is left has a next access. -/
theorem PassLeft.exists_step {rdIdx : UInt32} {k : Consumer P F} {n : ℕ}
    (h : PassLeft R rdIdx k n) (run : Bool) (lane : TicketLane P) :
    ∃ q, R.consumerStep run lane k = some q := by
  cases h with
  | skipAhead _ hpass _ => exact R.exists_consumerStep run lane hpass
  | scatterGather hat hk _ =>
      subst hk
      obtain ⟨q, hstep⟩ := hat.exists_consumerStep run lane
      rw [consumerStep_lines, hstep]
      exact ⟨_, rfl⟩

/-! ## What is left of the thread -/

/-- **What is left of the thread** when `run_signal` is clear: at most `n` accesses. -/
inductive ThreadLeft (R : TicketPool P F) (rdIdx : UInt32) (k : Consumer P F) (n : ℕ) : Prop
  | terminated : k.pc = .terminated → ThreadLeft R rdIdx k n
  | clearStore {f : UInt32} : k.pc = .clearStore f → 1 ≤ n → ThreadLeft R rdIdx k n
  | clearLoad : k.pc = .clearLoad → 2 ≤ n → ThreadLeft R rdIdx k n
  | loop : k.pc = .loop → k.expectedTicket = rdIdx → 3 ≤ n → ThreadLeft R rdIdx k n
  | loadRd : k.pc = .loadRd → 4 ≤ n → ThreadLeft R rdIdx k n
  | raiseStore {f : UInt32} : k.pc = .raiseStore f → 5 ≤ n → ThreadLeft R rdIdx k n
  | raiseLoad : k.pc = .raiseLoad → 6 ≤ n → ThreadLeft R rdIdx k n
  | pass {m : ℕ} : PassLeft R rdIdx k m → m + 3 ≤ n → ThreadLeft R rdIdx k n

variable (R) in
/-- A bound on the accesses of the thread after `run_signal` has been cleared. -/
def threadBound : ℕ := R.passBound + 6

/-- **An access of the thread** uses some of it up, unless it is let into another pass. -/
theorem ThreadLeft.step (hcap : R.capacity < 2 ^ 32) {run : Bool} {lane lane' : TicketLane P}
    {k k' : Consumer P F} {n : ℕ} (h : ThreadLeft R lane.rdIdx k n)
    (hstep : R.consumerStep run lane k = some (lane', k')) :
    (∃ m < n, ThreadLeft R lane'.rdIdx k' m) ∨
      run = true ∧ ThreadLeft R lane'.rdIdx k' R.threadBound := by
  cases h with
  | terminated hpc =>
      simp only [consumerStep, hpc] at hstep
      cases hstep
  | clearStore hpc hn =>
      simp only [consumerStep, hpc] at hstep
      cases hstep
      exact .inl ⟨0, hn, .terminated rfl⟩
  | clearLoad hpc hn =>
      simp only [consumerStep, hpc] at hstep
      cases hstep
      exact .inl ⟨1, hn, .clearStore rfl le_rfl⟩
  | loop hpc hexp hn =>
      simp only [consumerStep, hpc] at hstep
      cases hstep
      cases run with
      | false => exact .inl ⟨2, hn, .clearLoad rfl le_rfl⟩
      | true => exact .inr ⟨rfl, .pass (passLeft_start hexp) (Nat.add_le_add_left (by decide) _)⟩
  | loadRd hpc hn =>
      simp only [consumerStep, hpc] at hstep
      cases hstep
      exact .inl ⟨3, hn, .loop rfl rfl le_rfl⟩
  | raiseStore hpc hn =>
      simp only [consumerStep, hpc] at hstep
      cases hstep
      exact .inl ⟨4, hn, .loadRd rfl le_rfl⟩
  | raiseLoad hpc hn =>
      simp only [consumerStep, hpc] at hstep
      cases hstep
      exact .inl ⟨5, hn, .raiseStore rfl le_rfl⟩
  | @pass m hpass hn =>
      left
      rcases hpass.step hcap hstep with ⟨hpc, hexp, hpos⟩ | ⟨l, hl, hpass'⟩
      · exact ⟨3, by omega, .loop hpc hexp le_rfl⟩
      · exact ⟨l + 3, by omega, .pass hpass' le_rfl⟩

/-- A thread that has not terminated has a next access. -/
theorem ThreadLeft.exists_step {rdIdx : UInt32} {k : Consumer P F} {n : ℕ}
    (h : ThreadLeft R rdIdx k n) (hpc : k.pc ≠ .terminated) (run : Bool) (lane : TicketLane P) :
    ∃ q, R.consumerStep run lane k = some q := by
  cases h with
  | terminated hterm => exact absurd hterm hpc
  | pass hpass => exact hpass.exists_step run lane
  | clearStore h | clearLoad h | loop h | loadRd h | raiseStore h | raiseLoad h =>
      simp only [consumerStep, h]
      exact ⟨_, rfl⟩

/-- More may be left. -/
theorem ThreadLeft.mono {rdIdx : UInt32} {k : Consumer P F} {m n : ℕ}
    (h : ThreadLeft R rdIdx k m) (hle : m ≤ n) : ThreadLeft R rdIdx k n := by
  cases h with
  | terminated hpc => exact .terminated hpc
  | clearStore hpc h => exact .clearStore hpc (h.trans hle)
  | clearLoad hpc h => exact .clearLoad hpc (h.trans hle)
  | loop hpc hexp h => exact .loop hpc hexp (h.trans hle)
  | loadRd hpc h => exact .loadRd hpc (h.trans hle)
  | raiseStore hpc h => exact .raiseStore hpc (h.trans hle)
  | raiseLoad hpc h => exact .raiseLoad hpc (h.trans hle)
  | pass hpass h => exact .pass hpass (h.trans hle)

/-- **Wherever the thread stands in a run of the pool**, the bound holds. -/
theorem threadLeft_of_reachable (hcap : R.capacity < 2 ^ 32) {calls : ℕ → Option P}
    {ok : PoolState P F → PoolAction → Prop} {s : PoolState P F}
    (h : ReachableUnder (R.poolNext calls) ok R.poolInit s) :
    ThreadLeft R s.lane.rdIdx s.consumer R.threadBound := by
  have hinit : ThreadLeft R R.poolInit.lane.rdIdx R.poolInit.consumer R.threadBound :=
    .terminated rfl
  refine h.invariant (I := fun s => ThreadLeft R s.lane.rdIdx s.consumer R.threadBound) hinit ?_
  intro s a s' hs _ hnext
  cases a with
  | producer c =>
      obtain ⟨⟨lane, pc⟩, hstep, rfl⟩ := Option.map_eq_some_iff.mp hnext
      simp only [(producerStep_move hstep).sameReader.2]
      exact hs
  | spawn mode =>
      rw [poolNext] at hnext
      split at hnext <;> cases hnext
      exact .raiseLoad rfl (Nat.le_add_left 6 _)
  | consumer run =>
      obtain ⟨⟨lane, k⟩, hstep, rfl⟩ := Option.map_eq_some_iff.mp hnext
      rcases hs.step hcap hstep with ⟨m, hm, hleft⟩ | ⟨-, hleft⟩
      · exact hleft.mono hm.le
      · exact hleft

end TicketPool

end TelemetrySubsystem
