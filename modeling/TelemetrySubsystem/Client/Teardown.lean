import TelemetrySubsystem.Client.Lifecycle
import TelemetrySubsystem.TicketPool.ThreadLeft

/-! # A client process can always be taken down

Once the main thread has cleared `run_signal` the process returns from `main`, however the
producers go on: its two threads need a bounded number of steps, and always have one to take.

* **`ProcessLeft`** bounds what is left of the process; `ProcessLeft.next` is the step lemma.
* **`TearsDown`** is the law. -/

namespace TelemetrySubsystem

open ActionSystem
open Function (update)

/-! ## What is left of the process -/

/-- A step of the process itself. -/
def ClientAction.own : ClientAction → Bool
  | .main _ | .thread => true
  | .launch _ | .producer _ => false

/-- No other process is started. -/
def ClientAction.goesOn : ClientAction → Bool
  | .launch _ => false
  | _ => true

open TicketPool

variable {P F : Type} [DecidableEq F] [Fieldwise P F] {R : TicketPool P F}
  {needsArgument : Bool} {calls : ℕ → Option P} {s s' : ClientState P F} {n : ℕ}

/-- What is left of the process at a program point of its main thread. -/
def MainLeft (R : TicketPool P F) (pool : PoolState P F) (n : ℕ) : MainPc → Prop
  | .join => ∃ m, ThreadLeft R pool.lane.rdIdx pool.consumer m ∧ m + 4 ≤ n
  | .unmapPage code => code = exitSuccess ∧ 3 ≤ n
  | .closeDevice code => code = exitSuccess ∧ 2 ≤ n
  | .destroyCtx code => code = exitSuccess ∧ 1 ≤ n
  | .exited code => code = exitSuccess
  | _ => False

/-- **What is left of the process** after `run_signal` has been cleared: at most `n` steps of its
own. -/
structure ProcessLeft (R : TicketPool P F) (n : ℕ) (s : ClientState P F) : Prop where
  inv : ClientInv s
  main : MainLeft R s.pool n s.main

/-- After the join no thread runs. -/
theorem ProcessLeft.noThread (h : ProcessLeft R n s) (hmain : s.main ≠ .join) :
    s.pool.consumer.pc = .terminated := by
  have howns := h.inv.owns
  have hleft := h.main
  rw [ClientState.Owns] at howns
  cases hpc : s.main <;> simp only [hpc] at howns hleft hmain
  case unmapPage | destroyCtx => exact howns.2
  case closeDevice =>
    obtain ⟨fd, -, hterm⟩ := howns
    exact hterm
  case exited => exact howns.noThread
  case join => exact absurd rfl hmain
  all_goals exact hleft.elim

/-- **A step of the main thread** uses some of it up. -/
theorem ProcessLeft.main_step {r : SysResult} (h : ProcessLeft R n s)
    (hstep : mainStep needsArgument s r = some s') : ∃ m, ProcessLeft R m s' ∧ m + 1 ≤ n := by
  obtain ⟨howns, hfault⟩ := owns_main h.inv.owns h.inv.fault hstep
  have hleft := h.main
  cases hpc : s.main <;> simp only [hpc, MainLeft] at hleft <;>
    simp only [mainStep, hpc] at hstep
  case exited => cases hstep
  case join =>
    obtain ⟨m, -, hn⟩ := hleft
    split at hstep <;> cases hstep
    exact ⟨3, ⟨⟨howns, hfault⟩, rfl, le_rfl⟩, by omega⟩
  case unmapPage code =>
    split at hstep <;> cases hstep
    · cases hfault
    · exact ⟨2, ⟨⟨howns, hfault⟩, hleft.1, le_rfl⟩, hleft.2⟩
  case closeDevice code =>
    split at hstep <;> cases hstep
    · cases hfault
    · exact ⟨1, ⟨⟨howns, hfault⟩, hleft.1, le_rfl⟩, hleft.2⟩
  case destroyCtx code =>
    cases hstep
    exact ⟨0, ⟨⟨howns, hfault⟩, hleft.1⟩, hleft.2⟩

/-- **Every step of the system** leaves less of the process, or as much when it is not a step of the
process itself. -/
theorem ProcessLeft.next (hcap : R.capacity < 2 ^ 32) {a : ClientAction} (h : ProcessLeft R n s)
    (ha : a.goesOn = true) (hnext : clientNext R needsArgument calls s a = some s') :
    ∃ m, ProcessLeft R m s' ∧ m + (if a.own then 1 else 0) ≤ n := by
  have hinv := h.inv.next hnext
  cases a with
  | launch argv1 => cases ha
  | main r => exact h.main_step hnext
  | producer c =>
      obtain ⟨pool, hstep, rfl⟩ := Option.map_eq_some_iff.mp hnext
      obtain ⟨⟨lane, pc⟩, hcall, rfl⟩ := Option.map_eq_some_iff.mp hstep
      refine ⟨n, ⟨hinv, ?_⟩, le_rfl⟩
      have hleft := h.main
      cases hpc : s.main <;> simp only [hpc, MainLeft] at hleft ⊢
      case join =>
        simp only [(producerStep_move hcall).sameReader.2]
        exact hleft
      all_goals exact hleft
  | thread =>
      obtain ⟨⟨lane, k⟩, hstep, rfl⟩ := Option.map_eq_some_iff.mp hnext
      -- only a main thread that waits for the thread finds it running
      by_cases hmain : s.main = .join
      · have hsignal : s.runSignal = false := by
          have howns := h.inv.owns
          rw [ClientState.Owns, hmain] at howns
          exact howns.2
        obtain ⟨m, hleft, hn⟩ : ∃ m, ThreadLeft R s.pool.lane.rdIdx s.pool.consumer m ∧
            m + 4 ≤ n := by
          have hleft := h.main
          rwa [hmain] at hleft
        rw [hsignal] at hstep
        rcases hleft.step hcap hstep with ⟨l, hl, hleft'⟩ | ⟨hrun, -⟩
        · refine ⟨l + 4, ⟨hinv, ?_⟩, by simp only [ClientAction.own, if_true]; omega⟩
          simp only [hmain]
          exact ⟨l, hleft', le_rfl⟩
        · cases hrun
      · rw [consumerStep, h.noThread hmain] at hstep
        cases hstep

/-- **The process has a step of its own to take** until it has returned. -/
theorem ProcessLeft.exists_next (h : ProcessLeft R n s) :
    s.main = .exited exitSuccess ∨
      ∃ a, a.own = true ∧ ∃ t, clientNext R needsArgument calls s a = some t := by
  have hleft := h.main
  cases hpc : s.main <;> simp only [hpc, MainLeft] at hleft
  case exited code =>
    rw [hleft]
    exact .inl rfl
  case join =>
    right
    obtain ⟨m, hthread, -⟩ := hleft
    by_cases hterm : s.pool.consumer.pc = .terminated
    · refine ⟨.main .fail, rfl, ?_⟩
      simp only [clientNext, mainStep, hpc, hterm]
      exact ⟨_, rfl⟩
    · obtain ⟨q, hstep⟩ := hthread.exists_step hterm s.runSignal s.pool.lane
      refine ⟨.thread, rfl, ?_⟩
      rw [clientNext, hstep]
      exact ⟨_, rfl⟩
  case destroyCtx =>
    refine .inr ⟨.main .fail, rfl, ?_⟩
    simp only [clientNext, mainStep, hpc]
    exact ⟨_, rfl⟩
  case unmapPage | closeDevice =>
    refine .inr ⟨.main .fail, rfl, ?_⟩
    simp only [clientNext, mainStep, hpc]
    split <;> exact ⟨_, rfl⟩

/-! ## The law -/

/-- The number of steps that a process takes to return after it has cleared `run_signal`. -/
def TicketPool.teardownBound (R : TicketPool P F) : ℕ := R.threadBound + 4

/-- **The process is taken down**: once `run_signal` is clear, a run contains only so many steps of
the process, whatever the producers do in between; at its end the process has returned with
`EXIT_SUCCESS`, or has a step to take. -/
def TearsDown (R : TicketPool P F) (needsArgument : Bool) : Prop :=
  ∀ (calls : ℕ → Option P) (s : ClientState P F),
    Reachable (clientNext R needsArgument calls) (clientInit R) s → s.main = .join →
    ∀ (as : List ClientAction) (s' : ClientState P F), (∀ a ∈ as, a.goesOn = true) →
      exec (clientNext R needsArgument calls) s as = some s' →
      as.countP ClientAction.own ≤ R.teardownBound ∧
        (s'.main = .exited exitSuccess ∨
          ∃ a, a.own = true ∧ ∃ t, clientNext R needsArgument calls s' a = some t)

/-- A pool whose slots a 32-bit ticket can tell apart. -/
theorem tearsDown_of_lt (hcap : R.capacity < 2 ^ 32) : TearsDown R needsArgument := by
  intro calls s hreach hmain as s' has hexec
  have hthread := threadLeft_of_reachable hcap (reachable_pool hreach)
  have hleft : ProcessLeft R R.teardownBound s := by
    refine ⟨clientInv_of_reachable hreach, ?_⟩
    rw [hmain]
    exact ⟨_, hthread, le_rfl⟩
  obtain ⟨m, hm, hle⟩ := exec_countP_le
    (fun n s a s' h ha hnext => ProcessLeft.next hcap h ha hnext) as has hleft hexec
  exact ⟨(Nat.le_add_left _ m).trans hle, hm.exists_next⟩

/-- **The net client and the block client can always be taken down.** -/
theorem clients_tearDown : TearsDown netPool true ∧ TearsDown blockPool false :=
  ⟨tearsDown_of_lt (by decide), tearsDown_of_lt (by decide)⟩

/-- A packet has been recorded, and the net client is told to stop while its thread processes it. -/
def stopMidPass : List ClientAction :=
  .launch (some 1) :: List.replicate 9 (.producer 0) ++ List.replicate 2 (.main (.ok 0))
    ++ .main (.ok 3) :: List.replicate 2 (.main (.ok 0)) ++ List.replicate 9 .thread
    ++ List.replicate 2 (.main (.ok 0))

/-- One more packet comes in, the thread ends, and the main thread returns. -/
def returnMidPass : List ClientAction :=
  List.replicate 5 .thread ++ List.replicate 9 (.producer 1) ++ List.replicate 27 .thread
    ++ List.replicate 4 (.main (.ok 0))

/-- That process returns within the bound. -/
theorem clients_tearDown_mid_pass : ∃ s s',
    Reachable (clientNext netPool true fun _ => some samplePacket.metric) (clientInit netPool) s ∧
      s.main = .join ∧ s.pool.consumer.pc.inPass = true ∧
      exec (clientNext netPool true fun _ => some samplePacket.metric) s returnMidPass = some s' ∧
      s'.main = .exited exitSuccess ∧
      returnMidPass.countP ClientAction.own ≤ netPool.teardownBound := by
  have hrun : ((exec (clientNext netPool true fun _ => some samplePacket.metric)
      (clientInit netPool) stopMidPass).bind fun s =>
        (exec (clientNext netPool true fun _ => some samplePacket.metric) s returnMidPass).map
          fun s' => (s.main, s.pool.consumer.pc.inPass, s'.main))
        = some (.join, true, .exited exitSuccess) := by decide +kernel
  obtain ⟨s, hs, hrest⟩ := Option.bind_eq_some_iff.mp hrun
  obtain ⟨s', hs', heq⟩ := Option.map_eq_some_iff.mp hrest
  obtain ⟨hjoin, heq⟩ := Prod.mk.inj heq
  obtain ⟨hpass, hexited⟩ := Prod.mk.inj heq
  have hreach : Reachable (clientNext netPool true fun _ => some samplePacket.metric)
      (clientInit netPool) s := .of_exec stopMidPass hs
  have hbound := (clients_tearDown.1 _ s hreach hjoin returnMidPass s' (by decide) hs').1
  exact ⟨s, s', hreach, hjoin, hpass, hs', hexited, hbound⟩

end TelemetrySubsystem
