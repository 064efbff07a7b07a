import TelemetrySubsystem.Client.Process
import TelemetrySubsystem.NetFilter.Hook
import TelemetrySubsystem.TicketPool.ActiveFlag

/-! # Client processes own what they use

Any number of client processes, one after another, whatever their system calls return.

* **`ClientState.Owns`** is what the process holds at every program point of its main thread;
  `owns_main` is the step lemma.
* **`ClientSafe`** is the law: nothing is used that is not owned, a process that has returned holds
  nothing, and the pool has been used as the pool allows. -/

namespace TelemetrySubsystem

open ActionSystem
open Function (update)

variable {P F : Type}

/-! ## What a process holds -/

namespace ClientState

/-- What is allocated, open and mapped. -/
structure Holds (s : ClientState P F) (ctx : Option TelemetryCtx) (fds : List ℤ) (mapped : Bool) :
    Prop where
  ctx : s.ctx = ctx
  openFds : s.openFds = fds
  mapped : s.mapped = mapped

/-- Nothing is held, and no thread runs. -/
structure HoldsNothing (s : ClientState P F) : Prop where
  holds : s.Holds none [] false
  globalCtx : s.globalCtx = false
  noThread : s.pool.consumer.pc = .terminated

/-- The page is mapped through a descriptor that is open, both in the context. -/
def HoldsPage (s : ClientState P F) : Prop :=
  ∃ fd : ℕ, s.Holds (some ⟨fd, .page⟩) [(fd : ℤ)] true

/-- **What the process holds at every program point.** -/
def Owns (s : ClientState P F) : Prop :=
  match s.main with
  | .notLaunched | .entry _ | .createCtx | .exited _ => s.HoldsNothing
  | .openDevice => s.Holds (some ⟨-1, .null⟩) [] false ∧ s.pool.consumer.pc = .terminated
  | .mapPage => ∃ fd : ℕ, s.Holds (some ⟨fd, .null⟩) [(fd : ℤ)] false ∧
      s.pool.consumer.pc = .terminated
  | .closeUnmapped => ∃ fd : ℕ, s.Holds (some ⟨fd, .mapFailed⟩) [(fd : ℤ)] false ∧
      s.pool.consumer.pc = .terminated
  | .spawnThread | .unmapPage _ => s.HoldsPage ∧ s.pool.consumer.pc = .terminated
  | .waitForEnter | .clearRunSignal => s.HoldsPage
  | .join => s.HoldsPage ∧ s.runSignal = false
  | .closeDevice _ => ∃ fd : ℕ, s.Holds (some ⟨fd, .page⟩) [(fd : ℤ)] false ∧
      s.pool.consumer.pc = .terminated
  | .destroyCtx _ => (∃ ctx, s.Holds (some ctx) [] false) ∧ s.pool.consumer.pc = .terminated

/-- While a thread runs, the page is mapped. -/
theorem Owns.page {s : ClientState P F} (h : s.Owns) (hrun : s.threadRuns) : s.HoldsPage := by
  unfold Owns at h
  split at h
  case h_1 | h_2 | h_3 | h_4 => exact absurd h.noThread hrun
  case h_6 | h_7 | h_13 =>
    obtain ⟨fd, -, hpc⟩ := h
    exact absurd hpc hrun
  case h_10 | h_11 => exact h
  case h_12 => exact h.1
  all_goals exact absurd h.2 hrun

/-- The page is reached where it is mapped. -/
theorem HoldsPage.reachesPage {s : ClientState P F} (h : s.HoldsPage) : s.reachesPage = true := by
  obtain ⟨fd, hctx, -, hmapped⟩ := h
  simp [ClientState.reachesPage, hctx, hmapped]

/-- What is held does not depend on the pool. -/
theorem HoldsPage.congr {s s' : ClientState P F} (h : s.HoldsPage) (hctx : s'.ctx = s.ctx)
    (hfds : s'.openFds = s.openFds) (hmapped : s'.mapped = s.mapped) : s'.HoldsPage := by
  obtain ⟨fd, hc, hf, hm⟩ := h
  exact ⟨fd, hctx.trans hc, hfds.trans hf, hmapped.trans hm⟩

/-- A process that is not running holds nothing. -/
theorem Owns.nothing {s : ClientState P F} (h : s.Owns) (hmain : s.main.running = false) :
    s.HoldsNothing := by
  cases hpc : s.main <;> rw [hpc] at hmain
  case notLaunched | exited => simpa only [Owns, hpc] using h
  all_goals cases hmain

/-- What is held does not depend on the pool, as long as no thread appears in it. -/
theorem Owns.withPool {s : ClientState P F} (h : s.Owns) {pool : PoolState P F} {fault : Bool}
    (hpc : s.pool.consumer.pc = .terminated → pool.consumer.pc = .terminated) :
    { s with pool := pool, fault := fault }.Owns := by
  obtain ⟨p, main, ctx, globalCtx, fds, mapped, mode, run, fault'⟩ := s
  cases main with
  | notLaunched | entry | createCtx | exited =>
      obtain ⟨⟨rfl, rfl, rfl⟩, rfl, hterm⟩ := h
      exact ⟨⟨rfl, rfl, rfl⟩, rfl, hpc hterm⟩
  | openDevice =>
      obtain ⟨⟨rfl, rfl, rfl⟩, hterm⟩ := h
      exact ⟨⟨rfl, rfl, rfl⟩, hpc hterm⟩
  | mapPage | closeUnmapped | closeDevice =>
      obtain ⟨fd, ⟨rfl, rfl, rfl⟩, hterm⟩ := h
      exact ⟨fd, ⟨rfl, rfl, rfl⟩, hpc hterm⟩
  | spawnThread | unmapPage | destroyCtx =>
      obtain ⟨⟨fd, rfl, rfl, rfl⟩, hterm⟩ := h
      exact ⟨⟨fd, rfl, rfl, rfl⟩, hpc hterm⟩
  | waitForEnter | clearRunSignal =>
      obtain ⟨fd, rfl, rfl, rfl⟩ := h
      exact ⟨fd, rfl, rfl, rfl⟩
  | join =>
      obtain ⟨⟨fd, rfl, rfl, rfl⟩, rfl⟩ := h
      exact ⟨⟨fd, rfl, rfl, rfl⟩, rfl⟩

@[simp] theorem close_pool (s : ClientState P F) (fd : ℤ) : (s.close fd).pool = s.pool := by
  rw [ClientState.close]
  split <;> rfl

@[simp] theorem munmap_pool (s : ClientState P F) : s.munmap.pool = s.pool := by
  rw [ClientState.munmap]
  split <;> rfl

@[simp] theorem ctxDestroy_pool (s : ClientState P F) : s.ctxDestroy.pool = s.pool := by
  rw [ClientState.ctxDestroy]
  split <;> rfl

end ClientState

open ClientState

/-- **A step of the main thread** hands on what it holds, and uses nothing else. -/
theorem owns_main {needsArgument : Bool} {s s' : ClientState P F} {r : SysResult} (h : s.Owns)
    (hfault : s.fault = false) (hstep : mainStep needsArgument s r = some s') :
    s'.Owns ∧ s'.fault = false := by
  obtain ⟨pool, main, ctx, globalCtx, fds, mapped, mode, run, fault⟩ := s
  cases hfault
  cases main with
  | notLaunched | exited => cases hstep
  | entry argv1 =>
      obtain ⟨⟨rfl, rfl, rfl⟩, rfl, hpc⟩ := h
      simp only [mainStep] at hstep
      split at hstep <;> cases hstep <;> exact ⟨⟨⟨rfl, rfl, rfl⟩, rfl, hpc⟩, rfl⟩
  | createCtx =>
      obtain ⟨⟨rfl, rfl, rfl⟩, rfl, hpc⟩ := h
      cases r <;> cases hstep
      · exact ⟨⟨⟨rfl, rfl, rfl⟩, hpc⟩, rfl⟩
      · exact ⟨⟨⟨rfl, rfl, rfl⟩, rfl, hpc⟩, rfl⟩
  | openDevice =>
      obtain ⟨⟨rfl, rfl, rfl⟩, hpc⟩ := h
      cases r with
      | ok fd =>
          cases hstep
          exact ⟨⟨fd, ⟨rfl, rfl, rfl⟩, hpc⟩, rfl⟩
      | fail =>
          cases hstep
          exact ⟨⟨⟨_, rfl, rfl, rfl⟩, hpc⟩, rfl⟩
  | mapPage =>
      obtain ⟨fd, ⟨rfl, rfl, rfl⟩, hpc⟩ := h
      cases r <;> cases hstep
      · exact ⟨⟨⟨fd, rfl, rfl, rfl⟩, hpc⟩, rfl⟩
      · exact ⟨⟨fd, ⟨rfl, rfl, rfl⟩, hpc⟩, rfl⟩
  | closeUnmapped =>
      obtain ⟨fd, ⟨rfl, rfl, rfl⟩, hpc⟩ := h
      simp only [mainStep, ClientState.close, List.mem_singleton, if_true, List.erase_cons_head]
        at hstep
      cases hstep
      exact ⟨⟨⟨_, rfl, rfl, rfl⟩, hpc⟩, rfl⟩
  | spawnThread =>
      obtain ⟨⟨fd, rfl, rfl, rfl⟩, hpc⟩ := h
      cases r <;> cases hstep
      · exact ⟨⟨fd, rfl, rfl, rfl⟩, rfl⟩
      · exact ⟨⟨⟨fd, rfl, rfl, rfl⟩, hpc⟩, rfl⟩
  | waitForEnter =>
      obtain ⟨fd, rfl, rfl, rfl⟩ := h
      cases hstep
      exact ⟨⟨fd, rfl, rfl, rfl⟩, rfl⟩
  | clearRunSignal =>
      obtain ⟨fd, rfl, rfl, rfl⟩ := h
      cases hstep
      exact ⟨⟨⟨fd, rfl, rfl, rfl⟩, rfl⟩, rfl⟩
  | join =>
      obtain ⟨⟨fd, rfl, rfl, rfl⟩, -⟩ := h
      simp only [mainStep] at hstep
      split at hstep
      · rename_i hpc
        cases hstep
        exact ⟨⟨⟨fd, rfl, rfl, rfl⟩, hpc⟩, rfl⟩
      · cases hstep
  | unmapPage code =>
      obtain ⟨⟨fd, rfl, rfl, rfl⟩, hpc⟩ := h
      cases hstep
      exact ⟨⟨fd, ⟨rfl, rfl, rfl⟩, hpc⟩, rfl⟩
  | closeDevice code =>
      obtain ⟨fd, ⟨rfl, rfl, rfl⟩, hpc⟩ := h
      simp only [mainStep, Int.natCast_nonneg, if_true, ClientState.close, List.mem_singleton,
        List.erase_cons_head] at hstep
      cases hstep
      exact ⟨⟨⟨_, rfl, rfl, rfl⟩, hpc⟩, rfl⟩
  | destroyCtx code =>
      obtain ⟨⟨ctx, rfl, rfl, rfl⟩, hpc⟩ := h
      cases hstep
      exact ⟨⟨⟨rfl, rfl, rfl⟩, rfl, hpc⟩, rfl⟩

/-- A step of the main thread that does not spawn the consumer leaves the pool alone. -/
theorem mainStep_pool {needsArgument : Bool} {s s' : ClientState P F} {r : SysResult}
    (hstep : mainStep needsArgument s r = some s') :
    s'.pool = s.pool ∨ s.main = .spawnThread ∧ s'.pool = { s.pool with
      consumer := { s.pool.consumer with mode := s.mode, pc := .raiseLoad } } := by
  cases hmain : s.main <;> simp only [mainStep, hmain] at hstep
  case spawnThread =>
    split at hstep <;> cases hstep
    · exact .inl rfl
    · exact .inr ⟨rfl, rfl⟩
  all_goals refine .inl ?_
  case notLaunched | exited => cases hstep
  case waitForEnter | clearRunSignal | destroyCtx =>
    cases hstep
    simp
  case createCtx =>
    split at hstep
    · cases hstep
      rfl
    · split at hstep <;> cases hstep <;> rfl
  case unmapPage | closeDevice =>
    split at hstep <;> cases hstep
    · rfl
    · simp only [apply_ite ClientState.pool, munmap_pool, close_pool, ite_self]
  all_goals
    split at hstep <;> cases hstep <;> simp

section System

variable [DecidableEq F] [Fieldwise P F] {R : TicketPool P F}

/-- **The invariant of client processes.** -/
structure ClientInv (s : ClientState P F) : Prop where
  owns : s.Owns
  fault : s.fault = false

/-- **Every step keeps the invariant.** -/
theorem ClientInv.next {needsArgument : Bool} {calls : ℕ → Option P} {s s' : ClientState P F}
    {a : ClientAction} (h : ClientInv s)
    (hnext : clientNext R needsArgument calls s a = some s') : ClientInv s' := by
  cases a with
  | launch argv1 =>
      rw [clientNext] at hnext
      split at hnext
      · cases hnext
      · rename_i hmain
        cases hnext
        have hnone := h.owns.nothing (Bool.eq_false_iff.mpr hmain)
        exact ⟨⟨⟨rfl, rfl, rfl⟩, rfl, hnone.noThread⟩, h.fault⟩
  | main r =>
      obtain ⟨howns, hfault⟩ := owns_main h.owns h.fault hnext
      exact ⟨howns, hfault⟩
  | thread =>
      obtain ⟨⟨lane, k⟩, hstep, rfl⟩ := Option.map_eq_some_iff.mp hnext
      -- a thread that takes a step is running, so the page is mapped
      have hrun : s.threadRuns := by
        intro hpc
        rw [TicketPool.consumerStep, hpc] at hstep
        cases hstep
      have hpage := (h.owns.page hrun).reachesPage
      refine ⟨h.owns.withPool fun hpc => absurd hpc hrun, ?_⟩
      simp only [h.fault, hpage, Bool.not_true, Bool.or_false]
  | producer c =>
      obtain ⟨pool, hstep, rfl⟩ := Option.map_eq_some_iff.mp hnext
      obtain ⟨q, -, rfl⟩ := Option.map_eq_some_iff.mp hstep
      exact ⟨h.owns.withPool fun hpc => hpc, h.fault⟩

/-- Before the first process is launched. -/
theorem clientInv_init (R : TicketPool P F) : ClientInv (clientInit R) :=
  ⟨⟨⟨rfl, rfl, rfl⟩, rfl, rfl⟩, rfl⟩

/-- **The invariant holds in every state reached.** -/
theorem clientInv_of_reachable {needsArgument : Bool} {calls : ℕ → Option P}
    {s : ClientState P F} (h : Reachable (clientNext R needsArgument calls) (clientInit R) s) :
    ClientInv s :=
  h.invariant (clientInv_init R) fun _ _ _ hi _ hnext => hi.next hnext

/-- **A run of client processes is a run of the pool.** -/
theorem reachable_pool {needsArgument : Bool} {calls : ℕ → Option P} {s : ClientState P F}
    (h : Reachable (clientNext R needsArgument calls) (clientInit R) s) :
    Reachable (R.poolNext calls) R.poolInit s.pool := by
  refine h.map (f := ClientState.pool) (I := ClientInv) (clientInv_init R) rfl
    (fun _ _ _ hi _ hnext => hi.next hnext) ?_
  intro s a s' hi _ hnext
  cases a with
  | launch argv1 =>
      rw [clientNext] at hnext
      split at hnext <;> cases hnext
      exact .inl rfl
  | main r =>
      rcases mainStep_pool hnext with hsame | ⟨hmain, hspawn⟩
      · exact .inl hsame
      · have hpc : s.pool.consumer.pc = .terminated := by
          have howns := hi.owns
          simp only [Owns, hmain] at howns
          exact howns.2
        refine .inr ⟨.spawn s.mode, trivial, ?_⟩
        rw [TicketPool.poolNext, hpc, hspawn]
  | thread =>
      obtain ⟨p, hstep, rfl⟩ := Option.map_eq_some_iff.mp hnext
      refine .inr ⟨.consumer s.runSignal, trivial, ?_⟩
      rw [TicketPool.poolNext, hstep]
      rfl
  | producer c =>
      obtain ⟨pool, hstep, rfl⟩ := Option.map_eq_some_iff.mp hnext
      exact .inr ⟨.producer c, trivial, hstep⟩

/-- **The law of client processes.** -/
structure ClientSafe (R : TicketPool P F) (calls : ℕ → Option P) (s : ClientState P F) :
    Prop where
  /-- Nothing has been used that was not owned. -/
  noFault : s.fault = false
  /-- While a thread runs, the page is mapped, through a descriptor that is open. -/
  page : s.threadRuns → s.HoldsPage
  /-- A process that has returned holds nothing, and has cleared its flag. -/
  nothingLeft : s.main.running = false → s.HoldsNothing ∧ s.pool.lane.stateFlags = 0
  /-- The lane has seen one consumer thread at a time, among its producers. -/
  pool : Reachable (R.poolNext calls) R.poolInit s.pool

/-- **Client processes use what they own and leave nothing behind**, one after another, whatever
their system calls return, in every order of the steps of the main thread, the consumer thread and
the producers. -/
theorem clientSafe_of_reachable (R : TicketPool P F) (needsArgument : Bool)
    (calls : ℕ → Option P) (s : ClientState P F)
    (h : Reachable (clientNext R needsArgument calls) (clientInit R) s) :
    ClientSafe R calls s := by
  have hinv := clientInv_of_reachable h
  have hpool := reachable_pool h
  refine ⟨hinv.fault, hinv.owns.page, fun hmain => ?_, hpool⟩
  have hnone := hinv.owns.nothing hmain
  have hflag := TicketPool.flagAt_of_reachable hpool
  rw [hnone.noThread] at hflag
  exact ⟨hnone, hflag⟩

end System

/-- A process whose `mmap` fails, and one that has its thread started after it. -/
def twoProcesses : List ClientAction :=
  [.launch (some 0), .main (.ok 0), .main (.ok 0), .main (.ok 3), .main .fail, .main (.ok 0),
    .main (.ok 0), .launch (some 1), .main (.ok 0), .main (.ok 0), .main (.ok 3), .main (.ok 0),
    .main (.ok 0), .thread]

/-- The second process of `twoProcesses` reaches the page, which it holds. -/
theorem clientSafe_twoProcesses : ∃ s,
    exec (clientNext netPool true fun _ => none) (clientInit netPool) twoProcesses = some s ∧
      s.reachesPage = true ∧ ClientSafe netPool (fun _ => none) s :=
  ⟨_, rfl, rfl,
    clientSafe_of_reachable netPool true (fun _ => none) _ (.of_exec twoProcesses rfl)⟩

end TelemetrySubsystem
