import TelemetrySubsystem.TicketPool.System

/-! # A client process

`netfilter_main` and `blockfilter_main` are the same program: create the context, open and map the
device, spawn the consumer thread, wait for Enter, and take everything down again. Any of the system
calls may fail.

* **`ClientState`** is a client process beside the pool it reads; `ClientState.fault` records that
  it has touched memory or a descriptor that it does not own.
* **`mainStep`** is one step of the main thread, one library call to a step, with
  `telemetry_initialize` and `telemetry_shutdown` inlined.
* **`clientNext`** interleaves it with the consumer thread and with the producers. A process that
  has returned may be followed by another one.

At most one client runs at a time. -/

namespace TelemetrySubsystem

open Function (update)

/-! ## The process -/

/-- `ctx->rng_ptr`: null, `MAP_FAILED`, or the mapped page. -/
inductive RngPtr
  | null
  | mapFailed
  | page
  deriving DecidableEq, Repr

/-- `telemetry_ctx_t`. -/
structure TelemetryCtx where
  fd : ℤ
  rngPtr : RngPtr
  deriving DecidableEq, Repr

/-- `EXIT_SUCCESS`. -/
def exitSuccess : ℤ := 0

/-- `EXIT_FAILURE`. -/
def exitFailure : ℤ := 1

/-- Program points of the main thread, each in front of one call. -/
inductive MainPc
  /-- No process has been launched. -/
  | notLaunched
  /-- Look at `argv`; holds `atoi(argv[1])` if there is such an argument. -/
  | entry (argv1 : Option ℤ)
  /-- `nt_ctx_create`, `block_ctx_create`. -/
  | createCtx
  /-- `telemetry_initialize`: `open`. -/
  | openDevice
  /-- `telemetry_initialize`: `mmap`. -/
  | mapPage
  /-- `telemetry_initialize`: `close` after a failed `mmap`. -/
  | closeUnmapped
  /-- `pthread_create`. -/
  | spawnThread
  /-- `getchar`. -/
  | waitForEnter
  /-- `thread_args.run_signal = 0`. -/
  | clearRunSignal
  /-- `pthread_join`. -/
  | join
  /-- `telemetry_shutdown`: `munmap`. -/
  | unmapPage (code : ℤ)
  /-- `telemetry_shutdown`: `close`. -/
  | closeDevice (code : ℤ)
  /-- `nt_ctx_destroy`, `block_ctx_destroy`. -/
  | destroyCtx (code : ℤ)
  /-- Returned from `main`. -/
  | exited (code : ℤ)
  deriving DecidableEq, Repr

/-- **A client process and the pool it reads.** -/
structure ClientState (P F : Type) where
  /-- The lane, the producers, and the consumer thread of the process. -/
  pool : PoolState P F
  main : MainPc
  /-- What the context pointer points to, while it is allocated. -/
  ctx : Option TelemetryCtx
  /-- `g_nt_ctx` or `g_block_ctx` is not null. -/
  globalCtx : Bool
  /-- The descriptors the process has open. -/
  openFds : List ℤ
  /-- The page is mapped. -/
  mapped : Bool
  /-- `thread_args.mode`. -/
  mode : ConsumerMode
  /-- `thread_args.run_signal`. -/
  runSignal : Bool
  /-- The process has used something it does not own. -/
  fault : Bool

/-- What a call returns: success, with a descriptor where it is a call of `open`, or failure. -/
inductive SysResult
  | ok (fd : ℕ)
  | fail
  deriving DecidableEq, Repr

namespace ClientState

variable {P F : Type}

/-- `close(fd)`, which must be open. -/
def close (s : ClientState P F) (fd : ℤ) : ClientState P F :=
  if fd ∈ s.openFds then { s with openFds := s.openFds.erase fd } else { s with fault := true }

/-- `munmap`, of a page that must be mapped. -/
def munmap (s : ClientState P F) : ClientState P F :=
  if s.mapped then { s with mapped := false } else { s with fault := true }

/-- `free(ctx)`, which must be allocated, and the reset of the global pointer. -/
def ctxDestroy (s : ClientState P F) : ClientState P F :=
  if s.ctx.isSome then { s with ctx := none, globalCtx := false } else { s with fault := true }

/-- The thread reaches the page through the context and the mapping. -/
def reachesPage (s : ClientState P F) : Bool :=
  s.mapped && s.ctx.any fun ctx => ctx.rngPtr = .page

/-- The thread of this process has not returned. -/
def threadRuns (s : ClientState P F) : Prop := s.pool.consumer.pc ≠ .terminated

end ClientState

/-! ## The main thread -/

variable {P F : Type}

/-- The consumer mode that is chosen: `netfilter_main` insists on an argument, `blockfilter_main`
has a default. -/
def selectedMode (needsArgument : Bool) : Option ℤ → Option ConsumerMode
  | none => if needsArgument then none else some .scatterGather
  | some v => some (if v = 1 then .skipAhead else .scatterGather)

/-- **One step of the main thread**, with what the call it makes returns. -/
def mainStep (needsArgument : Bool) (s : ClientState P F) (r : SysResult) :
    Option (ClientState P F) :=
  match s.main with
  | .notLaunched | .exited _ => none
  | .entry argv1 =>
      match selectedMode needsArgument argv1 with
      | none => some { s with main := .exited exitFailure }
      | some mode => some { s with mode := mode, main := .createCtx }
  | .createCtx =>
      if s.globalCtx then some { s with main := .exited exitFailure }
      else
        match r with
        | .fail => some { s with main := .exited exitFailure }
        | .ok _ =>
            some { s with ctx := some ⟨-1, .null⟩, globalCtx := true, main := .openDevice }
  | .openDevice =>
      match s.ctx, r with
      | none, _ => some { s with fault := true, main := .exited exitFailure }
      | some ctx, .fail =>
          some { s with ctx := some { ctx with fd := -1 }, main := .destroyCtx exitFailure }
      | some ctx, .ok fd =>
          some { s with
            ctx := some { ctx with fd := fd }
            openFds := fd :: s.openFds
            main := .mapPage }
  | .mapPage =>
      match s.ctx, r with
      | none, _ => some { s with fault := true, main := .exited exitFailure }
      | some ctx, .fail =>
          some { s with ctx := some { ctx with rngPtr := .mapFailed }, main := .closeUnmapped }
      | some ctx, .ok _ =>
          some { s with
            ctx := some { ctx with rngPtr := .page }
            mapped := true
            main := .spawnThread }
  | .closeUnmapped =>
      match s.ctx with
      | none => some { s with fault := true, main := .exited exitFailure }
      | some ctx => some { s.close ctx.fd with
          ctx := some ⟨-1, .null⟩, main := .destroyCtx exitFailure }
  | .spawnThread =>
      match r with
      | .fail => some { s with runSignal := true, main := .unmapPage exitFailure }
      | .ok _ =>
          some { s with
            pool := { s.pool with
              consumer := { s.pool.consumer with mode := s.mode, pc := .raiseLoad } }
            runSignal := true
            main := .waitForEnter }
  | .waitForEnter => some { s with main := .clearRunSignal }
  | .clearRunSignal => some { s with runSignal := false, main := .join }
  | .join =>
      match s.pool.consumer.pc with
      | .terminated => some { s with main := .unmapPage exitSuccess }
      | _ => none
  | .unmapPage code =>
      match s.ctx with
      | none => some { s with fault := true, main := .exited exitFailure }
      | some ctx =>
          some { (if ctx.rngPtr = .page then s.munmap else s) with main := .closeDevice code }
  | .closeDevice code =>
      match s.ctx with
      | none => some { s with fault := true, main := .exited exitFailure }
      | some ctx =>
          some { (if 0 ≤ ctx.fd then s.close ctx.fd else s) with main := .destroyCtx code }
  | .destroyCtx code => some { s.ctxDestroy with main := .exited code }

/-! ## The system -/

/-- One step of the system. -/
inductive ClientAction
  /-- A client process is started, when none is running. -/
  | launch (argv1 : Option ℤ)
  /-- The main thread takes a step. -/
  | main (r : SysResult)
  /-- The consumer thread takes a step. -/
  | thread
  /-- A producer call takes a step. -/
  | producer (c : ℕ)
  deriving DecidableEq, Repr

/-- A process is running. -/
def MainPc.running : MainPc → Bool
  | .notLaunched | .exited _ => false
  | _ => true

variable [DecidableEq F] [Fieldwise P F] (R : TicketPool P F)

/-- The zeroed page, and no process. -/
def clientInit : ClientState P F where
  pool := R.poolInit
  main := .notLaunched
  ctx := none
  globalCtx := false
  openFds := []
  mapped := false
  mode := .scatterGather
  runSignal := false
  fault := false

/-- **The transitions of the system.** A new process has an address space of its own. -/
def clientNext (needsArgument : Bool) (calls : ℕ → Option P) (s : ClientState P F) :
    ClientAction → Option (ClientState P F)
  | .launch argv1 =>
      if s.main.running then none
      else some { s with
        main := .entry argv1, ctx := none, globalCtx := false, openFds := [], mapped := false,
        runSignal := false }
  | .main r => mainStep needsArgument s r
  | .thread =>
      (R.consumerStep s.runSignal s.pool.lane s.pool.consumer).map fun p =>
        { s with
          pool := { s.pool with lane := p.1, consumer := p.2 }
          fault := s.fault || !s.reachesPage }
  | .producer c =>
      (R.poolNext calls s.pool (.producer c)).map fun p => { s with pool := p }

end TelemetrySubsystem
