import TelemetrySubsystem.CharRing.System

/-! # The sleep flag of the char ring

`dev_write` raises `TELEMETRY_FLAG_WRITER_ASLEEP` before it waits for space and clears it when it
comes back, so that a zero-copy consumer knows when to kick. The flag is a single bit, which every
writer raises and clears for itself.

* **`SleeperSeesFlag`**: a call blocked on `char_wait_queue` has the flag set.
* **`sleeperSeesFlag_of_reachable`**: it holds along every run in which no call clears the flag
  while another one is inside `wait_event_interruptible`, whatever readers, wake-ups and stores to
  `rd_idx` there are.
* **`sleeper_behind_cleared_flag`**: without that condition it fails. Two writers sleep on a full
  ring, one byte is read, and the first to wake clears the flag, fills the ring up again with its
  last byte and returns; the second finds the ring full and goes back to sleep. -/

namespace TelemetrySubsystem

open ActionSystem WrapCounter
open Function (update)

/-! ## Sleeping and waiting -/

/-- `TELEMETRY_FLAG_WRITER_ASLEEP` is set. -/
def ByteRing.FlagSet (r : ByteRing) : Prop := r.stateFlags &&& flagWriterAsleep ≠ 0

/-- The flag survives a step that leaves `state_flags` alone. -/
theorem ByteRing.FlagSet.congr {r r' : ByteRing} (h : r.FlagSet)
    (hsame : r'.stateFlags = r.stateFlags) : r'.FlagSet := by
  unfold ByteRing.FlagSet
  rw [hsame]
  exact h

/-- The call sleeps: it has called `schedule()` and has not been woken. -/
def CharState.Blocked (s : CharState) (c : ℕ) : Prop :=
  ∃ w, s.writer c = .devWrite w ∧ w.pc = .asleep ∧ c ∈ s.ring.waitQueue

/-- **No writer sleeps behind a cleared flag.** -/
def SleeperSeesFlag (s : CharState) : Prop := ∀ c, s.Blocked c → s.ring.FlagSet

/-- The call is inside `wait_event_interruptible` and may still go to sleep. -/
def DevWritePc.waits : DevWritePc → Bool
  | .condWr phase | .condRd phase _ => phase != .interrupted
  | .prepare | .asleep => true
  | _ => false

/-- The writer is inside `wait_event_interruptible` and may still go to sleep. -/
def Writer.waits : Writer → Bool
  | .devWrite w => w.pc.waits
  | .push _ _ => false

/-- The call is about to store `state_flags` with the sleep flag cleared. -/
def Writer.clears : Writer → Bool
  | .devWrite w => match w.pc with
    | .clearStore _ => true
    | _ => false
  | .push _ _ => false

/-- **The condition on a step**: a call clears the flag only when no other call is inside
`wait_event_interruptible`. -/
def ClearsAlone (s : CharState) (a : CharAction) : Prop :=
  ∀ c o, a = .writer c o → (s.writer c).clears = true → ∀ c', c' ≠ c → (s.writer c').waits = false

/-! ## The invariant -/

/-- The call has raised the flag for itself and not cleared it. -/
def Writer.raised : Writer → Bool
  | .devWrite w => w.pc.waits || w.pc == .raiseRelease
  | .push _ _ => false

/-- The word about to be stored to raise the flag has the flag. -/
def Writer.RaiseWord : Writer → Prop
  | .devWrite w => ∀ v, w.pc = .raiseStore v → v &&& flagWriterAsleep ≠ 0
  | .push _ _ => True

/-- Raising the flag sets it. -/
theorem raise_flag (flags : UInt32) : (flags ||| flagWriterAsleep) &&& flagWriterAsleep ≠ 0 := by
  have habs : (flags ||| flagWriterAsleep) &&& flagWriterAsleep = flagWriterAsleep := by
    apply UInt32.eq_of_toBitVec_eq
    rw [UInt32.toBitVec_and, UInt32.toBitVec_or]
    ext i
    rw [BitVec.getElem_and, BitVec.getElem_or, Bool.and_or_distrib_right, Bool.and_self]
    cases flagWriterAsleep.toBitVec[i] <;> simp
  rw [habs]
  decide

/-- A push leaves the flag alone. -/
theorem push_stateFlags {metric : Option NetPacketMetric} {me : ℕ} {r r' : ByteRing}
    {pc pc' : PushPc}
    (h : telemetrySharedCharDevPushMetric metric me r pc = some (r', pc')) :
    r'.stateFlags = r.stateFlags := by
  unfold telemetrySharedCharDevPushMetric at h
  cases pc
  all_goals simp only [pushMetricStep] at h
  case copy => cases metric <;> cases h; rfl
  case entry | acquire | loadRd => split at h <;> cases h <;> rfl
  case done => cases h
  all_goals
    cases h
    rfl

/-- The call is about to store `state_flags` with the sleep flag raised. -/
def DevWritePc.raises : DevWritePc → Bool
  | .raiseStore _ => true
  | _ => false

/-- Elsewhere there is no word to be stored. -/
theorem raiseWord_of_raises {w : DevWrite} (h : w.pc.raises = false) :
    (Writer.devWrite w).RaiseWord := by
  intro v hv
  rw [hv] at h
  cases h

/-- **What a step of a writer may do to the flag**: it leaves `state_flags` alone and starts no wait
that was not announced; or it sets the flag; or it clears it at the end of its own wait. -/
def FlagStep (r r' : ByteRing) (w w' : Writer) : Prop :=
  (r'.stateFlags = r.stateFlags ∧ (w'.raised = true → w.raised = true)) ∨ r'.FlagSet ∨
    (w.clears = true ∧ w.stage ≠ .outside ∧ w'.raised = false)

/-- A step that does not lead into the wait. -/
theorem FlagStep.outside {r r' : ByteRing} {w w' : Writer} (hsame : r'.stateFlags = r.stateFlags)
    (hraised : w'.raised = false) : FlagStep r r' w w' := by
  refine .inl ⟨hsame, fun hr => ?_⟩
  rw [hraised] at hr
  cases hr

/-- A step inside the wait. -/
theorem FlagStep.inside {r r' : ByteRing} {w w' : Writer} (hsame : r'.stateFlags = r.stateFlags)
    (hraised : w.raised = true) : FlagStep r r' w w' := .inl ⟨hsame, fun _ => hraised⟩

/-- **Every step of `dev_write` is such a step.** -/
theorem devWriteStep_flag {me : ℕ} {r r' : ByteRing} {w w' : DevWrite} {o : Outcome}
    (hw : (Writer.devWrite w).RaiseWord) (h : devWriteStep me r w o = some (r', w')) :
    (Writer.devWrite w').RaiseWord ∧ FlagStep r r' (.devWrite w) (.devWrite w') := by
  obtain ⟨pc, rest, n⟩ := w
  cases devWriteStep_move h with
  | raiseLoad =>
      -- the word to be stored is computed under the lock, which no other call can hold meanwhile
      refine ⟨fun v hv => ?_, .outside rfl rfl⟩
      cases hv
      exact raise_flag r.stateFlags
  | @raiseStore v => exact ⟨raiseWord_of_raises rfl, .inr (.inl (hw v rfl))⟩
  | clearStore => exact ⟨raiseWord_of_raises rfl, .inr (.inr ⟨rfl, by rintro ⟨⟩, rfl⟩)⟩
  -- inside the wait the call has raised the flag already
  | raiseRelease | stillFullFirst | stillFullQueued | signalled | enqueue | disturbed | woken =>
      exact ⟨raiseWord_of_raises rfl, .inside rfl rfl⟩
  | @condWr phase =>
      refine ⟨raiseWord_of_raises rfl, ?_⟩
      cases phase with
      | first | queued => exact .inside rfl rfl
      | interrupted => exact .outside rfl rfl
  -- outside the wait the step does not start one
  | _ => exact ⟨raiseWord_of_raises rfl, .outside rfl rfl⟩

/-- **Every step of a writer is such a step.** -/
theorem writerStep_flag {me : ℕ} {r r' : ByteRing} {w w' : Writer} {o : Outcome}
    (hw : w.RaiseWord) (h : writerStep me r o w = some (r', w')) :
    w'.RaiseWord ∧ FlagStep r r' w w' := by
  obtain ⟨x, x', rfl, rfl, hstep⟩ | ⟨metric, pc, pc', rfl, rfl, hstep⟩ := writerStep_cases h
  · exact devWriteStep_flag hw hstep
  · exact ⟨trivial, .inl ⟨push_stateFlags hstep, id⟩⟩

/-- **The invariant**: whoever has raised the flag for itself finds it set. -/
structure FlagInv (s : CharState) : Prop where
  lockHeld : LockHeld s
  raiseWord : ∀ c, (s.writer c).RaiseWord
  flagSet : ∀ c, (s.writer c).raised = true → s.ring.FlagSet

/-- The flag is raised inside the lock, so a call that has raised it either waits already or holds
the lock. -/
theorem Writer.raised_cases {w : Writer} (h : w.raised = true) :
    w.waits = true ∨ w.stage ≠ .outside := by
  cases w with
  | push metric pc => cases h
  | devWrite w =>
      simp only [Writer.raised, Bool.or_eq_true, beq_iff_eq] at h
      rcases h with h | h
      · exact .inl h
      · exact .inr (by simp [Writer.stage, DevWrite.stage, h])

/-- **A writer's step keeps the invariant**, if it clears the flag only while nobody else waits. -/
theorem FlagInv.writer_step {s : CharState} (h : FlagInv s) {c : ℕ} {o : Outcome} {r : ByteRing}
    {w : Writer} (hok : (s.writer c).clears = true → ∀ c', c' ≠ c → (s.writer c').waits = false)
    (hstep : writerStep c s.ring o (s.writer c) = some (r, w)) :
    FlagInv { s with ring := r, writer := update s.writer c w } := by
  obtain ⟨hword, hflag⟩ := writerStep_flag (h.raiseWord c) hstep
  refine ⟨h.lockHeld.writer_step (writerStep_stageStep hstep), ?_, fun c' hc' => ?_⟩
  · exact (Function.forall_update_iff s.writer fun _ w => w.RaiseWord).mpr
      ⟨hword, fun c' _ => h.raiseWord c'⟩
  · simp only at hc' ⊢
    by_cases heq : c' = c
    · subst heq
      rw [Function.update_self] at hc'
      -- the call itself: it had raised the flag before, sets it now, or is past its wait
      rcases hflag with ⟨hsame, hold⟩ | hset | ⟨_, _, hlow⟩
      · exact (h.flagSet c' (hold hc')).congr hsame
      · exact hset
      · rw [hlow] at hc'
        cases hc'
    · rw [Function.update_of_ne heq] at hc'
      rcases hflag with ⟨hsame, _⟩ | hset | ⟨hclears, hin, _⟩
      · exact (h.flagSet c' hc').congr hsame
      · exact hset
      · -- the clearing call holds the lock, so the other one would have to be waiting
        rcases Writer.raised_cases hc' with hwaits | hstage
        · rw [hok hclears c' heq] at hwaits
          cases hwaits
        · exact absurd (h.lockHeld.outside (Ne.symm heq) hin) hstage

/-- **The invariant holds along every run whose steps meet the condition.** -/
theorem flagInv_of_reachable {calls : ℕ → WriterCall} {s : CharState}
    (h : ReachableUnder charNext ClearsAlone (charInit calls) s) : FlagInv s := by
  refine h.invariant ⟨fun c hc => absurd (calls c).start_stage hc, fun c => ?_, fun c hc => ?_⟩
    fun s a s' hi hok hnext => ?_
  · cases hcall : calls c with
    | devWrite buffer =>
        simp only [charInit, hcall]
        exact fun v hv => by cases hv
    | push metric =>
        simp only [charInit, hcall]
        trivial
  · cases hcall : calls c <;> simp only [charInit, hcall] at hc <;> cases hc
  · obtain ⟨c, o, r, w, rfl, hstep, rfl⟩ | ⟨d, o, r, x, -, hstep, rfl⟩ | ⟨-, rfl⟩ | ⟨v, -, rfl⟩ :=
      charNext_cases hnext
    · exact hi.writer_step (hok c o rfl) hstep
    · -- readers, wake-ups and stores to `rd_idx` touch neither the flag nor the writers
      have hkept := devReadStep_kept hstep
      refine ⟨fun c hc => hkept.lock.trans (hi.lockHeld c hc), hi.raiseWord, fun c hc => ?_⟩
      exact (hi.flagSet c hc).congr hkept.stateFlags
    · exact ⟨hi.lockHeld, hi.raiseWord, hi.flagSet⟩
    · exact ⟨hi.lockHeld, hi.raiseWord, hi.flagSet⟩

/-- **No writer sleeps behind a cleared flag**, along every run in which no call clears the flag
while another one is inside `wait_event_interruptible`. -/
theorem sleeperSeesFlag_of_reachable {calls : ℕ → WriterCall} {s : CharState}
    (h : ReachableUnder charNext ClearsAlone (charInit calls) s) : SleeperSeesFlag s := by
  rintro c ⟨w, hw, hpc, -⟩
  apply (flagInv_of_reachable h).flagSet c
  rw [hw]
  simp [Writer.raised, DevWritePc.waits, hpc]

/-- A step of a run of `n` writers, checked to clear the flag alone. -/
def clearsCheck (n : ℕ) (s : CharState) : CharAction → Bool
  | .writer c _ => decide (c < n) &&
      decide ((s.writer c).clears = true → ∀ c' < n, c' ≠ c → (s.writer c').waits = false)
  | _ => true

/-- Such a step meets the condition. -/
theorem clearsAlone_of_check {n : ℕ} (s : CharState) (a : CharAction)
    (hidle : ∀ c, n ≤ c → (s.writer c).waits = false) (h : clearsCheck n s a = true) :
    ClearsAlone s a := by
  rintro c o rfl hclears c' hne
  simp only [clearsCheck, Bool.and_eq_true, decide_eq_true_eq] at h
  rcases Nat.lt_or_ge c' n with hlt | hge
  · exact h.2 hclears c' hlt hne
  · exact hidle c' hge

/-- The other writers take no step. -/
theorem idle_of_clearsCheck {n : ℕ} (s : CharState) (a : CharAction) (s' : CharState)
    (hidle : ∀ c, n ≤ c → (s.writer c).waits = false) (h : clearsCheck n s a = true)
    (hnext : charNext s a = some s') : ∀ c, n ≤ c → (s'.writer c).waits = false := by
  obtain ⟨c, o, r, w, rfl, -, rfl⟩ | ⟨d, o, r, x, rfl, -, rfl⟩ | ⟨rfl, rfl⟩ | ⟨v, rfl, rfl⟩ :=
    charNext_cases hnext
  · simp only [clearsCheck, Bool.and_eq_true, decide_eq_true_eq] at h
    intro c' hge
    have hne : c' ≠ c := (Nat.lt_of_lt_of_le h.1 hge).ne'
    simp only [Function.update_of_ne hne]
    exact hidle c' hge
  · exact hidle
  · exact hidle
  · exact hidle

/-- With `rd_idx` one ahead of `wr_idx` the ring is full, and the first writer goes to sleep. One
byte is freed and it is woken: it clears the flag, writes its byte and returns. Then the second
writer finds the ring full, raises the flag again and goes to sleep. -/
def sleepInTurn : List CharAction :=
  .mapStoreRd 1 :: List.replicate 12 (.writer 0 .ok)
    ++ .mapStoreRd 2 :: .ioctlWakeWriter :: List.replicate 15 (.writer 0 .ok)
    ++ List.replicate 12 (.writer 1 .ok)

/-- The second sleeper sees the flag, which the first one has cleared in between. -/
theorem sleeperSeesFlag_in_turn : ∃ s : CharState,
    s.writer 0 = .devWrite ⟨.done 1, [], 1⟩ ∧ s.Blocked 1 ∧ SleeperSeesFlag s := by
  have hrun : (exec (checked charNext (clearsCheck 2)) (charInit fun _ => .devWrite [7])
      sleepInTurn).map (fun s => (s.writer 0, s.writer 1, s.ring.waitQueue))
        = some (.devWrite ⟨.done 1, [], 1⟩, .devWrite ⟨.asleep, [7], 0⟩, [1]) := by decide
  obtain ⟨s, hs, heq⟩ := Option.map_eq_some_iff.mp hrun
  simp only [Prod.mk.injEq] at heq
  obtain ⟨hdone, hasleep, hqueue⟩ := heq
  have hreach : ReachableUnder charNext ClearsAlone (charInit fun _ => .devWrite [7]) s :=
    .of_checked idle_of_clearsCheck clearsAlone_of_check sleepInTurn hs (fun _ _ => rfl) .start
  refine ⟨s, hdone, ⟨_, hasleep, rfl, ?_⟩, sleeperSeesFlag_of_reachable hreach⟩
  rw [hqueue]
  exact List.mem_singleton_self 1

/-! ## Two sleepers and one free byte -/

/-- One call writes the ring full and one byte more, the other one byte. -/
def fullAndOneCalls : ℕ → WriterCall
  | 0 => .devWrite (List.replicate 1024 7)
  | 1 => .devWrite [7]
  | _ => .devWrite []

/-- The ring with `k` bytes in it. -/
def filledRing (k : ℕ) : ByteRing :=
  { ByteRing.zeroed with
    wrIdx := UInt32.ofNat k
    buffer := fun i => if i < k then 7 else 0
    appended := List.replicate k (0, 7) }

/-- The call that has written them. -/
def filledWrite (k : ℕ) : DevWrite := ⟨.acquire, List.replicate (1024 - k) 7, k⟩

/-- **Seven steps append a byte** where there is room for it and nobody holds the lock. -/
theorem devWrite_append {me n : ℕ} {r : ByteRing} {b : UInt8} {rest : List UInt8}
    (hlock : r.lock = none) (hroom : next ringBufferCapacity r.wrIdx ≠ r.rdIdx)
    (hrest : rest ≠ []) :
    exec (fun (p : ByteRing × DevWrite) o => devWriteStep me p.1 p.2 o)
      (r, ⟨.acquire, b :: rest, n⟩) (List.replicate 7 .ok) = some
        ({ r with
            buffer := update r.buffer r.wrIdx.toNat b
            wrIdx := next ringBufferCapacity r.wrIdx
            appended := r.appended ++ [(me, b)] },
          ⟨.acquire, rest, n + 1⟩) := by
  have hacquire : devWriteStep me r ⟨.acquire, b :: rest, n⟩ .ok
      = some ({ r with lock := some me }, ⟨.loadWr, b :: rest, n⟩) := if_pos hlock
  have hloadRd : devWriteStep me { r with lock := some me }
        ⟨.loadRd (next ringBufferCapacity r.wrIdx), b :: rest, n⟩ .ok
      = some ({ r with lock := some me },
          ⟨.index (next ringBufferCapacity r.wrIdx), b :: rest, n⟩) := if_neg hroom
  have hhead : DevWrite.loopHead rest (n + 1) = ⟨.acquire, rest, n + 1⟩ := if_neg hrest
  have hbyte : update r.buffer r.wrIdx.toNat b r.wrIdx.toNat = b := Function.update_self ..
  rw [List.replicate_succ, exec_cons, hacquire, Option.bind_some, List.replicate_succ, exec_cons]
  -- the load of `wr_idx` goes through whatever it finds
  show exec _ (_, _) _ = _
  rw [List.replicate_succ, exec_cons, hloadRd, Option.bind_some]
  -- so do the four steps after the test for room
  show some (({ r with
      buffer := update r.buffer r.wrIdx.toNat b
      wrIdx := next ringBufferCapacity r.wrIdx
      appended := r.appended ++ [(me, update r.buffer r.wrIdx.toNat b r.wrIdx.toNat)]
      lock := none } : ByteRing), DevWrite.loopHead rest (n + 1)) = _
  rw [hhead, hbyte, ← hlock]

/-- Seven steps write one more byte, up to the 1023 that fit. -/
theorem filledRing_succ {k : ℕ} (hk : k < 1023) :
    exec (fun (p : ByteRing × DevWrite) o => devWriteStep 0 p.1 p.2 o) (filledRing k, filledWrite k)
      (List.replicate 7 .ok) = some (filledRing (k + 1), filledWrite (k + 1)) := by
  have hnext : next ringBufferCapacity (UInt32.ofNat k) = UInt32.ofNat (k + 1) := by
    rw [← UInt32.toNat_inj, next_toNat (by simp; omega), toNat_ofNat, toNat_ofNat,
      ringBufferCapacity_toNat]
    omega
  have hroom : next ringBufferCapacity (filledRing k).wrIdx ≠ (filledRing k).rdIdx := by
    show next ringBufferCapacity (UInt32.ofNat k) ≠ 0
    rw [hnext, Ne, ← UInt32.toNat_inj, toNat_ofNat, UInt32.toNat_zero]
    omega
  have hrest : filledWrite k = ⟨.acquire, 7 :: List.replicate (1023 - k) 7, k⟩ := by
    rw [filledWrite, show 1024 - k = 1023 - k + 1 by omega, List.replicate_succ]
  have hmore : List.replicate (1023 - k) (7 : UInt8) ≠ [] := by
    rw [Ne, List.replicate_eq_nil_iff]
    omega
  have hcell : update (filledRing k).buffer (filledRing k).wrIdx.toNat 7
      = (filledRing (k + 1)).buffer := by
    funext i
    rw [Function.update_apply]
    simp only [filledRing, toNat_ofNat, Nat.mod_eq_of_lt (show k < 2 ^ 32 by omega)]
    grind
  have hlog : (filledRing k).appended ++ [(0, 7)] = (filledRing (k + 1)).appended :=
    List.replicate_succ'.symm
  rw [hrest, devWrite_append rfl hroom hmore, hcell, hlog]
  simp only [filledRing, filledWrite, hnext, Nat.reduceSubDiff]

/-- The first call has written `k` bytes. -/
def filledState (k : ℕ) : CharState where
  ring := filledRing k
  writer := update (fun c => (fullAndOneCalls c).start) 0 (.devWrite (filledWrite k))
  reader := fun _ => .start

/-- The first call enters its loop. -/
theorem filledState_zero :
    exec charNext (charInit fullAndOneCalls) [.writer 0 .ok] = some (filledState 0) := by
  simp only [filledState, filledRing, Nat.not_lt_zero, if_false]
  rfl

/-- The first call writes one more byte. -/
theorem filledState_succ {k : ℕ} (hk : k < 1023) :
    exec charNext (filledState k) (List.replicate 7 (.writer 0 .ok))
      = some (filledState (k + 1)) := by
  let embed : ByteRing × DevWrite → CharState := fun p =>
    ⟨p.1, update (fun c => (fullAndOneCalls c).start) 0 (.devWrite p.2), fun _ => .start⟩
  have hstep : ∀ p,
      charNext (embed p) (.writer 0 .ok) = (devWriteStep 0 p.1 p.2 .ok).map embed := by
    intro p
    simp only [embed, charNext, Function.update_self, writerStep, Option.map_map]
    refine congrFun (congrArg Option.map (funext fun q => ?_)) _
    simp only [Function.comp_apply, Function.update_idem]
  have hrun := exec_replicate_embed embed hstep 7 (filledRing k, filledWrite k)
  rw [filledRing_succ hk] at hrun
  exact hrun

/-- The ring can be filled up to its last free cell. -/
theorem filledState_reachable {k : ℕ} (hk : k ≤ 1023) :
    ReachableUnder charNext (fun _ a => a.OneReader) (charInit fullAndOneCalls)
      (filledState k) := by
  induction k with
  | zero => exact .of_exec _ (by decide) filledState_zero .start
  | succ k ih => exact .of_exec _ (by decide) (filledState_succ hk) (ih (Nat.le_of_succ_le hk))

/-- On the full ring both calls go to sleep; a reader takes one byte and wakes them; the first call
clears the flag, writes its last byte and returns; the second finds the ring full again. -/
def lapSleeperRun : List CharAction :=
  List.replicate 11 (.writer 0 .ok) ++ List.replicate 12 (.writer 1 .ok)
    ++ .reader 0 (.call 1) :: List.replicate 8 (.reader 0 .ok)
    ++ List.replicate 15 (.writer 0 .ok) ++ List.replicate 4 (.writer 1 .ok)

/-- The run ends with the second call asleep and the flag cleared. -/
theorem lapSleeperRun_end : ∃ s, exec charNext (filledState 1023) lapSleeperRun = some s ∧
    s.Blocked 1 ∧ s.ring.stateFlags = 0 :=
  ⟨_, rfl, ⟨_, rfl, rfl, List.mem_singleton_self 1⟩, by decide⟩

/-- **A sleeper behind a cleared flag**: with two `dev_write` calls and one reader, a call sleeps
while `TELEMETRY_FLAG_WRITER_ASLEEP` is cleared. -/
theorem sleeper_behind_cleared_flag :
    ¬ ∀ s, ReachableUnder charNext (fun _ a => a.OneReader) (charInit fullAndOneCalls) s →
      SleeperSeesFlag s := by
  intro h
  obtain ⟨s, hrun, hblocked, hcleared⟩ := lapSleeperRun_end
  have hreach : ReachableUnder charNext (fun _ a => a.OneReader) (charInit fullAndOneCalls) s :=
    .of_exec lapSleeperRun (by decide) hrun (filledState_reachable le_rfl)
  apply h s hreach 1 hblocked
  rw [hcleared]
  decide

end TelemetrySubsystem
