import TelemetrySubsystem.CharRing.Fifo
import TelemetrySubsystem.CharRing.SleepFlag

/-! # No wake-up is lost

`dev_read` wakes the writers once, when it returns, if it has freed any space at all. With one
reader whose copies to user space do not fault that is enough: a writer tests its condition after it
has enqueued itself, so the space that it misses is space whose wake-up is still to come.

* **`WakeInv`** is the invariant; `SleepFact` is what a call on the wait queue may rely on.
* **`NoLostWakeUp`** is the law: whoever sleeps sleeps on a full ring, or will be woken, and a
  device on which no writer can move has all its unfinished calls asleep.
* **`read_wakes`**: one `dev_read` gets such a device going again. -/

namespace TelemetrySubsystem

open ActionSystem WrapCounter
open Function (update)

/-! ## Full rings and wake-ups owed -/

/-- No byte fits into the ring. -/
def ByteRing.Full (r : ByteRing) : Prop := next ringBufferCapacity r.wrIdx = r.rdIdx

instance : DecidablePred ByteRing.Full := fun _ => inferInstanceAs (Decidable (_ = _))

/-- The reader is inside a call that has freed space, so it ends with a wake-up. -/
def DevRead.Owes (d : DevRead) : Prop := d.dataReady = true ∧ ∀ ret, d.pc ≠ .idle ret

/-- **The condition on a step**: there is one reader, and its copies to user space do not fault. -/
def CharAction.FaultFree : CharAction → Prop
  | .reader d o => d = 0 ∧ o ≠ .fault
  | .mapStoreRd _ => False
  | _ => True

instance : DecidablePred CharAction.FaultFree
  | .reader d o => inferInstanceAs (Decidable (d = 0 ∧ o ≠ .fault))
  | .mapStoreRd _ => inferInstanceAs (Decidable False)
  | .writer _ _ | .ioctlWakeWriter => inferInstanceAs (Decidable True)

/-- Nothing is appended to a full ring. -/
theorem WriterEffect.full {me : ℕ} {r r' : ByteRing} (h : WriterEffect me r r') (hfull : r.Full) :
    r'.Full := by
  cases h with
  | same hsame =>
      rw [ByteRing.Full, hsame.wrIdx, hsame.rdIdx]
      exact hfull
  | fill b hr => exact hr ▸ hfull
  | append hfree _ => exact absurd hfull hfree

/-- Inside a call a wake-up that is owed stays so. -/
theorem DevRead.owes_or_same {r r' : ByteRing} {d d' : DevRead} (hrd : r'.rdIdx = r.rdIdx)
    (hready : d'.dataReady = d.dataReady) (hpc : ∀ ret, d'.pc ≠ .idle ret) :
    d'.Owes ∨ ¬ d.Owes ∧ r'.rdIdx = r.rdIdx := by
  by_cases h : d.dataReady = true
  · exact .inl ⟨hready.trans h, hpc⟩
  · exact .inr ⟨fun howes => h howes.1, hrd⟩

/-- **What a step of the reader does to the wait queue**: it empties it; or it owes a wake-up
afterwards; or it has freed no space. -/
theorem devReadStep_wakes {r r' : ByteRing} {d d' : DevRead} {o : ReadOutcome} (ho : o ≠ .fault)
    (h : devReadStep r d o = some (r', d')) :
    r'.waitQueue = [] ∨ r'.waitQueue = r.waitQueue ∧
      (d'.Owes ∨ ¬ d.Owes ∧ r'.rdIdx = r.rdIdx) := by
  obtain ⟨pc, len, n, ready, out⟩ := d
  cases pc
  all_goals simp only [devReadStep] at h
  case idle ret =>
    cases o <;> cases h
    exact .inr ⟨rfl, .inr ⟨fun howes => howes.2 ret rfl, rfl⟩⟩
  case advance nxt =>
    -- space is freed, and the call goes on to its end
    cases h
    obtain ⟨hready, -, hpc⟩ := DevRead.loopHead_counters
      { pc := .advance nxt, len := len - 1, bytesRead := n + 1, dataReady := true, output := out }
    exact .inr ⟨rfl, .inl ⟨hready, hpc⟩⟩
  case leave =>
    cases h
    cases ready with
    | true => exact .inl rfl
    | false => exact .inr ⟨rfl, .inr ⟨fun howes => (by cases howes.1), rfl⟩⟩
  -- the other steps leave `rd_idx` and `data_ready` alone
  case putUser =>
    split at h
    · exact absurd ‹_› ho
    · cases h
      exact .inr ⟨rfl, DevRead.owes_or_same rfl rfl fun ret hpc => by cases hpc⟩
  case loadRd =>
    split at h <;> cases h <;>
      exact .inr ⟨rfl, DevRead.owes_or_same rfl rfl fun ret hpc => by cases hpc⟩
  all_goals
    cases h
    exact .inr ⟨rfl, DevRead.owes_or_same rfl rfl fun ret hpc => by cases hpc⟩

/-- What a call on the wait queue may rely on: with the write index it has loaded, or asleep, it
finds the ring full only if the ring is full, or a wake-up is still to come. -/
def SleepFact (r : ByteRing) (owed : Prop) : DevWritePc → Prop
  | .condRd _ nxt => nxt = r.rdIdx → r.Full ∨ owed
  | .asleep => r.Full ∨ owed
  | _ => True

/-- Where the ring stays full and the debt stands, the fact stands. -/
theorem SleepFact.mono {r r' : ByteRing} {owed owed' : Prop} {pc : DevWritePc}
    (h : SleepFact r owed pc) (hrd : r'.rdIdx = r.rdIdx) (hfull : r.Full → r'.Full)
    (howed : owed → owed') : SleepFact r' owed' pc := by
  cases pc with
  | condRd phase nxt => exact fun heq => (h (heq.trans hrd)).imp hfull howed
  | asleep => exact h.imp hfull howed
  | _ => trivial

/-- A debt is enough. -/
theorem SleepFact.of_owed {r : ByteRing} {owed : Prop} (pc : DevWritePc) (howed : owed) :
    SleepFact r owed pc := by
  cases pc with
  | condRd phase nxt => exact fun _ => .inr howed
  | asleep => exact .inr howed
  | _ => trivial

/-- **A call keeps its own fact**: it loads `wr_idx` and sees the ring as it is, and it falls asleep
on what it has seen. -/
theorem devWriteStep_sleepFact {me : ℕ} {r r' : ByteRing} {w w' : DevWrite} {o : Outcome}
    {owed : Prop} (h : devWriteStep me r w o = some (r', w'))
    (hold : me ∈ r.waitQueue → SleepFact r owed w.pc) (hin : me ∈ r'.waitQueue) :
    SleepFact r' owed w'.pc := by
  obtain ⟨pc, rest, n⟩ := w
  cases devWriteStep_move h with
  | condWr => exact fun hfull => .inl hfull
  | stillFullQueued heq => exact hold hin heq
  | _ => trivial

/-- A push leaves the wait queue alone. -/
theorem push_waitQueue {metric : Option NetPacketMetric} {me : ℕ} {r r' : ByteRing}
    {pc pc' : PushPc} (h : telemetrySharedCharDevPushMetric metric me r pc = some (r', pc')) :
    r'.waitQueue = r.waitQueue := by
  unfold telemetrySharedCharDevPushMetric at h
  cases pc
  all_goals simp only [pushMetricStep] at h
  case copy => cases metric <;> cases h; rfl
  case entry | acquire | loadRd => split at h <;> cases h <;> rfl
  case done => cases h
  all_goals
    cases h
    rfl

/-- A call enqueues nobody but itself. -/
theorem writerStep_queue {me c : ℕ} {r r' : ByteRing} {o : Outcome} {w w' : Writer}
    (h : writerStep me r o w = some (r', w')) (hc : c ≠ me) (hin : c ∈ r'.waitQueue) :
    c ∈ r.waitQueue := by
  obtain ⟨x, x', rfl, rfl, hx⟩ | ⟨metric, pc, pc', rfl, rfl, hpc⟩ := writerStep_cases h
  · obtain ⟨pc, rest, n⟩ := x
    cases devWriteStep_move hx with
    | kick => cases hin
    | enqueue => exact (List.mem_cons.mp hin).resolve_left hc
    | waited | disturbed => exact List.mem_of_mem_filter hin
    | _ => exact hin
  · exact push_waitQueue hpc ▸ hin

/-- The holder keeps the lock from inside, and nobody else is given it. -/
theorem StageStep.holder {me : ℕ} {r r' : ByteRing} {st st' : AppendStage}
    (h : StageStep me r st r' st') (hold : r.lock = some me → st ≠ .outside) :
    (r'.lock = some me → st' ≠ .outside) ∧
      ∀ c, c ≠ me → r'.lock = some c → r.lock = some c := by
  cases h with
  | acquire hfree =>
      refine ⟨fun _ hst => (by cases hst), fun c hc hlock => ?_⟩
      exact absurd (Option.some.inj hlock).symm hc
  | release => exact ⟨fun hlock => (by cases hlock), fun c _ hlock => by cases hlock⟩
  | idle _ hlock | work _ hlock =>
      rw [hlock]
      exact ⟨hold, fun c _ hc => hc⟩
  | _ => exact ⟨fun _ hst => (by cases hst), fun c _ hc => hc⟩

/-- **The invariant.** -/
structure WakeInv (calls : ℕ → WriterCall) (s : CharState) : Prop where
  fifo : FifoInv calls s
  /-- The holder of the lock is inside its critical section. -/
  holder : ∀ c, s.ring.lock = some c → (s.writer c).stage ≠ .outside
  sleeping : ∀ c w, s.writer c = .devWrite w → c ∈ s.ring.waitQueue →
    SleepFact s.ring (s.reader 0).Owes w.pc

variable {calls : ℕ → WriterCall} {s s' : CharState}

/-- The invariant holds on the zeroed page. -/
theorem WakeInv.init (calls : ℕ → WriterCall) : WakeInv calls (charInit calls) where
  fifo := FifoInv.init calls
  holder := fun c hc => by cases hc
  sleeping := fun c w _ hin => by cases hin

/-- **A writer's step keeps the invariant.** -/
theorem WakeInv.writer_step (h : WakeInv calls s) {c : ℕ} {o : Outcome} {r : ByteRing}
    {w : Writer} (hstep : writerStep c s.ring o (s.writer c) = some (r, w)) :
    WakeInv calls { s with ring := r, writer := update s.writer c w } := by
  have heff := h.fifo.writers.effect hstep
  have hholder := (writerStep_stageStep hstep).holder (h.holder c)
  refine ⟨h.fifo.writer_step hstep, fun c' hc' => ?_, fun c' w' hw' hin => ?_⟩
  · simp only at hc' ⊢
    rcases eq_or_ne c' c with rfl | hne
    · rw [Function.update_self]
      exact hholder.1 hc'
    · rw [Function.update_of_ne hne]
      exact h.holder c' (hholder.2 c' hne hc')
  · simp only at hw' hin ⊢
    rcases eq_or_ne c' c with rfl | hne
    · rw [Function.update_self] at hw'
      subst hw'
      obtain ⟨x, x', hx, hx', hxstep⟩ | ⟨metric, pc, pc', -, hx', -⟩ := writerStep_cases hstep
      · cases hx'
        exact devWriteStep_sleepFact hxstep (fun hold => h.sleeping c' x hx hold) hin
      · cases hx'
    · rw [Function.update_of_ne hne] at hw'
      have hold := h.sleeping c' w' hw' (writerStep_queue hstep hne hin)
      exact hold.mono heff.log_prefix.2.1 heff.full id

/-- **The reader's step keeps the invariant**: where it frees space it owes a wake-up. -/
theorem WakeInv.reader_step (h : WakeInv calls s) {o : ReadOutcome} (ho : o ≠ .fault)
    {r : ByteRing} {x : DevRead} (hstep : devReadStep s.ring (s.reader 0) o = some (r, x)) :
    WakeInv calls { s with ring := r, reader := update s.reader 0 x } := by
  have hkept := devReadStep_kept hstep
  refine ⟨h.fifo.reader_step hstep, fun c hc => h.holder c (hkept.lock ▸ hc), fun c w hw hin => ?_⟩
  simp only [Function.update_self]
  simp only at hin
  rcases devReadStep_wakes ho hstep with hnil | ⟨hqueue, howes | ⟨hnot, hrd⟩⟩
  · rw [hnil] at hin
    cases hin
  · exact .of_owed w.pc howes
  · refine (h.sleeping c w hw (hqueue ▸ hin)).mono hrd (fun hfull => ?_) fun howes =>
      absurd howes hnot
    rw [ByteRing.Full, hkept.wrIdx, hrd]
    exact hfull

/-- **The invariant holds in every state reached.** -/
theorem wakeInv_of_reachable
    (h : ReachableUnder charNext (fun _ a => a.FaultFree) (charInit calls) s) :
    WakeInv calls s := by
  refine h.invariant (WakeInv.init calls) fun s a s' hi hok hnext => ?_
  obtain ⟨c, o, r, w, -, hstep, rfl⟩ | ⟨d, o, r, x, rfl, hstep, rfl⟩ | ⟨-, rfl⟩ | ⟨v, rfl, -⟩ :=
    charNext_cases hnext
  · exact hi.writer_step hstep
  · obtain ⟨rfl, ho⟩ := hok
    exact hi.reader_step ho hstep
  · exact ⟨hi.fifo.wakeUp, hi.holder, fun c w _ hin => by cases hin⟩
  · exact hok.elim

/-! ## When no writer can move -/

/-- The call has returned. -/
def Writer.Returned : Writer → Prop
  | .devWrite w => ∃ ret, w.pc = .done ret
  | .push _ pc => ∃ ret, pc = .done ret

/-- No call can take a step, if no signal comes. -/
def CharState.Stuck (s : CharState) : Prop := ∀ c, charNext s (.writer c .ok) = none

/-- Off its wait for the lock and its sleep, a `dev_write` call can take a step. -/
theorem devWriteStep_none {me : ℕ} {r : ByteRing} {w : DevWrite} {data : List UInt8}
    (hprog : w.Progress data me r.appended) (h : devWriteStep me r w .ok = none) :
    (∃ ret, w.pc = .done ret) ∨ (w.stage = .outside ∧ r.lock ≠ none) ∨
      (w.pc = .asleep ∧ me ∈ r.waitQueue) := by
  obtain ⟨pc, rest, n⟩ := w
  cases pc
  all_goals simp only [devWriteStep] at h
  case done ret => exact .inl ⟨ret, rfl⟩
  case acquire | reacquire =>
    split at h
    · cases h
    · exact .inr (.inl ⟨rfl, ‹_›⟩)
  case asleep =>
    split at h
    · cases h
    · split at h
      · exact .inr (.inr ⟨rfl, ‹_›⟩)
      · cases h
  case copy nxt idx =>
    -- there is a byte to copy
    cases rest with
    | nil => rcases hprog.rest_ne rfl with hpc | ⟨ret, hpc⟩ <;> cases hpc
    | cons b bs =>
        simp only at h
        split at h <;> cases h
  case condRd phase nxt =>
    split at h
    · cases phase <;> cases h
    · cases h
  case entry | loadRd | prepare => split at h <;> cases h
  all_goals cases h

/-- Off its wait for the lock, a push can take a step. -/
theorem push_none {me : ℕ} {r : ByteRing} {metric : Option NetPacketMetric} {pc : PushPc}
    (hprog : pc.Progress (WriterCall.push metric).data me r.appended)
    (h : telemetrySharedCharDevPushMetric metric me r pc = none) :
    (∃ ret, pc = .done ret) ∨ (pc.stage metric = .outside ∧ r.lock ≠ none) := by
  unfold telemetrySharedCharDevPushMetric at h
  cases pc
  all_goals simp only [pushMetricStep] at h
  case done ret => exact .inl ⟨ret, rfl⟩
  case acquire =>
    split at h
    · cases h
    · exact .inr ⟨rfl, ‹_›⟩
  case copy i nxt idx =>
    -- past the null check there is a metric
    cases metric with
    | none => cases hprog.1
    | some m => cases h
  case entry | loadRd => split at h <;> cases h
  all_goals cases h

/-- **A call that cannot take a step** has returned, waits for the lock, or sleeps. -/
theorem WakeInv.writer_none (h : WakeInv calls s) {c : ℕ}
    (hnone : charNext s (.writer c .ok) = none) :
    (s.writer c).Returned ∨ ((s.writer c).stage = .outside ∧ s.ring.lock ≠ none) ∨
      s.Blocked c := by
  have hstep : writerStep c s.ring .ok (s.writer c) = none := Option.map_eq_none_iff.mp hnone
  have hprog := h.fifo.progress c
  cases hw : s.writer c with
  | devWrite w =>
      rw [hw] at hstep hprog
      obtain ⟨buffer, -, hprog⟩ := hprog
      rcases devWriteStep_none hprog (Option.map_eq_none_iff.mp hstep) with
        hdone | hout | ⟨hpc, hin⟩
      · exact .inl hdone
      · exact .inr (.inl hout)
      · exact .inr (.inr ⟨w, hw, hpc, hin⟩)
  | push metric pc =>
      rw [hw] at hstep hprog
      obtain ⟨hcall, hprog⟩ := hprog
      rw [hcall] at hprog
      rcases push_none hprog (Option.map_eq_none_iff.mp hstep) with hdone | hout
      · exact .inl hdone
      · exact .inr (.inl hout)

/-- Who has returned or sleeps is outside its critical section. -/
theorem Writer.Returned.outside {w : Writer} (h : w.Returned) : w.stage = .outside := by
  cases w with
  | devWrite w =>
      obtain ⟨ret, hpc⟩ := h
      simp only [Writer.stage, DevWrite.stage, hpc]
  | push metric pc =>
      obtain ⟨ret, rfl⟩ := h
      rfl

/-- **Where no call can take a step the lock is free**: its holder could. -/
theorem WakeInv.lock_free (h : WakeInv calls s) (hstuck : s.Stuck) : s.ring.lock = none := by
  by_contra hlock
  obtain ⟨c, hc⟩ := Option.ne_none_iff_exists'.mp hlock
  apply h.holder c hc
  rcases h.writer_none (hstuck c) with hdone | ⟨hout, -⟩ | ⟨w, hw, hpc, -⟩
  · exact hdone.outside
  · exact hout
  · rw [hw]
    simp only [Writer.stage, DevWrite.stage, hpc]

/-! ## The law -/

/-- **No wake-up is lost.** -/
structure NoLostWakeUp (s : CharState) : Prop where
  /-- Whoever sleeps, sleeps on a full ring, or the reader's call will wake it. -/
  sleeper : ∀ c, s.Blocked c → s.ring.Full ∨ (s.reader 0).Owes
  /-- Where no call can take a step, every call has returned or sleeps. -/
  stuck : s.Stuck → ∀ c, (s.writer c).Returned ∨ s.Blocked c
  /-- Between two calls of the reader, either all calls have returned then or the ring is full. -/
  full : s.Stuck → ∀ ret, (s.reader 0).pc = .idle ret →
    (∀ c, (s.writer c).Returned) ∨ s.ring.Full

/-- **No wake-up is lost**, for any number of writers and one reader whose copies to user space do
not fault. -/
theorem noLostWakeUp_of_reachable (calls : ℕ → WriterCall) (s : CharState)
    (h : ReachableUnder charNext (fun _ a => a.FaultFree) (charInit calls) s) :
    NoLostWakeUp s := by
  have hinv := wakeInv_of_reachable h
  have hsleeper : ∀ c, s.Blocked c → s.ring.Full ∨ (s.reader 0).Owes := by
    rintro c ⟨w, hw, hpc, hin⟩
    have hfact := hinv.sleeping c w hw hin
    rwa [hpc] at hfact
  have hstuck : s.Stuck → ∀ c, (s.writer c).Returned ∨ s.Blocked c := fun hs c => by
    rcases hinv.writer_none (hs c) with hdone | ⟨-, hlock⟩ | hblocked
    · exact .inl hdone
    · exact absurd (hinv.lock_free hs) hlock
    · exact .inr hblocked
  refine ⟨hsleeper, hstuck, fun hs ret hidle => ?_⟩
  by_cases hfull : s.ring.Full
  · exact .inr hfull
  · refine .inl fun c => (hstuck hs c).resolve_right fun hblocked => ?_
    rcases hsleeper c hblocked with hf | howes
    · exact hfull hf
    · exact howes.2 ret hidle

/-- A ring written full to its last free cell, with nobody faulting. -/
theorem filledState_faultFree {k : ℕ} (hk : k ≤ 1023) :
    ReachableUnder charNext (fun _ a => a.FaultFree) (charInit fullAndOneCalls)
      (filledState k) := by
  induction k with
  | zero => exact .of_exec _ (by decide) filledState_zero .start
  | succ k ih => exact .of_exec _ (by decide) (filledState_succ hk) (ih (Nat.le_of_succ_le hk))

/-- A call asleep on the full ring. -/
theorem noLostWakeUp_sleeper : ∃ s : CharState, s.Blocked 0 ∧ NoLostWakeUp s := by
  obtain ⟨s, hrun, hblocked⟩ : ∃ s, exec charNext (filledState 1023)
      (List.replicate 11 (.writer 0 .ok)) = some s ∧ s.Blocked 0 :=
    ⟨_, rfl, ⟨_, rfl, rfl, List.mem_singleton_self 0⟩⟩
  exact ⟨s, hblocked, noLostWakeUp_of_reachable fullAndOneCalls s
    (.of_exec _ (by decide) hrun (filledState_faultFree le_rfl))⟩

/-! ## One read gets a stuck device going -/

/-- The steps that are left of a `dev_read` call, at most. -/
def DevRead.stepsLeft (d : DevRead) : ℕ :=
  match d.pc with
  | .loadWr => 8 * d.len + 7
  | .loadRd _ => 8 * d.len + 6
  | .index => 8 * d.len + 5
  | .loadByte _ => 8 * d.len + 4
  | .putUser _ => 8 * d.len + 3
  | .reload => 8 * d.len + 2
  | .advance _ => 8 * d.len + 1
  | .leave | .idle _ => 0

/-- **A call on its way to a wake-up**: it has read a byte, or is going to from a full ring. -/
structure DevRead.Waking (r : ByteRing) (d : DevRead) : Prop where
  busy : ∀ ret, d.pc ≠ .idle ret
  phase : (d.dataReady = true ∧ 0 < d.bytesRead ∧ ¬ r.Full) ∨
    (r.Full ∧ 0 < d.len ∧ d.pc ≠ .leave ∧ ∀ snapshot, d.pc = .loadRd snapshot → snapshot = r.wrIdx)

/-- A full ring is not empty. -/
theorem ByteRing.Tracked.ne_of_full {r : ByteRing} (h : r.Tracked) (hfull : r.Full) :
    r.rdIdx ≠ r.wrIdx := by
  intro heq
  have hnext := h.next_wr
  rw [hfull, heq] at hnext
  have := h.wr_lt
  omega

/-- **A step of such a call** leads on, or is the wake-up. -/
theorem DevRead.Waking.step {r : ByteRing} {d : DevRead} (h : d.Waking r) (ht : r.Tracked)
    (hf : d.Facts r) : ∃ r' d', devReadStep r d .ok = some (r', d') ∧
      ((r'.waitQueue = [] ∧ ¬ r'.Full ∧ ∃ n : ℕ, 0 < n ∧ d'.pc = .idle n) ∨
        (d'.Waking r' ∧ d'.stepsLeft < d.stepsLeft)) := by
  obtain ⟨hbusy, hphase⟩ := h
  obtain ⟨pc, len, n, ready, out⟩ := d
  cases pc with
  | idle ret => exact absurd rfl (hbusy ret)
  | leave =>
      rcases hphase with ⟨rfl, hn, hfull⟩ | ⟨-, -, hleave, -⟩
      · exact ⟨_, _, rfl, .inl ⟨rfl, hfull, n, hn, rfl⟩⟩
      · exact absurd rfl hleave
  | advance nxt =>
      -- a byte is freed, so the ring is not full
      obtain ⟨hne, rfl⟩ := hf
      refine ⟨_, _, rfl, .inr ⟨⟨?_, .inl ⟨?_, ?_, ht.next_wr_ne_of_remove hne⟩⟩, ?_⟩⟩
      · exact (DevRead.loopHead_counters _).2.2
      · exact (DevRead.loopHead_counters _).1
      · rw [(DevRead.loopHead_counters _).2.1]
        exact Nat.succ_pos n
      · simp only [DevRead.loopHead]
        split <;> simp only [DevRead.stepsLeft] <;> omega
  | loadRd snapshot =>
      by_cases heq : r.rdIdx = snapshot
      · refine ⟨r, ⟨.leave, len, n, ready, out⟩, if_pos heq, .inr ⟨⟨by simp, ?_⟩, ?_⟩⟩
        · rcases hphase with hready | ⟨hfull, -, -, hsnap⟩
          · exact .inl hready
          · -- on a full ring the reader finds a byte
            exact absurd (heq.trans (hsnap snapshot rfl)) (ht.ne_of_full hfull)
        · simp only [DevRead.stepsLeft]
          omega
      · refine ⟨r, ⟨.index, len, n, ready, out⟩, if_neg heq, .inr ⟨⟨by simp, ?_⟩, ?_⟩⟩
        · exact hphase.imp_right fun ⟨hfull, hlen, _⟩ => ⟨hfull, hlen, by simp, by simp⟩
        · simp only [DevRead.stepsLeft]
          omega
  | loadWr =>
      refine ⟨r, ⟨.loadRd r.wrIdx, len, n, ready, out⟩, rfl, .inr ⟨⟨by simp, ?_⟩, ?_⟩⟩
      · exact hphase.imp_right fun ⟨hfull, hlen, _⟩ => ⟨hfull, hlen, by simp, by simp⟩
      · simp only [DevRead.stepsLeft]
        omega
  | index | loadByte | putUser | reload =>
      refine ⟨_, _, rfl, .inr ⟨⟨by simp, ?_⟩, ?_⟩⟩
      · exact hphase.imp_right fun ⟨hfull, hlen, _⟩ => ⟨hfull, hlen, by simp, by simp⟩
      · simp only [DevRead.stepsLeft]
        omega

/-- **One read gets a stuck device going**: on a full ring a `dev_read` of at least one byte,
without a fault, returns a positive count, has woken every sleeper, and leaves space behind. -/
theorem read_wakes (calls : ℕ → WriterCall) (s : CharState)
    (h : ReachableUnder charNext (fun _ a => a.FaultFree) (charInit calls) s) (ret : ℤ)
    (hidle : (s.reader 0).pc = .idle ret) (hfull : s.ring.Full) (len : ℕ) (hlen : 0 < len) :
    ∃ n s', exec charNext s (.reader 0 (.call len) :: List.replicate n (.reader 0 .ok)) = some s' ∧
      s'.ring.waitQueue = [] ∧ ¬ s'.ring.Full ∧ s'.writer = s.writer ∧
        ∃ k : ℕ, 0 < k ∧ (s'.reader 0).pc = .idle k := by
  -- the call enters its loop
  obtain ⟨t, ht⟩ : ∃ t, charNext s (.reader 0 (.call len)) = some t := by
    simp only [charNext, devReadStep, hidle]
    exact ⟨_, rfl⟩
  have hring : t.ring = s.ring ∧ t.writer = s.writer ∧
      t.reader 0 = ⟨.loadWr, len, 0, false, (s.reader 0).output⟩ := by
    simp only [charNext, devReadStep, hidle, DevRead.loopHead, hlen, if_true] at ht
    cases ht
    refine ⟨rfl, rfl, ?_⟩
    simp
  obtain ⟨hring, hwriter, hreader⟩ := hring
  have htinv : FifoInv calls t :=
    (wakeInv_of_reachable (h.step (a := .reader 0 (.call len)) ⟨rfl, by simp⟩ ht)).fifo
  have hwaking : (t.reader 0).Waking t.ring := by
    rw [hreader, hring]
    exact ⟨by simp, .inr ⟨hfull, hlen, by simp, by simp⟩⟩
  -- every step of it leads on, up to the wake-up
  have hstep : ∀ u a, (FifoInv calls u ∧ u.writer = s.writer ∧ (u.reader 0).Waking u.ring) →
      a = .reader 0 .ok → ∃ u', charNext u a = some u' ∧
        ((u'.ring.waitQueue = [] ∧ ¬ u'.ring.Full ∧ u'.writer = s.writer ∧
            ∃ k : ℕ, 0 < k ∧ (u'.reader 0).pc = .idle k) ∨
          (FifoInv calls u' ∧ u'.writer = s.writer ∧ (u'.reader 0).Waking u'.ring) ∧
            (u'.reader 0).stepsLeft < (u.reader 0).stepsLeft) := by
    rintro u a ⟨hu, huw, huwaking⟩ rfl
    obtain ⟨r, x, hstep, hend⟩ := huwaking.step hu.tracked hu.reader
    have hnext : charNext u (.reader 0 .ok)
        = some { u with ring := r, reader := update u.reader 0 x } := by
      simp only [charNext, hstep, Option.map_some]
    refine ⟨_, hnext, ?_⟩
    simp only [Function.update_self]
    rcases hend with ⟨hqueue, hroom, hpc⟩ | ⟨hwaking', hlt⟩
    · exact .inl ⟨hqueue, hroom, huw, hpc⟩
    · exact .inr ⟨⟨hu.reader_step hstep, huw, hwaking'⟩, hlt⟩
  obtain ⟨bs, s', hpre, hexec, hgoal⟩ := exists_prefix_of_rank _ hstep
    (List.replicate ((t.reader 0).stepsLeft + 1) (.reader 0 .ok))
    (fun a ha => List.eq_of_mem_replicate ha) ⟨htinv, hwriter, hwaking⟩ (by simp)
  have hbs : bs = List.replicate bs.length (.reader 0 .ok) :=
    List.eq_replicate_of_mem fun a ha => List.eq_of_mem_replicate (hpre.subset ha)
  refine ⟨bs.length, s', ?_, hgoal⟩
  rw [exec_cons, ht, ← hbs]
  exact hexec

/-- A read of one byte from the full ring. -/
theorem read_wakes_filled : ∃ n s', exec charNext (filledState 1023)
      (.reader 0 (.call 1) :: List.replicate n (.reader 0 .ok)) = some s' ∧
    s'.ring.waitQueue = [] ∧ ¬ s'.ring.Full ∧ s'.writer = (filledState 1023).writer ∧
      ∃ k : ℕ, 0 < k ∧ (s'.reader 0).pc = .idle k :=
  read_wakes fullAndOneCalls (filledState 1023) (filledState_faultFree le_rfl) 0 rfl (by decide) 1
    (by decide)

end TelemetrySubsystem
