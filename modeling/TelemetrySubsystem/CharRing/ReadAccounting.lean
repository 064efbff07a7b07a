import TelemetrySubsystem.CharRing.IndexSafety
import TelemetrySubsystem.CharRing.SharedReaders

/-! # What the return value of `dev_read` says

`dev_read` advances `rd_idx` byte by byte and wakes the writers once, after its loop. A failed
`put_user` returns from inside the loop, so it leaves behind what the loop has consumed and skips
the wake-up.

* **`ReadRun`** is one `dev_read` call from any in-range page, with writers at work, and one more
  history variable: whether `rd_idx` has moved since the wait queue was woken last.
* **`ReadAccounted`** is what the return value is taken to mean.
* **`FaultsFirst`** is the condition on `put_user`, and `readAccounted_of_faultsFirst` the law for
  the runs that meet it; `read_fault_loses_byte` is a run outside it. -/

namespace TelemetrySubsystem

open ActionSystem CyclicWindow WrapCounter
open Function (update)

/-! ## One call -/

/-- What a page holds unread. -/
def LanePage.unread (p : LanePage) : List UInt8 :=
  window 1024 p.buffer p.rdIdx.toNat p.wrIdx.toNat

/-- A history that leads to the page: the cells below `rd_idx`, which have been removed, and the
unread bytes. -/
def LanePage.history (p : LanePage) : List UInt8 :=
  (List.range p.rdIdx.toNat).map p.buffer ++ p.unread

/-- The ring of the page with that history. -/
def LanePage.foundRing (p : LanePage) : ByteRing :=
  { p.ring with appended := tagged 0 p.history, removed := p.rdIdx.toNat }

/-- **A `dev_read` call under way.** -/
structure ReadRun where
  sys : CharState
  /-- History: `rd_idx` has moved since `char_wait_queue` was woken last. -/
  unannounced : Bool

/-- A step while the call is under way. -/
inductive ReadAction
  /-- A writer call takes a step. -/
  | writer (c : ℕ) (o : Outcome)
  /-- The `dev_read` call takes a step; `put_user` may fault. -/
  | read (fault : Bool)
  /-- `TELEMETRY_IOC_WAKE_WRITER`. -/
  | ioctlWakeWriter
  deriving DecidableEq, Repr

/-- The step as one of the char device. -/
def ReadAction.charAction : ReadAction → CharAction
  | .writer c o => .writer c o
  | .read fault => .reader 0 (if fault then .fault else .ok)
  | .ioctlWakeWriter => .ioctlWakeWriter

/-- The step wakes `char_wait_queue`: the zero-length kick of `dev_write`, the end of a `dev_read`
that read something, and the ioctl. -/
def CharState.wakes (s : CharState) : ReadAction → Bool
  | .writer c _ => match s.writer c with
    | .devWrite w => w.pc == .entry && w.rest == []
    | .push _ _ => false
  | .read _ => (s.reader 0).pc == .leave && (s.reader 0).dataReady
  | .ioctlWakeWriter => true

/-- **One step while the call is under way.** -/
def readNext (s : ReadRun) (a : ReadAction) : Option ReadRun :=
  (charNext s.sys a.charAction).map fun sys =>
    ⟨sys, !s.sys.wakes a && (s.unannounced || sys.ring.rdIdx != s.sys.ring.rdIdx)⟩

/-- The call about to start on a page, and the writer calls. -/
def readInit (page : LanePage) (calls : ℕ → WriterCall) (len : ℕ) : ReadRun where
  sys :=
    { charInit calls with
      ring := page.foundRing
      reader := update (fun _ => .start) 0 (DevRead.callStart len) }
  unannounced := false

/-- The bytes that writers have appended since the call started. -/
def ReadRun.appendedSince (page : LanePage) (s : ReadRun) : List UInt8 :=
  s.sys.ring.log.drop page.history.length

/-- **`dev_read` accounts for what it consumed**: when it has returned `n ≥ 0`, `rd_idx` has
advanced by `n` and the user buffer holds the next `n` bytes in order; when it has returned
`-EFAULT`, `rd_idx` is where it was; and in any case the writers were woken after the last move. -/
def ReadAccounted (page : LanePage) (s : ReadRun) : Prop :=
  ∀ ret, (s.sys.reader 0).pc = .idle ret →
    (0 ≤ ret → s.sys.ring.rdIdx.toNat = (page.rdIdx.toNat + ret.toNat) % 1024 ∧
      (s.sys.reader 0).output.length = ret.toNat ∧
      (s.sys.reader 0).output <+: page.unread ++ s.appendedSince page) ∧
    (ret < 0 → ret = negEFAULT ∧ s.sys.ring.rdIdx = page.rdIdx) ∧
    s.unannounced = false

/-- **The condition on a step**: `put_user` faults only at the first byte of the call. -/
def FaultsFirst (s : ReadRun) (a : ReadAction) : Prop :=
  a = .read true → ∀ byte, (s.sys.reader 0).pc = .putUser byte → (s.sys.reader 0).bytesRead = 0

/-! ## The counters of the call -/

/-- **The counters agree**: `data_ready` says that something was read; an unannounced move shows in
the counters while the call runs; and the call returns its count with every move announced, or
`-EFAULT` with nothing read. -/
structure DevRead.Counts (d : DevRead) (unannounced : Bool) : Prop where
  ready : d.dataReady = true ↔ 0 < d.bytesRead
  moved : unannounced = true → 0 < d.bytesRead
  returned : ∀ ret, d.pc = .idle ret →
    unannounced = false ∧ (ret = d.bytesRead ∨ (ret = negEFAULT ∧ d.bytesRead = 0))

/-- Inside the call the program counter does not matter. -/
theorem DevRead.Counts.move {d d' : DevRead} {u : Bool} (h : d.Counts u)
    (hready : d'.dataReady = d.dataReady) (hread : d'.bytesRead = d.bytesRead)
    (hpc : ∀ ret, d'.pc ≠ .idle ret) : d'.Counts u where
  ready := by rw [hready, hread]; exact h.ready
  moved := fun hu => hread ▸ h.moved hu
  returned := fun ret hret => absurd hret (hpc ret)

/-- A move that is no longer unannounced leaves the agreement alone. -/
theorem DevRead.Counts.mono {d : DevRead} {u u' : Bool} (h : d.Counts u)
    (hu : u' = true → u = true) : d.Counts u' where
  ready := h.ready
  moved := fun hu' => h.moved (hu hu')
  returned := fun ret hret => by
    obtain ⟨hnone, hcount⟩ := h.returned ret hret
    refine ⟨?_, hcount⟩
    by_contra hu'
    rw [hu (Bool.not_eq_false _ |>.mp hu')] at hnone
    cases hnone

/-- **A step of the call keeps the counters in agreement**, and counts the advance if it is one.
`u'` is the history variable after the step. -/
theorem devReadStep_counts {r r' : ByteRing} {d d' : DevRead} {fault u u' : Bool}
    (h : d.Counts u) (hfirst : fault = true → ∀ byte, d.pc = .putUser byte → d.bytesRead = 0)
    (hwake : d.pc = .leave → d.dataReady = true → u' = false)
    (hstay : r'.rdIdx = r.rdIdx → u' = true → u = true)
    (hstep : devReadStep r d (if fault then .fault else .ok) = some (r', d')) :
    d'.Counts u' ∧
      d'.bytesRead = d.bytesRead + if d.pending = 1 ∧ d'.pending = 0 then 1 else 0 := by
  have hkeep : r'.rdIdx = r.rdIdx → d.Counts u' := fun hrd => h.mono (hstay hrd)
  obtain ⟨pc, len, n, ready, out⟩ := d
  cases pc
  all_goals simp only [devReadStep] at hstep
  case idle ret => cases fault <;> cases hstep
  case loadRd snapshot =>
    split at hstep <;> cases hstep <;> exact ⟨(hkeep rfl).move rfl rfl (by simp), rfl⟩
  case putUser byte =>
    cases fault with
    | false =>
        cases hstep
        exact ⟨(hkeep rfl).move rfl rfl (by simp), rfl⟩
    | true =>
        cases hstep
        have hn : n = 0 := hfirst rfl byte rfl
        have hk := hkeep rfl
        refine ⟨⟨hk.ready, hk.moved, fun ret hret => ⟨?_, .inr ⟨?_, hn⟩⟩⟩, rfl⟩
        · -- nothing was read, so nothing has moved
          by_contra hu
          rw [Bool.not_eq_false] at hu
          have hpos : 0 < n := hk.moved hu
          omega
        · cases hret
          rfl
  case advance nxt =>
    cases hstep
    obtain ⟨hready, hread, hpc⟩ := DevRead.loopHead_counters
      (⟨.advance nxt, len - 1, n + 1, true, out⟩ : DevRead)
    obtain ⟨-, hpend, -⟩ := DevRead.loopHead_facts r
      (⟨.advance nxt, len - 1, n + 1, true, out⟩ : DevRead)
    refine ⟨⟨?_, fun _ => ?_, fun ret hret => absurd hret (hpc ret)⟩, ?_⟩
    · rw [hready, hread]
      exact iff_of_true rfl (Nat.succ_pos n)
    · rw [hread]
      exact Nat.succ_pos n
    · rw [hread, if_pos ⟨rfl, hpend⟩]
  case leave =>
    cases hstep
    have hrd : (if ready then r.wakeUp else r).rdIdx = r.rdIdx := by cases ready <;> rfl
    have hk := hkeep hrd
    refine ⟨⟨hk.ready, hk.moved, fun ret hret => ⟨?_, .inl ?_⟩⟩, rfl⟩
    · cases hr : ready with
      | true => exact hwake rfl hr
      | false =>
          -- nothing was read, so there is nothing to announce
          by_contra hu
          rw [Bool.not_eq_false] at hu
          have hready : ready = true := hk.ready.mpr (hk.moved hu)
          rw [hr] at hready
          cases hready
    · cases hret
      rfl
  all_goals
    cases hstep
    exact ⟨(hkeep rfl).move rfl rfl (by simp), rfl⟩

/-! ## The invariant -/

/-- **The invariant of the call**: the ring follows the history that was found, the counters agree,
and the user buffer holds what the call has consumed, and the byte it has in hand. -/
structure ReadInv (page : LanePage) (s : ReadRun) : Prop where
  writers : WritersInv s.sys
  facts : (s.sys.reader 0).SharedFacts s.sys.ring
  counts : (s.sys.reader 0).Counts s.unannounced
  removed : s.sys.ring.removed = page.rdIdx.toNat + (s.sys.reader 0).bytesRead
  history : page.history <+: s.sys.ring.log
  output : (s.sys.reader 0).output <+: s.sys.ring.log.drop page.rdIdx.toNat
  length : (s.sys.reader 0).output.length
    = (s.sys.reader 0).bytesRead + (s.sys.reader 0).pending

/-- Dropping the same number of elements keeps a prefix. -/
theorem prefix_drop {l l' : List UInt8} {k : ℕ} (hle : k ≤ l.length) (h : l <+: l') :
    l.drop k <+: l'.drop k := by
  obtain ⟨x, rfl⟩ := h
  rw [List.drop_append_of_le_length hle]
  exact List.prefix_append _ _

/-- What was removed before the call is part of the history found. -/
theorem LanePage.rdIdx_le_history (p : LanePage) : p.rdIdx.toNat ≤ p.history.length := by
  simp [LanePage.history]

namespace ReadInv

variable {page : LanePage} {s : ReadRun}

/-- **A writer's step keeps the invariant.** -/
theorem writer_step (h : ReadInv page s) {c : ℕ} {o : Outcome} {r : ByteRing} {w : Writer}
    (hstep : writerStep c s.sys.ring o (s.sys.writer c) = some (r, w)) {u : Bool}
    (hu : r.rdIdx = s.sys.ring.rdIdx → u = true → s.unannounced = true) :
    ReadInv page ⟨{ s.sys with ring := r, writer := update s.sys.writer c w }, u⟩ := by
  have heff := h.writers.effect hstep
  obtain ⟨hlog, hrd, hrem⟩ := heff.log_prefix
  have hle : page.rdIdx.toNat ≤ s.sys.ring.log.length :=
    page.rdIdx_le_history.trans h.history.length_le
  exact ⟨h.writers.writer_step hstep, h.facts.writer_effect heff, h.counts.mono (hu hrd),
    hrem.trans h.removed, h.history.trans hlog, h.output.trans (prefix_drop hle hlog), h.length⟩

/-- **A step of the call keeps the invariant**, if `put_user` faults only at its first byte. -/
theorem read_step (h : ReadInv page s) {fault : Bool} {r : ByteRing} {x : DevRead} {u : Bool}
    (hfirst : fault = true →
      ∀ byte, (s.sys.reader 0).pc = .putUser byte → (s.sys.reader 0).bytesRead = 0)
    (hstep : devReadStep s.sys.ring (s.sys.reader 0) (if fault then .fault else .ok) = some (r, x))
    (hwake : (s.sys.reader 0).pc = .leave → (s.sys.reader 0).dataReady = true → u = false)
    (hstay : r.rdIdx = s.sys.ring.rdIdx → u = true → s.unannounced = true) :
    ReadInv page ⟨{ s.sys with ring := r, reader := update s.sys.reader 0 x }, u⟩ := by
  obtain ⟨hfacts, heff⟩ := devReadStep_shared h.facts hstep
  obtain ⟨hcounts, hread⟩ := devReadStep_counts h.counts hfirst hwake hstay hstep
  have hx : update s.sys.reader 0 x 0 = x := Function.update_self ..
  have hlen := h.length
  cases heff with
  | quiet _ hsame hout hpend =>
      have hread' : x.bytesRead = (s.sys.reader 0).bytesRead := by
        rw [hread, if_neg (by omega), Nat.add_zero]
      have hlog : r.log = s.sys.ring.log := by
        unfold ByteRing.log
        rw [hsame.appended]
      have hlock := (devReadStep_kept hstep).lock
      refine ⟨h.writers.same hsame hlock rfl, ?_, ?_, ?_, hlog ▸ h.history, ?_, ?_⟩
      all_goals simp only [hx]
      · exact hfacts
      · exact hcounts
      · rw [hsame.removed, hread']
        exact h.removed
      · rw [hout, hlog]
        exact h.output
      · rw [hout, hread', hpend]
        exact hlen
  | put byte _ _ hne hr hout hpend hpend' =>
      subst hr
      have hread' : x.bytesRead = (s.sys.reader 0).bytesRead := by
        rw [hread, if_neg (by omega), Nat.add_zero]
      refine ⟨h.writers.same (.refl _) rfl rfl, ?_, ?_, ?_, h.history, ?_, ?_⟩
      all_goals simp only [hx]
      · exact hfacts
      · exact hcounts
      · rw [hread']
        exact h.removed
      · -- the byte handed over is the next one behind those consumed
        rw [hout]
        apply prefix_concat_of_getElem? h.output
        rw [List.getElem?_drop, hlen, hpend, Nat.add_zero, ← h.removed]
        exact Tracks.head_eq h.writers.tracked (ByteRing.Tracked.toNat_ne hne)
      · rw [hout, List.length_append, List.length_singleton, hlen, hread', hpend, hpend']
  | remove _ hne hr hout hpend hpend' =>
      have hread' : x.bytesRead = (s.sys.reader 0).bytesRead + 1 := by
        rw [hread, if_pos ⟨hpend, hpend'⟩]
      have hlog : r.log = s.sys.ring.log := by
        rw [hr]
        rfl
      refine ⟨h.writers.remove hne hr rfl, ?_, ?_, ?_, hlog ▸ h.history, ?_, ?_⟩
      all_goals simp only [hx]
      · exact hfacts
      · exact hcounts
      · rw [hread', hr]
        have := h.removed
        show s.sys.ring.removed + 1 = _
        omega
      · rw [hout, hlog]
        exact h.output
      · rw [hout, hread', hpend', hlen, hpend]

/-- **Every step under the condition keeps the invariant.** -/
theorem step (h : ReadInv page s) {a : ReadAction} {s' : ReadRun} (hok : FaultsFirst s a)
    (hnext : readNext s a = some s') : ReadInv page s' := by
  obtain ⟨sys, hsys, rfl⟩ := Option.map_eq_some_iff.mp hnext
  -- where `rd_idx` stays, no new move is to be announced
  have hstay : sys.ring.rdIdx = s.sys.ring.rdIdx →
      (!s.sys.wakes a && (s.unannounced || sys.ring.rdIdx != s.sys.ring.rdIdx)) = true →
        s.unannounced = true := by
    intro hrd hu
    simpa [hrd] using (Bool.and_eq_true_iff.mp hu).2
  cases a with
  | writer c o =>
      obtain ⟨⟨r, w⟩, hstep, rfl⟩ := Option.map_eq_some_iff.mp hsys
      exact h.writer_step hstep hstay
  | read fault =>
      obtain ⟨⟨r, x⟩, hstep, rfl⟩ := Option.map_eq_some_iff.mp hsys
      refine h.read_step (fun hf => hok (by rw [hf])) hstep (fun hpc hready => ?_) hstay
      simp [CharState.wakes, hpc, hready]
  | ioctlWakeWriter =>
      cases hsys
      have hsame : SameContents s.sys.ring s.sys.ring.wakeUp := ⟨rfl, rfl, rfl, rfl, rfl⟩
      exact ⟨h.writers.same hsame rfl rfl, h.facts.congr hsame, h.counts.mono (hstay rfl),
        h.removed, h.history, h.output, h.length⟩

/-- The history found leads to the page. -/
theorem foundRing_log (page : LanePage) : page.foundRing.log = page.history := by
  simp [ByteRing.log, LanePage.foundRing, tagged, Function.comp_def]

/-- The invariant holds before the first step, on any page with its indices in range. -/
theorem init (calls : ℕ → WriterCall) (len : ℕ) (hrd : page.rdIdx < ringBufferCapacity)
    (hwr : page.wrIdx < ringBufferCapacity) : ReadInv page (readInit page calls len) := by
  have hstart : (readInit page calls len).sys.reader 0 = DevRead.callStart len := by
    show update (fun _ => DevRead.start) 0 (DevRead.callStart len) 0 = _
    exact Function.update_self ..
  obtain ⟨hready, hread, hpc⟩ := DevRead.loopHead_counters { DevRead.start with len := len }
  obtain ⟨-, hpend, hout⟩ :=
    DevRead.loopHead_facts page.foundRing { DevRead.start with len := len }
  have hlog := foundRing_log page
  refine ⟨⟨fun c hc => absurd (calls c).start_stage hc, ?_, fun c => ?_⟩, ?_, ?_, ?_, ?_, ?_, ?_⟩
  · show ByteRing.Tracked page.foundRing
    unfold ByteRing.Tracked
    rw [hlog]
    exact Tracks.of_lt page.buffer hrd hwr
  · show (calls c).start.stage.Facts _
    rw [(calls c).start_stage]
    trivial
  all_goals try rw [hstart, DevRead.callStart]
  · exact DevRead.loopHead_sharedFacts _ _
  · refine ⟨?_, fun hu => absurd hu Bool.false_ne_true, fun ret hret => absurd hret (hpc ret)⟩
    rw [hready, hread]
    exact iff_of_false Bool.false_ne_true (Nat.lt_irrefl 0)
  · rw [hread]
    rfl
  · show page.history <+: page.foundRing.log
    rw [hlog]
  · rw [hout]
    exact List.nil_prefix
  · rw [hout, hread, hpend]
    rfl

end ReadInv

/-! ## The law -/

/-- **`dev_read` accounts for what it consumed and announces the freed space** in every run, from
any page with its indices in range and with any writers at work, in which `put_user` faults only at
the first byte of the call. -/
theorem readAccounted_of_faultsFirst {page : LanePage} {calls : ℕ → WriterCall} {len : ℕ}
    (hrd : page.rdIdx < ringBufferCapacity) (hwr : page.wrIdx < ringBufferCapacity) {s : ReadRun}
    (h : ReachableUnder readNext FaultsFirst (readInit page calls len) s) :
    ReadAccounted page s := by
  have hinv : ReadInv page s :=
    h.invariant (ReadInv.init calls len hrd hwr) fun _ _ _ hi hok hnext => hi.step hok hnext
  intro ret hpc
  obtain ⟨hannounced, hret⟩ := hinv.counts.returned ret hpc
  have hidx := Tracks.rd_eq hinv.writers.tracked
  rw [hinv.removed] at hidx
  have hpend : (s.sys.reader 0).pending = 0 := by rw [DevRead.pending, hpc]
  have hlen := hinv.length
  rw [hpend, Nat.add_zero] at hlen
  refine ⟨fun hpos => ?_, fun hneg => ?_, hannounced⟩
  · have hcount : (s.sys.reader 0).bytesRead = ret.toNat := by
      rcases hret with rfl | ⟨rfl, -⟩
      · exact (Int.toNat_natCast _).symm
      · exact absurd hpos (by decide)
    rw [hcount] at hidx hlen
    refine ⟨hidx, hlen, ?_⟩
    -- behind the cells below `rd_idx` the log is the unread bytes and what came after
    obtain ⟨since, hlog⟩ := hinv.history
    have hout := hinv.output
    have hbelow : ((List.range page.rdIdx.toNat).map page.buffer).length = page.rdIdx.toNat := by
      simp
    rw [← hlog, LanePage.history, List.append_assoc, List.drop_left' hbelow] at hout
    rw [ReadRun.appendedSince, ← hlog, List.drop_left]
    exact hout
  · rcases hret with rfl | ⟨rfl, hzero⟩
    · omega
    · have hlt : page.rdIdx.toNat < 1024 := hrd
      rw [hzero, Nat.add_zero, Nat.mod_eq_of_lt hlt] at hidx
      exact ⟨rfl, UInt32.toNat_inj.mp hidx⟩

/-! ## Runs -/

/-- A page with the bytes 7 and 8 unread. -/
def twoBytePage : LanePage := ⟨0, 2, 0, fun i => if i = 0 then 7 else 8⟩

/-- A run that faults nowhere meets the condition. -/
theorem faultsFirst_of_noFault (s : ReadRun) (a : ReadAction) (h : decide (a ≠ .read true) = true) :
    FaultsFirst s a := fun ha => absurd ha (of_decide_eq_true h)

/-- A call for two bytes gets both, and announces that it took them. -/
theorem readAccounted_two_bytes :
    ∃ s, (s.sys.reader 0).pc = .idle 2 ∧ (s.sys.reader 0).output = [7, 8] ∧
      ReadAccounted twoBytePage s := by
  have hrun : (exec (checked readNext fun _ a => decide (a ≠ .read true))
      (readInit twoBytePage (fun _ => .devWrite []) 2) (List.replicate 15 (.read false))).map
        (fun s => ((s.sys.reader 0).pc, (s.sys.reader 0).output))
      = some (.idle 2, [7, 8]) := by decide +kernel
  obtain ⟨s, hs, heq⟩ := Option.map_eq_some_iff.mp hrun
  simp only [Prod.mk.injEq] at heq
  exact ⟨s, heq.1, heq.2, readAccounted_of_faultsFirst (by decide) (by decide)
    (.of_check faultsFirst_of_noFault _ hs .start)⟩

/-- **A fault at the second byte loses the first one**: the call returns `-EFAULT`, `rd_idx` has
moved on, and the writers were not woken. -/
theorem read_fault_loses_byte :
    ∃ s, Reachable readNext (readInit twoBytePage (fun _ => .devWrite []) 2) s ∧
      (s.sys.reader 0).pc = .idle negEFAULT ∧ s.sys.ring.rdIdx = 1 ∧ s.unannounced = true ∧
      ¬ ReadAccounted twoBytePage s := by
  have hrun : (exec readNext (readInit twoBytePage (fun _ => .devWrite []) 2)
      (List.replicate 11 (.read false) ++ [.read true])).map
        (fun s => ((s.sys.reader 0).pc, s.sys.ring.rdIdx, s.unannounced))
      = some (.idle negEFAULT, 1, true) := by decide +kernel
  obtain ⟨s, hs, heq⟩ := Option.map_eq_some_iff.mp hrun
  simp only [Prod.mk.injEq] at heq
  obtain ⟨hpc, hrd, hu⟩ := heq
  refine ⟨s, .of_exec _ hs, hpc, hrd, hu, fun h => ?_⟩
  have hbad := ((h negEFAULT hpc).2.1 (by decide)).2
  rw [hrd] at hbad
  exact absurd hbad (by decide)

end TelemetrySubsystem
