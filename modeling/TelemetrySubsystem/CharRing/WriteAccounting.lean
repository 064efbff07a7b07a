import TelemetrySubsystem.CharRing.IndexSafety
import TelemetrySubsystem.CharRing.Progress
import TelemetrySubsystem.CharRing.SleepFlag

/-! # What the return value of `dev_write` says

`dev_write` has two error exits in the middle of its loop: a failed `get_user`, and a signal while
it waits for space. Both return the bare error code, whatever has been written by then, and the
second one leaves the sleep flag as the call has raised it.

* **`WriteAccounted`** is what the return value is taken to mean: a count of the bytes appended, or
  an error and nothing appended.
* **`FailsCleanly`** is the condition on the error exits, and `writeAccounted_of_failsCleanly` the
  law for the runs that meet it, from any page, whatever readers and other writers do.
* `write_errors_unaccounted` shows a run through each exit outside the condition. -/

namespace TelemetrySubsystem

open ActionSystem WrapCounter
open Function (update)

/-! ## The law and its condition -/

/-- The system on a page of any content, with the given writer calls about to start. -/
def charInitOn (page : LanePage) (calls : ℕ → WriterCall) : CharState :=
  { charInit calls with ring := page.ring }

/-- A `dev_write` call has started and not returned. -/
def Writer.InProgress : Writer → Prop
  | .devWrite w => w.pc ≠ .entry ∧ ∀ ret, w.pc ≠ .done ret
  | .push _ _ => False

/-- **`dev_write` accounts for what it wrote**: a call that returned `n ≥ 0` has appended exactly
the first `n` bytes of its buffer, in order; a call that returned an error has appended nothing, and
the sleep flag is not left set when no other `dev_write` is in progress. -/
def WriteAccounted (calls : ℕ → WriterCall) (s : CharState) : Prop :=
  ∀ c buffer w ret, calls c = .devWrite buffer → s.writer c = .devWrite w → w.pc = .done ret →
    (0 ≤ ret → ret ≤ buffer.length ∧ bytesOf c s.ring.appended = buffer.take ret.toNat) ∧
      (ret < 0 → bytesOf c s.ring.appended = [] ∧
        ((∀ c', c' ≠ c → ¬ (s.writer c').InProgress) → ¬ s.ring.FlagSet))

/-- The step takes an error exit: `get_user` fails, or a wait that was hit by a signal finds the
ring full. -/
def DevWritePc.Fails (r : ByteRing) (o : Outcome) : DevWritePc → Prop
  | .copy _ _ => o = .fault
  | .condRd phase n => phase = .interrupted ∧ n = r.rdIdx
  | _ => False

instance (r : ByteRing) (o : Outcome) : DecidablePred (DevWritePc.Fails r o)
  | .copy _ _ => inferInstanceAs (Decidable (o = .fault))
  | .condRd phase n => inferInstanceAs (Decidable (phase = .interrupted ∧ n = r.rdIdx))
  | .entry | .acquire | .loadWr | .loadRd _ | .raiseLoad | .raiseStore _ | .raiseRelease
  | .condWr _ | .prepare | .asleep | .reacquire | .clearLoad | .clearStore _ | .clearRelease
  | .index _ | .publish _ | .release | .faultRelease | .done _ => .isFalse id

/-- The call is between raising the flag and clearing it. -/
def DevWritePc.owesClear : DevWritePc → Bool
  | .raiseRelease | .condWr _ | .condRd _ _ | .prepare | .asleep | .reacquire | .clearLoad
  | .clearStore _ => true
  | _ => false

/-- The writer is between raising the flag and clearing it. -/
def Writer.owesClear : Writer → Bool
  | .devWrite w => w.pc.owesClear
  | .push _ _ => false

/-- **The condition on a step**: a call takes an error exit only while it has written nothing yet,
and the flag is clear or another call is going to clear it. -/
def FailsCleanly (s : CharState) (a : CharAction) : Prop :=
  ∀ c o w, a = .writer c o → s.writer c = .devWrite w → w.pc.Fails s.ring o →
    w.bytesWritten = 0 ∧ (s.ring.FlagSet → ∃ c', c' ≠ c ∧ (s.writer c').owesClear = true)

/-! ## What a call returns -/

/-- **A call's locals agree with what it returns**: it never counts more than the buffer holds, an
error is returned only where nothing was counted, and any other value is the count. -/
structure DevWrite.Accounts (data : List UInt8) (w : DevWrite) : Prop where
  le_length : w.bytesWritten ≤ data.length
  entry : w.pc = .entry → w.bytesWritten = 0
  failed : w.pc = .faultRelease → w.bytesWritten = 0
  returned : ∀ ret, w.pc = .done ret →
    ret = w.bytesWritten ∨ (ret < 0 ∧ w.bytesWritten = 0)

/-- Inside the loop there is nothing to agree on but the length. -/
theorem DevWrite.Accounts.move {data : List UInt8} {w : DevWrite} (h : w.Accounts data)
    {pc : DevWritePc} (hentry : pc ≠ .entry) (hfault : pc ≠ .faultRelease)
    (hdone : ∀ ret, pc ≠ .done ret) : DevWrite.Accounts data { w with pc := pc } where
  le_length := h.le_length
  entry := fun hpc => absurd hpc hentry
  failed := fun hpc => absurd hpc hfault
  returned := fun ret hpc => absurd hpc (hdone ret)

/-- **A step of `dev_write` keeps the agreement**, if it takes an error exit only while nothing has
been written. -/
theorem devWriteStep_accounts {data : List UInt8} {me : ℕ} {r r' : ByteRing} {w w' : DevWrite}
    {o : Outcome} (h : w.Accounts data) (hp : w.Progress data me r.appended)
    (hok : w.pc.Fails r o → w.bytesWritten = 0) (hstep : devWriteStep me r w o = some (r', w')) :
    w'.Accounts data := by
  obtain ⟨pc, rest, n⟩ := w
  cases devWriteStep_move hstep with
  | kick =>
      -- the zero-length kick returns 0
      have hn : n = 0 := h.entry rfl
      refine ⟨h.le_length, by simp, by simp, fun ret hpc => .inl ?_⟩
      cases hpc
      rw [hn]
      rfl
  | restart hfull =>
      have hn : n = 0 := hok ⟨rfl, hfull⟩
      refine ⟨h.le_length, by simp, by simp, fun ret hpc => .inr ?_⟩
      cases hpc
      exact ⟨by decide, hn⟩
  | spoil _ hfault => exact ⟨h.le_length, by simp, fun _ => hok hfault, by simp⟩
  | faultRelease =>
      refine ⟨h.le_length, by simp, by simp, fun ret hpc => .inr ?_⟩
      cases hpc
      exact ⟨by decide, h.failed rfl⟩
  | finish =>
      refine ⟨hp.lt_length, by simp, by simp, fun ret hpc => .inl ?_⟩
      cases hpc
      rfl
  | again => exact ⟨hp.lt_length, by simp, by simp, by simp⟩
  | _ => exact h.move (by simp) (by simp) (by simp)

/-! ## Who is to clear the flag -/

/-- The word about to be stored to clear the flag does not have it. -/
def Writer.ClearWord : Writer → Prop
  | .devWrite w => ∀ v, w.pc = .clearStore v → v &&& flagWriterAsleep = 0
  | .push _ _ => True

/-- Clearing the flag leaves it clear. -/
theorem clear_flag (flags : UInt32) :
    (flags &&& ~~~flagWriterAsleep) &&& flagWriterAsleep = 0 := by
  apply UInt32.eq_of_toBitVec_eq
  rw [UInt32.toBitVec_and, UInt32.toBitVec_and, UInt32.toBitVec_not]
  ext i
  rw [BitVec.getElem_and, BitVec.getElem_and, BitVec.getElem_not]
  cases flagWriterAsleep.toBitVec[i] <;> simp

/-- **What a step does about the flag**: where it is set afterwards, it was so before and the call
still owes what it owed; or the call owes the clearing; or it has given up on it in an error
exit. -/
def OwesStep (r r' : ByteRing) (o : Outcome) (w w' : Writer) : Prop :=
  r'.FlagSet → (r.FlagSet ∧ (w.owesClear = true → w'.owesClear = true)) ∨ w'.owesClear = true ∨
    (r.FlagSet ∧ ∃ d, w = .devWrite d ∧ d.pc.Fails r o)

/-- A step that leaves `state_flags` alone and goes on owing. -/
theorem OwesStep.keep {r r' : ByteRing} {o : Outcome} {w w' : Writer}
    (hsame : r'.stateFlags = r.stateFlags) (howes : w.owesClear = true → w'.owesClear = true) :
    OwesStep r r' o w w' := fun hset => .inl ⟨hset.congr hsame.symm, howes⟩

/-- **Every step of `dev_write` is such a step.** -/
theorem devWriteStep_owes {me : ℕ} {r r' : ByteRing} {w w' : DevWrite} {o : Outcome}
    (hw : (Writer.devWrite w).ClearWord) (h : devWriteStep me r w o = some (r', w')) :
    (Writer.devWrite w').ClearWord ∧ OwesStep r r' o (.devWrite w) (.devWrite w') := by
  obtain ⟨pc, rest, n⟩ := w
  cases devWriteStep_move h with
  | clearLoad =>
      refine ⟨fun v hv => ?_, .keep rfl fun _ => rfl⟩
      cases hv
      exact clear_flag r.stateFlags
  | @clearStore v =>
      -- the flag is clear after this store, so nobody owes anything
      exact ⟨by rintro _ ⟨⟩, fun hset => absurd (hw v rfl) hset⟩
  | raiseStore => exact ⟨by rintro _ ⟨⟩, fun _ => .inr (.inl rfl)⟩
  | restart hfull => exact ⟨by rintro _ ⟨⟩, fun hset => .inr (.inr ⟨hset, _, rfl, rfl, hfull⟩)⟩
  -- from the raise on to the clear the call owes the clear
  | raiseRelease | condWr | stillFullFirst | stillFullQueued | waited | signalled | enqueue
  | disturbed | woken | reacquire => exact ⟨by rintro _ ⟨⟩, .keep rfl fun _ => rfl⟩
  | _ => exact ⟨by rintro _ ⟨⟩, .keep rfl (by rintro ⟨⟩)⟩

/-- **Every step of a writer is such a step.** -/
theorem writerStep_owes {me : ℕ} {r r' : ByteRing} {w w' : Writer} {o : Outcome}
    (hw : w.ClearWord) (h : writerStep me r o w = some (r', w')) :
    w'.ClearWord ∧ OwesStep r r' o w w' := by
  obtain ⟨x, x', rfl, rfl, hstep⟩ | ⟨metric, pc, pc', rfl, rfl, hstep⟩ := writerStep_cases h
  · exact devWriteStep_owes hw hstep
  · exact ⟨trivial, .keep (push_stateFlags hstep) id⟩

/-- The call is on its way out with an error, or has returned one. -/
def Writer.Failed : Writer → Prop
  | .devWrite w => w.pc = .faultRelease ∨ ∃ ret, ret < 0 ∧ w.pc = .done ret
  | .push _ _ => False

/-- **A call fails only by taking an error exit.** -/
theorem devWriteStep_failed {me : ℕ} {r r' : ByteRing} {w w' : DevWrite} {o : Outcome}
    (h : devWriteStep me r w o = some (r', w')) (hfailed : (Writer.devWrite w').Failed) :
    (Writer.devWrite w).Failed ∨ w.pc.Fails r o := by
  obtain ⟨pc, rest, n⟩ := w
  cases devWriteStep_move h with
  | faultRelease => exact .inl (.inl rfl)
  | restart hfull => exact .inr ⟨rfl, hfull⟩
  | spoil _ hfault => exact .inr hfault
  | kick | finish =>
      -- a count is not an error
      rcases hfailed with hpc | ⟨ret, hneg, hpc⟩
      · cases hpc
      · cases hpc
        exact absurd hneg (by omega)
  | _ => rcases hfailed with hpc | ⟨_, _, hpc⟩ <;> cases hpc

/-! ## The invariant -/

/-- **The invariant of clean failures**: each call's locals agree with its share of the history and
with what it returns, and once a call has failed, a flag that is set is owed by some call. -/
structure WriteInv (calls : ℕ → WriterCall) (s : CharState) : Prop where
  lockHeld : LockHeld s
  aims : ∀ c, (s.writer c).stage.Aims s.ring
  progress : ∀ c, (s.writer c).Progress (calls c) c s.ring.appended
  accounts : ∀ c w, s.writer c = .devWrite w → w.Accounts (calls c).data
  clearWord : ∀ c, (s.writer c).ClearWord
  owed : (∃ c, (s.writer c).Failed) → s.ring.FlagSet → ∃ c, (s.writer c).owesClear = true

/-- The step of a failing call meets the condition. -/
theorem FailsCleanly.own {s : CharState} {c : ℕ} {o : Outcome} (h : FailsCleanly s (.writer c o))
    {w : DevWrite} (hw : s.writer c = .devWrite w) (hf : w.pc.Fails s.ring o) :
    w.bytesWritten = 0 ∧ (s.ring.FlagSet → ∃ c', c' ≠ c ∧ (s.writer c').owesClear = true) :=
  h c o w rfl hw hf

/-- **Who owes the flag after a writer's step.** -/
theorem WriteInv.owed_step {calls : ℕ → WriterCall} {s : CharState} (h : WriteInv calls s) {c : ℕ}
    {o : Outcome} {r : ByteRing} {w : Writer} (hok : FailsCleanly s (.writer c o))
    (hstep : writerStep c s.ring o (s.writer c) = some (r, w))
    (hfailed : ∃ d, (update s.writer c w d).Failed) (hset : r.FlagSet) :
    ∃ d, (update s.writer c w d).owesClear = true := by
  have hself : w.owesClear = true → ∃ d, (update s.writer c w d).owesClear = true := fun hw =>
    ⟨c, by rw [Function.update_self]; exact hw⟩
  have hother : (∃ d, d ≠ c ∧ (s.writer d).owesClear = true) →
      ∃ d, (update s.writer c w d).owesClear = true := fun ⟨d, hne, hd⟩ =>
    ⟨d, by rw [Function.update_of_ne hne]; exact hd⟩
  rcases (writerStep_owes (h.clearWord c) hstep).2 hset with ⟨hold, hkeep⟩ | hw | ⟨hold, d, hd, hf⟩
  · -- the flag was set before: either some call had failed already, or this one fails now
    have howed : ∃ d, (s.writer d).owesClear = true := by
      obtain ⟨d, hd⟩ := hfailed
      rcases eq_or_ne d c with rfl | hne
      · rw [Function.update_self] at hd
        obtain ⟨x, x', hw, rfl, hx⟩ | ⟨metric, pc, pc', -, rfl, -⟩ := writerStep_cases hstep
        · rcases devWriteStep_failed hx hd with hbefore | hfails
          · exact h.owed ⟨d, hw ▸ hbefore⟩ hold
          · obtain ⟨d', -, hd'⟩ := (hok.own hw hfails).2 hold
            exact ⟨d', hd'⟩
        · exact absurd hd id
      · rw [Function.update_of_ne hne] at hd
        exact h.owed ⟨d, hd⟩ hold
    obtain ⟨d, hd⟩ := howed
    rcases eq_or_ne d c with rfl | hne
    · exact hself (hkeep hd)
    · exact hother ⟨d, hne, hd⟩
  · exact hself hw
  · exact hother ((hok.own hd hf).2 hold)

/-- **A writer's step keeps the invariant**, if it fails cleanly. -/
theorem WriteInv.writer_step {calls : ℕ → WriterCall} {s : CharState} (h : WriteInv calls s)
    {c : ℕ} {o : Outcome} {r : ByteRing} {w : Writer} (hok : FailsCleanly s (.writer c o))
    (hstep : writerStep c s.ring o (s.writer c) = some (r, w)) :
    WriteInv calls { s with ring := r, writer := update s.writer c w } := by
  have hstage := writerStep_stageStep hstep
  refine ⟨h.lockHeld.writer_step hstage, fun c' => ?_,
    h.lockHeld.progress_step h.aims h.progress hstep, fun c' w' hw' => ?_, ?_,
    h.owed_step hok hstep⟩
  · rcases eq_or_ne c' c with rfl | hne
    · simp only [Function.update_self]
      exact hstage.aims (h.aims c')
    · simp only [Function.update_of_ne hne]
      rcases h.lockHeld.outside_or_same hstage hne with hout | hsame
      · rw [hout]
        trivial
      · exact (h.aims c').congr hsame.wrIdx hsame.buffer
  · rcases eq_or_ne c' c with rfl | hne
    · simp only [Function.update_self] at hw'
      subst hw'
      obtain ⟨x, x', hx, heq, hp⟩ | ⟨metric, pc, pc', -, heq, -⟩ := writerStep_cases hstep
      · cases heq
        have hprog := h.progress c'
        rw [hx] at hprog
        obtain ⟨buffer, hcall, hprog⟩ := hprog
        have hacc := h.accounts c' x hx
        rw [hcall] at hacc ⊢
        exact devWriteStep_accounts hacc hprog (fun hf => (hok.own hx hf).1) hp
      · cases heq
    · simp only [Function.update_of_ne hne] at hw'
      exact h.accounts c' w' hw'
  · exact (Function.forall_update_iff s.writer fun _ w => w.ClearWord).mpr
      ⟨(writerStep_owes (h.clearWord c) hstep).1, fun c' _ => h.clearWord c'⟩

/-- What happens on the readers' side keeps the invariant. -/
theorem WriteInv.readers_side {calls : ℕ → WriterCall} {s s' : CharState} (h : WriteInv calls s)
    (hwriter : s'.writer = s.writer) (hkept : KeptByReaders s.ring s'.ring) :
    WriteInv calls s' where
  lockHeld := fun c hc => hkept.lock.trans (h.lockHeld c (hwriter ▸ hc))
  aims := fun c => hwriter ▸ (h.aims c).congr hkept.wrIdx hkept.buffer
  progress := fun c => by
    rw [hwriter, hkept.appended]
    exact h.progress c
  accounts := fun c w hw => h.accounts c w (hwriter ▸ hw)
  clearWord := fun c => hwriter ▸ h.clearWord c
  owed := fun hfailed hset => by
    rw [hwriter] at hfailed ⊢
    exact h.owed hfailed (hset.congr hkept.stateFlags.symm)

/-- The invariant holds before the first step, on any page. -/
theorem WriteInv.init (page : LanePage) (calls : ℕ → WriterCall) :
    WriteInv calls (charInitOn page calls) where
  lockHeld := fun c hc => absurd (calls c).start_stage hc
  aims := fun c => by
    show (calls c).start.stage.Aims _
    rw [(calls c).start_stage]
    trivial
  progress := fun c => (calls c).start_progress c
  accounts := fun c w hw => by
    have hstart : (calls c).start = .devWrite w := hw
    cases hcall : calls c with
    | push metric =>
        rw [hcall] at hstart
        cases hstart
    | devWrite buffer =>
        rw [hcall] at hstart
        cases hstart
        exact ⟨Nat.zero_le _, fun _ => rfl, by rintro ⟨⟩, by rintro _ ⟨⟩⟩
  clearWord := fun c => by
    show (calls c).start.ClearWord
    cases calls c with
    | devWrite buffer => exact by rintro _ ⟨⟩
    | push metric => trivial
  owed := fun ⟨c, hc⟩ => by
    have hstart : (calls c).start.Failed := hc
    cases hcall : calls c with
    | devWrite buffer =>
        rw [hcall] at hstart
        rcases hstart with hpc | ⟨_, _, hpc⟩ <;> cases hpc
    | push metric =>
        rw [hcall] at hstart
        exact absurd hstart id

/-- **Every step under the condition keeps the invariant.** -/
theorem WriteInv.step {calls : ℕ → WriterCall} {s s' : CharState} {a : CharAction}
    (h : WriteInv calls s) (hok : FailsCleanly s a) (hnext : charNext s a = some s') :
    WriteInv calls s' := by
  obtain ⟨c, o, r, w, rfl, hstep, rfl⟩ | ⟨d, o, r, x, -, hstep, rfl⟩ | ⟨-, rfl⟩ | ⟨v, -, rfl⟩ :=
    charNext_cases hnext
  · exact h.writer_step hok hstep
  · exact h.readers_side rfl (devReadStep_kept hstep)
  · exact h.readers_side rfl ⟨rfl, rfl, rfl, rfl, rfl⟩
  · exact h.readers_side rfl ⟨rfl, rfl, rfl, rfl, rfl⟩

/-- Whoever owes the clearing is in progress. -/
theorem Writer.inProgress_of_owesClear {w : Writer} (h : w.owesClear = true) : w.InProgress := by
  cases w with
  | push metric pc => cases h
  | devWrite x =>
      have hpc : x.pc.owesClear = true := h
      refine ⟨fun hentry => ?_, fun ret hdone => ?_⟩
      · rw [hentry] at hpc
        cases hpc
      · rw [hdone] at hpc
        cases hpc

/-! ## The law -/

/-- **`dev_write` accounts for what it wrote** in every run, from a page of any content, in which an
error exit is taken only by a call that has written nothing, with the flag clear or owed by another
call. -/
theorem writeAccounted_of_failsCleanly {page : LanePage} {calls : ℕ → WriterCall} {s : CharState}
    (h : ReachableUnder charNext FailsCleanly (charInitOn page calls) s) :
    WriteAccounted calls s := by
  have hinv : WriteInv calls s :=
    h.invariant (WriteInv.init page calls) fun _ _ _ hi hok hnext => hi.step hok hnext
  intro c buffer w ret hcall hw hpc
  have hprog := hinv.progress c
  rw [hw] at hprog
  obtain ⟨buffer', hcall', hprog⟩ := hprog
  obtain rfl : buffer = buffer' := WriterCall.devWrite.inj (hcall.symm.trans hcall')
  have hacc := hinv.accounts c w hw
  rw [hcall] at hacc
  have happ := hprog.appended
  rw [hpc, if_neg (by simp), Nat.add_zero] at happ
  have hlen : w.bytesWritten ≤ buffer.length := hacc.le_length
  refine ⟨fun hpos => ?_, fun hneg => ⟨?_, fun hquiet hset => ?_⟩⟩
  · rcases hacc.returned ret hpc with rfl | ⟨hneg, -⟩
    · exact ⟨by omega, by rw [Int.toNat_natCast]; exact happ⟩
    · omega
  · rcases hacc.returned ret hpc with rfl | ⟨-, hzero⟩
    · omega
    · rw [happ, hzero, List.take_zero]
  · -- somebody owes the clearing, and that call is still in progress
    have hfailed : (s.writer c).Failed := by
      rw [hw]
      exact .inr ⟨ret, hneg, hpc⟩
    obtain ⟨d, hd⟩ := hinv.owed ⟨c, hfailed⟩ hset
    have hprogress : (s.writer d).InProgress := Writer.inProgress_of_owesClear hd
    rcases eq_or_ne d c with rfl | hne
    · rw [hw] at hprogress
      exact hprogress.2 ret hpc
    · exact hquiet d hne hprogress

/-! ## Runs -/

/-- The condition as a check: an error exit with nothing written and the flag clear. -/
def failsEarlyCheck (s : CharState) : CharAction → Bool
  | .writer c o => match s.writer c with
    | .devWrite w => decide (w.pc.Fails s.ring o →
        w.bytesWritten = 0 ∧ s.ring.stateFlags &&& flagWriterAsleep = 0)
    | .push _ _ => true
  | _ => true

/-- A step that passes the check meets the condition. -/
theorem failsCleanly_of_check (s : CharState) (a : CharAction) (h : failsEarlyCheck s a = true) :
    FailsCleanly s a := by
  rintro c o w rfl hw hf
  rw [failsEarlyCheck, hw] at h
  obtain ⟨hzero, hclear⟩ := of_decide_eq_true h hf
  exact ⟨hzero, fun hset => absurd hclear hset⟩

/-- One call writes both its bytes; another one fails on its first. -/
def writeAndFailRun : List CharAction :=
  List.replicate 15 (.writer 0 .ok) ++ List.replicate 5 (.writer 1 .ok)
    ++ [.writer 1 .fault, .writer 1 .ok]

/-- A call that wrote two bytes returns 2, and one whose first `get_user` failed returns `-EFAULT`
with nothing appended. -/
theorem writeAccounted_write_and_fail :
    ∃ s, s.writer 0 = .devWrite ⟨.done 2, [], 2⟩ ∧
      s.writer 1 = .devWrite ⟨.done negEFAULT, [7, 8], 0⟩ ∧
      WriteAccounted (fun _ => .devWrite [7, 8]) s := by
  have hrun : (exec (checked charNext failsEarlyCheck)
      (charInitOn ⟨0, 0, 0, fun _ => 0⟩ fun _ => .devWrite [7, 8]) writeAndFailRun).map
        (fun s => (s.writer 0, s.writer 1))
      = some (.devWrite ⟨.done 2, [], 2⟩, .devWrite ⟨.done negEFAULT, [7, 8], 0⟩) := by
    decide +kernel
  obtain ⟨s, hs, heq⟩ := Option.map_eq_some_iff.mp hrun
  simp only [Prod.mk.injEq] at heq
  exact ⟨s, heq.1, heq.2, writeAccounted_of_failsCleanly
    (.of_check failsCleanly_of_check writeAndFailRun hs .start)⟩

/-- A step of the given writer. -/
def CharAction.byWriter (c : ℕ) : CharAction → Bool
  | .writer c' _ => c' == c
  | _ => false

/-- While one writer runs alone the others stay where they are. -/
theorem writer_of_byWriter {s₀ s : CharState} {c c' : ℕ} (hne : c' ≠ c)
    (h : ReachableUnder charNext (fun _ a => a.byWriter c = true) s₀ s) :
    s.writer c' = s₀.writer c' := by
  refine h.invariant (I := fun s => s.writer c' = s₀.writer c') rfl fun s a s' hi hok hnext => ?_
  obtain ⟨d, o, r, w, rfl, -, rfl⟩ | ⟨d, o, r, x, rfl, -, -⟩ | ⟨rfl, -⟩ | ⟨v, rfl, -⟩ :=
    charNext_cases hnext
  · obtain rfl : d = c := beq_iff_eq.mp hok
    exact (Function.update_of_ne hne ..).trans hi
  · cases hok
  · cases hok
  · cases hok

/-- The second `get_user` of a two-byte call fails. -/
def faultOnSecondByte : List CharAction :=
  List.replicate 12 (.writer 0 .ok) ++ [.writer 0 .fault, .writer 0 .ok]

/-- On a full ring a signal arrives before the call has gone to sleep. -/
def signalOnFullRing : List CharAction :=
  List.replicate 9 (.writer 0 .ok) ++ [.writer 0 .signal, .writer 0 .ok, .writer 0 .ok]

/-- **Both error exits of `dev_write` lose track of what was done**: a fault at the second byte
returns `-EFAULT` with the first byte appended, and a signal on a full ring returns `-ERESTARTSYS`
with the sleep flag set and nobody there to clear it. -/
theorem write_errors_unaccounted :
    (∃ s, Reachable charNext (charInitOn ⟨0, 0, 0, fun _ => 0⟩ fun _ => .devWrite [7, 8]) s ∧
      s.writer 0 = .devWrite ⟨.done negEFAULT, [8], 1⟩ ∧ s.ring.appended = [(0, 7)] ∧
      ¬ WriteAccounted (fun _ => .devWrite [7, 8]) s) ∧
    ∃ s, Reachable charNext (charInitOn ⟨1, 0, 0, fun _ => 0⟩ fun _ => .devWrite [7]) s ∧
      s.writer 0 = .devWrite ⟨.done negERESTARTSYS, [7], 0⟩ ∧ s.ring.stateFlags = 1 ∧
      ¬ WriteAccounted (fun _ => .devWrite [7]) s := by
  constructor
  · have hrun : (exec charNext (charInitOn ⟨0, 0, 0, fun _ => 0⟩ fun _ => .devWrite [7, 8])
        faultOnSecondByte).map (fun s => (s.writer 0, s.ring.appended))
          = some (.devWrite ⟨.done negEFAULT, [8], 1⟩, [(0, 7)]) := by decide +kernel
    obtain ⟨s, hs, heq⟩ := Option.map_eq_some_iff.mp hrun
    simp only [Prod.mk.injEq] at heq
    obtain ⟨hw, happ⟩ := heq
    refine ⟨s, .of_exec faultOnSecondByte hs, hw, happ, fun h => ?_⟩
    have hnone := ((h 0 [7, 8] _ negEFAULT rfl hw rfl).2 (by decide)).1
    rw [happ] at hnone
    exact absurd hnone (by decide)
  · have hrun : (exec charNext (charInitOn ⟨1, 0, 0, fun _ => 0⟩ fun _ => .devWrite [7])
        signalOnFullRing).map (fun s => (s.writer 0, s.ring.stateFlags))
          = some (.devWrite ⟨.done negERESTARTSYS, [7], 0⟩, 1) := by decide +kernel
    obtain ⟨s, hs, heq⟩ := Option.map_eq_some_iff.mp hrun
    simp only [Prod.mk.injEq] at heq
    obtain ⟨hw, hflags⟩ := heq
    refine ⟨s, .of_exec signalOnFullRing hs, hw, hflags, fun h => ?_⟩
    have hclear := ((h 0 [7] _ negERESTARTSYS rfl hw rfl).2 (by decide)).2 fun c' hne hprog => ?_
    · apply hclear
      rw [ByteRing.FlagSet, hflags]
      decide
    · -- the other calls have not been made
      rw [writer_of_byWriter hne (.of_exec signalOnFullRing (by decide) hs .start)] at hprog
      exact hprog.1 rfl

end TelemetrySubsystem
