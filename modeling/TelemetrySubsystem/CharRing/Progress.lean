import TelemetrySubsystem.CharRing.System

/-! # How far each writer call has got

The history variable `appended` records every byte with the call that appended it. This file ties a
call's own locals to its share of that record: a `dev_write` call has appended a prefix of its user
buffer, a metric push a prefix of its metric in one contiguous piece.

* **`bytesOf me log`** is a call's share of the history.
* **`DevWrite.Progress`**, **`PushPc.Progress`** are the ties; `Writer.Progress.own_step` and
  `Writer.Progress.other_append` keep them under the call's own steps and under the appends of
  others, and `LockHeld.progress_step` under every step of a writer. -/

namespace TelemetrySubsystem

open WrapCounter
open Function (update)

/-! ## A call's share of the history -/

/-- The bytes of `log` that call `me` appended. -/
def bytesOf (me : ℕ) (log : List (ℕ × UInt8)) : List UInt8 :=
  log.filterMap fun p => if p.1 = me then some p.2 else none

@[simp] theorem bytesOf_nil (me : ℕ) : bytesOf me [] = [] := rfl

@[simp] theorem bytesOf_append (me : ℕ) (log log' : List (ℕ × UInt8)) :
    bytesOf me (log ++ log') = bytesOf me log ++ bytesOf me log' := List.filterMap_append

/-- A call's own entry adds its byte. -/
@[simp] theorem bytesOf_own (me : ℕ) (b : UInt8) : bytesOf me [(me, b)] = [b] := by
  simp [bytesOf]

/-- Another call's entry adds nothing. -/
theorem bytesOf_other {me c : ℕ} (h : c ≠ me) (b : UInt8) : bytesOf me [(c, b)] = [] := by
  simp [bytesOf, h]

/-- Mark bytes as appended by call `me`. -/
def tagged (me : ℕ) (bs : List UInt8) : List (ℕ × UInt8) := bs.map fun b => (me, b)

@[simp] theorem bytesOf_tagged (me : ℕ) (bs : List UInt8) : bytesOf me (tagged me bs) = bs := by
  induction bs with
  | nil => rfl
  | cons b bs ih =>
      rw [tagged, List.map_cons, ← tagged, ← List.singleton_append, bytesOf_append, bytesOf_own, ih,
        List.singleton_append]

/-- One more byte at the end of a marked piece. -/
theorem tagged_concat (me : ℕ) (bs : List UInt8) (b : UInt8) :
    tagged me bs ++ [(me, b)] = tagged me (bs ++ [b]) := by
  simp [tagged]

/-- The bytes a writer call is asked to append. -/
def WriterCall.data : WriterCall → List UInt8
  | .devWrite buffer => buffer
  | .push metric => metric.elim [] NetPacketMetric.bytes

/-! ## Progress of `dev_write` -/

/-- **Progress of a `dev_write` call** on the user buffer `data`: what is left of the buffer, what
has been appended (one byte more than counted while `wr_idx` is stored and `bytes_written` is not
yet), and that the loop runs only on a non-empty rest. -/
structure DevWrite.Progress (data : List UInt8) (me : ℕ) (log : List (ℕ × UInt8)) (w : DevWrite) :
    Prop where
  rest_eq : w.rest = data.drop w.bytesWritten
  appended : bytesOf me log = data.take (w.bytesWritten + if w.pc = .release then 1 else 0)
  rest_ne : w.rest = [] → w.pc = .entry ∨ ∃ ret, w.pc = .done ret

/-- A step that moves the program counter inside the loop keeps progress. -/
theorem DevWrite.Progress.move {data : List UInt8} {me : ℕ} {log : List (ℕ × UInt8)} {w : DevWrite}
    (h : w.Progress data me log) {pc : DevWritePc} (hold : w.pc ≠ .release) (hnew : pc ≠ .release)
    (hin : w.rest ≠ [] ∨ ∃ ret, pc = .done ret) :
    DevWrite.Progress data me log { w with pc := pc } where
  rest_eq := h.rest_eq
  appended := by
    have happ := h.appended
    rw [if_neg hold] at happ
    rw [happ]
    simp only [if_neg hnew]
  rest_ne := fun hnil => hin.elim (fun hne => absurd hnil hne) .inr

/-- The byte that was appended by the store of `wr_idx` is counted. -/
theorem DevWrite.Progress.count {data rest : List UInt8} {me n : ℕ} {log : List (ℕ × UInt8)}
    (h : DevWrite.Progress data me log ⟨.release, rest, n⟩) :
    rest.tail = data.drop (n + 1) ∧ bytesOf me log = data.take (n + 1) := by
  have hdrop : rest = data.drop n := h.rest_eq
  refine ⟨?_, h.appended⟩
  rw [hdrop, List.tail_drop]

/-- There was a byte to append. -/
theorem DevWrite.Progress.lt_length {data rest : List UInt8} {me n : ℕ} {log : List (ℕ × UInt8)}
    (h : DevWrite.Progress data me log ⟨.release, rest, n⟩) : n < data.length := by
  have hrest : rest = data.drop n := h.rest_eq
  by_contra hge
  rw [List.drop_eq_nil_of_le (Nat.le_of_not_lt hge)] at hrest
  rcases h.rest_ne hrest with hpc | ⟨ret, hpc⟩ <;> cases hpc

/-- The history gains at most the byte that a publish step appends. -/
theorem devWriteStep_progress {data : List UInt8} {me : ℕ} {r r' : ByteRing} {w w' : DevWrite}
    {o : Outcome} (h : w.Progress data me r.appended) (hf : w.stage.Aims r)
    (hstep : devWriteStep me r w o = some (r', w')) : w'.Progress data me r'.appended := by
  obtain ⟨pc, rest, n⟩ := w
  have hrest : pc ≠ .entry → (∀ ret, pc ≠ .done ret) → rest ≠ [] := fun h₁ h₂ hnil =>
    (h.rest_ne hnil).elim h₁ fun ⟨ret, hret⟩ => h₂ ret hret
  cases devWriteStep_move hstep with
  | kick => exact h.move (by simp) (by simp) (.inr ⟨0, rfl⟩)
  | enter hne => exact h.move (by simp) (by simp) (.inl hne)
  | publish =>
      -- the appended byte is the head of the rest, by the facts of the filled cell
      have hne : rest ≠ [] := hrest (by simp) (by simp)
      obtain ⟨b, bs, rfl⟩ := List.exists_cons_of_ne_nil hne
      have hbyte : r.buffer r.wrIdx.toNat = b := hf.2
      have hdrop : data.drop n = b :: bs := h.rest_eq.symm
      have hget : data[n]? = some b := by
        rw [← Nat.add_zero n, ← List.getElem?_drop, hdrop, List.getElem?_cons_zero]
      have happ : bytesOf me r.appended = data.take n := h.appended
      refine ⟨h.rest_eq, ?_, fun hnil => absurd hnil (List.cons_ne_nil b bs)⟩
      simp only [ByteRing.publish, bytesOf_append, bytesOf_own, if_true, hbyte, happ]
      rw [List.take_add_one, hget]
      rfl
  | finish hnil =>
      obtain ⟨hdrop, happ⟩ := h.count
      exact ⟨hdrop, happ, fun _ => .inr ⟨_, rfl⟩⟩
  | again hne =>
      obtain ⟨hdrop, happ⟩ := h.count
      exact ⟨hdrop, happ, fun hnil => absurd hnil hne⟩
  -- everywhere else the call is inside the loop, with a byte to write
  | _ => exact h.move (by simp) (by simp) (.inl (hrest (by simp) (by simp)))

/-! ## Progress of a metric push -/

/-- `log` is split around the contiguous piece that call `me` appended: the first `i` bytes of
`data`, followed by `post`. -/
def ContiguousIn (data : List UInt8) (me i : ℕ) (post log : List (ℕ × UInt8)) : Prop :=
  ∃ pre, log = pre ++ tagged me (data.take i) ++ post ∧ bytesOf me pre = [] ∧ bytesOf me post = []

/-- **Progress of a metric push** of `data`: past the null checks there are 16 bytes to append,
inside the loop the first `i` of them stand together at the end of the history, and a push that
returned 0 has put all of them there. -/
def PushPc.Progress (data : List UInt8) (me : ℕ) (log : List (ℕ × UInt8)) : PushPc → Prop
  | .entry => bytesOf me log = []
  | .acquire => data.length = sizeofNetPacketMetric ∧ bytesOf me log = []
  | .loadWr i | .loadRd i _ | .index i _ | .copy i _ _ | .publish i _ =>
      data.length = sizeofNetPacketMetric ∧ i < sizeofNetPacketMetric ∧
        ContiguousIn data me i [] log
  | .release ret => ∃ i, (ret = 0 → data.length ≤ i) ∧ ContiguousIn data me i [] log
  | .done ret => ∃ i post, (ret = 0 → data.length ≤ i) ∧ ContiguousIn data me i post log

/-- The share of a call whose bytes stand together. -/
theorem ContiguousIn.bytesOf_eq {data : List UInt8} {me i : ℕ} {post log : List (ℕ × UInt8)}
    (h : ContiguousIn data me i post log) : bytesOf me log = data.take i := by
  obtain ⟨pre, rfl, hpre, hpost⟩ := h
  rw [bytesOf_append, bytesOf_append, bytesOf_tagged, hpre, hpost, List.append_nil, List.nil_append]

/-- Nothing appended yet is an empty contiguous piece. -/
theorem ContiguousIn.start {data : List UInt8} {me : ℕ} {log : List (ℕ × UInt8)}
    (h : bytesOf me log = []) : ContiguousIn data me 0 [] log :=
  ⟨log, by simp [tagged], h, rfl⟩

/-- The call's next byte extends its piece. -/
theorem ContiguousIn.extend {data : List UInt8} {me i : ℕ} {log : List (ℕ × UInt8)}
    (h : ContiguousIn data me i [] log) (hi : i < data.length) :
    ContiguousIn data me (i + 1) [] (log ++ [(me, data.getD i 0)]) := by
  obtain ⟨pre, rfl, hpre, -⟩ := h
  refine ⟨pre, ?_, hpre, rfl⟩
  rw [List.append_nil, List.append_nil, List.append_assoc, tagged_concat, List.take_add_one,
    List.getD_eq_getElem?_getD, List.getElem?_eq_getElem hi]
  rfl

/-- Another call's byte comes after the piece. -/
theorem ContiguousIn.other {data : List UInt8} {me c i : ℕ} {post log : List (ℕ × UInt8)}
    (h : ContiguousIn data me i post log) (hne : c ≠ me) (b : UInt8) :
    ContiguousIn data me i (post ++ [(c, b)]) (log ++ [(c, b)]) := by
  obtain ⟨pre, rfl, hpre, hpost⟩ := h
  refine ⟨pre, by rw [List.append_assoc], hpre, ?_⟩
  rw [bytesOf_append, hpost, bytesOf_other hne, List.append_nil]

/-- The loop head of a locked push keeps progress. -/
theorem PushPc.loopHead_progress {data : List UInt8} {me i : ℕ} {log : List (ℕ × UInt8)}
    (hlen : data.length = sizeofNetPacketMetric) (h : ContiguousIn data me i [] log) :
    (PushPc.loopHead true i).Progress data me log := by
  unfold PushPc.loopHead
  split
  · next hlt => exact ⟨hlen, hlt, h⟩
  · next hge => exact ⟨i, fun _ => hlen.trans_le (Nat.le_of_not_lt hge), h⟩

/-- A metric push keeps its progress under its own steps. -/
theorem push_progress {metric : Option NetPacketMetric} {me : ℕ} {r r' : ByteRing}
    {pc pc' : PushPc} (h : pc.Progress (WriterCall.push metric).data me r.appended)
    (hf : (pc.stage metric).Aims r)
    (hstep : telemetrySharedCharDevPushMetric metric me r pc = some (r', pc')) :
    pc'.Progress (WriterCall.push metric).data me r'.appended := by
  unfold telemetrySharedCharDevPushMetric at hstep
  cases pc
  all_goals simp only [pushMetricStep, if_true] at hstep
  case entry =>
    cases metric with
    | none =>
        -- the null check returns an error, so nothing is promised
        cases hstep
        exact ⟨0, [], fun h₀ => absurd h₀ (by decide), .start h⟩
    | some m =>
        cases hstep
        exact ⟨m.length_bytes, h⟩
  case acquire =>
    split at hstep <;> cases hstep
    exact PushPc.loopHead_progress h.1 (.start h.2)
  case loadRd i nxt =>
    split at hstep <;> cases hstep
    · -- the ring is full: the push gives up with -ENOSPC after `i` bytes
      exact ⟨i, fun h₀ => absurd h₀ (by decide), h.2.2⟩
    · exact h
  case copy i nxt idx =>
    cases metric with
    | none => cases hstep
    | some m =>
        cases hstep
        exact h
  case publish i nxt =>
    cases hstep
    obtain ⟨hlen, hi, hc⟩ := h
    -- the filled cell holds byte `i`, and no other call has appended since the first one
    have hbyte : r.buffer r.wrIdx.toNat = (WriterCall.push metric).data.getD i 0 := by
      rw [hf.2]
      cases metric <;> rfl
    apply PushPc.loopHead_progress hlen
    simp only [ByteRing.publish, hbyte]
    exact hc.extend (hlen ▸ hi)
  case release ret =>
    cases hstep
    obtain ⟨i, hret, hc⟩ := h
    exact ⟨i, [], hret, hc⟩
  case loadWr =>
    cases hstep
    exact h
  case index =>
    cases hstep
    exact h
  case done => cases hstep

/-- A push off the lock keeps its progress when another call appends. -/
theorem PushPc.Progress.other_append {metric : Option NetPacketMetric} {data : List UInt8}
    {me c : ℕ} {log : List (ℕ × UInt8)} {pc : PushPc} (h : pc.Progress data me log)
    (hout : pc.stage metric = .outside) (hne : c ≠ me) (b : UInt8) :
    pc.Progress data me (log ++ [(c, b)]) := by
  have hshare : bytesOf me (log ++ [(c, b)]) = bytesOf me log := by
    rw [bytesOf_append, bytesOf_other hne, List.append_nil]
  cases pc with
  | entry => exact hshare.trans h
  | acquire => exact ⟨h.1, hshare.trans h.2⟩
  | done ret =>
      obtain ⟨i, post, hret, hc⟩ := h
      exact ⟨i, post ++ [(c, b)], hret, hc.other hne b⟩
  | _ => cases hout

/-! ## Progress of a writer call -/

/-- **Progress of a writer call**: its locals agree with its share of the history. -/
def Writer.Progress (call : WriterCall) (me : ℕ) (log : List (ℕ × UInt8)) : Writer → Prop
  | .devWrite w => ∃ buffer, call = .devWrite buffer ∧ w.Progress buffer me log
  | .push metric pc => call = .push metric ∧ pc.Progress call.data me log

/-- A call starts with nothing appended. -/
theorem WriterCall.start_progress (call : WriterCall) (me : ℕ) :
    call.start.Progress call me [] := by
  cases call with
  | devWrite buffer => exact ⟨buffer, rfl, rfl, rfl, fun _ => .inl rfl⟩
  | push metric => exact ⟨rfl, rfl⟩

/-- A call's own step keeps its progress. -/
theorem Writer.Progress.own_step {call : WriterCall} {me : ℕ} {r r' : ByteRing} {w w' : Writer}
    {o : Outcome} (h : w.Progress call me r.appended) (hf : w.stage.Aims r)
    (hstep : writerStep me r o w = some (r', w')) : w'.Progress call me r'.appended := by
  obtain ⟨x, x', rfl, rfl, hx⟩ | ⟨metric, pc, pc', rfl, rfl, hpc⟩ := writerStep_cases hstep
  · obtain ⟨buffer, rfl, h⟩ := h
    exact ⟨buffer, rfl, devWriteStep_progress h hf hx⟩
  · obtain ⟨rfl, h⟩ := h
    exact ⟨rfl, push_progress h hf hpc⟩

/-- A call off the lock keeps its progress when another call appends. -/
theorem Writer.Progress.other_append {call : WriterCall} {me c : ℕ} {log : List (ℕ × UInt8)}
    {w : Writer} (h : w.Progress call me log) (hout : w.stage = .outside) (hne : c ≠ me)
    (b : UInt8) : w.Progress call me (log ++ [(c, b)]) := by
  cases w with
  | devWrite w =>
      obtain ⟨buffer, rfl, h⟩ := h
      have hshare : bytesOf me (log ++ [(c, b)]) = bytesOf me log := by
        rw [bytesOf_append, bytesOf_other hne, List.append_nil]
      exact ⟨buffer, rfl, h.rest_eq, hshare.trans h.appended, h.rest_ne⟩
  | push metric pc =>
      obtain ⟨rfl, h⟩ := h
      exact ⟨rfl, h.other_append hout hne b⟩

/-- **A call's share of the history is a prefix of what it was asked to append.** -/
theorem Writer.Progress.share_le {call : WriterCall} {me : ℕ} {log : List (ℕ × UInt8)} {w : Writer}
    (h : w.Progress call me log) : bytesOf me log <+: call.data := by
  cases w with
  | devWrite w =>
      obtain ⟨buffer, rfl, h⟩ := h
      rw [h.appended]
      exact List.take_prefix _ _
  | push metric pc =>
      obtain ⟨rfl, h⟩ := h
      cases pc with
      | entry => rw [show bytesOf me log = [] from h]; exact List.nil_prefix
      | acquire => rw [h.2]; exact List.nil_prefix
      | release ret =>
          obtain ⟨i, -, hc⟩ := h
          rw [hc.bytesOf_eq]
          exact List.take_prefix _ _
      | done ret =>
          obtain ⟨i, post, -, hc⟩ := h
          rw [hc.bytesOf_eq]
          exact List.take_prefix _ _
      | _ =>
          rw [h.2.2.bytesOf_eq]
          exact List.take_prefix _ _

/-- **The bytes of a push that returned 0 stand together in the history.** -/
theorem Writer.Progress.contiguous {metric : Option NetPacketMetric} {me : ℕ}
    {log : List (ℕ × UInt8)} (h : Writer.Progress (.push metric) me log (.push metric (.done 0))) :
    ∃ pre post, log = pre ++ tagged me (WriterCall.push metric).data ++ post := by
  obtain ⟨-, i, post, hret, pre, hlog, -, -⟩ := h
  rw [List.take_of_length_le (hret rfl)] at hlog
  exact ⟨pre, post, hlog⟩

/-- **A writer's step keeps the progress of every call**: another call that is inside its critical
section keeps the one that steps from appending. -/
theorem LockHeld.progress_step {calls : ℕ → WriterCall} {s : CharState} (hlock : LockHeld s)
    (haims : ∀ c, (s.writer c).stage.Aims s.ring)
    (h : ∀ c, (s.writer c).Progress (calls c) c s.ring.appended) {c : ℕ} {o : Outcome}
    {r : ByteRing} {w : Writer} (hstep : writerStep c s.ring o (s.writer c) = some (r, w))
    (c' : ℕ) : (update s.writer c w c').Progress (calls c') c' r.appended := by
  have hstage := writerStep_stageStep hstep
  rcases eq_or_ne c' c with rfl | hne
  · rw [Function.update_self]
    exact (h c').own_step (haims c') hstep
  · rw [Function.update_of_ne hne]
    rcases hlock.outside_or_same hstage hne with hout | hsame
    · rcases hstage.appended with happ | ⟨b, happ⟩
      · rw [happ]
        exact h c'
      · rw [happ]
        exact (h c').other_append hout hne.symm b
    · rw [hsame.appended]
      exact h c'

end TelemetrySubsystem
