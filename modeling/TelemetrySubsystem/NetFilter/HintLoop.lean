import TelemetrySubsystem.Foundations.CasLoop
import TelemetrySubsystem.NetFilter.Hook

/-! # The hint loop of the hook always ends

Any number of hook calls push the horizon hint at once, each with its `cmpxchg` loop on
`net_ctl.tx.wr_idx`. The test of the loop holds whatever the hint is, so all that ends the loop is a
`cmpxchg` that succeeds.

* **`HintRun`** is the pool with the history of the loops, **`hintNext`** its steps.
* **`HintInv`** is the invariant: every failure is charged to another call's success, and a call has
  at most that many steps more than it would have alone.
* **`HintLoopLaw`** is what is claimed of a run, and **`hintLoop_ends`** proves it. -/

namespace TelemetrySubsystem

open ActionSystem CasLoop
open Function (update)

/-! ## Runs with their history -/

/-- Where a call stands in its hint loop. -/
def ProducerPc.place {F : Type} : ProducerPc F → Place UInt32
  | .hintSwap _ currentWr => .holding currentWr
  | .done (some _) => .finished
  | _ => .before

/-- **A pool with the history of its hint loops**, and the number of steps each call has taken. -/
structure HintRun (P F : Type) where
  pool : PoolState P F
  steps : ℕ → ℕ
  history : History UInt32

/-- Where the calls stand in their hint loops. -/
def PoolState.place {P F : Type} (s : PoolState P F) (c : ℕ) : Place UInt32 := (s.producer c).place

/-- The lane and the consumer thread in any state, with all calls about to start. -/
def hintStart {P F : Type} (lane : TicketLane P) (consumer : Consumer P F) : HintRun P F where
  pool := ⟨lane, fun _ => .entry, consumer⟩
  steps := fun _ => 0
  history := .empty

namespace TicketPool

variable {P F : Type} [DecidableEq F] [Fieldwise P F] (R : TicketPool P F)

/-- What a step of call `c` adds to the history: the outcome of its `cmpxchg`. -/
def record (s : PoolState P F) (history : History UInt32) (c : ℕ) : History UInt32 :=
  match s.producer c with
  | .hintSwap ticket currentWr =>
      if s.lane.wrIdx = currentWr then history.succeed s.place c (R.slotWord ticket + 1)
      else history.fail c
  | _ => history

/-- **One step of the pool**, with its history. -/
def hintNext (calls : ℕ → Option P) (s : HintRun P F) (a : PoolAction) : Option (HintRun P F) :=
  (R.poolNext calls s.pool a).map fun pool =>
    match a with
    | .producer c =>
        { pool := pool
          steps := update s.steps c (s.steps c + 1)
          history := R.record s.pool s.history c }
    | _ => { s with pool := pool }

/-- **What is claimed of the hint loops** of the first `n` calls: a call fails at most once for each
call whose `cmpxchg` has succeeded since it has loaded the hint, all together fail at most
`n (n - 1) / 2` times, and every call that goes on taking steps returns, having stored its hint
exactly once. -/
structure HintLoopLaw (calls : ℕ → Option P) (n : ℕ) (s : HintRun P F) : Prop where
  charged : ∀ c, s.history.failures c ≤ (s.history.overtaken c).length
  distinct : ∀ c, (s.history.overtaken c).Nodup ∧ c ∉ s.history.overtaken c
  succeeded : ∀ c, ∀ d ∈ s.history.overtaken c, ∃ ticket, s.pool.producer d = .done (some ticket)
  total : ∑ c ∈ Finset.range n, s.history.failures c ≤ n * (n - 1) / 2
  stored : ∀ c ticket, s.pool.producer c = .done (some ticket) →
    s.history.stored c = [R.slotWord ticket + 1]
  not_stored : ∀ c, (∀ ticket, s.pool.producer c ≠ .done (some ticket)) → s.history.stored c = []
  enabled : ∀ c, (∀ ticket, s.pool.producer c ≠ .done ticket) →
    ∃ s', R.hintNext calls s (.producer c) = some s'
  ends : ∀ c < n, R.fields.length + 3 + n ≤ s.steps c → ∃ ticket, s.pool.producer c = .done ticket

/-! ## The invariant -/

/-- The hints that a call has stored. -/
def storedBy : ProducerPc F → List UInt32
  | .done (some ticket) => [R.slotWord ticket + 1]
  | _ => []

/-- The steps that are left of a call if its `cmpxchg` does not fail any more. -/
def stepsAhead : ProducerPc F → ℕ
  | .entry => R.fields.length + 4
  | .storing _ rest => rest.length + 3
  | .hintLoad _ => 2
  | .hintSwap _ _ => 1
  | .done _ => 0

/-- **The invariant of a run.** -/
structure HintInv (calls : ℕ → Option P) (n : ℕ) (s : HintRun P F) : Prop where
  charged : Charged s.pool.lane.wrIdx s.pool.place s.history
  stored : ∀ c, s.history.stored c = R.storedBy (s.pool.producer c)
  steps : ∀ c, s.steps c + R.stepsAhead (s.pool.producer c)
    ≤ R.fields.length + 4 + s.history.failures c
  metric : ∀ c ticket rest, s.pool.producer c = .storing ticket rest → calls c ≠ none
  idle : ∀ c, n ≤ c → s.pool.producer c = .entry

variable {R} {calls : ℕ → Option P} {n : ℕ} {s s' : HintRun P F}

/-- Before any call has started. -/
theorem hintInv_start (lane : TicketLane P) (consumer : Consumer P F) :
    R.HintInv calls n (hintStart lane consumer) where
  charged := .start fun _ => rfl
  stored _ := rfl
  steps _ := by
    simp only [hintStart, stepsAhead, History.empty]
    omega
  metric _ _ _ h := by cases h
  idle _ _ := rfl

/-- **A step outside the hint loop** leaves the hint alone and stores none. -/
theorem ProducerMove.outside {me : ℕ} {metric : Option P} {lane lane' : TicketLane P}
    {pc pc' : ProducerPc F} (hpublish : R.publishesHint = true)
    (h : R.ProducerMove me metric lane pc lane' pc') (hpc : ∀ ticket w, pc ≠ .hintSwap ticket w) :
    lane'.wrIdx = lane.wrIdx ∧ (pc'.place = .before ∨ pc'.place = .holding lane.wrIdx) ∧
      pc.place = .before ∧ R.storedBy pc = [] ∧ R.storedBy pc' = [] ∧
      R.stepsAhead pc' + 1 ≤ R.stepsAhead pc := by
  cases h with
  | leave => exact ⟨rfl, .inl rfl, rfl, rfl, rfl, by simp only [stepsAhead]; omega⟩
  | claim =>
      refine ⟨?_, .inl rfl, rfl, rfl, rfl, by simp only [stepsAhead]; omega⟩
      rw [TicketPool.claim, if_pos hpublish]
  | store => exact ⟨rfl, .inl rfl, rfl, rfl, rfl, by simp only [stepsAhead, List.length_cons]; omega⟩
  | stamp =>
      rw [afterStamp, if_pos hpublish]
      exact ⟨rfl, .inl rfl, rfl, rfl, rfl, by simp only [stepsAhead]; omega⟩
  | reload hreload =>
      rcases hreload with rfl | ⟨w, rfl⟩
      · exact ⟨rfl, .inr rfl, rfl, rfl, rfl, by simp only [stepsAhead]; omega⟩
      · exact absurd rfl (hpc _ w)
  | swap => exact absurd rfl (hpc _ _)

/-- Only a call with a metric stores fields. -/
theorem ProducerMove.metric_ne_none {me : ℕ} {metric : Option P} {lane lane' : TicketLane P}
    {pc pc' : ProducerPc F} (h : R.ProducerMove me metric lane pc lane' pc') {ticket : UInt32}
    {rest : List F} (hpc' : pc' = .storing ticket rest) : metric ≠ none := by
  cases h with
  | claim hmetric | store hmetric =>
      rw [hmetric]
      exact Option.some_ne_none _
  | stamp =>
      rw [afterStamp] at hpc'
      split at hpc' <;> cases hpc'
  | leave | reload | swap => cases hpc'

variable {c : ℕ} {lane' : TicketLane P} {pc' : ProducerPc F} {history' : History UInt32}

/-- **What one call does keeps the invariant** if it keeps what is said of that call. -/
theorem HintInv.of_call (h : R.HintInv calls n s) (hc : c < n)
    (hcharged : Charged lane'.wrIdx (update s.pool.place c pc'.place) history')
    (hstored : history'.stored = update s.history.stored c (R.storedBy pc'))
    (hfailures : ∀ d, d ≠ c → history'.failures d = s.history.failures d)
    (hsteps : s.steps c + 1 + R.stepsAhead pc' ≤ R.fields.length + 4 + history'.failures c)
    (hmetric : ∀ ticket rest, pc' = .storing ticket rest → calls c ≠ none) :
    R.HintInv calls n
      { pool := { s.pool with lane := lane', producer := update s.pool.producer c pc' }
        steps := update s.steps c (s.steps c + 1)
        history := history' } where
  charged := by
    have hplace : PoolState.place
        { s.pool with lane := lane', producer := update s.pool.producer c pc' }
        = update s.pool.place c pc'.place := Function.comp_update ..
    rw [hplace]
    exact hcharged
  stored d := by
    rw [hstored]
    by_cases hd : d = c
    · subst hd
      simp only [Function.update_self]
    · simp only [Function.update_of_ne hd]
      exact h.stored d
  steps d := by
    by_cases hd : d = c
    · subst hd
      simp only [Function.update_self]
      exact hsteps
    · simp only [Function.update_of_ne hd, hfailures d hd]
      exact h.steps d
  metric d := by
    by_cases hd : d = c
    · subst hd
      simp only [Function.update_self]
      exact hmetric
    · simp only [Function.update_of_ne hd]
      exact h.metric d
  idle d hd := by
    simp only [Function.update_of_ne (Nat.ne_of_gt (Nat.lt_of_lt_of_le hc hd))]
    exact h.idle d hd

/-- **A step of a call outside its hint loop** keeps the invariant. -/
theorem HintInv.outside (h : R.HintInv calls n s) (hpublish : R.publishesHint = true) (hc : c < n)
    (hpc : ∀ ticket w, s.pool.producer c ≠ .hintSwap ticket w)
    (hmove : R.ProducerMove c (calls c) s.pool.lane (s.pool.producer c) lane' pc') :
    R.HintInv calls n
      { pool := { s.pool with lane := lane', producer := update s.pool.producer c pc' }
        steps := update s.steps c (s.steps c + 1)
        history := s.history } := by
  obtain ⟨hwr, hplace', hplace, hstored, hstored', hahead⟩ := hmove.outside hpublish hpc
  have hsteps := h.steps c
  refine h.of_call hc ?_ ?_ (fun _ _ => rfl) (by omega) fun _ _ => hmove.metric_ne_none
  · rw [hwr]
    rcases hplace' with hbefore | hholding
    · have hsame : update s.pool.place c pc'.place = s.pool.place := by
        rw [hbefore, ← hplace]
        exact Function.update_eq_self ..
      rw [hsame]
      exact h.charged
    · rw [hholding]
      refine h.charged.load ?_
      rw [PoolState.place, hplace]
      intro heq
      cases heq
  · rw [hstored', ← hstored, ← h.stored c, Function.update_eq_self]

/-- **An attempt to swap the hint** keeps the invariant, whether it succeeds or fails. -/
theorem HintInv.attempt (h : R.HintInv calls n s) (hc : c < n) {ticket currentWr : UInt32}
    (hpc : s.pool.producer c = .hintSwap ticket currentWr)
    (hstep : R.producerStep c (calls c) s.pool.lane (s.pool.producer c) = some (lane', pc')) :
    R.HintInv calls n
      { pool := { s.pool with lane := lane', producer := update s.pool.producer c pc' }
        steps := update s.steps c (s.steps c + 1)
        history := R.record s.pool s.history c } := by
  have hmetric : ∀ t rest, pc' = .storing t rest → calls c ≠ none := fun _ _ =>
    (producerStep_move hstep).metric_ne_none
  have hplace : s.pool.place c = .holding currentWr := by
    rw [PoolState.place, hpc]
    rfl
  have hsteps := h.steps c
  have hstored := h.stored c
  rw [hpc] at hsteps hstored
  simp only [record, hpc]
  rw [hpc, producerStep, hintLoop_eq] at hstep
  by_cases hcur : s.pool.lane.wrIdx = currentWr
  · rw [if_pos hcur] at hstep ⊢
    cases hstep
    refine h.of_call hc (h.charged.succeed ?_) ?_ (fun _ _ => rfl) ?_ hmetric
    · rw [hplace, hcur]
    · rw [History.succeed, hstored]
      rfl
    · simp only [stepsAhead] at hsteps ⊢
      exact hsteps
  · rw [if_neg hcur] at hstep ⊢
    cases hstep
    refine h.of_call hc (h.charged.fail hplace (Ne.symm hcur)) ?_
      (fun d hd => failures_fail_of_ne hd) ?_ hmetric
    · have hnone : R.storedBy (.hintSwap ticket s.pool.lane.wrIdx) = s.history.stored c :=
        Eq.symm hstored
      rw [hnone, Function.update_eq_self]
      rfl
    · rw [failures_fail_self]
      simp only [stepsAhead] at hsteps ⊢
      omega

/-- **Every step keeps the invariant.** -/
theorem HintInv.step (h : R.HintInv calls n s) (hpublish : R.publishesHint = true) {a : PoolAction}
    (ha : callsBelow n a = true) (hnext : R.hintNext calls s a = some s') :
    R.HintInv calls n s' := by
  obtain ⟨pool, hpool, rfl⟩ := Option.map_eq_some_iff.mp hnext
  cases a with
  | producer c =>
      have hc : c < n := of_decide_eq_true ha
      obtain ⟨⟨lane', pc'⟩, hstep, rfl⟩ := Option.map_eq_some_iff.mp hpool
      by_cases hpc : ∃ ticket w, s.pool.producer c = .hintSwap ticket w
      · obtain ⟨ticket, w, hpc⟩ := hpc
        exact h.attempt hc hpc hstep
      · have hpc' : ∀ ticket w, s.pool.producer c ≠ .hintSwap ticket w := fun ticket w heq =>
          hpc ⟨ticket, w, heq⟩
        have hrecord : R.record s.pool s.history c = s.history := by
          rw [record]
          split
          · rename_i heq
            exact absurd heq (hpc' _ _)
          · rfl
        dsimp only
        rw [hrecord]
        exact h.outside hpublish hc hpc' (producerStep_move hstep)
  | spawn mode =>
      obtain ⟨_, _, _, ha, -⟩ | ⟨_, -, -, rfl⟩ | ⟨_, _, _, ha, -⟩ := poolNext_cases hpool
      · cases ha
      · exact ⟨h.charged, h.stored, h.steps, h.metric, h.idle⟩
      · cases ha
  | consumer run =>
      obtain ⟨_, _, _, ha, -⟩ | ⟨_, ha, -⟩ | ⟨_, lane, k, -, hmove, rfl⟩ := poolNext_cases hpool
      · cases ha
      · cases ha
      · refine ⟨?_, h.stored, h.steps, h.metric, h.idle⟩
        -- the consumer thread does not write the hint
        rw [hmove.samePool.wrIdx]
        exact h.charged

/-! ## What follows for the loops -/

omit [DecidableEq F] in
/-- A call whose swap has succeeded has returned with its ticket. -/
theorem exists_done_of_place {pc : ProducerPc F} (h : pc.place = .finished) :
    ∃ ticket, pc = .done (some ticket) := by
  cases pc with
  | done ticket =>
      cases ticket with
      | none => cases h
      | some ticket => exact ⟨ticket, rfl⟩
  | _ => cases h

/-- A call with no steps ahead has returned. -/
theorem exists_done_of_stepsAhead {pc : ProducerPc F} (h : R.stepsAhead pc = 0) :
    ∃ ticket, pc = .done ticket := by
  cases pc with
  | done ticket => exact ⟨ticket, rfl⟩
  | _ => cases h

/-- **A call that has not returned can take a step.** -/
theorem HintInv.exists_hintNext (h : R.HintInv calls n s)
    (hpc : ∀ ticket, s.pool.producer c ≠ .done ticket) :
    ∃ s', R.hintNext calls s (.producer c) = some s' := by
  have hstep : ∃ q, R.producerStep c (calls c) s.pool.lane (s.pool.producer c) = some q := by
    cases heq : s.pool.producer c with
    | entry => cases hcall : calls c <;> exact ⟨_, rfl⟩
    | storing ticket rest =>
        obtain ⟨m, hm⟩ := Option.ne_none_iff_exists'.mp (h.metric c ticket rest heq)
        rw [hm]
        cases rest <;> exact ⟨_, rfl⟩
    | hintLoad ticket => exact ⟨_, rfl⟩
    | hintSwap ticket currentWr =>
        rw [producerStep]
        split <;> exact ⟨_, rfl⟩
    | done ticket => exact absurd heq (hpc ticket)
  obtain ⟨q, hstep⟩ := hstep
  have hpool : R.poolNext calls s.pool (.producer c) = some _ :=
    Option.map_eq_some_iff.mpr ⟨q, hstep, rfl⟩
  exact ⟨_, Option.map_eq_some_iff.mpr ⟨_, hpool, rfl⟩⟩

/-- Calls that take no steps do not finish. -/
theorem HintInv.not_finished (h : R.HintInv calls n s) (hc : n ≤ c) :
    s.pool.place c ≠ .finished := by
  rw [PoolState.place, h.idle c hc]
  intro heq
  cases heq

/-- **The invariant settles the hint loops.** -/
theorem HintInv.law (h : R.HintInv calls n s) : R.HintLoopLaw calls n s where
  charged c := Nat.le_trans (Nat.le_add_right _ _) (h.charged.charge c)
  distinct c := ⟨h.charged.nodup c, fun hmem => h.charged.asymm c c hmem hmem⟩
  succeeded c d hd := exists_done_of_place (h.charged.finished c d hd)
  total := h.charged.sum_failures_le fun _ hc => h.not_finished hc
  stored c ticket hdone := by
    rw [h.stored, hdone]
    rfl
  not_stored c hnot := by
    rw [h.stored]
    unfold storedBy
    split
    · rename_i hdone
      exact absurd hdone (hnot _)
    · rfl
  enabled _ hpc := h.exists_hintNext hpc
  ends c hc hlong := by
    have hfailures := h.charged.failures_lt (fun _ hd => h.not_finished hd) hc
    have hsteps := h.steps c
    exact exists_done_of_stepsAhead (R := R) (by omega)

end TicketPool

/-! ## The hook -/

/-- **The hint loop of the hook always ends**: for any number of hook calls, from any state of the
lane and of the consumer thread, and for every interleaving of their accesses. -/
theorem hintLoop_ends (packets : ℕ → Option SkBuff) (lane : TicketLane NetPacketMetric)
    (consumer : Consumer NetPacketMetric NetField) (n : ℕ) (s : HintRun NetPacketMetric NetField)
    (h : ReachableUnder (netPool.hintNext fun c => hookMetric (packets c))
      (fun _ a => callsBelow n a = true) (hintStart lane consumer) s) :
    netPool.HintLoopLaw (fun c => hookMetric (packets c)) n s := by
  have hinv : netPool.HintInv (fun c => hookMetric (packets c)) n s :=
    h.invariant (TicketPool.hintInv_start lane consumer) fun _ _ _ hi ha hnext =>
      hi.step rfl ha hnext
  exact hinv.law

/-- Two hook calls that both load the hint before either has swapped it: the second one fails once,
and then stores its hint. -/
def collision : List PoolAction :=
  List.replicate 8 (.producer 0) ++ List.replicate 8 (.producer 1)
    ++ [.producer 0, .producer 1, .producer 1]

/-- The collision costs one failure. -/
theorem hintLoop_collision : ∃ s,
    exec (netPool.hintNext fun _ => hookMetric (some samplePacket.skb))
        (hintStart netPool.zeroLane netPool.idleConsumer) collision = some s ∧
      s.history.failures 1 = 1 ∧ s.history.stored 1 = [2] ∧
      netPool.HintLoopLaw (fun _ => hookMetric (some samplePacket.skb)) 2 s := by
  refine ⟨_, rfl, rfl, rfl, ?_⟩
  refine hintLoop_ends (fun _ => some samplePacket.skb) netPool.zeroLane netPool.idleConsumer 2 _ ?_
  exact .of_exec (p := fun a => callsBelow 2 a = true) collision (by decide) rfl .start

end TelemetrySubsystem
