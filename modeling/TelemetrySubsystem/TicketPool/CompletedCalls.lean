import TelemetrySubsystem.Foundations.CyclicWindow
import TelemetrySubsystem.TicketPool.System

/-! # Calls that run one after the other

* **`CompletedCalls R calls n lane`**: from the zeroed page, calls 0 to `n - 1` have run to their
  end one after the other and left the lane in `lane`.
* **`TicketPool.commit`** is what one such call does; `finishes_commit` ties it to the single steps.
* **`FilledBy`** says what the slots hold afterwards, with the ticket counter wrapped any number of
  times: every slot is untouched or holds the last call that went to it. -/

namespace TelemetrySubsystem

open ActionSystem WrapCounter Fieldwise
open Function (update)

/-- Replace the content of a slot. -/
def TicketLane.setSlot {P : Type} (lane : TicketLane P) (i : ℕ) (slot : Slot P) : TicketLane P :=
  { lane with slots := update lane.slots i slot }

namespace TicketPool

variable {P F : Type} [DecidableEq F] [Fieldwise P F] (R : TicketPool P F)

/-! ## One call -/

/-- A producer call that runs without interference. -/
def callStep (me : ℕ) (metric : Option P) (p : TicketLane P × ProducerPc F) :
    Option (TicketLane P × ProducerPc F) := R.producerStep me metric p.1 p.2

/-- **Completed calls, one after the other**, from the zeroed page. -/
inductive CompletedCalls (calls : ℕ → Option P) : ℕ → TicketLane P → Prop
  | zero : CompletedCalls calls 0 R.zeroLane
  | succ {n : ℕ} {lane lane' : TicketLane P} {pc : ProducerPc F} : CompletedCalls calls n lane →
      Finishes (R.callStep n (calls n)) (lane, .entry) (lane', pc) →
      CompletedCalls calls (n + 1) lane'

/-- The slot that call `k` leaves behind when it is the `k`-th to claim a ticket. -/
def stampedSlot (metrics : ℕ → P) (k : ℕ) : Slot P := ⟨metrics k, UInt32.ofNat k, some k⟩

/-- The lane after a call with metric `m` has run to its end. -/
def commit (me : ℕ) (m : P) (lane : TicketLane P) : TicketLane P :=
  let ticket := R.counter lane
  let lane' := (R.claim lane).setSlot (R.slotIdx ticket) ⟨m, ticket, some me⟩
  { lane' with wrIdx := if R.publishesHint then R.slotWord ticket + 1 else lane'.wrIdx }

variable {R}

/-- The stores of a call end with its whole metric in the slot. -/
theorem finishes_stores {me : ℕ} {m : P} {t : UInt32} {rest : List F} {lane : TicketLane P}
    {q : TicketLane P × ProducerPc F}
    (h : Finishes (R.callStep me (some m))
      (lane.setSlot (R.slotIdx t) { lane.slots (R.slotIdx t) with
        payload := copyAll rest m (lane.slots (R.slotIdx t)).payload }, .storing t []) q) :
    Finishes (R.callStep me (some m)) (lane, .storing t rest) q := by
  induction rest generalizing lane with
  | nil =>
      rw [copyAll_nil, TicketLane.setSlot, Function.update_eq_self] at h
      exact h
  | cons f rest ih =>
      -- one store, and the stores of the rest start from the slot it leaves behind
      refine .step rfl (ih ?_)
      simp only [TicketLane.setSlot, TicketLane.storeField, Function.update_self,
        Function.update_idem]
      exact h

/-- The hint loop of a call that runs alone ends with its hint in `wr_idx`. -/
theorem finishes_afterStamp {me : ℕ} {m : P} {t : UInt32} {lane : TicketLane P} :
    Finishes (R.callStep me (some m)) (lane, R.afterStamp t)
      ({ lane with wrIdx := if R.publishesHint then R.slotWord t + 1 else lane.wrIdx },
        .done (some t)) := by
  rw [afterStamp]
  cases R.publishesHint with
  | false => exact .halt rfl
  | true =>
      have hload : R.callStep me (some m) (lane, .hintLoad t)
          = some (lane, .hintSwap t lane.wrIdx) := by
        simp only [callStep, producerStep, hintLoop_eq]
      have hswap : R.callStep me (some m) (lane, .hintSwap t lane.wrIdx)
          = some ({ lane with wrIdx := R.slotWord t + 1 }, .done (some t)) := if_pos rfl
      exact .step hload (.step hswap (.halt rfl))

/-- **A call with a metric runs to its end**, and leaves the lane as `commit` says. -/
theorem finishes_commit (me : ℕ) (m : P) (lane : TicketLane P) :
    Finishes (R.callStep me (some m)) (lane, .entry)
      (R.commit me m lane, .done (some (R.counter lane))) := by
  refine .step rfl (finishes_stores (.step rfl ?_))
  rw [copyAll_eq R.mem_fields]
  have hstamp : ((R.claim lane).setSlot (R.slotIdx (R.counter lane))
      { (R.claim lane).slots (R.slotIdx (R.counter lane)) with payload := m }).stamp
        (R.slotIdx (R.counter lane)) (R.counter lane) me
      = (R.claim lane).setSlot (R.slotIdx (R.counter lane)) ⟨m, R.counter lane, some me⟩ := by
    simp only [TicketLane.setSlot, TicketLane.stamp, Function.update_self, Function.update_idem]
  rw [hstamp]
  exact finishes_afterStamp

/-! ## Many calls -/

/-- **Any number of calls can complete** one after the other. -/
theorem exists_completedCalls (metrics : ℕ → P) (n : ℕ) :
    ∃ lane, R.CompletedCalls (fun k => some (metrics k)) n lane := by
  induction n with
  | zero => exact ⟨_, .zero⟩
  | succ n ih =>
      obtain ⟨lane, h⟩ := ih
      exact ⟨_, .succ h (finishes_commit n (metrics n) lane)⟩

/-- Call `k` is the last of the first `n` calls to go to slot `i`. -/
structure LastCall (R : TicketPool P F) (n i k : ℕ) : Prop where
  lt : k < n
  idx : R.slotIdx (UInt32.ofNat k) = i
  last : ∀ k', k < k' → k' < n → R.slotIdx (UInt32.ofNat k') ≠ i

/-- **What the lane holds after `n` calls**: the counter has counted them, and every slot is
untouched or holds the last call that went to it. -/
structure FilledBy (R : TicketPool P F) (metrics : ℕ → P) (n : ℕ) (lane : TicketLane P) : Prop where
  counter : R.counter lane = UInt32.ofNat n
  slot : ∀ i, ((∀ k, k < n → R.slotIdx (UInt32.ofNat k) ≠ i) ∧ lane.slots i = R.zeroSlot) ∨
    ∃ k, LastCall R n i k ∧ lane.slots i = stampedSlot metrics k

/-- The counter after a call. -/
theorem counter_commit (me : ℕ) (m : P) (lane : TicketLane P) :
    R.counter (R.commit me m lane) = R.counter lane + 1 := by
  rw [← counter_claim, counter, counter, commit]
  cases R.publishesHint <;> rfl

/-- **One more call** fills its slot. -/
theorem FilledBy.commit {metrics : ℕ → P} {n : ℕ} {lane : TicketLane P}
    (h : FilledBy R metrics n lane) : FilledBy R metrics (n + 1) (R.commit n (metrics n) lane) where
  counter := by rw [counter_commit, h.counter, ofNat_succ]
  slot := fun i => by
    have hslots : (R.commit n (metrics n) lane).slots
        = update lane.slots (R.slotIdx (UInt32.ofNat n)) (stampedSlot metrics n) := by
      simp only [TicketPool.commit, TicketLane.setSlot, claim_slots, h.counter, stampedSlot]
    rw [hslots]
    by_cases hi : R.slotIdx (UInt32.ofNat n) = i
    · -- the slot of the new call, which is the last one to go there
      subst hi
      rw [Function.update_self]
      exact .inr ⟨n, ⟨Nat.lt_succ_self n, rfl, fun k' hlt hlt' => by omega⟩, rfl⟩
    · rw [Function.update_of_ne (Ne.symm hi)]
      refine (h.slot i).imp (fun ⟨hnone, hzero⟩ => ⟨fun k hk => ?_, hzero⟩)
        fun ⟨k, hk, hslot⟩ => ⟨k, ⟨Nat.lt_succ_of_lt hk.lt, hk.idx, fun k' hlt hlt' => ?_⟩, hslot⟩
      · rcases Nat.lt_succ_iff_lt_or_eq.mp hk with hlt | rfl
        · exact hnone k hlt
        · exact hi
      · rcases Nat.lt_succ_iff_lt_or_eq.mp hlt' with hlt'' | rfl
        · exact hk.last k' hlt hlt''
        · exact hi

/-- **After `n` completed calls the lane is filled by them.** -/
theorem CompletedCalls.filledBy {metrics : ℕ → P} {n : ℕ} {lane : TicketLane P}
    (h : R.CompletedCalls (fun k => some (metrics k)) n lane) : FilledBy R metrics n lane := by
  induction h with
  | zero =>
      refine ⟨?_, fun i => .inl ⟨fun k hk => absurd hk (Nat.not_lt_zero k), rfl⟩⟩
      rw [counter]
      split <;> rfl
  | succ _ hfin ih =>
      -- a call that has finished has finished as `commit` says
      have heq := hfin.unique (finishes_commit _ _ _)
      simp only [Prod.mk.injEq] at heq
      rw [heq.1]
      exact ih.commit

/-- **The hint after completed calls**: the slot number of the last one plus one. -/
theorem CompletedCalls.wrIdx {metrics : ℕ → P} {n : ℕ} {lane : TicketLane P}
    (h : R.CompletedCalls (fun k => some (metrics k)) (n + 1) lane)
    (hpub : R.publishesHint = true) : lane.wrIdx = R.slotWord (UInt32.ofNat n) + 1 := by
  cases h with
  | succ hprev hfin =>
      have heq := hfin.unique (finishes_commit _ _ _)
      simp only [Prod.mk.injEq] at heq
      rw [heq.1, TicketPool.commit, hprev.filledBy.counter]
      exact if_pos hpub

end TicketPool

end TelemetrySubsystem
