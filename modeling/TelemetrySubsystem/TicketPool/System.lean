import TelemetrySubsystem.TicketPool.Consumer

/-! # Producers and consumer interleaved

Any number of producer calls share a lane with one consumer thread. One action is one access of one
of them.

* **`PoolState`**, **`PoolAction`**, **`poolNext`** and **`poolInit`** are the system.
* `poolNext_cases` is its inversion lemma.
* **`ProducerPc.ticket`** and **`ProducerPc.stamped`** say which ticket a call has claimed, and
  which it has stamped into its slot. -/

namespace TelemetrySubsystem

open ActionSystem
open Function (update)

/-- **The state of a pool**: the lane, every producer call and the consumer thread. A call that
never takes a step has not been made. -/
structure PoolState (P F : Type) where
  lane : TicketLane P
  producer : ℕ → ProducerPc F
  consumer : Consumer P F

/-- No call is in flight. -/
def Quiescent {P F : Type} (s : PoolState P F) : Prop :=
  ∀ c, s.producer c = .entry ∨ ∃ ticket, s.producer c = .done ticket

/-- One step of a pool. -/
inductive PoolAction
  /-- A producer call takes a step. -/
  | producer (c : ℕ)
  /-- The client starts its consumer thread, when none is running. -/
  | spawn (mode : ConsumerMode)
  /-- The consumer thread takes a step; `run` is the value of `run_signal`. -/
  | consumer (run : Bool)
  deriving DecidableEq, Repr

/-- Only the first `n` calls take steps. -/
def callsBelow (n : ℕ) : PoolAction → Bool
  | .producer c => decide (c < n)
  | _ => true

namespace TicketPool

variable {P F : Type} [DecidableEq F] [Fieldwise P F] (R : TicketPool P F)

/-- The zeroed page, with all producer calls about to start and no consumer thread. -/
def poolInit : PoolState P F where
  lane := R.zeroLane
  producer := fun _ => .entry
  consumer := R.idleConsumer

/-- **The transitions of a pool**; `calls` gives the metric of every producer call. -/
def poolNext (calls : ℕ → Option P) (s : PoolState P F) : PoolAction → Option (PoolState P F)
  | .producer c =>
      (R.producerStep c (calls c) s.lane (s.producer c)).map fun p =>
        { s with lane := p.1, producer := update s.producer c p.2 }
  | .spawn mode =>
      match s.consumer.pc with
      | .terminated =>
          some { s with consumer := { s.consumer with mode := mode, pc := .raiseLoad } }
      | _ => none
  | .consumer run =>
      (R.consumerStep run s.lane s.consumer).map fun p => { s with lane := p.1, consumer := p.2 }

variable {R}

/-- **What a step of a pool is.** -/
theorem poolNext_cases {calls : ℕ → Option P} {s s' : PoolState P F} {a : PoolAction}
    (h : R.poolNext calls s a = some s') :
    (∃ c lane pc, a = .producer c ∧
        R.ProducerMove c (calls c) s.lane (s.producer c) lane pc ∧
        s' = { s with lane := lane, producer := update s.producer c pc }) ∨
      (∃ mode, a = .spawn mode ∧ s.consumer.pc = .terminated ∧
        s' = { s with consumer := { s.consumer with mode := mode, pc := .raiseLoad } }) ∨
      (∃ run lane k, a = .consumer run ∧ R.ConsumerMove s.lane s.consumer lane k ∧
        s' = { s with lane := lane, consumer := k }) := by
  cases a with
  | producer c =>
      obtain ⟨⟨lane, pc⟩, hstep, rfl⟩ := Option.map_eq_some_iff.mp h
      exact .inl ⟨c, lane, pc, rfl, producerStep_move hstep, rfl⟩
  | spawn mode =>
      rw [poolNext] at h
      split at h
      · cases h
        exact .inr (.inl ⟨mode, rfl, ‹_›, rfl⟩)
      · cases h
  | consumer run =>
      obtain ⟨⟨lane, k⟩, hstep, rfl⟩ := Option.map_eq_some_iff.mp h
      exact .inr (.inr ⟨run, lane, k, rfl, consumerStep_move hstep, rfl⟩)

/-! ## Runs of a few producers -/

/-- Only the first `n` calls have been made. -/
def IdleFrom (n : ℕ) (s : PoolState P F) : Prop := ∀ c, n ≤ c → s.producer c = .entry

omit [DecidableEq F] [Fieldwise P F] in
/-- On the zeroed page no call has been made. -/
theorem idleFrom_of_entry {s : PoolState P F} (n : ℕ) (h : s.producer = fun _ => .entry) :
    IdleFrom n s := fun c _ => by rw [h]

omit [DecidableEq F] [Fieldwise P F] in
/-- What holds of a call that has not been made, and of the first `n`, holds of every call. -/
theorem IdleFrom.forall_producer {n : ℕ} {s : PoolState P F} (h : IdleFrom n s)
    {p : ProducerPc F → Prop} (hentry : p .entry) (hbelow : ∀ c < n, p (s.producer c)) (c : ℕ) :
    p (s.producer c) := by
  rcases Nat.lt_or_ge c n with hlt | hge
  · exact hbelow c hlt
  · rw [h c hge]
    exact hentry

/-- The other calls stay idle while they take no step. -/
theorem IdleFrom.step {n : ℕ} {calls : ℕ → Option P} {s s' : PoolState P F} {a : PoolAction}
    (h : IdleFrom n s) (ha : callsBelow n a = true) (hnext : R.poolNext calls s a = some s') :
    IdleFrom n s' := by
  obtain ⟨c, lane, pc, rfl, -, rfl⟩ | ⟨mode, -, -, rfl⟩ | ⟨run, lane, k, -, -, rfl⟩ :=
    poolNext_cases hnext
  · intro c' hc'
    have hne : c' ≠ c := (Nat.lt_of_lt_of_le (of_decide_eq_true ha) hc').ne'
    simp only [Function.update_of_ne hne]
    exact h c' hc'
  · exact h
  · exact h

/-- **A run of the first `n` calls can be checked against a guard** while it is executed: the other
calls have not been made. -/
theorem reachableUnder_of_firstCalls {n : ℕ} {calls : ℕ → Option P} {s : PoolState P F}
    {q : PoolState P F → PoolAction → Bool} {ok : PoolState P F → PoolAction → Prop}
    (hfirst : ∀ s a, q s a = true → callsBelow n a = true)
    (himp : ∀ s a, IdleFrom n s → q s a = true → ok s a) (as : List PoolAction)
    (h : exec (checked (R.poolNext calls) q) R.poolInit as = some s) :
    ReachableUnder (R.poolNext calls) ok R.poolInit s :=
  .of_checked (J := IdleFrom n) (fun s a _ hidle hq => hidle.step (hfirst s a hq)) himp as h
    (idleFrom_of_entry n rfl) .start

end TicketPool

/-! ## Tickets and stamps of a call -/

/-- The ticket a call has claimed. -/
def ProducerPc.ticket {F : Type} : ProducerPc F → Option UInt32
  | .entry => none
  | .storing ticket _ | .hintLoad ticket | .hintSwap ticket _ => some ticket
  | .done ticket => ticket

/-- The ticket a call has stamped into its slot. -/
def ProducerPc.stamped {F : Type} : ProducerPc F → Option UInt32
  | .entry | .storing _ _ => none
  | .hintLoad ticket | .hintSwap ticket _ => some ticket
  | .done ticket => ticket

/-- A stamped ticket is a claimed one. -/
theorem ProducerPc.ticket_of_stamped {F : Type} {pc : ProducerPc F} {t : UInt32}
    (h : pc.stamped = some t) : pc.ticket = some t := by
  cases pc <;> simp_all [ProducerPc.stamped, ProducerPc.ticket]

namespace TicketPool

variable {P F : Type} [DecidableEq F] [Fieldwise P F] {R : TicketPool P F}

@[simp] theorem afterStamp_stamped (t : UInt32) : (R.afterStamp t).stamped = some t := by
  rw [afterStamp]
  split <;> rfl

@[simp] theorem afterStamp_ticket (t : UInt32) : (R.afterStamp t).ticket = some t := by
  rw [afterStamp]
  split <;> rfl

/-- **A call keeps its stamp.** -/
theorem ProducerMove.stamped_of_stamped {me : ℕ} {metric : Option P} {lane lane' : TicketLane P}
    {pc pc' : ProducerPc F} (h : R.ProducerMove me metric lane pc lane' pc') {t : UInt32}
    (ht : pc.stamped = some t) : pc'.stamped = some t := by
  cases h with
  | reload hpc => rcases hpc with rfl | ⟨_, rfl⟩ <;> exact ht
  | swap => exact ht
  | leave | claim | store | stamp => cases ht

end TicketPool

end TelemetrySubsystem
