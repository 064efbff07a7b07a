import TelemetrySubsystem.TicketPool.SlotOrder

/-! # Where the words of a slot come from

A reader that takes no lock loads the words of a slot one after the other, while producers write
them.

* **`Sourced`**: a word is that of the zeroed page, or has been written by a call whose ticket
  belongs to the slot; **`SourceInv.step`** keeps it, with no condition on the run.
* **`OrderInv.notOlder`**: while the pool writes in ticket order, a word of a stamped slot is not
  older than the stamp. -/

namespace TelemetrySubsystem

open ActionSystem TicketPool
open Function (update)

variable {P F : Type} [DecidableEq F] [Fieldwise P F] {R : TicketPool P F} {calls : ℕ → Option P}

/-! ## Where a word comes from -/

/-- The word of a zeroed page. -/
def SlotWord.Zeroed (R : TicketPool P F) (slot : Slot P) : SlotWord F → Prop
  | .field f => Fieldwise.value f slot.payload = Fieldwise.value f R.zeroPayload
  | .stamp => slot.slotTicket = 0 ∧ slot.stampedBy = none

/-- **Where a word of slot `i` comes from**: it is that of the zeroed page, or some call whose
ticket belongs to the slot has written it. -/
def Sourced (R : TicketPool P F) (calls : ℕ → Option P) (producer : ℕ → ProducerPc F) (i : ℕ)
    (w : SlotWord F) (slot : Slot P) : Prop :=
  w.Zeroed R slot ∨
    ∃ c t m, R.Wrote producer i w c t ∧ calls c = some m ∧ w.Holds slot c t m

/-- A word that stays the same keeps its source. -/
theorem Sourced.same {producer : ℕ → ProducerPc F} {i : ℕ} {w : SlotWord F} {slot slot' : Slot P}
    (h : Sourced R calls producer i w slot) (hsame : w.Same slot slot') :
    Sourced R calls producer i w slot' := by
  refine h.imp (fun hzero => ?_)
    fun ⟨c, t, m, hw, hm, hholds⟩ => ⟨c, t, m, hw, hm, hholds.same hsame⟩
  cases w with
  | field f => exact Eq.trans hsame hzero
  | stamp => exact ⟨hsame.1.trans hzero.1, hsame.2.trans hzero.2⟩

/-- **The invariant of the pool**: every call with a ticket has a metric, and every word of a slot
has a source. -/
structure SourceInv (R : TicketPool P F) (calls : ℕ → Option P) (s : PoolState P F) : Prop where
  nodup : ∀ c t rest, s.producer c = .storing t rest → rest.Nodup
  metric : ∀ c t, (s.producer c).ticket = some t → ∃ m, calls c = some m
  sourced : ∀ i w, Sourced R calls s.producer i w (s.lane.slots i)

/-- Only a call with a metric gets a ticket. -/
theorem TicketPool.ProducerMove.metric {me : ℕ} {metric : Option P} {lane lane' : TicketLane P}
    {pc pc' : ProducerPc F} (h : R.ProducerMove me metric lane pc lane' pc') {t : UInt32}
    (ht : pc'.ticket = some t) : pc.ticket = some t ∨ ∃ m, metric = some m := by
  cases h with
  | leave hm => cases ht
  | claim hm => exact .inr ⟨_, hm⟩
  | store hm => exact .inr ⟨_, hm⟩
  | stamp =>
      rw [afterStamp_ticket] at ht
      exact .inl ht
  | reload hpc => rcases hpc with rfl | ⟨_, rfl⟩ <;> exact .inl ht
  | swap => exact .inl ht

/-- **What has been written stays written.** -/
theorem wrote_mono {s s' : PoolState P F} {a : PoolAction}
    (hnodup : ∀ c t rest, s.producer c = .storing t rest → rest.Nodup)
    (hnext : R.poolNext calls s a = some s') {i : ℕ} {w : SlotWord F} {c : ℕ} {t : UInt32}
    (h : R.Wrote s.producer i w c t) : R.Wrote s'.producer i w c t := by
  obtain ⟨c', lane, pc, rfl, hmove, rfl⟩ | ⟨mode, -, -, rfl⟩ | ⟨run, lane, k, -, -, rfl⟩ :=
    poolNext_cases hnext
  · exact (hmove.wrote_iff (hnodup c') i w c t).mpr (.inl h)
  · exact h
  · exact h

/-- A word keeps its source while the pool goes on. -/
theorem Sourced.mono {s s' : PoolState P F} {a : PoolAction}
    (hnodup : ∀ c t rest, s.producer c = .storing t rest → rest.Nodup)
    (hnext : R.poolNext calls s a = some s') {i : ℕ} {w : SlotWord F} {slot : Slot P}
    (h : Sourced R calls s.producer i w slot) : Sourced R calls s'.producer i w slot :=
  h.imp_right fun ⟨c, t, m, hw, hm, hholds⟩ => ⟨c, t, m, wrote_mono hnodup hnext hw, hm, hholds⟩

/-- **Every step keeps the sources.** -/
theorem SourceInv.step {s s' : PoolState P F} {a : PoolAction} (h : SourceInv R calls s)
    (hnext : R.poolNext calls s a = some s') : SourceInv R calls s' := by
  have hkeep := fun i w => (h.sourced i w).mono h.nodup hnext
  obtain ⟨c, lane, pc, rfl, hmove, rfl⟩ | ⟨mode, -, -, rfl⟩ | ⟨run, lane, k, -, hmove, rfl⟩ :=
    poolNext_cases hnext
  · refine ⟨?_, ?_, fun i w => ?_⟩
    · exact (Function.forall_update_iff s.producer
        fun _ pc => ∀ t rest, pc = .storing t rest → rest.Nodup).mpr
          ⟨hmove.nodup (h.nodup c), fun c' _ => h.nodup c'⟩
    · exact (Function.forall_update_iff s.producer
        fun c pc => ∀ t, pc.ticket = some t → ∃ m, calls c = some m).mpr
          ⟨fun t ht => (hmove.metric ht).elim (h.metric c t) id, fun c' _ => h.metric c'⟩
    · rcases hmove.slotWord i w with ⟨t, hword, hidx, hholds⟩ | ⟨-, hsame⟩
      · -- the step writes this word
        obtain ⟨m, hm⟩ := h.metric c t (ProducerPc.ticket_of_nextWord hword)
        exact .inr ⟨c, t, m, (hmove.wrote_iff (h.nodup c) i w c t).mpr (.inr ⟨rfl, hidx, hword⟩),
          hm, hholds m hm⟩
      · exact (hkeep i w).same hsame
  · exact ⟨h.nodup, h.metric, hkeep⟩
  · refine ⟨h.nodup, h.metric, fun i w => ?_⟩
    simp only [hmove.samePool.slots]
    exact hkeep i w

/-- The zeroed page is the first source. -/
theorem SourceInv.init : SourceInv R calls R.poolInit where
  nodup := nofun
  metric := nofun
  sourced := fun i w => .inl (by
    cases w
    · exact rfl
    · exact ⟨rfl, rfl⟩)

/-! ## Words and stamps -/

/-- **The stamp on the page** is written by its call. -/
theorem OrderInv.wrote_stamp {s : PoolState P F} (h : OrderInv R calls s) {i c : ℕ}
    (hby : (s.lane.slots i).stampedBy = some c) :
    R.Wrote s.producer i .stamp c (s.lane.slots i).slotTicket := by
  rcases h.word i .stamp with ⟨-, -, hnone⟩ | ⟨c₀, t₀, hlatest⟩
  · rw [hnone] at hby
    cases hby
  · obtain ⟨m, hm⟩ := h.tickets.metric c₀ t₀ hlatest.wrote.2.1
    obtain ⟨hslot, hby₀⟩ := hlatest.holds m hm
    obtain rfl : c₀ = c := Option.some.inj (hby₀.symm.trans hby)
    exact hslot ▸ hlatest.wrote

/-- A call that has stamped its slot has written every word of it. -/
theorem wrote_of_stamp {producer : ℕ → ProducerPc F} {i c : ℕ} {t : UInt32}
    (h : R.Wrote producer i .stamp c t) (w : SlotWord F) : R.Wrote producer i w c t := by
  obtain ⟨hidx, hticket, hwritten⟩ := h
  refine ⟨hidx, hticket, ?_⟩
  cases hpc : producer c with
  | entry =>
      rw [hpc] at hwritten
      exact hwritten.elim
  | storing ticket rest =>
      rw [hpc] at hwritten
      exact hwritten.elim
  | _ =>
      rw [hpc] at hwritten
      exact hwritten

/-- **A word on the page is not older than a ticket that has been stamped there.** -/
theorem OrderInv.notOlder {s : PoolState P F} (h : OrderInv R calls s) {i c : ℕ} {t : UInt32}
    (hstamp : R.Wrote s.producer i .stamp c t) (w : SlotWord F) :
    ∃ c' t', t ≤ t' ∧ R.Wrote s.producer i w c' t' ∧
      ∀ m, calls c' = some m → w.Holds (s.lane.slots i) c' t' m := by
  rcases h.word i w with ⟨hnone, -⟩ | ⟨c', t', hlatest⟩
  · exact absurd (wrote_of_stamp hstamp w) (hnone c t)
  · exact ⟨c', t', hlatest.latest c t (wrote_of_stamp hstamp w), hlatest.wrote, hlatest.holds⟩

end TelemetrySubsystem
