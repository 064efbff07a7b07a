import TelemetrySubsystem.TicketPool.System

/-! # What a ticket word proves

The consumer's only evidence of a commit is a ticket word. This file keeps track of where every such
word comes from, in every reachable state and without any condition on the run.

* **`Evidence`** is what a ticket word says: no call has stamped it and it is 0, or it is the ticket
  of the call that stamped it.
* **`EvidenceInv`**: that holds of every ticket word in sight, on the page, in the snapshot, in the
  consumer's hands and behind every accepted ticket. -/

namespace TelemetrySubsystem

open ActionSystem
open Function (update)

/-! ## Evidence -/

/-- **What a ticket word and the history of its stamp say**: nobody has stamped it and it is 0, or
the call that stamped it did so with this ticket. -/
def Evidence {F : Type} (producer : ℕ → ProducerPc F) (ticket : UInt32) : Option ℕ → Prop
  | none => ticket = 0
  | some c => (producer c).stamped = some ticket

/-- Evidence stays valid while producers move on. -/
theorem Evidence.mono {F : Type} {producer producer' : ℕ → ProducerPc F} {ticket : UInt32}
    {stampedBy : Option ℕ} (h : Evidence producer ticket stampedBy)
    (hmono : ∀ c t, (producer c).stamped = some t → (producer' c).stamped = some t) :
    Evidence producer' ticket stampedBy := by
  cases stampedBy with
  | none => exact h
  | some c => exact hmono c ticket h

namespace TicketPool

variable {P F : Type} [DecidableEq F] [Fieldwise P F] {R : TicketPool P F}

/-- A move of one call keeps every call's stamp. -/
theorem ProducerMove.stamped_update {producer : ℕ → ProducerPc F} {c : ℕ} {metric : Option P}
    {lane lane' : TicketLane P} {pc : ProducerPc F}
    (h : R.ProducerMove c metric lane (producer c) lane' pc) (c' : ℕ) (t : UInt32)
    (ht : (producer c').stamped = some t) : (update producer c pc c').stamped = some t := by
  by_cases heq : c' = c
  · subst heq
    rw [Function.update_self]
    exact h.stamped_of_stamped ht
  · rwa [Function.update_of_ne heq]

/-- A producer's move leaves the ticket word of a slot alone, or it is the stamp. -/
theorem ProducerMove.ticketWord {me : ℕ} {metric : Option P} {lane lane' : TicketLane P}
    {pc pc' : ProducerPc F} (h : R.ProducerMove me metric lane pc lane' pc') (i : ℕ) :
    ((lane'.slots i).slotTicket = (lane.slots i).slotTicket ∧
        (lane'.slots i).stampedBy = (lane.slots i).stampedBy) ∨
      (∃ t, pc = .storing t [] ∧ i = R.slotIdx t ∧ pc' = R.afterStamp t ∧
        (lane'.slots i).slotTicket = t ∧ (lane'.slots i).stampedBy = some me) := by
  cases h with
  | claim hm =>
      rw [claim_slots]
      exact .inl ⟨rfl, rfl⟩
  | @store t f rest m hm =>
      -- a field store keeps the ticket word, in its own slot too
      left
      simp only [TicketLane.storeField]
      by_cases hi : i = R.slotIdx t
      · subst hi
        rw [Function.update_self]
        exact ⟨rfl, rfl⟩
      · rw [Function.update_of_ne hi]
        exact ⟨rfl, rfl⟩
  | @stamp t =>
      simp only [TicketLane.stamp]
      by_cases hi : i = R.slotIdx t
      · subst hi
        rw [Function.update_self]
        exact .inr ⟨t, rfl, rfl, rfl, rfl, rfl⟩
      · rw [Function.update_of_ne hi]
        exact .inl ⟨rfl, rfl⟩
  | leave _ | reload _ | swap => exact .inl ⟨rfl, rfl⟩

/-- **A producer's move keeps every ticket word on the page accounted for.** -/
theorem ProducerMove.stampedSlots {producer : ℕ → ProducerPc F} {c : ℕ} {metric : Option P}
    {lane lane' : TicketLane P} {pc : ProducerPc F}
    (h : R.ProducerMove c metric lane (producer c) lane' pc)
    (hslots : ∀ i, Evidence producer (lane.slots i).slotTicket (lane.slots i).stampedBy) (i : ℕ) :
    Evidence (update producer c pc) (lane'.slots i).slotTicket (lane'.slots i).stampedBy := by
  rcases h.ticketWord i with ⟨hticket, hby⟩ | ⟨t, -, -, hpc, hticket, hby⟩
  · rw [hticket, hby]
    exact (hslots i).mono h.stamped_update
  · rw [hticket, hby, Evidence, Function.update_self, hpc, afterStamp_stamped]

end TicketPool

/-! ## The invariant -/

/-- **Every ticket word in sight is accounted for.** -/
structure EvidenceInv {P F : Type} (s : PoolState P F) : Prop where
  slots : ∀ i, Evidence s.producer (s.lane.slots i).slotTicket (s.lane.slots i).stampedBy
  snapshot : ∀ i,
    Evidence s.producer (s.consumer.snapshot i).slotTicket (s.consumer.snapshot i).stampedBy
  loaded : ∀ t b, s.consumer.pc.loaded = some (t, b) → Evidence s.producer t b
  accepted : ∀ a, s.consumer.pc.accepted = some a → Evidence s.producer a.ticket a.stampedBy
  printed : ∀ l ∈ s.consumer.lines, ∀ a, l.accepted = some a →
    Evidence s.producer a.ticket a.stampedBy

open TicketPool

/-- The slots the thread looks at are accounted for. -/
theorem EvidenceInv.view {P F : Type} {s : PoolState P F} (h : EvidenceInv s) (i : ℕ) :
    Evidence s.producer (TicketPool.view s.lane s.consumer i).slotTicket
      (TicketPool.view s.lane s.consumer i).stampedBy := by
  rw [TicketPool.view]
  cases s.consumer.mode with
  | scatterGather => exact h.snapshot i
  | skipAhead => exact h.slots i

variable {P F : Type} [DecidableEq F] [Fieldwise P F] {R : TicketPool P F}

/-- A producer's move keeps every ticket word accounted for. -/
theorem EvidenceInv.producer_step {s : PoolState P F} (h : EvidenceInv s) {c : ℕ}
    {metric : Option P} {lane : TicketLane P} {pc : ProducerPc F}
    (hmove : R.ProducerMove c metric s.lane (s.producer c) lane pc) :
    EvidenceInv { s with lane := lane, producer := update s.producer c pc } where
  slots := hmove.stampedSlots h.slots
  snapshot := fun i => (h.snapshot i).mono hmove.stamped_update
  loaded := fun t b hb => (h.loaded t b hb).mono hmove.stamped_update
  accepted := fun a ha => (h.accepted a ha).mono hmove.stamped_update
  printed := fun l hl a ha => (h.printed l hl a ha).mono hmove.stamped_update

/-- A step of the consumer keeps every ticket word accounted for. -/
theorem EvidenceInv.consumer_step {s : PoolState P F} (h : EvidenceInv s) {lane : TicketLane P}
    {k : Consumer P F} (hmove : R.ConsumerMove s.lane s.consumer lane k) :
    EvidenceInv { s with lane := lane, consumer := k } := by
  have hslots : ∀ i, Evidence s.producer (lane.slots i).slotTicket (lane.slots i).stampedBy := by
    rw [hmove.samePool.slots]
    exact h.slots
  cases hmove with
  | aside _ _ _ hsnap hlines haside =>
      refine ⟨hslots, ?_, fun t b hb => ?_, fun a ha => ?_, ?_⟩
      · simp only [hsnap]
        exact h.snapshot
      · rw [loaded_of_aside haside] at hb
        cases hb
      · rw [accepted_of_aside haside] at ha
        cases ha
      · simp only [hlines]
        exact h.printed
  | @copy i w hpc =>
      refine ⟨hslots, fun j => ?_, fun t b hb => ?_, fun a ha => ?_, h.printed⟩
      · by_cases hij : j = i
        · subst hij
          simp only [Function.update_self, copyWord]
          -- a payload word leaves the ticket word of the copy, the last word brings the slot's
          split
          · exact h.snapshot j
          · exact h.slots j
        · simp only [Function.update_of_ne hij]
          exact h.snapshot j
      · rw [(afterCopy_holds R s.consumer i w).1] at hb
        cases hb
      · rw [(afterCopy_holds R s.consumer i w).2] at ha
        cases ha
  | load hpc hloaded =>
      -- the word in hand comes from the page or from the snapshot
      refine ⟨hslots, h.snapshot, fun t b hb => ?_, fun a ha => ?_, h.printed⟩
      · obtain ⟨rfl, rfl⟩ := Prod.mk.inj (Option.some.inj (hloaded.symm.trans hb))
        exact h.view _
      · rw [accepted_of_loaded hloaded] at ha
        cases ha
  | accept hpc =>
      -- the accepted ticket is the loaded word, with its evidence
      refine ⟨hslots, h.snapshot, fun t b hb => ?_, fun a ha => ?_, h.printed⟩
      · cases hb
      · cases ha
        exact h.loaded _ _ (by rw [hpc]; rfl)
  | process hpc =>
      exact ⟨hslots, h.snapshot, fun t b hb => h.loaded t b (by rw [hpc]; exact hb),
        fun a ha => h.accepted a (by rw [hpc]; exact ha), h.printed⟩
  | field hpc =>
      exact ⟨hslots, h.snapshot, fun t b hb => h.loaded t b (by rw [hpc]; exact hb),
        fun a ha => h.accepted a (by rw [hpc]; exact ha), h.printed⟩
  | @print after t metric hpc =>
      refine ⟨hslots, ?_, fun t b hb => ?_, fun a ha => ?_, fun l hl a ha => ?_⟩
      · simp only [resume_snapshot]
        exact h.snapshot
      · rw [resume_loaded hb] at hpc
        exact h.loaded t b (by rw [hpc]; rfl)
      · rw [resume_accepted] at ha
        cases ha
      · simp only [resume_lines, List.mem_append, List.mem_singleton] at hl
        rcases hl with hl | rfl
        · exact h.printed l hl a ha
        · exact h.accepted a (by rw [hpc]; exact ha)

/-- The zeroed page carries ticket 0 in every slot, and nobody stamped it. -/
theorem EvidenceInv.init : EvidenceInv R.poolInit :=
  ⟨fun _ => rfl, fun _ => rfl, nofun, nofun, nofun⟩

/-- **Every step keeps every ticket word accounted for.** -/
theorem EvidenceInv.step {calls : ℕ → Option P} {s s' : PoolState P F} {a : PoolAction}
    (h : EvidenceInv s) (hnext : R.poolNext calls s a = some s') : EvidenceInv s' := by
  obtain ⟨c, lane, pc, -, hmove, rfl⟩ | ⟨mode, -, -, rfl⟩ | ⟨run, lane, k, -, hmove, rfl⟩ :=
    poolNext_cases hnext
  · exact h.producer_step hmove
  · exact ⟨h.slots, h.snapshot, nofun, nofun, h.printed⟩
  · exact h.consumer_step hmove

/-- **Every ticket word in sight is accounted for in every reachable state.** -/
theorem evidenceInv_of_reachable {calls : ℕ → Option P}
    {ok : PoolState P F → PoolAction → Prop} {s : PoolState P F}
    (h : ReachableUnder (R.poolNext calls) ok R.poolInit s) : EvidenceInv s :=
  h.invariant EvidenceInv.init fun _ _ _ hi _ hnext => hi.step hnext

end TelemetrySubsystem
