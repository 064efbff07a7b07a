import TelemetrySubsystem.TicketPool.Consumer

/-! # Where a pass ends up

Reasoning about one pass of the consumer on a lane that nobody else changes, in either mode. The
lemmas go backwards: what a pass does from the next program point on determines what it does from
this one on.

* **`PassEnds`** says where a thread in the middle of a pass ends up.
* **`PassEnds.process`** runs the `process` function, **`PassEnds.accept`** and **`PassEnds.miss`**
  run a whole round. -/

namespace TelemetrySubsystem

open ActionSystem WrapCounter Fieldwise

/-- The lines that were printed for an accepted ticket. -/
def acceptedLines {P : Type} (lines : List (Line P)) : List (Line P) :=
  lines.filter fun l => l.accepted.isSome

/-- The accepted tickets can be read off the lines printed for them. -/
theorem acceptedTickets_acceptedLines {P : Type} (lines : List (Line P)) :
    acceptedTickets (acceptedLines lines) = acceptedTickets lines := by
  induction lines with
  | nil => rfl
  | cons l lines ih =>
      simp only [acceptedLines, acceptedTickets] at ih ⊢
      cases hacc : l.accepted <;> simp [hacc, ih]

namespace TicketPool

variable {P F : Type} [DecidableEq F] [Fieldwise P F] (R : TicketPool P F)

/-- The slot of ticket number `t` carries it. -/
def Present (lane : TicketLane P) (t : ℕ) : Prop :=
  (lane.slots (R.slotIdx (UInt32.ofNat t))).slotTicket = UInt32.ofNat t

instance (lane : TicketLane P) : DecidablePred (R.Present lane) := fun _ =>
  inferInstanceAs (Decidable (_ = _))

/-- The line printed when ticket `t` is accepted. -/
def lineOf (lane : TicketLane P) (t : ℕ) : Line P :=
  let slot := lane.slots (R.slotIdx (UInt32.ofNat t))
  ⟨slot.slotTicket, slot.payload, some ⟨UInt32.ofNat t, slot.stampedBy⟩⟩

/-- **Where a thread in the middle of a pass ends up**: the pass halts with `rd` in `rd_idx`, the
rest of the lane as it is, and has printed the lines `out` for accepted tickets, and no others
unless the client processes slots before it tests them. -/
def PassEnds (R : TicketPool P F) (lane : TicketLane P) (k : Consumer P F) (rd : UInt32)
    (out : List (Line P)) : Prop :=
  ∃ k' more, Finishes R.passStep (lane, k) ({ lane with rdIdx := rd }, k') ∧
    k'.lines = k.lines ++ more ∧ acceptedLines more = out ∧ (R.processesFirst = false → more = out)

variable {R} {lane : TicketLane P} {rd : UInt32} {out : List (Line P)}

/-! ## Single steps -/

/-- A step that prints nothing. -/
theorem PassEnds.step {k k' : Consumer P F} (hstep : R.passStep (lane, k) = some (lane, k'))
    (h : PassEnds R lane k' rd out) (hlines : k'.lines = k.lines) : PassEnds R lane k rd out := by
  obtain ⟨k₁, more, hfin, hmore, hout⟩ := h
  exact ⟨k₁, more, .step hstep hfin, hlines ▸ hmore, hout⟩

/-- The last step of a pass stores the expected ticket. -/
theorem passEnds_storeRd (k : Consumer P F) :
    PassEnds R lane { k with pc := .storeRd } k.expectedTicket [] :=
  ⟨_, [], .step rfl (.halt rfl), (List.append_nil _).symm, rfl, fun _ => rfl⟩

/-- Printing a line, at the end of the `process` function. -/
theorem PassEnds.print {k : Consumer P F} {after : AfterProcess} {t : UInt32} {metric : P}
    (hfirst : R.processesFirst = false → after.accepted ≠ none)
    (h : PassEnds R lane (resume { k with lines := k.lines ++ [⟨t, metric, after.accepted⟩] } after)
      rd out) :
    PassEnds R lane { k with pc := .processField after t [] metric } rd
      (acceptedLines [⟨t, metric, after.accepted⟩] ++ out) := by
  obtain ⟨k', more, hfin, hmore, hout, hall⟩ := h
  have hstep : R.passStep (lane, { k with pc := .processField after t [] metric })
      = some (lane,
        resume { k with lines := k.lines ++ [⟨t, metric, after.accepted⟩] } after) := by
    cases after <;> rfl
  refine ⟨k', ⟨t, metric, after.accepted⟩ :: more, .step hstep hfin, ?_, ?_, fun hno => ?_⟩
  · rw [hmore, resume_lines]
    simp
  · rw [← hout, acceptedLines, acceptedLines, acceptedLines, ← List.filter_append]
    rfl
  · have hacc : after.accepted.isSome = true := Option.isSome_iff_ne_none.mpr (hfirst hno)
    simp [acceptedLines, hacc, hall hno]

/-- **The `process` function** reads the whole slot and prints its line. -/
theorem PassEnds.process {k : Consumer P F} (after : AfterProcess) {slot : Slot P}
    (hslot : view lane k (R.processedIdx k after) = slot)
    (hfirst : R.processesFirst = false → after.accepted ≠ none)
    (h : PassEnds R lane (resume
      { k with lines := k.lines ++ [⟨slot.slotTicket, slot.payload, after.accepted⟩] } after)
      rd out) :
    PassEnds R lane { k with pc := .processTicket after } rd
      (acceptedLines [⟨slot.slotTicket, slot.payload, after.accepted⟩] ++ out) := by
  -- the slot looked at does not depend on how far the function has come
  have hview : ∀ pc, view lane { k with pc := pc } (R.processedIdx { k with pc := pc } after)
      = slot := by
    intro pc
    rw [← hslot]
    cases after <;> rfl
  -- it does not change either, so the fields are all read from the same record
  have hfields : ∀ (rest : List F) (metric : P), copyAll rest slot.payload metric = slot.payload →
      PassEnds R lane { k with pc := .processField after slot.slotTicket rest metric } rd
        (acceptedLines [⟨slot.slotTicket, slot.payload, after.accepted⟩] ++ out) := by
    intro rest
    induction rest with
    | nil =>
        rintro metric hcopy
        rw [copyAll_nil] at hcopy
        rw [hcopy]
        exact PassEnds.print hfirst h
    | cons f rest ih =>
        intro metric hcopy
        have hstep : R.passStep
            (lane, { k with pc := .processField after slot.slotTicket (f :: rest) metric })
            = some (lane, { k with
              pc := .processField after slot.slotTicket rest (copy f slot.payload metric) }) := by
          rw [← hview (.processField after slot.slotTicket (f :: rest) metric)]
          rfl
        exact PassEnds.step hstep (ih _ hcopy) rfl
  have hstep : R.passStep (lane, { k with pc := .processTicket after })
      = some (lane, { k with
        pc := .processField after slot.slotTicket R.fields R.zeroPayload }) := by
    rw [← hview (.processTicket after)]
    rfl
  exact PassEnds.step hstep (hfields R.fields R.zeroPayload (copyAll_eq R.mem_fields _ _)) rfl

/-! ## One round -/

/-- Loading the ticket word of the expected ticket's slot leads to the comparison. -/
theorem PassEnds.loadTicket {k : Consumer P F} {slot : Slot P}
    (hslot : view lane k (R.slotIdx k.expectedTicket) = slot)
    (h : ∀ lines, PassEnds R lane
      { k with pc := .compare slot.slotTicket slot.stampedBy, lines := lines } rd out)
    (lines : List (Line P)) :
    PassEnds R lane { k with pc := .loadTicket, lines := lines } rd out := by
  subst hslot
  cases hfirst : R.processesFirst with
  | false =>
      refine PassEnds.step ?_ (h lines) rfl
      simp only [passStep, consumerStep, hfirst]
      rfl
  | true =>
      -- the net client prints the slot first, whatever ticket it carries
      refine PassEnds.step ?_ (PassEnds.process (k := { k with lines := lines })
        (.compare _ _) rfl (by simp [hfirst]) (h _)) rfl
      simp only [passStep, consumerStep, hfirst]
      rfl

/-- **A ticket that is there is accepted**, and the next round is about the next ticket. -/
theorem PassEnds.accept {k : Consumer P F} {slot : Slot P}
    (hslot : view lane k (R.slotIdx k.expectedTicket) = slot)
    (hp : slot.slotTicket = k.expectedTicket)
    (h : ∀ lines, PassEnds R lane (nextRound { k with lines := lines } (k.expectedTicket + 1)) rd
      out) (lines : List (Line P)) :
    PassEnds R lane { k with pc := .loadTicket, lines := lines } rd
      (⟨slot.slotTicket, slot.payload, some ⟨k.expectedTicket, slot.stampedBy⟩⟩ :: out) := by
  refine PassEnds.loadTicket hslot (fun lines => ?_) lines
  have hstep : R.passStep
      (lane, { k with pc := .compare slot.slotTicket slot.stampedBy, lines := lines })
      = some (lane, { k with
        pc := .processTicket (.advance ⟨k.expectedTicket, slot.stampedBy⟩), lines := lines }) :=
    if_pos hp
  exact PassEnds.step hstep (PassEnds.process (k := { k with lines := lines }) (.advance _) hslot
    (fun _ => nofun) (h _)) rfl

/-- **A ticket that is not there** ends the rounds, or starts a scan. -/
theorem PassEnds.miss {k : Consumer P F} {slot : Slot P}
    (hslot : view lane k (R.slotIdx k.expectedTicket) = slot)
    (hp : slot.slotTicket ≠ k.expectedTicket)
    (h : ∀ lines, PassEnds R lane { k with pc := R.missing k, lines := lines } rd out)
    (lines : List (Line P)) :
    PassEnds R lane { k with pc := .loadTicket, lines := lines } rd out := by
  refine PassEnds.loadTicket hslot (fun lines => ?_) lines
  refine PassEnds.step ?_ (h lines) rfl
  exact if_neg hp

end TicketPool

end TelemetrySubsystem
