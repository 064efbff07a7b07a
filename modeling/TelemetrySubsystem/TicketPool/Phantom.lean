import TelemetrySubsystem.TicketPool.Evidence
import TelemetrySubsystem.NetFilter.Hook
import TelemetrySubsystem.BlockFilter.Commit

/-! # No phantom record

The consumer accepts a ticket when the ticket word of its slot equals it. That word is evidence of a
commit as long as some call has stamped it; the word of a slot that no call has stamped is 0, which
is also the first ticket.

* **`noPhantom_of_reachable`**: no record is a phantom along every run in which the consumer never
  compares an expected ticket 0 with the word of a slot that no call had stamped.
* **`phantom_on_zeroed_page`**: on a fresh page it does just that, and accepts ticket 0. -/

namespace TelemetrySubsystem

open ActionSystem TicketPool

/-! ## Genuine acceptances -/

/-- Some call has claimed the accepted ticket and had stamped it into the slot it was found in. -/
def Accepted.Genuine {F : Type} (producer : ℕ → ProducerPc F) (a : Accepted) : Prop :=
  ∃ c, a.stampedBy = some c ∧ (producer c).stamped = some a.ticket

/-- **No phantom record**: every ticket the consumer has accepted, whether it is still processing it
or has printed its line, was stamped by a call that had claimed it. -/
structure NoPhantom {P F : Type} (s : PoolState P F) : Prop where
  processing : ∀ a, s.consumer.pc.accepted = some a → a.Genuine s.producer
  printed : ∀ l ∈ s.consumer.lines, ∀ a, l.accepted = some a → a.Genuine s.producer

/-- **The condition on a step**: the consumer does not compare expected ticket 0 with the ticket
word of a slot that no call had stamped when the word was loaded. -/
def SeesStamp {P F : Type} (s : PoolState P F) : PoolAction → Prop
  | .consumer _ =>
      ∀ foundTicket, s.consumer.pc = .compare foundTicket none → s.consumer.expectedTicket ≠ 0
  | _ => True

/-! ## The law -/

/-- Every ticket that was accepted had been stamped by somebody. -/
structure AcceptsStamped {P F : Type} (s : PoolState P F) : Prop where
  processing : ∀ a, s.consumer.pc.accepted = some a → a.stampedBy ≠ none
  printed : ∀ l ∈ s.consumer.lines, ∀ a, l.accepted = some a → a.stampedBy ≠ none

/-- An accepted ticket that was stamped at all was stamped by the call on record. -/
theorem Accepted.genuine {F : Type} {producer : ℕ → ProducerPc F} {a : Accepted}
    (h : Evidence producer a.ticket a.stampedBy) (hne : a.stampedBy ≠ none) :
    a.Genuine producer := by
  obtain ⟨c, hc⟩ := Option.ne_none_iff_exists'.mp hne
  rw [hc] at h
  exact ⟨c, hc, h⟩

section Generic

variable {P F : Type} [DecidableEq F] [Fieldwise P F] {R : TicketPool P F}

/-- **A step of the consumer accepts stamped tickets only**, when it meets the condition: an
unstamped word is 0, so it can only equal expected ticket 0. -/
theorem AcceptsStamped.consumer_step {s : PoolState P F} (h : AcceptsStamped s)
    (hev : EvidenceInv s) {run : Bool} (hok : SeesStamp s (.consumer run)) {lane : TicketLane P}
    {k : Consumer P F} (hmove : R.ConsumerMove s.lane s.consumer lane k) :
    AcceptsStamped { s with lane := lane, consumer := k } := by
  cases hmove with
  | aside _ _ _ _ hlines haside =>
      refine ⟨fun a ha => ?_, ?_⟩
      · rw [accepted_of_aside haside] at ha
        cases ha
      · simp only [hlines]
        exact h.printed
  | @copy i w hpc =>
      refine ⟨fun a ha => ?_, h.printed⟩
      rw [(afterCopy_holds R s.consumer i w).2] at ha
      cases ha
  | load hpc hloaded =>
      refine ⟨fun a ha => ?_, h.printed⟩
      rw [accepted_of_loaded hloaded] at ha
      cases ha
  | accept hpc =>
      refine ⟨fun a ha => ?_, h.printed⟩
      cases ha
      rintro rfl
      -- nobody stamped the word, so it is 0, and so is the expected ticket
      have hzero : s.consumer.expectedTicket = 0 := hev.loaded _ none (by rw [hpc]; rfl)
      exact hok _ hpc hzero
  | process hpc => exact ⟨fun a ha => h.processing a (by rw [hpc]; exact ha), h.printed⟩
  | field hpc => exact ⟨fun a ha => h.processing a (by rw [hpc]; exact ha), h.printed⟩
  | print hpc =>
      refine ⟨fun a ha => ?_, fun l hl a ha => ?_⟩
      · rw [resume_accepted] at ha
        cases ha
      · simp only [resume_lines, List.mem_append, List.mem_singleton] at hl
        rcases hl with hl | rfl
        · exact h.printed l hl a ha
        · exact h.processing a (by rw [hpc]; exact ha)

/-- Only stamped tickets are accepted along every run whose steps meet the condition. -/
theorem acceptsStamped_of_reachable {calls : ℕ → Option P} {s : PoolState P F}
    (h : ReachableUnder (R.poolNext calls) SeesStamp R.poolInit s) : AcceptsStamped s := by
  have hboth : EvidenceInv s ∧ AcceptsStamped s := by
    refine h.invariant (I := fun s => EvidenceInv s ∧ AcceptsStamped s)
      ⟨EvidenceInv.init, nofun, nofun⟩ fun s a s' hi hok hnext => ⟨hi.1.step hnext, ?_⟩
    obtain ⟨c, lane, pc, -, -, rfl⟩ | ⟨mode, -, -, rfl⟩ | ⟨run, lane, k, rfl, hmove, rfl⟩ :=
      poolNext_cases hnext
    · -- producers accept nothing
      exact ⟨hi.2.processing, hi.2.printed⟩
    · exact ⟨nofun, hi.2.printed⟩
    · exact hi.2.consumer_step hi.1 hok hmove
  exact hboth.2

/-- **No phantom record in one pool.** -/
theorem noPhantom {calls : ℕ → Option P} {s : PoolState P F}
    (h : ReachableUnder (R.poolNext calls) SeesStamp R.poolInit s) : NoPhantom s := by
  have hev := evidenceInv_of_reachable h
  have hstamped := acceptsStamped_of_reachable h
  exact ⟨fun a ha => Accepted.genuine (hev.accepted a ha) (hstamped.processing a ha),
    fun l hl a ha => Accepted.genuine (hev.printed l hl a ha) (hstamped.printed l hl a ha)⟩

end Generic

/-- **No phantom record**, for the net pool and the block pool, in both consumer modes, along every
run in which the consumer never compares expected ticket 0 with the word of a slot that no call had
stamped. -/
theorem noPhantom_of_reachable (packets : ℕ → Option SkBuff) (metrics : ℕ → Option BlockIoMetric) :
    (∀ s, ReachableUnder (netNext packets) SeesStamp netPool.poolInit s → NoPhantom s) ∧
      (∀ s, ReachableUnder (blockNext metrics) SeesStamp blockPool.poolInit s → NoPhantom s) :=
  ⟨fun _ h => noPhantom h, fun _ h => noPhantom h⟩

/-- A step that does not compare expected ticket 0 with an unstamped word, as a check. -/
def seesStampCheck {P F : Type} (s : PoolState P F) (_ : PoolAction) : Bool :=
  match s.consumer.pc with
  | .compare _ none => s.consumer.expectedTicket != 0
  | _ => true

/-- The check implies the condition. -/
theorem seesStamp_of_check {P F : Type} (s : PoolState P F) (a : PoolAction)
    (h : seesStampCheck s a = true) : SeesStamp s a := by
  cases a with
  | consumer run =>
      intro foundTicket hpc
      rw [seesStampCheck, hpc] at h
      simpa using h
  | producer c => trivial
  | spawn mode => trivial

/-- One commit of the block hook, ten steps; then the client starts and takes eight steps, which
bring it to accept ticket 0. -/
def acceptFirstRun : List PoolAction :=
  List.replicate 10 (.producer 0) ++ .spawn .skipAhead :: List.replicate 7 (.consumer true)

/-- Ticket 0 accepted after its commit is no phantom. -/
theorem noPhantom_after_commit : ∃ s : PoolState BlockIoMetric BlockField,
    s.consumer.pc.accepted = some ⟨0, some 0⟩ ∧ NoPhantom s := by
  have hrun : ReachableUnder (blockNext fun _ => some sampleBlockMetric) SeesStamp
      blockPool.poolInit _ := .of_check seesStamp_of_check acceptFirstRun rfl .start
  exact ⟨_, rfl, (noPhantom_of_reachable (fun _ => none) _).2 _ hrun⟩

/-- **A phantom on the zeroed page**: the block client starts on a fresh page, with no commit ever
made, and accepts ticket 0. -/
theorem phantom_on_zeroed_page :
    ¬ ∀ s, Reachable (blockNext fun _ => none) blockPool.poolInit s → NoPhantom s := by
  intro h
  have hrun : Reachable (blockNext fun _ => none) blockPool.poolInit _ :=
    .of_exec (.spawn .skipAhead :: List.replicate 7 (.consumer true)) rfl
  obtain ⟨c, hc, -⟩ := (h _ hrun).processing ⟨0, none⟩ rfl
  cases hc

end TelemetrySubsystem
