import TelemetrySubsystem.TicketPool.EveryPass
import TelemetrySubsystem.TicketPool.ScatterGatherPass
import TelemetrySubsystem.TicketPool.SkipAheadPass

/-! # What one pass hands to the `process` function

`zero_copy_consumer_thread` calls `process_metric` on every accepted ticket, and also ahead of every
ticket test. `block_zero_copy_consumer_thread` only has the first of these calls.

* **`ProcessesOnce`**: one call for each accepted ticket, in order, and no other call.
* **`exists_quietPass`** describes a pass of either client on an unchanging page, in either mode.
* **`processesOnce_blockPool`**: the block client keeps the law on every page.
* **`processesOnce_iff`**: the net client keeps it only where its pass runs no round at all. -/

namespace TelemetrySubsystem

open ActionSystem WrapCounter TicketPool

/-- **Each accepted record is processed once, and nothing else is**: the ticket words of the slots
handed to the `process` function are the accepted tickets, and these increase from `e` on. -/
structure ProcessesOnce {P : Type} (e : UInt32) (lines : List (Line P)) : Prop where
  once : lines.map Line.slotTicket = acceptedTickets lines
  increasing : (acceptedTickets lines).Pairwise fun t u => distFrom e t < distFrom e u

/-- Then every call was for an accepted ticket. -/
theorem ProcessesOnce.accepted_ne_none {P : Type} {e : UInt32} {lines : List (Line P)}
    (h : ProcessesOnce e lines) {l : Line P} (hl : l ∈ lines) : l.accepted ≠ none := by
  have hlen := congrArg List.length h.once
  rw [List.length_map, acceptedTickets] at hlen
  have hsome := List.filterMap_length_eq_length.mp hlen.symm l hl
  intro hnone
  rw [hnone] at hsome
  cases hsome

/-- No call keeps the law. -/
theorem processesOnce_nil {P : Type} (e : UInt32) : ProcessesOnce e ([] : List (Line P)) :=
  ⟨rfl, .nil⟩

namespace TicketPool

variable {P F : Type} [DecidableEq F] [Fieldwise P F] {R : TicketPool P F}

/-! ## A pass on an unchanging page -/

section Quiet

variable {lane : TicketLane P} {E : ℕ} {tickets : List ℕ}

/-- Tickets in a row are in their slots for at most one lap. -/
theorem exists_gathered (hcap : R.capacity < 2 ^ 32) (lane : TicketLane P) (E : ℕ) :
    ∃ n ≤ R.capacity, (∀ t, E ≤ t → t < E + n → R.Present lane t) ∧ ¬ R.Present lane (E + n) := by
  have hword : ∀ i, UInt32.ofNat (E + i) = UInt32.ofNat E + UInt32.ofNat i := fun i =>
    UInt32.ofNat_add E i
  have hends : ∃ n, ¬ R.Present lane (E + n) := by
    by_contra hall
    rw [not_exists] at hall
    have hle := found_le_capacity hcap lane.slots (UInt32.ofNat E)
      (n := R.capacity + 1) fun i _ => by
        rw [← hword i]
        exact not_not.mp (hall i)
    omega
  classical
  have hbefore : ∀ t, E ≤ t → t < E + Nat.find hends → R.Present lane t := by
    intro t hle hlt
    have hnot := Nat.find_min hends (m := t - E) (by omega)
    rw [not_not, Nat.add_sub_cancel' hle] at hnot
    exact hnot
  refine ⟨Nat.find hends, ?_, hbefore, Nat.find_spec hends⟩
  refine found_le_capacity hcap lane.slots (UInt32.ofNat E) fun i hi => ?_
  rw [← hword i]
  exact hbefore (E + i) (by omega) (by omega)

/-- **One pass on an unchanging page**, in either mode: it ends, and the tickets it accepts are in
their slots and increase from the expected one on. -/
theorem exists_quietPass (hcap : R.capacity < 2 ^ 32) (mode : ConsumerMode) (e : UInt32)
    (lane : TicketLane P) : ∃ lane' lines, ∃ E : ℕ, ∃ tickets : List ℕ,
      R.Pass mode e lane lane' lines ∧
      acceptedLines lines = tickets.map (R.lineOf lane) ∧
      (R.processesFirst = false → acceptedLines lines = lines) ∧
      UInt32.ofNat E = e ∧ tickets.Pairwise (· < ·) ∧
      ∀ t ∈ tickets, R.Present lane t ∧ E ≤ t ∧ t < E + 2 ^ 32 := by
  obtain ⟨E, H, rfl, hwr, hA, hB⟩ := exists_counts e lane.wrIdx
  cases mode with
  | skipAhead =>
      obtain ⟨lines, hpass, hout, hall⟩ := skipAheadPass (R := R) hwr.symm hA hB
      refine ⟨_, lines, E, R.presentTickets lane E H, hpass, hout, hall, rfl, ?_, fun t ht => ?_⟩
      · exact (List.pairwise_lt_range' _).filter _
      · obtain ⟨⟨hle, hlt⟩, hp⟩ := mem_presentTickets.mp ht
        exact ⟨hp, hle, by omega⟩
  | scatterGather =>
      obtain ⟨n, hn, hpresent, hmissing⟩ := exists_gathered hcap lane E
      obtain ⟨lines, hpass, hout, hall⟩ := scatterGatherPass hpresent hmissing
      refine ⟨_, lines, E, List.range' E n, hpass, hout, hall, rfl, ?_, fun t ht => ?_⟩
      · exact List.pairwise_lt_range' _
      · obtain ⟨hle, hlt⟩ := List.mem_range'_1.mp ht
        exact ⟨hpresent t hle hlt, hle, by omega⟩

/-- Lines for tickets that are in their slots keep the law. -/
theorem processesOnce_lineOf (hincreasing : tickets.Pairwise (· < ·))
    (hpresent : ∀ t ∈ tickets, R.Present lane t ∧ E ≤ t ∧ t < E + 2 ^ 32) :
    ProcessesOnce (UInt32.ofNat E) (tickets.map (R.lineOf lane)) := by
  have htickets : acceptedTickets (tickets.map (R.lineOf lane)) = tickets.map UInt32.ofNat := by
    rw [acceptedTickets, List.filterMap_map]
    exact congrFun List.filterMap_eq_map' _
  refine ⟨?_, ?_⟩
  · rw [htickets, List.map_map]
    exact List.map_congr_left fun t ht => (hpresent t ht).1
  · rw [htickets, List.pairwise_map]
    refine hincreasing.imp_of_mem fun ht hu hlt => ?_
    obtain ⟨-, hle, hnear⟩ := hpresent _ ht
    obtain ⟨-, hle', hnear'⟩ := hpresent _ hu
    rw [distFrom, distFrom, toNat_ofNat_sub hle (by omega), toNat_ofNat_sub hle' (by omega)]
    omega

/-- **What follows the ticket test keeps the law**, for either client: the lines of the accepted
tickets. -/
theorem Pass.processesOnce_acceptedLines {lane' : TicketLane P} {lines : List (Line P)}
    {mode : ConsumerMode} {e : UInt32} (hcap : R.capacity < 2 ^ 32)
    (h : R.Pass mode e lane lane' lines) : ProcessesOnce e (acceptedLines lines) := by
  obtain ⟨lane₁, lines₁, E, tickets, hpass, hout, -, rfl, hincreasing, hpresent⟩ :=
    exists_quietPass hcap mode e lane
  obtain ⟨rfl, rfl⟩ := h.unique hpass
  rw [hout]
  exact processesOnce_lineOf hincreasing hpresent

/-- **A client that tests first keeps the law.** -/
theorem Pass.processesOnce_of_testsFirst {lane' : TicketLane P} {lines : List (Line P)}
    {mode : ConsumerMode} {e : UInt32} (hcap : R.capacity < 2 ^ 32)
    (hfirst : R.processesFirst = false) (h : R.Pass mode e lane lane' lines) :
    ProcessesOnce e lines := by
  have honce := h.processesOnce_acceptedLines hcap
  obtain ⟨lane₁, lines₁, -, -, hpass, -, hall, -⟩ := exists_quietPass hcap mode e lane
  obtain ⟨rfl, rfl⟩ := h.unique hpass
  rwa [hall hfirst] at honce

end Quiet

/-! ## Calls before the test -/

/-- The thread is on its way to a call of the `process` function ahead of a ticket test. -/
inductive BeforeTest (k : Consumer P F) : Prop
  | copying {i w : ℕ} : k.pc = .copy i w → k.mode = .scatterGather → BeforeTest k
  | load : k.pc = .loadTicket → BeforeTest k
  | call {t : UInt32} {b : Option ℕ} : k.pc = .processTicket (.compare t b) → BeforeTest k
  | reading {t u : UInt32} {b : Option ℕ} {rest : List F} {metric : P} :
      k.pc = .processField (.compare t b) u rest metric → BeforeTest k

/-- A line has been printed for no ticket, or is going to be. -/
def Strays (k : Consumer P F) : Prop := (∃ l ∈ k.lines, l.accepted = none) ∨ BeforeTest k

variable {lane lane' : TicketLane P} {k k' : Consumer P F}

/-- Lines stay printed. -/
theorem ConsumerMove.lines_subset (h : R.ConsumerMove lane k lane' k') : k.lines ⊆ k'.lines := by
  cases h with
  | aside _ _ _ _ hlines => exact hlines ▸ List.Subset.refl _
  | print =>
      rw [resume_lines]
      exact List.subset_append_left _ _
  | copy | load | accept | process | field => exact List.Subset.refl _

/-- **On the way to a call before the test** a client that processes first makes the call. -/
theorem BeforeTest.step (lane : TicketLane P) (hfirst : R.processesFirst = true)
    (h : BeforeTest k) : ∃ k', R.passStep (lane, k) = some (lane, k') ∧ Strays k' := by
  cases h with
  | @copying i w hpc hmode =>
      have hnext : ∀ snapshot,
          BeforeTest { k with pc := R.afterCopy k i w, snapshot := snapshot } := by
        intro snapshot
        rw [afterCopy, roundHead, hmode]
        split
        · exact .copying rfl rfl
        · split
          · exact .copying rfl rfl
          · exact .load rfl
      simp only [passStep, consumerStep, hpc]
      exact ⟨_, rfl, .inr (hnext _)⟩
  | load hpc =>
      simp only [passStep, consumerStep, hpc, if_pos hfirst]
      exact ⟨_, rfl, .inr (.call rfl)⟩
  | call hpc =>
      simp only [passStep, consumerStep, hpc]
      exact ⟨_, rfl, .inr (.reading rfl)⟩
  | @reading t u b rest metric hpc =>
      cases rest with
      | cons f rest =>
          simp only [passStep, consumerStep, hpc]
          exact ⟨_, rfl, .inr (.reading rfl)⟩
      | nil =>
          -- the call returns, with a line for no ticket
          simp only [passStep, consumerStep, hpc]
          exact ⟨_, rfl, .inl ⟨⟨u, metric, none⟩,
            List.mem_append_right _ List.mem_cons_self, rfl⟩⟩

/-- Every step keeps a stray line, or the way to one. -/
theorem Strays.step (hfirst : R.processesFirst = true) (h : Strays k)
    (hstep : R.passStep (lane, k) = some (lane', k')) : Strays k' := by
  rcases h with ⟨l, hl, hnone⟩ | hbefore
  · have hmove : R.consumerStep true lane k = some (lane', k') := by
      rw [passStep] at hstep
      split at hstep
      · cases hstep
      · exact hstep
    exact .inl ⟨l, (consumerStep_move hmove).lines_subset hl, hnone⟩
  · obtain ⟨k₁, hstep₁, hstrays⟩ := hbefore.step lane hfirst
    rw [hstep₁] at hstep
    cases hstep
    exact hstrays

/-- **A stray line is there at the end of the pass.** -/
theorem Strays.exists_line (hfirst : R.processesFirst = true) (h : Strays k)
    (hfin : Finishes R.passStep (lane, k) (lane', k')) : ∃ l ∈ k'.lines, l.accepted = none := by
  obtain ⟨hstrays, hhalt⟩ := hfin.invariant (I := fun q => Strays q.2) h
    fun _ _ hs hstep => hs.step hfirst hstep
  rcases hstrays with hline | hbefore
  · exact hline
  · obtain ⟨k₁, hstep, -⟩ := hbefore.step lane' hfirst
    rw [hstep] at hhalt
    cases hhalt

/-- **A pass that runs a round breaks the law** for a client that processes first: the slot of the
expected ticket is handed on before its ticket has been tested. -/
theorem Pass.not_processesOnce {mode : ConsumerMode} {e : UInt32} {lines : List (Line P)}
    (hfirst : R.processesFirst = true) (h : R.Pass mode e lane lane' lines)
    (hround : mode = .skipAhead → atOrPast lane.wrIdx e = true) : ¬ ProcessesOnce e lines := by
  obtain ⟨k', hfin, rfl⟩ := h
  have hstray : ∃ l ∈ k'.lines, l.accepted = none := by
    cases mode with
    | scatterGather => exact Strays.exists_line hfirst (.inr (.copying rfl rfl)) hfin
    | skipAhead =>
        have hload : Strays (nextRound { R.passAt .skipAhead e with highestHint := lane.wrIdx } e)
            := .inr (.load (if_pos (hround rfl)))
        cases hfin with
        | halt hstep => cases hstep
        | step hstep hfin =>
            cases hstep
            exact hload.exists_line hfirst hfin
  obtain ⟨l, hl, hnone⟩ := hstray
  exact fun honce => honce.accepted_ne_none hl hnone

/-- A skip-ahead pass whose horizon lies behind runs no round and calls nothing. -/
theorem Pass.lines_eq_nil {e : UInt32} {lines : List (Line P)}
    (h : R.Pass .skipAhead e lane lane' lines) (hbehind : atOrPast lane.wrIdx e = false) :
    lines = [] := by
  have hstore : R.passStep (lane, R.passAt .skipAhead e)
      = some (lane, { R.passAt .skipAhead e with highestHint := lane.wrIdx, pc := .storeRd }) := by
    have hhead : roundHead { R.passAt .skipAhead e with highestHint := lane.wrIdx }
        = (.storeRd : ConsumerPc P F) := if_neg (by rw [passAt, hbehind]; decide)
    rw [← hhead]
    rfl
  have hpass : R.Pass .skipAhead e lane { lane with rdIdx := e } [] :=
    ⟨_, .step hstore (.step rfl (.halt rfl)), rfl⟩
  exact (h.unique hpass).2

end TicketPool

/-! ## The two clients -/

/-- **The block client processes each accepted record once and nothing else**, on every page. -/
theorem processesOnce_blockPool {mode : ConsumerMode} {e : UInt32}
    {lane lane' : TicketLane BlockIoMetric} {lines : List (Line BlockIoMetric)}
    (h : blockPool.Pass mode e lane lane' lines) : ProcessesOnce e lines :=
  h.processesOnce_of_testsFirst (by decide) rfl

/-- **When the net client processes each accepted record once and nothing else**: on every page a
pass ends, and it has kept the law if and only if it ran no round, being in skip-ahead mode with the
horizon behind the expected ticket. -/
theorem processesOnce_iff (mode : ConsumerMode) (e : UInt32) (lane : TicketLane NetPacketMetric) :
    ∃ lane' lines, netPool.Pass mode e lane lane' lines ∧
      (ProcessesOnce e lines ↔ mode = .skipAhead ∧ atOrPast lane.wrIdx e = false) := by
  obtain ⟨lane', lines, -, -, hpass, -⟩ := exists_quietPass (R := netPool) (by decide) mode e lane
  refine ⟨lane', lines, hpass, fun honce => ?_, ?_⟩
  · by_contra hno
    refine hpass.not_processesOnce rfl (fun hmode => ?_) honce
    rw [not_and, Bool.not_eq_false] at hno
    exact hno hmode
  · rintro ⟨rfl, hbehind⟩
    rw [hpass.lines_eq_nil hbehind]
    exact processesOnce_nil e

/-- **The zeroed page**: a skip-ahead pass from ticket 0 hands slot 0 on before it has accepted
ticket 0 there, and then once more. -/
theorem processed_twice :
    ¬ ∀ lane' lines, netPool.Pass .skipAhead 0 netPool.zeroLane lane' lines →
      ProcessesOnce 0 lines := by
  intro hall
  obtain ⟨lane', lines, -, -, hpass, -⟩ :=
    exists_quietPass (R := netPool) (by decide) .skipAhead 0 netPool.zeroLane
  exact hpass.not_processesOnce rfl (fun _ => by decide) (hall lane' lines hpass)

end TelemetrySubsystem
