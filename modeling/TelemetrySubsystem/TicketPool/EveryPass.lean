import TelemetrySubsystem.NetFilter.Hook
import TelemetrySubsystem.TicketPool.HoleHealing

/-! # Every consumer pass ends

One pass of either client, from any expected ticket, while the producers are free to leave anything
in the slots and in `wr_idx` before each of its accesses.

The skip-ahead loops are bounded by the hint, as every round and every leap goes on to a later
ticket. The scatter-gather loop has no bound of its own: what ends it is that the snapshot has no
more tickets than slots.

* **`found_le_capacity`** is that count, **`GatherAt`** says where a scatter-gather thread stands,
  and **`gatherLeft`** bounds what is left of its pass.
* **`EveryPassEnds`** is the law, and **`everyPassEnds`** proves it of both clients. -/

namespace TelemetrySubsystem

open ActionSystem WrapCounter TicketPool

namespace TicketPool

variable {P F : Type} [DecidableEq F] [Fieldwise P F] (R : TicketPool P F)

/-! ## The law -/

/-- A thread of its own, about to start a pass in the given mode with expected ticket `e`. -/
def passState (mode : ConsumerMode) (e : UInt32) : HealState P F where
  lane := { R.zeroLane with rdIdx := e }
  thread := R.passAt mode e
  current := .startAt e
  passes := []

/-- A thread at the head of the scatter-gather loop, with any snapshot. -/
def gatherLoopState (e : UInt32) (snapshot : ℕ → Slot P) : HealState P F where
  lane := { R.zeroLane with rdIdx := e }
  thread :=
    { R.idleConsumer with
      mode := .scatterGather
      pc := .loadTicket
      expectedTicket := e
      snapshot := snapshot }
  current := .startAt e
  passes := []

/-- **The pass ends within `N` accesses**, whatever they find, and then `Q` holds. -/
def EndsWithin (N : ℕ) (s : HealState P F) (Q : HealState P F → Prop) : Prop :=
  ∀ as : List (HealAction P), (∀ a ∈ as, a.isAccess = true) → N < as.length →
    ∃ bs s', bs <+: as ∧ exec R.healNext s bs = some s' ∧
      s'.passes.length = s.passes.length + 1 ∧ Q s'

/-- The thread has accepted at most as many tickets as there are slots. -/
def AtMostSlots (s : HealState P F) : Prop :=
  (acceptedTickets s.thread.lines).length ≤ R.capacity

/-- **Every consumer pass ends**, within a number of accesses that depends neither on the expected
ticket nor on what they find; in scatter-gather mode it has accepted at most as many tickets as
there are slots, on any snapshot. -/
structure EveryPassEnds : Prop where
  skipAhead : ∃ N, ∀ e, R.EndsWithin N (R.passState .skipAhead e) fun _ => True
  scatterGather : ∃ N, ∀ e, R.EndsWithin N (R.passState .scatterGather e) R.AtMostSlots
  gatherLoop : ∃ N, ∀ e snapshot, R.EndsWithin N (R.gatherLoopState e snapshot) R.AtMostSlots

/-! ## Tickets in a snapshot -/

variable {R}

/-- **Tickets found in one snapshot are in different slots**, so there are at most as many as slots.
This also holds across the wrap, where the next ticket need not be in the next slot. -/
theorem found_le_capacity (hcap : R.capacity < 2 ^ 32) (snapshot : ℕ → Slot P) (e : UInt32)
    {n : ℕ}
    (h : ∀ i < n, (snapshot (R.slotIdx (e + UInt32.ofNat i))).slotTicket = e + UInt32.ofNat i) :
    n ≤ R.capacity := by
  by_contra hn
  -- the first tickets, one more than there are slots
  let idx : ℕ → ℕ := fun i => R.slotIdx (e + UInt32.ofNat i)
  have hinj : ∀ i ∈ List.range (R.capacity + 1), ∀ j ∈ List.range (R.capacity + 1),
      idx i = idx j → i = j := by
    intro i hi j hj hidx
    rw [List.mem_range] at hi hj
    have hticket : e + UInt32.ofNat i = e + UInt32.ofNat j := by
      rw [← h i (by omega), ← h j (by omega)]
      exact congrArg (fun x => (snapshot x).slotTicket) hidx
    have hdist := congrArg (distFrom e) hticket
    rwa [distFrom_add e (by omega), distFrom_add e (by omega)] at hdist
  have hnodup : ((List.range (R.capacity + 1)).map idx).Nodup :=
    List.Nodup.map_on hinj List.nodup_range
  have hsub : (List.range (R.capacity + 1)).map idx ⊆ List.range R.capacity := by
    intro i hi
    obtain ⟨j, -, rfl⟩ := List.mem_map.mp hi
    exact List.mem_range.mpr (Nat.mod_lt _ R.capacity_pos)
  have hle := hnodup.length_le_of_subset hsub
  rw [List.length_map, List.length_range, List.length_range] at hle
  omega

/-! ## Where a scatter-gather thread stands -/

/-- The tickets accepted so far are the next ones from `e` on, each found in the snapshot. -/
structure Gathering (R : TicketPool P F) (e : UInt32) (k : Consumer P F) : Prop where
  mode : k.mode = .scatterGather
  expected : k.expectedTicket = e + UInt32.ofNat (acceptedTickets k.lines).length
  found : ∀ i < (acceptedTickets k.lines).length,
    (k.snapshot (R.slotIdx (e + UInt32.ofNat i))).slotTicket = e + UInt32.ofNat i

/-- What the thread goes on with. -/
def GatherHeld (R : TicketPool P F) (k : Consumer P F) : AfterProcess → Prop
  | .compare foundTicket _ => foundTicket = (k.snapshot (R.slotIdx k.expectedTicket)).slotTicket
  | .scan _ => False
  | .advance _ => (k.snapshot (R.slotIdx k.expectedTicket)).slotTicket = k.expectedTicket

/-- **Where a scatter-gather thread stands** in a pass from `e` on. -/
inductive GatherAt (R : TicketPool P F) (e : UInt32) (k : Consumer P F) : Prop
  | copying {i w : ℕ} : k.pc = .copy i w → i < R.capacity → w ≤ R.words.length →
      Gathering R e k → k.lines = [] → GatherAt R e k
  | load : k.pc = .loadTicket → Gathering R e k → GatherAt R e k
  | holding {after : AfterProcess} : k.pc.holds = some after → Gathering R e k →
      GatherHeld R k after → GatherAt R e k
  | store : k.pc = .storeRd → Gathering R e k → GatherAt R e k

/-! ## What is left of a scatter-gather pass -/

section Cost

variable (R)

/-- The accesses of the loop on the snapshot, with `j` tickets still to be found at most. -/
def gatherCost (j : ℕ) : ℕ := j * (2 * R.processCost + 2) + R.processCost + 3

/-- How many more tickets can be found. -/
def slotsLeft (k : Consumer P F) : ℕ := R.capacity - (acceptedTickets k.lines).length

/-- The accesses that follow the `process` function. -/
def gatherAfter (j : ℕ) : AfterProcess → ℕ
  | .advance _ => R.gatherCost (j - 1)
  | _ => j * (2 * R.processCost + 2) + 2

/-- **A bound on the accesses that are left of a scatter-gather pass.** -/
def gatherLeft (k : Consumer P F) : ℕ :=
  match k.pc with
  | .copy i w =>
      (R.capacity - 1 - i) * (R.words.length + 1) + (R.words.length + 1 - w)
        + R.gatherCost R.capacity
  | .loadTicket => R.gatherCost (R.slotsLeft k)
  | .compare foundTicket stampedBy => R.gatherAfter (R.slotsLeft k) (.compare foundTicket stampedBy)
  | .processTicket after => R.processCost + R.gatherAfter (R.slotsLeft k) after
  | .processField after _ rest _ => rest.length + 1 + R.gatherAfter (R.slotsLeft k) after
  | .storeRd => 1
  | _ => 0

/-- One more ticket is one more round. -/
theorem gatherCost_succ (j : ℕ) :
    R.gatherCost (j + 1) = R.gatherCost j + 2 * R.processCost + 2 := by
  rw [gatherCost, gatherCost, Nat.add_mul]
  omega

end Cost

variable {e : UInt32} {k k' : Consumer P F} {lane lane' : TicketLane P} {run : Bool}

/-- **While the pool is being copied** the bound goes down by one with every word. -/
theorem gather_copy {i w : ℕ} (hpc : k.pc = .copy i w) (hi : i < R.capacity)
    (hw : w ≤ R.words.length) (h : Gathering R e k) (hlines : k.lines = [])
    (hstep : R.consumerStep run lane k = some (lane', k')) :
    GatherAt R e k' ∧ R.gatherLeft k' < R.gatherLeft k := by
  have hleft : R.gatherLeft k = (R.capacity - 1 - i) * (R.words.length + 1)
      + (R.words.length + 1 - w) + R.gatherCost R.capacity := by rw [gatherLeft, hpc]
  have hgathering : ∀ pc snapshot,
      Gathering R e { k with pc := pc, snapshot := snapshot } := fun pc snapshot =>
    ⟨h.mode, h.expected, by
      rw [hlines]
      exact fun i hi => absurd hi (Nat.not_lt_zero i)⟩
  rw [hleft]
  simp only [consumerStep, hpc] at hstep
  cases hstep
  by_cases hword : w < R.words.length
  · have hnext : R.afterCopy k i w = .copy i (w + 1) := by rw [afterCopy, if_pos hword]
    refine ⟨.copying hnext hi hword (hgathering _ _) hlines, ?_⟩
    simp only [gatherLeft, hnext]
    omega
  · by_cases hslot : i + 1 < R.capacity
    · have hnext : R.afterCopy k i w = .copy (i + 1) 0 := by
        rw [afterCopy, if_neg hword, if_pos hslot]
      refine ⟨.copying hnext hslot (Nat.zero_le _) (hgathering _ _) hlines, ?_⟩
      have hmul : (R.capacity - 1 - i) * (R.words.length + 1)
          = (R.capacity - 1 - (i + 1)) * (R.words.length + 1) + (R.words.length + 1) := by
        rw [← Nat.succ_mul]
        congr 1
        omega
      simp only [gatherLeft, hnext]
      omega
    · have hnext : R.afterCopy k i w = .loadTicket := by
        rw [afterCopy, if_neg hword, if_neg hslot, roundHead, h.mode]
      refine ⟨.load hnext (hgathering _ _), ?_⟩
      have hslots : R.capacity - (acceptedTickets k.lines).length = R.capacity := by
        rw [hlines]
        rfl
      simp only [gatherLeft, hnext, slotsLeft, hslots]
      omega

/-- Loading the ticket word from the snapshot leaves less. -/
theorem gather_load (hpc : k.pc = .loadTicket) (h : Gathering R e k)
    (hstep : R.consumerStep run lane k = some (lane', k')) :
    GatherAt R e k' ∧ R.gatherLeft k' < R.gatherLeft k := by
  have hleft : R.gatherLeft k = R.gatherCost (R.slotsLeft k) := by rw [gatherLeft, hpc]
  have hview : view lane k = k.snapshot := by rw [view, h.mode]
  rw [hleft]
  simp only [consumerStep, hpc, hview] at hstep
  split at hstep <;> cases hstep <;> refine ⟨.holding rfl ⟨h.mode, h.expected, h.found⟩ rfl, ?_⟩ <;>
    simp only [gatherLeft, gatherAfter, gatherCost, slotsLeft] <;> omega

/-- **Comparing the ticket word leaves less**: where it matches, the snapshot has one ticket more
than have been accepted. -/
theorem gather_compare (hcap : R.capacity < 2 ^ 32) {t : UInt32} {b : Option ℕ}
    (hpc : k.pc = .compare t b) (h : Gathering R e k) (hheld : GatherHeld R k (.compare t b))
    (hstep : R.consumerStep run lane k = some (lane', k')) :
    GatherAt R e k' ∧ R.gatherLeft k' < R.gatherLeft k := by
  have hleft : R.gatherLeft k = R.slotsLeft k * (2 * R.processCost + 2) + 2 := by
    simp only [gatherLeft, hpc, gatherAfter]
  rw [hleft]
  simp only [consumerStep, hpc] at hstep
  by_cases heq : t = k.expectedTicket
  · rw [if_pos heq] at hstep
    cases hstep
    have hfound : (k.snapshot (R.slotIdx k.expectedTicket)).slotTicket = k.expectedTicket :=
      Eq.trans (Eq.symm hheld) heq
    refine ⟨.holding rfl ⟨h.mode, h.expected, h.found⟩ hfound, ?_⟩
    have hroom : (acceptedTickets k.lines).length + 1 ≤ R.capacity := by
      refine found_le_capacity hcap k.snapshot e fun i hi => ?_
      rcases Nat.lt_succ_iff_lt_or_eq.mp hi with hlt | rfl
      · exact h.found i hlt
      · rw [← h.expected]
        exact hfound
    have hslots : R.slotsLeft k = R.slotsLeft k - 1 + 1 := by
      rw [slotsLeft]
      omega
    have hcost := R.gatherCost_succ (R.slotsLeft k - 1)
    rw [← hslots] at hcost
    simp only [gatherCost] at hcost
    simp only [gatherLeft, gatherAfter, gatherCost]
    simp only [slotsLeft] at hcost ⊢
    omega
  · rw [if_neg heq] at hstep
    cases hstep
    have hmissing : R.missing k = .storeRd := by rw [missing, h.mode]
    rw [hmissing]
    refine ⟨.store rfl ⟨h.mode, h.expected, h.found⟩, ?_⟩
    simp only [gatherLeft]
    omega

/-- Returning from the `process` function leaves less. -/
theorem gather_print {t : UInt32} {metric : P} {after : AfterProcess}
    (hpc : k.pc = .processField after t [] metric) (h : Gathering R e k)
    (hheld : GatherHeld R k after) (hstep : R.consumerStep run lane k = some (lane', k')) :
    GatherAt R e k' ∧ R.gatherLeft k' < R.gatherLeft k := by
  have hleft : R.gatherLeft k = 1 + R.gatherAfter (R.slotsLeft k) after := by
    simp only [gatherLeft, hpc, List.length_nil, Nat.zero_add]
  rw [hleft]
  simp only [consumerStep, hpc] at hstep
  cases hstep
  cases after with
  | compare foundTicket stampedBy =>
      -- a line printed before the test accepts nothing
      have hsame : acceptedTickets (k.lines ++ [⟨t, metric, none⟩]) = acceptedTickets k.lines := by
        simp [acceptedTickets_concat]
      have hgathering : Gathering R e
          (resume { k with lines := k.lines ++ [⟨t, metric, none⟩] }
            (.compare foundTicket stampedBy)) :=
        ⟨h.mode, hsame ▸ h.expected, hsame ▸ h.found⟩
      refine ⟨.holding rfl hgathering hheld, ?_⟩
      simp only [gatherLeft, resume, slotsLeft, AfterProcess.accepted, hsame]
      omega
  | scan scanTicket => exact absurd hheld id
  | advance a =>
      have hmore : (acceptedTickets (k.lines ++ [⟨t, metric, some a⟩])).length
          = (acceptedTickets k.lines).length + 1 := by simp [acceptedTickets_concat]
      have hround : roundHead { k with
          expectedTicket := k.expectedTicket + 1
          lines := k.lines ++ [⟨t, metric, some a⟩] } = .loadTicket := by
        simp only [roundHead, h.mode]
      have hgathering : Gathering R e
          (nextRound { k with lines := k.lines ++ [⟨t, metric, some a⟩] }
            (k.expectedTicket + 1)) := by
        refine ⟨h.mode, ?_, ?_⟩
        · show k.expectedTicket + 1 = _
          rw [nextRound, hmore, add_ofNat_succ, ← h.expected]
        · show ∀ i < (acceptedTickets (k.lines ++ [⟨t, metric, some a⟩])).length, _
          rw [hmore]
          intro i hi
          rcases Nat.lt_succ_iff_lt_or_eq.mp hi with hlt | rfl
          · exact h.found i hlt
          · rw [← h.expected]
            exact hheld
      refine ⟨.load hround hgathering, ?_⟩
      have hslots : R.capacity - (acceptedTickets (k.lines ++ [⟨t, metric, some a⟩])).length
          = R.slotsLeft k - 1 := by
        rw [hmore, slotsLeft]
        omega
      have hnew : R.gatherLeft (resume
          { k with lines := k.lines ++ [⟨t, metric, some a⟩] } (.advance a))
          = R.gatherCost (R.slotsLeft k - 1) := by
        rw [resume, nextRound, hround, gatherLeft, slotsLeft, hslots]
      rw [gatherAfter]
      exact (hnew.le).trans_lt (by omega)

/-- **Every access short of the store of `rd_idx`** uses some of the pass up. -/
theorem GatherAt.access (hcap : R.capacity < 2 ^ 32) (h : GatherAt R e k) (hne : k.pc ≠ .storeRd)
    (hstep : R.consumerStep run lane k = some (lane', k')) :
    GatherAt R e k' ∧ R.gatherLeft k' < R.gatherLeft k := by
  cases h with
  | copying hpc hi hw hgathering hlines => exact gather_copy hpc hi hw hgathering hlines hstep
  | load hpc hgathering => exact gather_load hpc hgathering hstep
  | store hpc _ => exact absurd hpc hne
  | holding hholds hgathering hheld =>
      cases hpc : k.pc with
      | compare t b =>
          rw [hpc] at hholds
          cases hholds
          exact gather_compare hcap hpc hgathering hheld hstep
      | scanLoad t =>
          rw [hpc] at hholds
          cases hholds
          exact absurd hheld id
      | processTicket after =>
          rw [hpc] at hholds
          cases hholds
          simp only [consumerStep, hpc] at hstep
          cases hstep
          refine ⟨.holding rfl ⟨hgathering.mode, hgathering.expected, hgathering.found⟩ hheld, ?_⟩
          simp only [gatherLeft, hpc, processCost, slotsLeft]
          omega
      | processField after t rest metric =>
          rw [hpc] at hholds
          cases hholds
          cases rest with
          | nil => exact gather_print hpc hgathering hheld hstep
          | cons f rest =>
              simp only [consumerStep, hpc] at hstep
              cases hstep
              refine ⟨.holding rfl ⟨hgathering.mode, hgathering.expected, hgathering.found⟩ hheld,
                ?_⟩
              simp only [gatherLeft, hpc, slotsLeft, List.length_cons]
              omega
      | _ =>
          rw [hpc] at hholds
          cases hholds

/-- The accepted tickets are at most as many as the slots. -/
theorem GatherAt.accepted_le (hcap : R.capacity < 2 ^ 32) (h : GatherAt R e k) :
    (acceptedTickets k.lines).length ≤ R.capacity := by
  cases h with
  | copying _ _ _ hgathering | load _ hgathering | holding _ hgathering | store _ hgathering =>
      exact found_le_capacity hcap _ e hgathering.found

/-- The thread can make its next access. -/
theorem GatherAt.exists_consumerStep (h : GatherAt R e k) (run : Bool) (lane : TicketLane P) :
    ∃ q, R.consumerStep run lane k = some q := by
  have hin : k.pc.inPass = true ∨ ∃ i w, k.pc = .copy i w := by
    cases h with
    | copying hpc => exact .inr ⟨_, _, hpc⟩
    | load hpc | store hpc =>
        rw [hpc]
        exact .inl rfl
    | holding hholds =>
        left
        cases hpc : k.pc with
        | compare | scanLoad | processTicket | processField => rfl
        | _ =>
            rw [hpc] at hholds
            cases hholds
  rcases hin with hin | ⟨i, w, hpc⟩
  · exact R.exists_consumerStep run lane hin
  · simp only [consumerStep, hpc]
    exact ⟨_, rfl⟩

/-- **A scatter-gather pass ends**, from wherever the thread stands. -/
theorem GatherAt.endsWithin (hcap : R.capacity < 2 ^ 32) {s : HealState P F}
    (h : GatherAt R e s.thread) : R.EndsWithin (R.gatherLeft s.thread) s R.AtMostSlots := by
  intro as has hlen
  refine (exists_prefix_of_rank (p := fun a => a.isAccess = true)
    (I := fun t => GatherAt R e t.thread ∧ t.passes.length = s.passes.length)
    (Q := fun t => t.passes.length = s.passes.length + 1 ∧ R.AtMostSlots t)
    (fun t => R.gatherLeft t.thread) ?_ as has ⟨h, rfl⟩ hlen)
  rintro t a ⟨hat, hcount⟩ ha
  cases a with
  | start => cases ha
  | access run wrIdx slots =>
      obtain ⟨q, hstep⟩ := hat.exists_consumerStep run
        { t.lane with wrIdx := wrIdx, slots := slots }
      have hnext : R.healNext t (.access run wrIdx slots) = some _ :=
        Option.map_eq_some_iff.mpr ⟨q, hstep, rfl⟩
      refine ⟨_, hnext, ?_⟩
      by_cases hpc : t.thread.pc = .storeRd
      · left
        have hlines : q.2.lines = t.thread.lines := by
          simp only [consumerStep, hpc] at hstep
          cases hstep
          rfl
        refine ⟨?_, ?_⟩
        · simp only [recordPass, hpc, List.length_append, List.length_singleton, hcount]
        · rw [AtMostSlots, hlines]
          exact hat.accepted_le hcap
      · right
        obtain ⟨hat', hlt⟩ := hat.access hcap hpc hstep
        refine ⟨⟨hat', ?_⟩, hlt⟩
        simp only [recordPass_of_ne hpc, hcount]

/-! ## Both engines -/

/-- Nothing has been accepted yet. -/
theorem gathering_start (hmode : k.mode = .scatterGather) (hexp : k.expectedTicket = e)
    (hlines : k.lines = []) : Gathering R e k := by
  have hnone : (acceptedTickets k.lines).length = 0 := by
    rw [hlines]
    rfl
  refine ⟨hmode, ?_, fun i hi => absurd (hnone ▸ hi) (Nat.not_lt_zero i)⟩
  rw [hnone, hexp]
  exact (add_zero e).symm

/-- **A skip-ahead pass ends.** -/
theorem endsWithin_skipAhead (e : UInt32) :
    R.EndsWithin (R.roundsCost (2 ^ 31) + 1) (R.passState .skipAhead e) fun _ => True := by
  have hinv : HealInv e (R.passState .skipAhead e) := ⟨.hint rfl rfl rfl rfl, .nil⟩
  intro as has hlen
  obtain ⟨bs, s', hprefix, hexec, hcount⟩ := hinv.pass_ends rfl as has hlen
  exact ⟨bs, s', hprefix, hexec, hcount, trivial⟩

/-- Both engines of a pool whose slots a 32-bit ticket can tell apart. -/
theorem everyPassEnds_of_lt (hcap : R.capacity < 2 ^ 32) : R.EveryPassEnds where
  skipAhead := ⟨_, endsWithin_skipAhead⟩
  scatterGather := by
    refine ⟨R.gatherLeft (R.passAt .scatterGather 0), fun e => ?_⟩
    have hat : GatherAt R e (R.passState .scatterGather e).thread :=
      .copying rfl R.capacity_pos (Nat.zero_le _) (gathering_start rfl rfl rfl) rfl
    exact hat.endsWithin hcap
  gatherLoop := by
    refine ⟨R.gatherCost R.capacity, fun e snapshot => ?_⟩
    have hat : GatherAt R e (R.gatherLoopState e snapshot).thread :=
      .load rfl (gathering_start rfl rfl rfl)
    exact hat.endsWithin hcap

/-- **Every pass of the net client and of the block client ends**, whatever the producers make its
loads return, for every expected ticket and every hint. -/
theorem everyPassEnds : netPool.EveryPassEnds ∧ blockPool.EveryPassEnds :=
  ⟨everyPassEnds_of_lt (by decide), everyPassEnds_of_lt (by decide)⟩

end TicketPool

end TelemetrySubsystem
