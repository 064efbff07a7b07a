import TelemetrySubsystem.TicketPool.Consumer

/-! # The skip-ahead engine against any producers

The producers are free to leave anything in the slots and in `wr_idx` at any moment: what the thread
finds at one access says nothing about what it finds at the next. The thread may be stopped between
two passes and started again.

* **`HealState`** is the thread with its lane and the passes it has made; each access is made on
  slots chosen anew.
* **`PassRecord.Healed`** is the law of one pass, **`PassRecord.Progress`** how far a pass has come.
* **`HealAt`** says where the thread stands, and `HealAt.access` that every access leads on to where
  it should. -/

namespace TelemetrySubsystem

open ActionSystem WrapCounter TicketPool

/-! ## Passes and their records -/

/-- **A load of a ticket word that is tested** against a ticket of that slot. -/
structure TicketLoad where
  ticket : UInt32
  /-- The load belongs to a scan. -/
  scanning : Bool
  found : UInt32
  deriving DecidableEq, Repr

/-- The load finds the expected ticket. -/
def TicketLoad.accepts (l : TicketLoad) : Bool := !l.scanning && decide (l.found = l.ticket)

/-- The tickets found by the loads that look for the expected ticket, in order. -/
def foundTickets (loads : List TicketLoad) : List UInt32 :=
  (loads.filter TicketLoad.accepts).map TicketLoad.ticket

/-- One more load. -/
theorem foundTickets_append (loads : List TicketLoad) (l : TicketLoad) :
    foundTickets (loads ++ [l]) = foundTickets loads ++ if l.accepts then [l.ticket] else [] := by
  rw [foundTickets, foundTickets, List.filter_append, List.map_append]
  congr 1
  cases h : l.accepts <;> simp [h]

/-- **What is known of a pass**: where it started, its horizon hint, its loads of ticket words, the
lines it has printed, and the `rd_idx` it has stored. -/
structure PassRecord (P : Type) where
  start : UInt32
  hint : UInt32
  loads : List TicketLoad
  lines : List (Line P)
  stored : UInt32

namespace PassRecord

variable {P : Type}

/-- A pass about to start. -/
def startAt (start : UInt32) : PassRecord P := ⟨start, 0, [], [], start⟩

/-- The tickets the pass has accepted, in order. -/
def accepted (p : PassRecord P) : List UInt32 := acceptedTickets p.lines

/-- The number of tickets up to the horizon. -/
def span (p : PassRecord P) : ℕ := WrapCounter.span p.start p.hint

/-- One more load of a ticket word. -/
def load (p : PassRecord P) (l : TicketLoad) : PassRecord P := { p with loads := p.loads ++ [l] }

/-- One more line. -/
def print (p : PassRecord P) (l : Line P) : PassRecord P := { p with lines := p.lines ++ [l] }

/-- How far the pass has moved `rd_idx`. -/
def advance (p : PassRecord P) : ℕ := distFrom p.start p.stored

/-- **The law of one pass** whose horizon hint is at or past its start. -/
structure Healed {F : Type} [DecidableEq F] [Fieldwise P F] (R : TicketPool P F)
    (p : PassRecord P) : Prop where
  /-- Tickets are accepted going up from the start. -/
  increasing : p.accepted.Pairwise fun t u => distFrom p.start t < distFrom p.start u
  /-- None lies past the hint. -/
  inRange : ∀ t ∈ p.accepted, distFrom p.start t ≤ distFrom p.start p.hint
  /-- Each was found in its slot by the load that accepted it. -/
  found : p.accepted = foundTickets p.loads
  /-- A ticket that every load of its slot has found there is accepted. -/
  complete : ∀ t, distFrom p.start t ≤ distFrom p.start p.hint →
    (∀ l ∈ p.loads, R.slotIdx l.ticket = R.slotIdx t → l.found = t) → t ∈ p.accepted
  /-- The stored `rd_idx` is past every accepted ticket. -/
  storedPast : ∀ t ∈ p.accepted, distFrom p.start t + 1 ≤ p.advance
  /-- It lies between the start and one past the hint. -/
  storedWithin : p.advance ≤ distFrom p.start p.hint + 1

end PassRecord

namespace TicketPool

variable {P F : Type} [DecidableEq F] [Fieldwise P F] (R : TicketPool P F)

/-! ## The thread among producers that do as they like -/

/-- **The thread, its lane, the pass under way and the passes it has finished.** -/
structure HealState (P F : Type) where
  lane : TicketLane P
  thread : Consumer P F
  current : PassRecord P
  passes : List (PassRecord P)

/-- No thread has been started; `rd_idx` is anything. -/
def healInit (rdIdx : UInt32) : HealState P F where
  lane := { R.zeroLane with rdIdx := rdIdx }
  thread := R.idleConsumer
  current := .startAt rdIdx
  passes := []

/-- One step of the system. -/
inductive HealAction (P : Type)
  /-- Start a thread in skip-ahead mode. -/
  | start
  /-- One access, with what the producers have left in `wr_idx` and in the slots by then. -/
  | access (run : Bool) (wrIdx : UInt32) (slots : ℕ → Slot P)

/-- A step of the thread itself. -/
def HealAction.isAccess {P : Type} : HealAction P → Bool
  | .start => false
  | .access _ _ _ => true

/-- What an access adds to the record of the pass. -/
def recordAccess (lane : TicketLane P) (k : Consumer P F) (p : PassRecord P) : PassRecord P :=
  match k.pc with
  | .loop => .startAt k.expectedTicket
  | .loadHint => { p with hint := lane.wrIdx }
  | .loadTicket =>
      p.load ⟨k.expectedTicket, false, (lane.slots (R.slotIdx k.expectedTicket)).slotTicket⟩
  | .scanLoad scanTicket =>
      p.load ⟨scanTicket, true, (lane.slots (R.slotIdx scanTicket)).slotTicket⟩
  | .processField after slotTicket [] metric => p.print ⟨slotTicket, metric, after.accepted⟩
  | _ => p

/-- The store of `rd_idx` finishes the pass. -/
def recordPass (rdIdx : UInt32) (k : Consumer P F) (p : PassRecord P)
    (passes : List (PassRecord P)) : List (PassRecord P) :=
  match k.pc with
  | .storeRd => passes ++ [{ p with stored := rdIdx }]
  | _ => passes

/-- **One step.** -/
def healNext (s : HealState P F) : HealAction P → Option (HealState P F)
  | .start =>
      match s.thread.pc with
      | .terminated =>
          some { s with thread := { R.idleConsumer with mode := .skipAhead, pc := .raiseLoad } }
      | _ => none
  | .access run wrIdx slots =>
      let lane := { s.lane with wrIdx := wrIdx, slots := slots }
      (R.consumerStep run lane s.thread).map fun q =>
        { lane := q.1
          thread := q.2
          current := R.recordAccess lane s.thread s.current
          passes := recordPass q.1.rdIdx s.thread s.current s.passes }

end TicketPool

/-! ## How far a pass has come -/

namespace PassRecord

variable {P : Type} {p : PassRecord P} {n : ℕ} {pending : List UInt32}

/-- A load of ticket number `i` of the pass did not find it. -/
def Missed (p : PassRecord P) (i : ℕ) : Prop :=
  ∃ l ∈ p.loads, l.ticket = p.start + UInt32.ofNat i ∧ l.found ≠ l.ticket

/-- **The pass has settled its first `n` tickets**: each is accepted or was missed. The tickets in
`pending` have been found and their line is still to be printed. -/
structure Progress (p : PassRecord P) (n : ℕ) (pending : List UInt32) : Prop where
  le : n ≤ p.span
  increasing : p.accepted.Pairwise fun t u => distFrom p.start t < distFrom p.start u
  below : ∀ t ∈ p.accepted, distFrom p.start t < n
  found : foundTickets p.loads = p.accepted ++ pending
  settled : ∀ i < n, p.start + UInt32.ofNat i ∈ p.accepted ∨ p.Missed i

/-- **The pass has ended** `n` tickets past its start, with every later ticket missed. -/
structure Ended (p : PassRecord P) (n : ℕ) : Prop where
  progress : p.Progress n []
  rest : ∀ i, n ≤ i → i < p.span → p.Missed i
  stored : p.stored = p.start + UInt32.ofNat n

/-- Another load does not undo a miss. -/
theorem Missed.load {i : ℕ} (h : p.Missed i) (l : TicketLoad) : (p.load l).Missed i := by
  obtain ⟨m, hmem, hm⟩ := h
  exact ⟨m, List.mem_append_left _ hmem, hm⟩

/-- A load that finds something else is a miss. -/
theorem missed_load {i : ℕ} {l : TicketLoad} (ht : l.ticket = p.start + UInt32.ofNat i)
    (hne : l.found ≠ l.ticket) : (p.load l).Missed i :=
  ⟨l, List.mem_append_right _ (List.mem_singleton_self l), ht, hne⟩

/-- Nothing is settled at the start. -/
theorem progress_startAt (start hint : UInt32) :
    Progress { startAt (P := P) start with hint := hint } 0 [] where
  le := Nat.zero_le _
  increasing := List.Pairwise.nil
  below t ht := by cases ht
  found := rfl
  settled i hi := absurd hi (Nat.not_lt_zero i)

/-- **A load** settles nothing; what it finds is pending. -/
theorem Progress.load (h : p.Progress n []) (l : TicketLoad) :
    (p.load l).Progress n (if l.accepts then [l.ticket] else []) where
  le := h.le
  increasing := h.increasing
  below := h.below
  found := by
    rw [PassRecord.load, foundTickets_append, h.found, List.append_nil]
    rfl
  settled i hi := (h.settled i hi).imp id fun hm => hm.load l

/-- A line printed before the test changes nothing. -/
theorem Progress.print_none {l : Line P} (h : p.Progress n pending) (hl : l.accepted = none) :
    (p.print l).Progress n pending := by
  have hacc : (p.print l).accepted = p.accepted := by
    rw [accepted, accepted, print, acceptedTickets_concat, hl]
    exact List.append_nil _
  exact
    { le := h.le
      increasing := hacc ▸ h.increasing
      below := hacc ▸ h.below
      found := hacc ▸ h.found
      settled := hacc ▸ h.settled }

/-- **The line of an accepted ticket** settles it. -/
theorem Progress.print_some {l : Line P} {a : Accepted} (h : p.Progress n [a.ticket])
    (hl : l.accepted = some a) (ha : a.ticket = p.start + UInt32.ofNat n) (hn : n < p.span) :
    (p.print l).Progress (n + 1) [] := by
  have hacc : (p.print l).accepted = p.accepted ++ [a.ticket] := by
    rw [accepted, accepted, print, acceptedTickets_concat, hl]
    rfl
  have hdist : distFrom p.start a.ticket = n := by
    have hspan := span_le p.start p.hint
    rw [ha, distFrom_add _ (by rw [span] at hn; omega)]
  refine ⟨hn, ?_, ?_, ?_, ?_⟩
  · rw [hacc, List.pairwise_append]
    refine ⟨h.increasing, List.pairwise_singleton _ _, fun t ht u hu => ?_⟩
    rw [List.mem_singleton.mp hu]
    exact hdist ▸ h.below t ht
  · intro t ht
    rw [hacc, List.mem_append, List.mem_singleton] at ht
    rcases ht with hold | rfl
    · exact Nat.lt_succ_of_lt (h.below t hold)
    · exact Nat.lt_succ_of_le hdist.le
  · rw [hacc, List.append_nil]
    exact h.found
  · intro i hi
    rw [hacc]
    rcases Nat.lt_succ_iff_lt_or_eq.mp hi with hlt | rfl
    · exact (h.settled i hlt).imp (List.mem_append_left _) id
    · exact .inl (ha ▸ List.mem_append_right _ (List.mem_singleton_self _))

/-- **A healing leap** over missed tickets. -/
theorem Progress.leap {m : ℕ} (h : p.Progress n []) (hle : n ≤ m) (hm : m ≤ p.span)
    (hmissed : ∀ i, n ≤ i → i < m → p.Missed i) : p.Progress m [] where
  le := hm
  increasing := h.increasing
  below t ht := (h.below t ht).trans_le hle
  found := h.found
  settled i hi := (Nat.lt_or_ge i n).elim (h.settled i) fun hge => .inr (hmissed i hge hi)

/-- How far `rd_idx` was moved. -/
theorem Ended.advance (h : p.Ended n) : p.advance = n := by
  have hspan := span_le p.start p.hint
  have hle := h.progress.le
  rw [PassRecord.advance, h.stored, distFrom_add _ (by rw [span] at hle; omega)]

/-- **A pass that has ended obeys the law.** -/
theorem Ended.healed {F : Type} [DecidableEq F] [Fieldwise P F] {R : TicketPool P F}
    (h : p.Ended n) (hhint : atOrPast p.hint p.start = true) : p.Healed R := by
  have hspan : p.span = distFrom p.start p.hint + 1 := if_pos hhint
  have hle : n ≤ distFrom p.start p.hint + 1 := hspan ▸ h.progress.le
  refine ⟨h.progress.increasing, fun t ht => ?_, ?_, fun t ht hcarried => ?_, fun t ht => ?_, ?_⟩
  · have hlt := h.progress.below t ht
    omega
  · rw [h.progress.found, List.append_nil]
  · -- a ticket that was missed was not there at every load
    have hmissed : ¬ p.Missed (distFrom p.start t) := by
      rintro ⟨l, hl, hticket, hne⟩
      rw [add_distFrom] at hticket
      exact hne ((hcarried l hl (by rw [hticket])).trans hticket.symm)
    rcases Nat.lt_or_ge (distFrom p.start t) n with hlt | hge
    · have hacc := (h.progress.settled _ hlt).resolve_right hmissed
      rwa [add_distFrom] at hacc
    · exact absurd (h.rest _ hge (by omega)) hmissed
  · rw [h.advance]
    exact h.progress.below t ht
  · rw [h.advance]
    exact hle

end PassRecord

namespace TicketPool

variable {P F : Type} [DecidableEq F] [Fieldwise P F] {R : TicketPool P F}

/-! ## Where the thread stands -/

/-- A thread `n` tickets into the pass `p`, which started at `rd_idx`. -/
structure InPass (rdIdx : UInt32) (p : PassRecord P) (n : ℕ) (k : Consumer P F) : Prop where
  mode : k.mode = .skipAhead
  start : p.start = rdIdx
  expected : k.expectedTicket = p.start + UInt32.ofNat n
  hint : k.highestHint = p.hint

/-- What the thread goes on with, `n` tickets into the pass. -/
def Held (p : PassRecord P) (n : ℕ) : AfterProcess → Prop
  | .compare foundTicket _ => n < p.span ∧
      p.Progress n
        (if foundTicket = p.start + UInt32.ofNat n then [p.start + UInt32.ofNat n] else []) ∧
      (foundTicket ≠ p.start + UInt32.ofNat n → p.Missed n)
  | .scan scanTicket => p.Progress n [] ∧
      ∃ m, scanTicket = p.start + UInt32.ofNat m ∧ n < m ∧ m < p.span ∧
        ∀ i, n ≤ i → i < m → p.Missed i
  | .advance accepted => n < p.span ∧ accepted.ticket = p.start + UInt32.ofNat n ∧
      p.Progress n [accepted.ticket]

/-- **Where the thread stands** in its pass `p`, one case for each group of program points. -/
inductive HealAt (rdIdx : UInt32) (p : PassRecord P) (k : Consumer P F) : Prop
  | stopped : k.pc = .terminated ∨ k.pc = .clearLoad ∨ (∃ f, k.pc = .clearStore f) →
      HealAt rdIdx p k
  | raising : k.mode = .skipAhead →
      k.pc = .raiseLoad ∨ (∃ f, k.pc = .raiseStore f) ∨ k.pc = .loadRd → HealAt rdIdx p k
  | loop : k.pc = .loop → k.mode = .skipAhead → k.expectedTicket = rdIdx → HealAt rdIdx p k
  | hint : k.pc = .loadHint → k.mode = .skipAhead → k.expectedTicket = rdIdx →
      p = .startAt rdIdx → HealAt rdIdx p k
  | load {n : ℕ} : k.pc = .loadTicket → InPass rdIdx p n k → p.Progress n [] → n < p.span →
      HealAt rdIdx p k
  | holding {n : ℕ} {after : AfterProcess} : k.pc.holds = some after → InPass rdIdx p n k →
      Held p n after → HealAt rdIdx p k
  | store {n : ℕ} : k.pc = .storeRd → InPass rdIdx p n k → p.Progress n [] →
      (∀ i, n ≤ i → i < p.span → p.Missed i) → HealAt rdIdx p k

variable {rdIdx : UInt32} {p : PassRecord P} {n : ℕ} {k : Consumer P F}

section

omit [DecidableEq F] [Fieldwise P F]

/-- What an access does to the thread, its lane and its records. -/
structure AccessTo (rdIdx : UInt32) (p : PassRecord P) (k : Consumer P F) (lane' : TicketLane P)
    (p' : PassRecord P) (k' : Consumer P F) : Prop where
  at' : HealAt lane'.rdIdx p' k'
  kept : k.pc ≠ .storeRd → lane'.rdIdx = rdIdx
  ended : k.pc = .storeRd → p.start = rdIdx ∧ ∃ n, { p with stored := lane'.rdIdx }.Ended n

/-- An access other than the store of `rd_idx`. -/
theorem AccessTo.of_ne {lane' : TicketLane P} {p' : PassRecord P} {k' : Consumer P F}
    (hne : k.pc ≠ .storeRd) (hrd : lane'.rdIdx = rdIdx) (h : HealAt rdIdx p' k') :
    AccessTo rdIdx p k lane' p' k' :=
  ⟨hrd ▸ h, fun _ => hrd, fun heq => absurd heq hne⟩

/-- Only the store of `rd_idx` finishes a pass. -/
theorem recordPass_of_ne {rdIdx : UInt32} {k : Consumer P F} {p : PassRecord P}
    {passes : List (PassRecord P)} (h : k.pc ≠ .storeRd) :
    recordPass rdIdx k p passes = passes := by
  rw [recordPass]
  split
  · rename_i hpc
    exact absurd hpc h
  · rfl

/-- **At the head of a round** the thread loads the next ticket word, or is done with the pass. -/
theorem healAt_round {t : UInt32} (hin : InPass rdIdx p n (nextRound k t)) (h : p.Progress n []) :
    HealAt rdIdx p (nextRound k t) := by
  have hmode : k.mode = .skipAhead := hin.mode
  have hexpected : t = p.start + UInt32.ofNat n := hin.expected
  have hhint : k.highestHint = p.hint := hin.hint
  have htest := atOrPast_add_iff h.le
  have hpc : (nextRound k t).pc
      = if atOrPast p.hint (p.start + UInt32.ofNat n) then .loadTicket else .storeRd := by
    simp only [nextRound, roundHead, hmode, hhint, hexpected]
  by_cases hlt : n < p.span
  · rw [if_pos (htest.mpr hlt)] at hpc
    exact .load hpc hin h hlt
  · rw [if_neg (mt htest.mp hlt)] at hpc
    exact .store hpc hin h fun i hi hi' => absurd (hi.trans_lt hi') hlt

end

/-- **At the head of the scan loop** the thread goes on to the next ticket, or is done with the
pass, having missed all that are left. -/
theorem healAt_scan {m : ℕ} (hin : InPass rdIdx p n k) (h : p.Progress n []) (hlt : n < m)
    (hm : m ≤ p.span) (hmissed : ∀ i, n ≤ i → i < m → p.Missed i) :
    HealAt rdIdx p { k with pc := R.scanHead k (p.start + UInt32.ofNat m) } := by
  have htest := atOrPast_add_iff hm
  have hin' : InPass rdIdx p n { k with pc := R.scanHead k (p.start + UInt32.ofNat m) } :=
    ⟨hin.mode, hin.start, hin.expected, hin.hint⟩
  by_cases hspan : m < p.span
  · have hheld : Held p n (.scan (p.start + UInt32.ofNat m)) := ⟨h, m, rfl, hlt, hspan, hmissed⟩
    refine .holding ?_ hin' hheld
    simp only [scanHead, hin.hint, if_pos (htest.mpr hspan)]
    split <;> rfl
  · refine .store ?_ hin' h fun i hi hi' => hmissed i hi (by omega)
    simp only [scanHead, hin.hint, if_neg (mt htest.mp hspan)]

/-! ## One access -/

/-- Loading the ticket word of the expected ticket's slot. -/
theorem accessTo_load {run : Bool} {lane lane' : TicketLane P} {k' : Consumer P F}
    (hpc : k.pc = .loadTicket) (hin : InPass rdIdx p n k) (h : p.Progress n []) (hn : n < p.span)
    (hrd : lane.rdIdx = rdIdx) (hstep : R.consumerStep run lane k = some (lane', k')) :
    AccessTo rdIdx p k lane' (R.recordAccess lane k p) k' := by
  -- the word in hand is the one that is recorded, whether the slot is printed first or not
  have hmove : lane' = lane ∧ ∃ pc b, k' = { k with pc := pc } ∧
      pc.holds = some
        (.compare (lane.slots (R.slotIdx k.expectedTicket)).slotTicket b) := by
    have hview : view lane k = lane.slots := by rw [view, hin.mode]
    simp only [consumerStep, hpc, hview] at hstep
    split at hstep <;> cases hstep
    · exact ⟨rfl, .processTicket (.compare _ _), _, rfl, rfl⟩
    · exact ⟨rfl, .compare _ _, _, rfl, rfl⟩
  obtain ⟨rfl, pc, b, rfl, hholds⟩ := hmove
  have hrecord : R.recordAccess lane' k p = p.load
      ⟨k.expectedTicket, false, (lane'.slots (R.slotIdx k.expectedTicket)).slotTicket⟩ := by
    rw [recordAccess, hpc]
  refine .of_ne (by simp [hpc]) hrd
    (.holding (n := n) hholds ⟨hin.mode, ?_, ?_, ?_⟩ ⟨?_, ?_, ?_⟩) <;> rw [hrecord]
  · exact hin.start
  · exact hin.expected
  · exact hin.hint
  · exact hn
  · have hload := h.load
      ⟨k.expectedTicket, false, (lane'.slots (R.slotIdx k.expectedTicket)).slotTicket⟩
    simp only [TicketLoad.accepts, Bool.not_false, Bool.true_and, decide_eq_true_eq,
      hin.expected] at hload ⊢
    exact hload
  · intro hne
    exact PassRecord.missed_load hin.expected (hin.expected ▸ hne)

/-- Comparing the ticket word with the expected ticket. -/
theorem accessTo_compare {run : Bool} {lane lane' : TicketLane P} {k' : Consumer P F} {t : UInt32}
    {b : Option ℕ} (hpc : k.pc = .compare t b) (hin : InPass rdIdx p n k)
    (h : Held p n (.compare t b)) (hrd : lane.rdIdx = rdIdx)
    (hstep : R.consumerStep run lane k = some (lane', k')) :
    AccessTo rdIdx p k lane' (R.recordAccess lane k p) k' := by
  obtain ⟨hn, hprog, hmissed⟩ := h
  have hrecord : R.recordAccess lane k p = p := by rw [recordAccess, hpc]
  rw [hrecord]
  simp only [consumerStep, hpc] at hstep
  by_cases heq : t = k.expectedTicket
  · rw [if_pos heq] at hstep
    cases hstep
    rw [if_pos (heq.trans hin.expected)] at hprog
    refine .of_ne (by simp [hpc]) hrd
      (.holding rfl ⟨hin.mode, hin.start, hin.expected, hin.hint⟩ ⟨hn, hin.expected, ?_⟩)
    exact hin.expected ▸ hprog
  · rw [if_neg heq] at hstep
    cases hstep
    rw [hin.expected] at heq
    rw [if_neg heq] at hprog
    have hnext := healAt_scan (R := R) hin hprog (Nat.lt_succ_self n) hn fun i hi hi' =>
      (show i = n by omega) ▸ hmissed heq
    rw [add_ofNat_succ, ← hin.expected] at hnext
    have hmissing : R.missing k = R.scanHead k (k.expectedTicket + 1) := by
      rw [missing, hin.mode]
    refine .of_ne (by simp [hpc]) hrd ?_
    rw [hmissing]
    exact hnext

/-- Loading the ticket word of the slot scanned. -/
theorem accessTo_scanLoad {run : Bool} {lane lane' : TicketLane P} {k' : Consumer P F} {t : UInt32}
    (hpc : k.pc = .scanLoad t) (hin : InPass rdIdx p n k) (h : Held p n (.scan t))
    (hrd : lane.rdIdx = rdIdx) (hstep : R.consumerStep run lane k = some (lane', k')) :
    AccessTo rdIdx p k lane' (R.recordAccess lane k p) k' := by
  obtain ⟨hprog, m, ht, hlt, hm, hmissed⟩ := h
  let l : TicketLoad := ⟨t, true, (lane.slots (R.slotIdx t)).slotTicket⟩
  have hrecord : R.recordAccess lane k p = p.load l := by rw [recordAccess, hpc]
  have hin' : InPass rdIdx (p.load l) n k := ⟨hin.mode, hin.start, hin.expected, hin.hint⟩
  have hprog' : (p.load l).Progress n [] := hprog.load l
  have hmissed' : ∀ i, n ≤ i → i < m → (p.load l).Missed i :=
    fun i hi hi' => (hmissed i hi hi').load l
  rw [hrecord]
  simp only [consumerStep, hpc] at hstep
  by_cases hfound : (lane.slots (R.slotIdx t)).slotTicket = t
  · -- the leap: the ticket found becomes the expected one
    rw [if_pos hfound] at hstep
    cases hstep
    exact .of_ne (by simp [hpc]) hrd (healAt_round (n := m) ⟨hin.mode, hin.start, ht, hin.hint⟩
      (hprog'.leap hlt.le hm.le hmissed'))
  · rw [if_neg hfound] at hstep
    cases hstep
    have hnext := healAt_scan (R := R) hin' hprog' (m := m + 1) (by omega) hm fun i hi hi' => by
      rcases Nat.lt_succ_iff_lt_or_eq.mp hi' with hlt' | rfl
      · exact hmissed' i hi hlt'
      · exact PassRecord.missed_load ht hfound
    rw [add_ofNat_succ] at hnext
    refine .of_ne (by simp [hpc]) hrd ?_
    rw [ht]
    exact hnext

/-- Printing the line, at the end of the `process` function. -/
theorem accessTo_print {run : Bool} {lane lane' : TicketLane P} {k' : Consumer P F} {t : UInt32}
    {metric : P} {after : AfterProcess} (hpc : k.pc = .processField after t [] metric)
    (hin : InPass rdIdx p n k) (h : Held p n after) (hrd : lane.rdIdx = rdIdx)
    (hstep : R.consumerStep run lane k = some (lane', k')) :
    AccessTo rdIdx p k lane' (R.recordAccess lane k p) k' := by
  let l : Line P := ⟨t, metric, after.accepted⟩
  have hrecord : R.recordAccess lane k p = p.print l := by rw [recordAccess, hpc]
  rw [hrecord]
  simp only [consumerStep, hpc] at hstep
  cases hstep
  refine .of_ne (by simp [hpc]) hrd ?_
  cases after with
  | compare foundTicket stampedBy =>
      obtain ⟨hn, hprog, hmissed⟩ := h
      exact .holding rfl ⟨hin.mode, hin.start, hin.expected, hin.hint⟩
        ⟨hn, hprog.print_none rfl, hmissed⟩
  | scan scanTicket =>
      obtain ⟨hprog, hscan⟩ := h
      exact .holding rfl ⟨hin.mode, hin.start, hin.expected, hin.hint⟩
        ⟨hprog.print_none rfl, hscan⟩
  | advance accepted =>
      obtain ⟨hn, ht, hprog⟩ := h
      refine healAt_round (n := n + 1) ⟨hin.mode, hin.start, ?_, hin.hint⟩
        (hprog.print_some rfl ht hn)
      rw [add_ofNat_succ]
      exact congrArg (· + 1) hin.expected

/-- **One access keeps the thread where it should be.** -/
theorem HealAt.access {run : Bool} {lane lane' : TicketLane P} {k' : Consumer P F}
    (h : HealAt rdIdx p k) (hrd : lane.rdIdx = rdIdx)
    (hstep : R.consumerStep run lane k = some (lane', k')) :
    AccessTo rdIdx p k lane' (R.recordAccess lane k p) k' := by
  cases h with
  | stopped hpc =>
      rcases hpc with hpc | hpc | ⟨f, hpc⟩ <;> simp only [consumerStep, hpc] at hstep
      · cases hstep
      · cases hstep
        exact .of_ne (by simp [hpc]) hrd (.stopped (.inr (.inr ⟨_, rfl⟩)))
      · cases hstep
        exact .of_ne (by simp [hpc]) hrd (.stopped (.inl rfl))
  | raising hmode hpc =>
      rcases hpc with hpc | ⟨f, hpc⟩ | hpc <;> simp only [consumerStep, hpc] at hstep <;>
        cases hstep
      · exact .of_ne (by simp [hpc]) hrd (.raising hmode (.inr (.inl ⟨_, rfl⟩)))
      · exact .of_ne (by simp [hpc]) hrd (.raising hmode (.inr (.inr rfl)))
      · exact .of_ne (by simp [hpc]) hrd (.loop rfl hmode hrd)
  | loop hpc hmode hexp =>
      have hrecord : R.recordAccess lane k p = .startAt k.expectedTicket := by
        rw [recordAccess, hpc]
      rw [hrecord]
      simp only [consumerStep, hpc] at hstep
      cases hstep
      refine .of_ne (by simp [hpc]) hrd ?_
      cases run with
      | false => exact .stopped (.inr (.inl rfl))
      | true =>
          have hstart : passStart k = .loadHint := by rw [passStart, hmode]
          exact .hint hstart hmode hexp (by rw [hexp])
  | hint hpc hmode hexp hp =>
      have hrecord : R.recordAccess lane k p = { p with hint := lane.wrIdx } := by
        rw [recordAccess, hpc]
      rw [hrecord]
      simp only [consumerStep, hpc] at hstep
      cases hstep
      subst hp
      exact .of_ne (by simp [hpc]) hrd (healAt_round ⟨hmode, rfl, hexp.trans (add_zero _).symm, rfl⟩
        (PassRecord.progress_startAt rdIdx lane.wrIdx))
  | load hpc hin hprog hn => exact accessTo_load hpc hin hprog hn hrd hstep
  | holding hholds hin hheld =>
      cases hpc : k.pc with
      | compare t b =>
          rw [hpc] at hholds
          cases hholds
          exact accessTo_compare hpc hin hheld hrd hstep
      | scanLoad t =>
          rw [hpc] at hholds
          cases hholds
          exact accessTo_scanLoad hpc hin hheld hrd hstep
      | processTicket after =>
          rw [hpc] at hholds
          cases hholds
          have hrecord : R.recordAccess lane k p = p := by rw [recordAccess, hpc]
          rw [hrecord]
          simp only [consumerStep, hpc] at hstep
          cases hstep
          exact .of_ne (by simp [hpc]) hrd
            (.holding rfl ⟨hin.mode, hin.start, hin.expected, hin.hint⟩ hheld)
      | processField after t rest metric =>
          rw [hpc] at hholds
          cases hholds
          cases rest with
          | nil => exact accessTo_print hpc hin hheld hrd hstep
          | cons f rest =>
              have hrecord : R.recordAccess lane k p = p := by rw [recordAccess, hpc]
              rw [hrecord]
              simp only [consumerStep, hpc] at hstep
              cases hstep
              exact .of_ne (by simp [hpc]) hrd
                (.holding rfl ⟨hin.mode, hin.start, hin.expected, hin.hint⟩ hheld)
      | _ =>
          rw [hpc] at hholds
          cases hholds
  | store hpc hin hprog hrest =>
      have hrecord : R.recordAccess lane k p = p := by rw [recordAccess, hpc]
      rw [hrecord]
      simp only [consumerStep, hpc] at hstep
      cases hstep
      exact ⟨.loop rfl hin.mode rfl, fun hne => absurd hpc hne,
        fun _ => ⟨hin.start, _,
          ⟨hprog.le, hprog.increasing, hprog.below, hprog.found, hprog.settled⟩, hrest,
            hin.expected⟩⟩

end TicketPool

end TelemetrySubsystem
