import TelemetrySubsystem.BlockFilter.Commit
import TelemetrySubsystem.TicketPool.HealState

/-! # Hole healing drops nothing and repeats nothing

Whole runs of the skip-ahead engine of either client against any producers, with stops and restarts.

* **`TicketPool.accessesLeft`** bounds what is left of a pass; every access inside a pass uses some
  of it up.
* **`HealInv`** is the invariant of a run, and **`Passed`** what it says of the finished passes.
* **`holeHealing`**: every pass ends and obeys the law, each starts where the one before has stored,
  and no ticket is accepted twice before `rd_idx` has gone round once. -/

namespace TelemetrySubsystem

open ActionSystem WrapCounter TicketPool

/-- The program points of a skip-ahead pass. -/
def ConsumerPc.inPass {P F : Type} : ConsumerPc P F → Bool
  | .loadHint | .loadTicket | .compare _ _ | .scanLoad _ | .processTicket _
  | .processField _ _ _ _ | .storeRd => true
  | _ => false

namespace TicketPool

variable {P F : Type} [DecidableEq F] [Fieldwise P F] {R : TicketPool P F}

/-! ## Every pass ends -/

section Cost

variable (R)

/-- The accesses of one call of the `process` function. -/
def processCost : ℕ := R.fields.length + 2

/-- The accesses from the head of a round on, with `j` tickets up to the horizon. -/
def roundsCost (j : ℕ) : ℕ := 1 + j * (2 * R.processCost + 3)

/-- The accesses that follow the `process` function, or would follow it, `n` tickets into the
pass. -/
def afterCost (p : PassRecord P) (n : ℕ) : AfterProcess → ℕ
  | .compare _ _ => R.roundsCost (p.span - n - 1) + R.processCost + 2
  | .scan scanTicket => R.roundsCost (p.span - distFrom p.start scanTicket) + 1
  | .advance _ => R.roundsCost (p.span - n - 1)

/-- **A bound on the accesses that are left of a pass.** -/
def accessesLeft (p : PassRecord P) (k : Consumer P F) : ℕ :=
  match k.pc with
  | .loadHint => R.roundsCost (2 ^ 31) + 1
  | .loadTicket => R.roundsCost (p.span - distFrom p.start k.expectedTicket)
  | .compare foundTicket stampedBy =>
      R.afterCost p (distFrom p.start k.expectedTicket) (.compare foundTicket stampedBy)
  | .scanLoad scanTicket => R.afterCost p (distFrom p.start k.expectedTicket) (.scan scanTicket)
  | .processTicket after =>
      R.processCost + R.afterCost p (distFrom p.start k.expectedTicket) after
  | .processField after _ rest _ =>
      rest.length + 1 + R.afterCost p (distFrom p.start k.expectedTicket) after
  | .storeRd => 1
  | _ => 0

/-- One more ticket is one more round at most, and one more scan. -/
theorem roundsCost_succ (j : ℕ) :
    R.roundsCost (j + 1) = R.roundsCost j + 2 * R.processCost + 3 := by
  rw [roundsCost, roundsCost, Nat.add_mul]
  omega

/-- More tickets take longer. -/
theorem roundsCost_mono {i j : ℕ} (h : i ≤ j) : R.roundsCost i ≤ R.roundsCost j :=
  Nat.add_le_add_left (Nat.mul_le_mul_right _ h) 1

end Cost

variable {rdIdx : UInt32} {p : PassRecord P} {n : ℕ} {k : Consumer P F}

omit [DecidableEq F] [Fieldwise P F] in
/-- How far the expected ticket lies ahead of the start. -/
theorem InPass.dist (hin : InPass rdIdx p n k) (hn : n ≤ p.span) :
    distFrom p.start k.expectedTicket = n := by
  have hspan : p.span ≤ 2 ^ 31 := span_le p.start p.hint
  rw [hin.expected, distFrom_add _ (by omega)]

/-- What is left at the head of a round. -/
theorem accessesLeft_round {t : UInt32} (hin : InPass rdIdx p n (nextRound k t))
    (hn : n ≤ p.span) : (nextRound k t).pc.inPass = true ∧
      R.accessesLeft p (nextRound k t) ≤ R.roundsCost (p.span - n) := by
  have hdist := hin.dist hn
  have hmode : k.mode = .skipAhead := hin.mode
  have hpc : (nextRound k t).pc = if atOrPast k.highestHint t then .loadTicket else .storeRd := by
    simp only [nextRound, roundHead, hmode]
  split at hpc
  · rw [accessesLeft, hpc, hdist]
    exact ⟨rfl, le_rfl⟩
  · rw [accessesLeft, hpc]
    exact ⟨rfl, Nat.le_add_right 1 _⟩

/-- What is left at the head of a scan. -/
theorem accessesLeft_scan {m : ℕ} (hm : m ≤ p.span) :
    ConsumerPc.inPass (R.scanHead k (p.start + UInt32.ofNat m)) = true ∧
      R.accessesLeft p { k with pc := R.scanHead k (p.start + UInt32.ofNat m) }
        ≤ R.roundsCost (p.span - m) + R.processCost + 1 := by
  have hspan : p.span ≤ 2 ^ 31 := span_le p.start p.hint
  have hdist : distFrom p.start (p.start + UInt32.ofNat m) = m := distFrom_add _ (by omega)
  have hone : 1 ≤ R.roundsCost (p.span - m) := Nat.le_add_right 1 _
  rw [scanHead]
  split
  · split
    · refine ⟨rfl, ?_⟩
      simp only [accessesLeft, afterCost, hdist]
      omega
    · refine ⟨rfl, ?_⟩
      simp only [accessesLeft, afterCost, hdist]
      omega
  · refine ⟨rfl, ?_⟩
    simp only [accessesLeft]
    omega

variable (R) in
/-- Every access inside a pass can be made. -/
theorem exists_consumerStep (run : Bool) (lane : TicketLane P) (h : k.pc.inPass = true) :
    ∃ q, R.consumerStep run lane k = some q := by
  cases hpc : k.pc with
  | terminated =>
      rw [hpc] at h
      cases h
  | loadTicket | compare | scanLoad =>
      simp only [consumerStep, hpc]
      split <;> exact ⟨_, rfl⟩
  | processField after t rest metric =>
      cases rest <;> simp only [consumerStep, hpc] <;> exact ⟨_, rfl⟩
  | _ =>
      simp only [consumerStep, hpc]
      exact ⟨_, rfl⟩

/-- Once the hint is loaded, what is left does not depend on what the pass adds to its record. -/
theorem accessesLeft_record {lane : TicketLane P} {k' : Consumer P F} (hloop : k.pc ≠ .loop)
    (hhint : k.pc ≠ .loadHint) :
    R.accessesLeft (R.recordAccess lane k p) k' = R.accessesLeft p k' := by
  rw [recordAccess]
  split
  · exact absurd ‹_› hloop
  · exact absurd ‹_› hhint
  all_goals rfl

/-- Loading the ticket word of the expected ticket's slot leaves less. -/
theorem access_lt_load {run : Bool} {lane lane' : TicketLane P} {k' : Consumer P F}
    (hpc : k.pc = .loadTicket) (hin : InPass rdIdx p n k) (hn : n < p.span)
    (hstep : R.consumerStep run lane k = some (lane', k')) :
    k'.pc.inPass = true ∧ R.accessesLeft p k' < R.accessesLeft p k := by
  have hdist : distFrom p.start k.expectedTicket = n := hin.dist hn.le
  have hleft : R.accessesLeft p k
      = R.roundsCost (p.span - n - 1) + 2 * R.processCost + 3 := by
    rw [← roundsCost_succ, Nat.sub_add_cancel (by omega)]
    simp only [accessesLeft, hpc, hdist]
  rw [hleft]
  simp only [consumerStep, hpc] at hstep
  split at hstep <;> cases hstep <;> refine ⟨rfl, ?_⟩ <;>
    simp only [accessesLeft, afterCost, hdist] <;> omega

/-- Comparing the ticket word leaves less: a call of the `process` function, or a scan. -/
theorem access_lt_compare {run : Bool} {lane lane' : TicketLane P} {k' : Consumer P F} {t : UInt32}
    {b : Option ℕ} (hpc : k.pc = .compare t b) (hin : InPass rdIdx p n k) (hn : n < p.span)
    (hstep : R.consumerStep run lane k = some (lane', k')) :
    k'.pc.inPass = true ∧ R.accessesLeft p k' < R.accessesLeft p k := by
  have hdist : distFrom p.start k.expectedTicket = n := hin.dist hn.le
  have hleft : R.accessesLeft p k = R.roundsCost (p.span - n - 1) + R.processCost + 2 := by
    simp only [accessesLeft, hpc, afterCost, hdist]
  rw [hleft]
  simp only [consumerStep, hpc] at hstep
  split at hstep <;> cases hstep
  · refine ⟨rfl, ?_⟩
    simp only [accessesLeft, afterCost, hdist]
    omega
  · have hmissing : R.missing k = R.scanHead k (p.start + UInt32.ofNat (n + 1)) := by
      rw [missing, hin.mode, hin.expected, add_ofNat_succ]
    obtain ⟨hpass, hle⟩ := accessesLeft_scan (R := R) (k := k) (p := p) (m := n + 1) hn
    rw [← Nat.sub_sub] at hle
    rw [hmissing]
    exact ⟨hpass, by omega⟩

/-- Loading the ticket word of the slot scanned leaves less: a leap is to a ticket further on. -/
theorem access_lt_scanLoad {run : Bool} {lane lane' : TicketLane P} {k' : Consumer P F} {t : UInt32}
    (hpc : k.pc = .scanLoad t) (hin : InPass rdIdx p n k) (h : Held p n (.scan t))
    (hstep : R.consumerStep run lane k = some (lane', k')) :
    k'.pc.inPass = true ∧ R.accessesLeft p k' < R.accessesLeft p k := by
  obtain ⟨-, m, ht, -, hm, -⟩ := h
  have hspan : p.span ≤ 2 ^ 31 := span_le p.start p.hint
  have hdist : distFrom p.start t = m := by rw [ht, distFrom_add _ (by omega)]
  have hleft : R.accessesLeft p k = R.roundsCost (p.span - m) + 1 := by
    simp only [accessesLeft, hpc, afterCost, hdist]
  rw [hleft]
  simp only [consumerStep, hpc] at hstep
  split at hstep <;> cases hstep
  · have hin' : InPass rdIdx p m (nextRound k t) := ⟨hin.mode, hin.start, ht, hin.hint⟩
    obtain ⟨hpass, hle⟩ := accessesLeft_round (R := R) hin' hm.le
    exact ⟨hpass, by omega⟩
  · obtain ⟨hpass, hle⟩ := accessesLeft_scan (R := R) (k := k) (p := p) (m := m + 1) hm
    have hsucc := R.roundsCost_succ (p.span - m - 1)
    rw [Nat.sub_add_cancel (by omega)] at hsucc
    rw [← Nat.sub_sub] at hle
    rw [ht, add_assoc, ← UInt32.ofNat_one, ← UInt32.ofNat_add]
    exact ⟨hpass, by omega⟩

/-- Returning from the `process` function leaves less. -/
theorem access_lt_print {run : Bool} {lane lane' : TicketLane P} {k' : Consumer P F} {t : UInt32}
    {metric : P} {after : AfterProcess} (hpc : k.pc = .processField after t [] metric)
    (hin : InPass rdIdx p n k) (h : Held p n after)
    (hstep : R.consumerStep run lane k = some (lane', k')) :
    k'.pc.inPass = true ∧ R.accessesLeft p k' < R.accessesLeft p k := by
  simp only [consumerStep, hpc] at hstep
  cases hstep
  cases after with
  | compare foundTicket stampedBy =>
      refine ⟨rfl, ?_⟩
      simp only [resume, accessesLeft, afterCost, hpc]
      omega
  | scan scanTicket =>
      refine ⟨rfl, ?_⟩
      simp only [resume, accessesLeft, afterCost, hpc]
      omega
  | advance accepted =>
      obtain ⟨hn, -, -⟩ := h
      have hdist : distFrom p.start k.expectedTicket = n := hin.dist hn.le
      have hleft : R.accessesLeft p k = R.roundsCost (p.span - n - 1) + 1 := by
        simp only [accessesLeft, hpc, afterCost, hdist, List.length_nil]
        omega
      have hexpected : k.expectedTicket + 1 = p.start + UInt32.ofNat (n + 1) := by
        rw [add_ofNat_succ, ← hin.expected]
      have hin' : InPass rdIdx p (n + 1)
          (nextRound { k with lines := k.lines ++ [⟨t, metric, some accepted⟩] }
            (k.expectedTicket + 1)) :=
        ⟨hin.mode, hin.start, hexpected, hin.hint⟩
      obtain ⟨hpass, hle⟩ := accessesLeft_round (R := R) hin' hn
      rw [← Nat.sub_sub] at hle
      rw [hleft]
      exact ⟨hpass, Nat.lt_succ_of_le hle⟩

/-- **Every access inside a pass** short of the store of `rd_idx` stays in the pass and uses some of
it up. -/
theorem HealAt.access_lt {run : Bool} {lane lane' : TicketLane P} {k' : Consumer P F}
    (h : HealAt rdIdx p k) (hpass : k.pc.inPass = true) (hne : k.pc ≠ .storeRd)
    (hstep : R.consumerStep run lane k = some (lane', k')) :
    k'.pc.inPass = true ∧ R.accessesLeft (R.recordAccess lane k p) k' < R.accessesLeft p k := by
  cases h with
  | stopped hpc => rcases hpc with hpc | hpc | ⟨f, hpc⟩ <;> rw [hpc] at hpass <;> cases hpass
  | raising _ hpc => rcases hpc with hpc | ⟨f, hpc⟩ | hpc <;> rw [hpc] at hpass <;> cases hpass
  | loop hpc =>
      rw [hpc] at hpass
      cases hpass
  | store hpc => exact absurd hpc hne
  | hint hpc hmode hexp hp =>
      have hrecord : R.recordAccess lane k p = { p with hint := lane.wrIdx } := by
        rw [recordAccess, hpc]
      have hleft : R.accessesLeft p k = R.roundsCost (2 ^ 31) + 1 := by rw [accessesLeft, hpc]
      rw [hrecord, hleft]
      simp only [consumerStep, hpc] at hstep
      cases hstep
      subst hp
      have hspan : span rdIdx lane.wrIdx ≤ 2 ^ 31 := span_le _ _
      have hcost := R.roundsCost_mono hspan
      have hin' : InPass rdIdx { PassRecord.startAt (P := P) rdIdx with hint := lane.wrIdx } 0
          (nextRound { k with highestHint := lane.wrIdx } k.expectedTicket) :=
        ⟨hmode, rfl, hexp.trans (add_zero _).symm, rfl⟩
      obtain ⟨hpass, hle⟩ := accessesLeft_round (R := R) hin' (Nat.zero_le _)
      exact ⟨hpass, Nat.lt_succ_of_le (hle.trans hcost)⟩
  | load hpc hin hprog hn =>
      rw [accessesLeft_record (by simp [hpc]) (by simp [hpc])]
      exact access_lt_load hpc hin hn hstep
  | holding hholds hin hheld =>
      rw [accessesLeft_record (fun hpc => by rw [hpc] at hholds; cases hholds)
        (fun hpc => by rw [hpc] at hholds; cases hholds)]
      cases hpc : k.pc with
      | compare t b =>
          rw [hpc] at hholds
          cases hholds
          exact access_lt_compare hpc hin hheld.1 hstep
      | scanLoad t =>
          rw [hpc] at hholds
          cases hholds
          exact access_lt_scanLoad hpc hin hheld hstep
      | processTicket after =>
          simp only [consumerStep, hpc] at hstep
          cases hstep
          refine ⟨rfl, ?_⟩
          simp only [accessesLeft, hpc, processCost]
          omega
      | processField after t rest metric =>
          rw [hpc] at hholds
          cases hholds
          cases rest with
          | nil => exact access_lt_print hpc hin hheld hstep
          | cons f rest =>
              simp only [consumerStep, hpc] at hstep
              cases hstep
              refine ⟨rfl, ?_⟩
              simp only [accessesLeft, hpc, List.length_cons]
              omega
      | _ =>
          rw [hpc] at hholds
          cases hholds

/-! ## Whole runs -/

/-- **Passes that follow each other** from `e` on, each starting at the `rd_idx` the one before has
stored, up to the present `rd_idx`. -/
inductive Passed (e : UInt32) : List (PassRecord P) → UInt32 → Prop
  | nil : Passed e [] e
  | snoc {ps : List (PassRecord P)} {p : PassRecord P} {n : ℕ} : Passed e ps p.start → p.Ended n →
      Passed e (ps ++ [p]) p.stored

/-- **The invariant**: the thread stands where it should, and the passes follow each other. -/
structure HealInv (e : UInt32) (s : HealState P F) : Prop where
  at' : HealAt s.lane.rdIdx s.current s.thread
  passed : Passed e s.passes s.lane.rdIdx

/-- Before the first thread is started. -/
theorem healInv_init (e : UInt32) : HealInv e (R.healInit e) := ⟨.stopped (.inl rfl), .nil⟩

/-- A thread is started while none is running. -/
theorem HealInv.start {e : UInt32} {s s' : HealState P F} (h : HealInv e s)
    (hnext : R.healNext s .start = some s') : HealInv e s' := by
  simp only [healNext] at hnext
  split at hnext
  · cases hnext
    exact ⟨.raising rfl (.inl rfl), h.passed⟩
  · cases hnext

/-- **One step keeps the invariant.** -/
theorem HealInv.next {e : UInt32} {s s' : HealState P F} {a : HealAction P} (h : HealInv e s)
    (hnext : R.healNext s a = some s') : HealInv e s' := by
  cases a with
  | start => exact h.start hnext
  | access run wrIdx slots =>
      obtain ⟨q, hstep, rfl⟩ := Option.map_eq_some_iff.mp hnext
      have hrd : { s.lane with wrIdx := wrIdx, slots := slots }.rdIdx = s.lane.rdIdx := rfl
      have haccess := h.at'.access hrd hstep
      refine ⟨haccess.at', ?_⟩
      by_cases hpc : s.thread.pc = .storeRd
      · obtain ⟨hstart, n, hended⟩ := haccess.ended hpc
        have hpass : recordPass q.1.rdIdx s.thread s.current s.passes
            = s.passes ++ [{ s.current with stored := q.1.rdIdx }] := by rw [recordPass, hpc]
        rw [hpass]
        refine Passed.snoc (p := { s.current with stored := q.1.rdIdx }) ?_ hended
        exact hstart ▸ h.passed
      · rw [recordPass_of_ne hpc, haccess.kept hpc]
        exact h.passed

/-- **The invariant holds in every state reached.** -/
theorem healInv_of_reachable {e : UInt32} {s : HealState P F}
    (h : Reachable R.healNext (R.healInit e) s) : HealInv e s :=
  h.invariant (healInv_init e) fun _ _ _ hs _ hnext => hs.next hnext

/-- **Every pass ends**: whatever the accesses find, the store of `rd_idx` is among them. -/
theorem HealInv.pass_ends {e : UInt32} {s : HealState P F} (h : HealInv e s)
    (hpass : s.thread.pc.inPass = true) (as : List (HealAction P))
    (has : ∀ a ∈ as, a.isAccess = true)
    (hlen : R.accessesLeft s.current s.thread < as.length) :
    ∃ bs s', bs <+: as ∧ exec R.healNext s bs = some s' ∧
      s'.passes.length = s.passes.length + 1 := by
  refine exists_prefix_of_rank (p := fun a => a.isAccess = true)
    (I := fun t => HealInv e t ∧ t.thread.pc.inPass = true ∧ t.passes.length = s.passes.length)
    (fun t => R.accessesLeft t.current t.thread) ?_ as has ⟨h, hpass, rfl⟩ hlen
  rintro t a ⟨hinv, hin, hcount⟩ ha
  cases a with
  | start => cases ha
  | access run wrIdx slots =>
      obtain ⟨q, hstep⟩ := R.exists_consumerStep run
        { t.lane with wrIdx := wrIdx, slots := slots } hin
      have hnext : R.healNext t (.access run wrIdx slots) = some _ :=
        Option.map_eq_some_iff.mpr ⟨q, hstep, rfl⟩
      refine ⟨_, hnext, ?_⟩
      by_cases hpc : t.thread.pc = .storeRd
      · left
        simp only [recordPass, hpc, List.length_append, List.length_singleton, hcount]
      · right
        obtain ⟨hin', hlt⟩ := hinv.at'.access_lt hin hpc hstep
        refine ⟨⟨hinv.next hnext, hin', ?_⟩, hlt⟩
        simp only [recordPass_of_ne hpc, hcount]

/-! ## What follows for the passes -/

/-- Every pass has ended as it should. -/
theorem Passed.ended {e rdIdx : UInt32} {ps : List (PassRecord P)} (h : Passed e ps rdIdx) :
    ∀ p ∈ ps, ∃ n, p.Ended n := by
  induction h with
  | nil =>
      intro p hp
      cases hp
  | snoc _ hended ih =>
      intro p hp
      rw [List.mem_append, List.mem_singleton] at hp
      rcases hp with hold | rfl
      · exact ih p hold
      · exact ⟨_, hended⟩

/-- Every pass starts where the one before has stored. -/
theorem Passed.starts {e rdIdx : UInt32} {ps : List (PassRecord P)} (h : Passed e ps rdIdx) :
    ps.map PassRecord.start ++ [rdIdx] = e :: ps.map PassRecord.stored := by
  induction h with
  | nil => rfl
  | snoc _ _ ih =>
      rw [List.map_append, List.map_append, List.map_singleton, List.map_singleton, ih]
      rfl

/-- The accepted tickets of a pass as distances from a word `n` tickets before its start. -/
theorem accepted_eq_map {e : UInt32} {T : ℕ} {p : PassRecord P}
    (hstart : p.start = e + UInt32.ofNat T) :
    p.accepted = (p.accepted.map fun t => T + distFrom p.start t).map
      fun c => e + UInt32.ofNat c := by
  have hcount : ∀ t, e + UInt32.ofNat (T + distFrom p.start t) = t := by
    intro t
    rw [UInt32.ofNat_add, ← UInt32.add_assoc, ← hstart, add_distFrom]
  rw [List.map_map]
  conv_lhs => rw [← List.map_id p.accepted]
  exact List.map_congr_left fun t _ => (hcount t).symm

/-- **Counted without wrapping, the tickets accepted by all passes go up**, and `rd_idx` is past
them all. -/
theorem Passed.counts {e rdIdx : UInt32} {ps : List (PassRecord P)} (h : Passed e ps rdIdx) :
    rdIdx = e + UInt32.ofNat (ps.map PassRecord.advance).sum ∧ ∃ counts : List ℕ,
      counts.Pairwise (· < ·) ∧ (∀ c ∈ counts, c < (ps.map PassRecord.advance).sum) ∧
      ps.flatMap PassRecord.accepted = counts.map fun c => e + UInt32.ofNat c := by
  induction h with
  | nil => exact ⟨(add_zero e).symm, [], List.Pairwise.nil, by simp, rfl⟩
  | @snoc ps p n _ hended ih =>
      obtain ⟨hstart, counts, hsorted, hbelow, heq⟩ := ih
      have hadvance := hended.advance
      rw [List.map_append, List.sum_append, List.map_singleton, List.sum_singleton, hadvance]
      refine ⟨?_, counts ++ p.accepted.map fun t => (ps.map PassRecord.advance).sum
        + distFrom p.start t, ?_, ?_, ?_⟩
      · rw [hended.stored, UInt32.ofNat_add, ← UInt32.add_assoc, ← hstart]
      · rw [List.pairwise_append]
        refine ⟨hsorted, ?_, fun c hc d hd => ?_⟩
        · exact List.pairwise_map.mpr
            (hended.progress.increasing.imp fun hlt => Nat.add_lt_add_left hlt _)
        · obtain ⟨t, -, rfl⟩ := List.mem_map.mp hd
          exact (hbelow c hc).trans_le (Nat.le_add_right _ _)
      · intro c hc
        rcases List.mem_append.mp hc with hold | hnew
        · exact (hbelow c hold).trans_le (Nat.le_add_right _ _)
        · obtain ⟨t, ht, rfl⟩ := List.mem_map.mp hnew
          exact Nat.add_lt_add_left (hended.progress.below t ht) _
      · rw [List.flatMap_append, heq, List.map_append, ← accepted_eq_map hstart,
          List.flatMap_singleton]

/-- **No ticket twice before the wrap.** -/
theorem Passed.nodup {e rdIdx : UInt32} {ps : List (PassRecord P)} (h : Passed e ps rdIdx)
    (hwrap : (ps.map PassRecord.advance).sum ≤ 2 ^ 32) :
    (ps.flatMap PassRecord.accepted).Nodup := by
  obtain ⟨-, counts, hsorted, hbelow, heq⟩ := h.counts
  rw [heq]
  refine List.Nodup.map_on (fun c hc d hd hcd => ?_) (hsorted.imp fun hlt => hlt.ne)
  have hcount := congrArg (distFrom e) hcd
  rwa [distFrom_add e ((hbelow c hc).trans_le hwrap),
    distFrom_add e ((hbelow d hd).trans_le hwrap)] at hcount

/-! ## The law -/

/-- **Hole healing drops nothing that is there and repeats nothing**, on the slots of either client
and whatever the producers do. Every pass whose hint is at or past its start accepts tickets going
up from the start and up to the hint, each found in its slot by the load that accepted it, misses
none that every load of its slot has found there, and stores an `rd_idx` past all of them; every
pass, also of a thread started anew, starts at the `rd_idx` stored last; no ticket is accepted twice
until `rd_idx` has gone round; and a pass under way ends, whatever its accesses find. -/
theorem holeHealing (R : TicketPool P F) (rdIdx : UInt32) (s : HealState P F)
    (h : Reachable R.healNext (R.healInit rdIdx) s) :
    (∀ p ∈ s.passes, atOrPast p.hint p.start = true → p.Healed R) ∧
      s.passes.map PassRecord.start ++ [s.lane.rdIdx] = rdIdx :: s.passes.map PassRecord.stored ∧
      ((s.passes.map PassRecord.advance).sum ≤ 2 ^ 32 →
        (s.passes.flatMap PassRecord.accepted).Nodup) ∧
      (s.thread.pc.inPass = true → ∀ as : List (HealAction P), (∀ a ∈ as, a.isAccess = true) →
        R.accessesLeft s.current s.thread < as.length →
        ∃ bs s', bs <+: as ∧ exec R.healNext s bs = some s' ∧
          s'.passes.length = s.passes.length + 1) := by
  have hinv := healInv_of_reachable h
  refine ⟨fun p hp hhint => ?_, hinv.passed.starts, hinv.passed.nodup, hinv.pass_ends⟩
  obtain ⟨n, hended⟩ := hinv.passed.ended p hp
  exact hended.healed hhint

/-- Block slots with ticket `t` in slot 2; slot 1 is a lap ahead of the consumer. -/
def healingSlots (t : UInt32) (i : ℕ) : Slot BlockIoMetric :=
  ⟨sampleBlockMetric, if i = 1 then 9 else if i = 2 then t else UInt32.ofNat i, none⟩

/-- A pass that leaps over ticket 1 to find that ticket 2 has gone as well, a stop, and a second
pass that finds ticket 2 back in its slot. -/
def healingRun : List (HealAction BlockIoMetric) :=
  [.start] ++ List.replicate 20 (.access true 2 (healingSlots 2)) ++
    [.access true 2 (healingSlots 10)] ++ List.replicate 2 (.access true 2 (healingSlots 2)) ++
    List.replicate 3 (.access false 2 (healingSlots 2)) ++ [.start] ++
    List.replicate 18 (.access true 2 (healingSlots 2))

/-- The passes of this run accept 0, and then 2. -/
theorem holeHealing_leap : ∃ s : HealState BlockIoMetric BlockField,
    Reachable blockPool.healNext (blockPool.healInit 0) s ∧
      s.passes.map (fun p => (p.start, p.accepted, p.stored)) = [(0, [0], 2), (2, [2], 3)] ∧
      ∀ p ∈ s.passes, atOrPast p.hint p.start = true → p.Healed blockPool := by
  have hrun : ((exec blockPool.healNext (blockPool.healInit 0) healingRun).map fun s =>
      s.passes.map fun p => (p.start, p.accepted, p.stored))
        = some [(0, [0], 2), (2, [2], 3)] := by decide +kernel
  obtain ⟨s, hexec, hs⟩ := Option.map_eq_some_iff.mp hrun
  have hreach : Reachable blockPool.healNext (blockPool.healInit 0) s :=
    Reachable.of_exec healingRun hexec
  exact ⟨s, hreach, hs, (holeHealing blockPool 0 s hreach).1⟩

end TicketPool

end TelemetrySubsystem
