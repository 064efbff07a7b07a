import TelemetrySubsystem.BlockFilter.Commit
import TelemetrySubsystem.NetFilter.Hook
import TelemetrySubsystem.TicketPool.Evidence
import TelemetrySubsystem.TicketPool.ThreadLeft
import TelemetrySubsystem.TicketPool.Tickets

/-! # No ticket is delivered twice

Consumer threads come and go, in either mode, while any number of producers go on. Every thread
starts where `rd_idx` was left, so all that the threads accept, one after another, is one increasing
sequence of tickets.

* **`position`** is the first ticket that has not been passed.
* **`DeliveryInv`** is the invariant; `DeliveryInv.step` is the step lemma of the thread.
* **`DeliversOnce`** is the law. -/

namespace TelemetrySubsystem

open ActionSystem
open Function (update)

namespace TicketPool

variable {P F : Type}

/-! ## The invariant -/

/-- **The first ticket that has not been passed**: `expected_ticket` during a pass and `rd_idx`
otherwise. -/
def position (lane : TicketLane P) (k : Consumer P F) : UInt32 :=
  if k.pc.passing then k.expectedTicket else lane.rdIdx

/-- **What has been delivered** is an increasing sequence of tickets, all of them passed. -/
structure DeliveryInv (lane : TicketLane P) (k : Consumer P F) : Prop where
  sorted : (acceptedTickets k.lines).Pairwise (· < ·)
  below : ∀ t ∈ acceptedTickets k.lines, t < position lane k
  rd_le : lane.rdIdx ≤ position lane k
  le_claimed : (position lane k).toNat ≤ max 1 lane.claimed
  loop : k.pc = .loop → k.expectedTicket = lane.rdIdx
  accepted : ∀ a, k.pc.accepted = some a →
    a.ticket = k.expectedTicket ∧ k.expectedTicket.toNat < max 1 lane.claimed

/-- Outside a pass no ticket is being processed. -/
theorem accepted_of_not_passing {pc : ConsumerPc P F} (h : pc.passing = false) :
    pc.accepted = none := by
  cases pc with
  | terminated | raiseLoad | raiseStore | loadRd | loop | clearLoad | clearStore => rfl
  | _ => cases h

section Moves

variable {lane lane' : TicketLane P} {k k' : Consumer P F}

/-- Steps that pass no ticket. -/
theorem DeliveryInv.same (h : DeliveryInv lane k) (hpos : position lane' k' = position lane k)
    (hrd : lane'.rdIdx ≤ position lane k) (hclaimed : lane'.claimed = lane.claimed)
    (hlines : acceptedTickets k'.lines = acceptedTickets k.lines)
    (hloop : k'.pc = .loop → k'.expectedTicket = lane'.rdIdx)
    (hacc : ∀ a, k'.pc.accepted = some a →
      a.ticket = k'.expectedTicket ∧ k'.expectedTicket.toNat < max 1 lane'.claimed) :
    DeliveryInv lane' k' := by
  refine ⟨hlines ▸ h.sorted, ?_, hpos ▸ hrd, ?_, hloop, hacc⟩
  · rw [hlines, hpos]
    exact h.below
  · rw [hpos, hclaimed]
    exact h.le_claimed

/-- Steps that stay outside the passes. -/
theorem DeliveryInv.outside (h : DeliveryInv lane k) (hk : k.pc.passing = false)
    (hk' : k'.pc.passing = false) (hrd : lane'.rdIdx = lane.rdIdx)
    (hclaimed : lane'.claimed = lane.claimed) (hlines : k'.lines = k.lines)
    (hloop : k'.pc = .loop → k'.expectedTicket = lane'.rdIdx) : DeliveryInv lane' k' := by
  have hpos : position lane' k' = position lane k := by simp [position, hk, hk', hrd]
  refine h.same hpos (hrd ▸ h.rd_le) hclaimed (hlines ▸ rfl) hloop fun a ha => ?_
  rw [accepted_of_not_passing hk'] at ha
  cases ha

/-- Steps inside a pass that keep the expected ticket. -/
theorem DeliveryInv.inside (h : DeliveryInv lane k) (hk : k.pc.passing = true)
    (hk' : k'.pc.passing = true) (hexp : k'.expectedTicket = k.expectedTicket)
    (hlines : acceptedTickets k'.lines = acceptedTickets k.lines)
    (hacc : ∀ a, k'.pc.accepted = some a →
      a.ticket = k'.expectedTicket ∧ k'.expectedTicket.toNat < max 1 lane.claimed) :
    DeliveryInv lane k' := by
  have hpos : position lane k' = position lane k := by simp [position, hk, hk', hexp]
  refine h.same hpos h.rd_le rfl hlines (fun hloop => ?_) hacc
  rw [hloop] at hk'
  cases hk'

/-- The expected ticket moves ahead inside a pass. -/
theorem DeliveryInv.ahead (h : DeliveryInv lane k) (hk : k.pc.passing = true)
    (hk' : k'.pc.passing = true) (hlt : k.expectedTicket < k'.expectedTicket)
    (hclaimed : k'.expectedTicket.toNat ≤ max 1 lane.claimed)
    (hlines : acceptedTickets k'.lines = acceptedTickets k.lines ∨
      acceptedTickets k'.lines = acceptedTickets k.lines ++ [k.expectedTicket])
    (hacc : k'.pc.accepted = none) : DeliveryInv lane k' := by
  have hpos : position lane k = k.expectedTicket := by rw [position, hk, if_pos rfl]
  have hpos' : position lane k' = k'.expectedTicket := by rw [position, hk', if_pos rfl]
  have hbelow := h.below
  rw [hpos] at hbelow
  have hrd := h.rd_le
  rw [hpos] at hrd
  refine ⟨?_, fun t ht => ?_, ?_, hpos' ▸ hclaimed, fun hloop => ?_, fun a ha => ?_⟩
  · rcases hlines with heq | heq <;> rw [heq]
    · exact h.sorted
    · exact List.pairwise_append.mpr ⟨h.sorted, List.pairwise_singleton _ _, fun t ht u hu => by
        rw [List.mem_singleton.mp hu]
        exact hbelow t ht⟩
  · rw [hpos']
    rcases hlines with heq | heq <;> rw [heq] at ht
    · exact UInt32.lt_trans (hbelow t ht) hlt
    · rcases List.mem_append.mp ht with ht | ht
      · exact UInt32.lt_trans (hbelow t ht) hlt
      · exact List.mem_singleton.mp ht ▸ hlt
  · rw [hpos']
    exact UInt32.le_of_lt (UInt32.lt_of_le_of_lt hrd hlt)
  · rw [hloop] at hk'
    cases hk'
  · rw [hacc] at ha
    cases ha

end Moves

variable [DecidableEq F] [Fieldwise P F] {R : TicketPool P F}

/-- **A step of the thread** keeps what has been delivered in order, when every ticket word in sight
is below the claimed tickets and every scan is ahead of the expected ticket. -/
theorem DeliveryInv.step {run : Bool} {lane lane' : TicketLane P} {k k' : Consumer P F}
    (h : DeliveryInv lane k) (hclaimed : lane.claimed ≤ 2 ^ 31)
    (hslots : ∀ i, (lane.slots i).slotTicket.toNat < max 1 lane.claimed)
    (hloaded : ∀ t b, k.pc.loaded = some (t, b) → t.toNat < max 1 lane.claimed)
    (hscan : ∀ t, k.pc.holds = some (.scan t) → k.expectedTicket < t)
    (hstep : R.consumerStep run lane k = some (lane', k')) : DeliveryInv lane' k' := by
  cases hpc : k.pc with
  | terminated =>
      simp only [consumerStep, hpc] at hstep
      cases hstep
  | raiseLoad | raiseStore | clearLoad | clearStore =>
      simp only [consumerStep, hpc] at hstep
      cases hstep
      exact h.outside (by rw [hpc]; rfl) rfl rfl rfl rfl fun hloop => by cases hloop
  | loadRd =>
      simp only [consumerStep, hpc] at hstep
      cases hstep
      exact h.outside (by rw [hpc]; rfl) rfl rfl rfl rfl fun _ => rfl
  | loop =>
      simp only [consumerStep, hpc] at hstep
      cases hstep
      cases run with
      | false => exact h.outside (by rw [hpc]; rfl) rfl rfl rfl rfl fun hloop => by cases hloop
      | true =>
          -- a pass starts at `rd_idx`
          have hexp := h.loop hpc
          have hpos : position lane { k with pc := passStart k } = position lane k := by
            simp [position, hpc, ConsumerPc.passing, hexp]
          refine h.same hpos h.rd_le rfl rfl (fun hloop => ?_) fun a ha => ?_
          · have hpass := passStart_passing k
            rw [show passStart k = _ from hloop] at hpass
            cases hpass
          · have ha : (passStart k).accepted = some a := ha
            rw [accepted_of_aside (passStart_aside k)] at ha
            cases ha
  | copy i w =>
      simp only [consumerStep, hpc] at hstep
      cases hstep
      refine h.inside (by rw [hpc]; rfl) (R.afterCopy_passing k i w) rfl rfl fun a ha => ?_
      rw [(afterCopy_holds R k i w).2] at ha
      cases ha
  | loadHint =>
      simp only [consumerStep, hpc] at hstep
      cases hstep
      refine h.inside (by rw [hpc]; rfl) (roundHead_passing _) rfl rfl fun a ha => ?_
      rw [nextRound, accepted_of_aside (roundHead_aside _)] at ha
      cases ha
  | loadTicket =>
      simp only [consumerStep, hpc] at hstep
      split at hstep <;> cases hstep <;>
        exact h.inside (by rw [hpc]; rfl) rfl rfl rfl fun a ha => by cases ha
  | compare t b =>
      simp only [consumerStep, hpc] at hstep
      split at hstep
      · rename_i heq
        cases hstep
        refine h.inside (by rw [hpc]; rfl) rfl rfl rfl fun a ha => ?_
        cases ha
        exact ⟨rfl, heq ▸ hloaded t b (by rw [hpc]; rfl)⟩
      · cases hstep
        refine h.inside (by rw [hpc]; rfl) (R.missing_passing k) rfl rfl fun a ha => ?_
        rw [accepted_of_aside (R.missing_aside k)] at ha
        cases ha
  | scanLoad t =>
      simp only [consumerStep, hpc] at hstep
      split at hstep
      · rename_i hfound
        cases hstep
        have hlt : k.expectedTicket < t := hscan t (by rw [hpc]; rfl)
        have hword := hslots (R.slotIdx t)
        rw [hfound] at hword
        exact h.ahead (by rw [hpc]; rfl) (roundHead_passing _) hlt hword.le (.inl rfl)
          (accepted_of_aside (roundHead_aside _))
      · cases hstep
        refine h.inside (by rw [hpc]; rfl) (R.scanHead_passing k _) rfl rfl fun a ha => ?_
        rw [accepted_of_aside (R.scanHead_aside k _)] at ha
        cases ha
  | processTicket after =>
      simp only [consumerStep, hpc] at hstep
      cases hstep
      exact h.inside (by rw [hpc]; rfl) rfl rfl rfl fun a ha => h.accepted a (by rw [hpc]; exact ha)
  | processField after t rest metric =>
      cases rest with
      | cons f rest =>
          simp only [consumerStep, hpc] at hstep
          cases hstep
          exact h.inside (by rw [hpc]; rfl) rfl rfl rfl fun a ha =>
            h.accepted a (by rw [hpc]; exact ha)
      | nil =>
          simp only [consumerStep, hpc] at hstep
          cases hstep
          cases after with
          | compare t' b =>
              exact h.inside (by rw [hpc]; rfl) rfl rfl
                (by simp [resume, AfterProcess.accepted, acceptedTickets_concat])
                fun a ha => by cases ha
          | scan t' =>
              exact h.inside (by rw [hpc]; rfl) rfl rfl
                (by simp [resume, AfterProcess.accepted, acceptedTickets_concat])
                fun a ha => by cases ha
          | advance accepted =>
              obtain ⟨hticket, hbelow⟩ := h.accepted accepted (by rw [hpc]; rfl)
              have hsucc : (k.expectedTicket + 1).toNat = k.expectedTicket.toNat + 1 := by
                rw [UInt32.toNat_add, UInt32.toNat_one]
                omega
              refine h.ahead (by rw [hpc]; rfl) (roundHead_passing _) ?_ ?_ (.inr ?_)
                (accepted_of_aside (roundHead_aside _))
              · rw [UInt32.lt_iff_toNat_lt]
                exact hsucc ▸ Nat.lt_succ_self _
              · exact hsucc ▸ hbelow
              · simp [resume, nextRound, AfterProcess.accepted, acceptedTickets_concat, hticket]
  | storeRd =>
      simp only [consumerStep, hpc] at hstep
      cases hstep
      -- and `rd_idx` is where it has ended
      have hpos : position lane k = k.expectedTicket := by rw [position, hpc]; rfl
      exact h.same hpos.symm (hpos ▸ UInt32.le_refl _) rfl rfl (fun _ => rfl) fun a ha => by
        cases ha

/-- **A scan is ahead of the expected ticket**, in a pass that starts below the sign bit. -/
theorem ThreadLeft.scan_ahead {rdIdx : UInt32} {k : Consumer P F} {n : ℕ} {t : UInt32}
    (h : ThreadLeft R rdIdx k n) (hrd : rdIdx.toNat ≤ 2 ^ 31)
    (hholds : k.pc.holds = some (.scan t)) : k.expectedTicket < t := by
  cases h with
  | terminated hpc | clearLoad hpc _ | clearStore hpc _ | loop hpc _ _ | loadRd hpc _
  | raiseStore hpc _ | raiseLoad hpc _ =>
      rw [hpc] at hholds
      cases hholds
  | pass hpass _ =>
      cases hpass with
      | scatterGather hat hk _ =>
          subst hk
          cases hat with
          | copying hpc | load hpc | store hpc =>
              rw [hpc] at hholds
              cases hholds
          | holding hholds' _ hheld =>
              cases hholds'.symm.trans hholds
              exact hheld.elim
      | @skipAhead p hat _ _ =>
          cases hat with
          | stopped hpc =>
              rcases hpc with hpc | hpc | ⟨f, hpc⟩ <;> rw [hpc] at hholds <;> cases hholds
          | raising _ hpc =>
              rcases hpc with hpc | ⟨f, hpc⟩ | hpc <;> rw [hpc] at hholds <;> cases hholds
          | loop hpc | hint hpc | load hpc | store hpc =>
              rw [hpc] at hholds
              cases hholds
          | @holding i after hholds' hin hheld =>
              cases hholds'.symm.trans hholds
              obtain ⟨-, m, rfl, hlt, hm, -⟩ := hheld
              have hspan : p.span ≤ 2 ^ 31 := WrapCounter.span_le p.start p.hint
              rw [hin.expected, hin.start, UInt32.lt_iff_toNat_lt, UInt32.toNat_add,
                UInt32.toNat_add, WrapCounter.toNat_ofNat, WrapCounter.toNat_ofNat]
              omega

end TicketPool

/-! ## Whole runs -/

namespace TicketPool

/-- What a producer does leaves the delivery alone. -/
theorem DeliveryInv.producer {P F : Type} {lane lane' : TicketLane P} {k : Consumer P F}
    (h : DeliveryInv lane k) (hrd : lane'.rdIdx = lane.rdIdx)
    (hclaimed : lane.claimed ≤ lane'.claimed) : DeliveryInv lane' k := by
  have hpos : position lane' k = position lane k := by rw [position, position, hrd]
  have hle : max 1 lane.claimed ≤ max 1 lane'.claimed := max_le_max_left 1 hclaimed
  refine ⟨h.sorted, hpos ▸ h.below, ?_, hpos ▸ h.le_claimed.trans hle, hrd ▸ h.loop, fun a ha => ?_⟩
  · rw [hrd, hpos]
    exact h.rd_le
  · exact (h.accepted a ha).imp_right fun hlt => hlt.trans_le hle

/-- A move claims at most one ticket, at the entry of a call. -/
theorem ProducerMove.claimed {P F : Type} [DecidableEq F] [Fieldwise P F] {R : TicketPool P F}
    {me : ℕ} {metric : Option P} {lane lane' : TicketLane P} {pc pc' : ProducerPc F}
    (h : R.ProducerMove me metric lane pc lane' pc') :
    lane'.claimed = lane.claimed ∨ pc = .entry ∧ lane'.claimed = lane.claimed + 1 := by
  cases h with
  | claim => exact .inr ⟨rfl, claim_claimed R lane⟩
  | _ => exact .inl rfl

end TicketPool

open TicketPool

variable {P F : Type} [DecidableEq F] [Fieldwise P F] {R : TicketPool P F} {calls : ℕ → Option P}

/-- Every ticket word in sight is below the claimed tickets, or is the 0 of the zeroed page. -/
theorem TicketInv.evidence_lt {s : PoolState P F} (h : TicketInv R calls s) {t : UInt32}
    {b : Option ℕ} (hev : Evidence s.producer t b) : t.toNat < max 1 s.lane.claimed := by
  cases b with
  | none =>
      rw [show t = 0 from hev]
      exact Nat.lt_of_lt_of_le Nat.zero_lt_one (le_max_left _ _)
  | some c => exact (h.ticket_lt c t (ProducerPc.ticket_of_stamped hev)).trans_le (le_max_right _ _)

/-- A step claims at most one ticket, below the bound. -/
theorem claimed_step {n : ℕ} {s s' : PoolState P F} {a : PoolAction} (hle : s.lane.claimed ≤ n)
    (hok : ClaimsBelow n s a) (hnext : R.poolNext calls s a = some s') :
    s.lane.claimed ≤ s'.lane.claimed ∧ s'.lane.claimed ≤ n := by
  obtain ⟨c, lane, pc, rfl, hmove, rfl⟩ | ⟨mode, -, -, rfl⟩ | ⟨run, lane, k, -, hmove, rfl⟩ :=
    poolNext_cases hnext
  · rcases hmove.claimed with heq | ⟨hentry, heq⟩ <;> simp only [heq]
    · exact ⟨le_rfl, hle⟩
    · exact ⟨Nat.le_succ _, hok hentry⟩
  · exact ⟨le_rfl, hle⟩
  · simp only [hmove.samePool.claimed]
    exact ⟨le_rfl, hle⟩

/-- **The invariant of a run** in which at most `2^31` tickets are claimed. -/
structure RunInv (R : TicketPool P F) (calls : ℕ → Option P) (s : PoolState P F) : Prop where
  tickets : TicketInv R calls s
  claimed : s.lane.claimed ≤ 2 ^ 31
  delivery : DeliveryInv s.lane s.consumer

/-- **The invariant holds in every state reached.** -/
theorem runInv_of_reachable (hcap : R.capacity < 2 ^ 32) {s : PoolState P F}
    (h : ReachableUnder (R.poolNext calls) (ClaimsBelow (2 ^ 31)) R.poolInit s) :
    RunInv R calls s := by
  induction h with
  | start =>
      exact ⟨TicketInv.init, Nat.zero_le _, .nil, fun t ht => (List.not_mem_nil ht).elim,
        UInt32.le_refl _, Nat.zero_le _, fun _ => rfl, fun a ha => by cases ha⟩
  | @step s s' a hreach hok hnext ih =>
      have hev := evidenceInv_of_reachable hreach
      have hthread := threadLeft_of_reachable hcap hreach
      obtain ⟨hmono, hle⟩ := claimed_step ih.claimed hok hnext
      have hok' : ClaimsBelow (2 ^ 32) s a := by
        cases a with
        | producer c => exact fun hentry => (hok hentry).trans (by decide)
        | _ => trivial
      refine ⟨ih.tickets.step hok' hnext, hle, ?_⟩
      cases a with
      | producer c =>
          obtain ⟨⟨lane, pc⟩, hstep, rfl⟩ := Option.map_eq_some_iff.mp hnext
          exact ih.delivery.producer (producerStep_move hstep).sameReader.2 hmono
      | spawn mode =>
          rw [poolNext] at hnext
          split at hnext <;> cases hnext
          rename_i hpc
          exact ih.delivery.outside (by rw [hpc]; rfl) rfl rfl rfl rfl fun hloop => by cases hloop
      | consumer run =>
          obtain ⟨⟨lane, k⟩, hstep, rfl⟩ := Option.map_eq_some_iff.mp hnext
          have hrd : s.lane.rdIdx.toNat ≤ 2 ^ 31 := by
            have hpos := ih.delivery.le_claimed
            have hrd := UInt32.le_iff_toNat_le.mp ih.delivery.rd_le
            have := ih.claimed
            omega
          exact ih.delivery.step ih.claimed (fun i => ih.tickets.evidence_lt (hev.slots i))
            (fun t b hb => ih.tickets.evidence_lt (hev.loaded t b hb))
            (fun t ht => hthread.scan_ahead hrd ht) hstep

/-! ## The law -/

/-- **No ticket is delivered twice** while at most `2^31` tickets are claimed. -/
structure DeliversOnce (R : TicketPool P F) (calls : ℕ → Option P) : Prop where
  /-- The tickets delivered, by all threads together, increase. -/
  increasing : ∀ s, ReachableUnder (R.poolNext calls) (ClaimsBelow (2 ^ 31)) R.poolInit s →
    (acceptedTickets s.consumer.lines).Pairwise (· < ·)
  /-- They have been claimed, apart from ticket 0, which a zeroed slot carries. -/
  claimed : ∀ s, ReachableUnder (R.poolNext calls) (ClaimsBelow (2 ^ 31)) R.poolInit s →
    ∀ t ∈ acceptedTickets s.consumer.lines, t.toNat < max 1 s.lane.claimed
  /-- No step moves `rd_idx` back, and it stays among the claimed tickets. -/
  rdIdx : ∀ s, ReachableUnder (R.poolNext calls) (ClaimsBelow (2 ^ 31)) R.poolInit s →
    s.lane.rdIdx.toNat ≤ max 1 s.lane.claimed ∧
      ∀ a s', R.poolNext calls s a = some s' → s.lane.rdIdx ≤ s'.lane.rdIdx

/-- Only the store at the end of a pass moves `rd_idx`. -/
theorem TicketPool.consumerStep_rdIdx {run : Bool} {lane lane' : TicketLane P}
    {k k' : Consumer P F} (hne : k.pc ≠ .storeRd)
    (hstep : R.consumerStep run lane k = some (lane', k')) : lane'.rdIdx = lane.rdIdx := by
  cases hpc : k.pc <;> simp only [consumerStep, hpc] at hstep
  case terminated => cases hstep
  case storeRd => exact absurd hpc hne
  case loadTicket | compare | scanLoad => split at hstep <;> cases hstep <;> rfl
  case processField after t rest metric => cases rest <;> cases hstep <;> rfl
  all_goals
    cases hstep
    rfl

/-- No step moves `rd_idx` back. -/
theorem rdIdx_le_step {s s' : PoolState P F} {a : PoolAction} (h : DeliveryInv s.lane s.consumer)
    (hnext : R.poolNext calls s a = some s') : s.lane.rdIdx ≤ s'.lane.rdIdx := by
  cases a with
  | producer c =>
      obtain ⟨⟨lane, pc⟩, hstep, rfl⟩ := Option.map_eq_some_iff.mp hnext
      simp only [(producerStep_move hstep).sameReader.2]
      exact UInt32.le_refl _
  | spawn mode =>
      rw [poolNext] at hnext
      split at hnext <;> cases hnext
      exact UInt32.le_refl _
  | consumer run =>
      obtain ⟨⟨lane, k⟩, hstep, rfl⟩ := Option.map_eq_some_iff.mp hnext
      by_cases hpc : s.consumer.pc = .storeRd
      · have hrd := h.rd_le
        rw [position, hpc] at hrd
        simp only [consumerStep, hpc] at hstep
        cases hstep
        exact hrd
      · simp only [consumerStep_rdIdx hpc hstep]
        exact UInt32.le_refl _

/-- A pool whose slots a 32-bit ticket can tell apart. -/
theorem deliversOnce_of_lt (hcap : R.capacity < 2 ^ 32) : DeliversOnce R calls where
  increasing := fun _ h => (runInv_of_reachable hcap h).delivery.sorted
  claimed := fun s h t ht => by
    have hinv := (runInv_of_reachable hcap h).delivery
    exact (UInt32.lt_iff_toNat_lt.mp (hinv.below t ht)).trans_le hinv.le_claimed
  rdIdx := fun s h => by
    have hinv := (runInv_of_reachable hcap h).delivery
    exact ⟨(UInt32.le_iff_toNat_le.mp hinv.rd_le).trans hinv.le_claimed,
      fun _ _ hnext => rdIdx_le_step hinv hnext⟩

/-- **No ticket is delivered twice**, on the net ring and on the block ring: not by one thread, not
by a later one, not in the other mode. -/
theorem deliversOnce (packets : ℕ → Option NetPacketMetric) (metrics : ℕ → Option BlockIoMetric) :
    DeliversOnce netPool packets ∧ DeliversOnce blockPool metrics :=
  ⟨deliversOnce_of_lt (by decide), deliversOnce_of_lt (by decide)⟩

/-- A thread in skip-ahead mode delivers two packets and ends; after a third packet a thread in
scatter-gather mode goes on. -/
def deliverByTwoThreads : List PoolAction :=
  List.replicate 9 (.producer 0) ++ List.replicate 9 (.producer 1)
    ++ .spawn .skipAhead :: List.replicate 47 (.consumer true) ++ List.replicate 3 (.consumer false)
    ++ List.replicate 9 (.producer 2)
    ++ .spawn .scatterGather :: List.replicate 150 (.consumer true)

/-- Three packets, delivered by two threads in different modes. -/
theorem deliversOnce_two_threads : ∃ s : PoolState NetPacketMetric NetField,
    ReachableUnder (netPool.poolNext fun _ => some samplePacket.metric) (ClaimsBelow (2 ^ 31))
        netPool.poolInit s ∧
      acceptedTickets s.consumer.lines = [0, 1, 2] ∧
      (acceptedTickets s.consumer.lines).Pairwise (· < ·) ∧
      s.lane.rdIdx.toNat ≤ max 1 s.lane.claimed := by
  have hrun : (exec (checked (netPool.poolNext fun _ => some samplePacket.metric)
      (claimsBelowCheck (2 ^ 31))) netPool.poolInit deliverByTwoThreads).map
        (fun s => acceptedTickets s.consumer.lines) = some [0, 1, 2] := by decide +kernel
  obtain ⟨s, hs, haccepted⟩ := Option.map_eq_some_iff.mp hrun
  have hreach : ReachableUnder (netPool.poolNext fun _ => some samplePacket.metric)
      (ClaimsBelow (2 ^ 31)) netPool.poolInit s :=
    .of_check (claimsBelow_of_check _) deliverByTwoThreads hs .start
  have honce := (deliversOnce (fun _ => some samplePacket.metric) fun _ => none).1
  exact ⟨s, hreach, haccepted, honce.increasing s hreach, (honce.rdIdx s hreach).1⟩

end TelemetrySubsystem
