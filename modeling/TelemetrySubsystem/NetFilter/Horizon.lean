import TelemetrySubsystem.TicketPool.Tickets
import TelemetrySubsystem.NetFilter.Hook

/-! # The net horizon under concurrent hooks

`net_ctl.tx.wr_idx` is documented as the highest completed ticket hint. Every hook call swaps in its
own slot number plus one, and the test that should refuse a late swap never does.

* **`HorizonKept`**: the horizon does not move backwards, and when no call is in flight it lies past
  every ticket that has completed.
* **`HintsInOrder`** is the condition on a step: a swap that succeeds is by a call of the first lap,
  and no call with a later ticket has swapped its hint.
* **`horizonKept_of_reachable`**: the horizon is kept along every run whose steps meet it.
* **`late_swap_moves_back`**: without it, a late swap takes the horizon back. -/

namespace TelemetrySubsystem

open ActionSystem TicketPool WrapCounter
open Function (update)

/-- The horizon does not move backwards in a step admitted by `ok`, and when no call is in flight it
lies past the ticket of every completed call. -/
structure HorizonKept (packets : ℕ → Option SkBuff)
    (ok : PoolState NetPacketMetric NetField → PoolAction → Prop)
    (s : PoolState NetPacketMetric NetField) : Prop where
  wrIdx_le : ∀ a s', ok s a → netNext packets s a = some s' → s.lane.wrIdx ≤ s'.lane.wrIdx
  past : Quiescent s → ∀ c t, s.producer c = .done (some t) → t < s.lane.wrIdx

/-- **The condition on a step**: when a `cmpxchg` succeeds, its call has a ticket below the
capacity, and no call with a later ticket has swapped in its hint. -/
def HintsInOrder (s : PoolState NetPacketMetric NetField) : PoolAction → Prop
  | .producer c => ∀ t, s.producer c = .hintSwap t s.lane.wrIdx →
      t.toNat < netfilterSlotCapacity ∧ ∀ c' t', s.producer c' = .done (some t') → t' ≤ t
  | _ => True

/-! ## The invariant -/

/-- **The invariant**: the horizon is 0 or one past the ticket of some completed call, and it is
past the ticket of every completed call. -/
structure HorizonInv (s : PoolState NetPacketMetric NetField) : Prop where
  from_call : s.lane.wrIdx = 0 ∨ ∃ c t, s.producer c = .done (some t) ∧
    s.lane.wrIdx.toNat = t.toNat + 1
  past : ∀ c t, s.producer c = .done (some t) → t < s.lane.wrIdx

/-- The hint of a call of the first lap is its ticket plus one. -/
theorem slotWord_succ_toNat {t : UInt32} (ht : t.toNat < netfilterSlotCapacity) :
    (netPool.slotWord t + 1).toNat = t.toNat + 1 := by
  have hcap : netfilterSlotCapacity = 24 := rfl
  have hidx : netPool.slotIdx t = t.toNat := Nat.mod_eq_of_lt ht
  rw [slotWord, hidx, UInt32.ofNat_toNat, UInt32.toNat_add, UInt32.toNat_one]
  omega

/-- **What a move does to the horizon**: it swaps in its hint, or it leaves the horizon alone and
completes no call with a ticket. -/
theorem netPool_wrIdx {me : ℕ} {metric : Option NetPacketMetric}
    {lane lane' : TicketLane NetPacketMetric} {pc pc' : ProducerPc NetField}
    (h : netPool.ProducerMove me metric lane pc lane' pc') :
    (∃ t, pc = .hintSwap t lane.wrIdx ∧ lane'.wrIdx = netPool.slotWord t + 1 ∧
        pc' = .done (some t)) ∨
      (lane'.wrIdx = lane.wrIdx ∧ ∀ t, pc' ≠ .done (some t)) := by
  cases h with
  | swap => exact .inl ⟨_, rfl, rfl, rfl⟩
  | leave | claim | store | stamp | reload => exact .inr ⟨rfl, nofun⟩

/-- A call that has completed takes no further step. -/
theorem ProducerMove.not_done {me : ℕ} {metric : Option NetPacketMetric}
    {lane lane' : TicketLane NetPacketMetric} {pc pc' : ProducerPc NetField}
    (h : netPool.ProducerMove me metric lane pc lane' pc') (t : Option UInt32) : pc ≠ .done t := by
  cases h with
  | reload hpc => rcases hpc with rfl | ⟨_, rfl⟩ <;> exact nofun
  | leave | claim | store | stamp | swap => exact nofun

/-- A swap in order moves the horizon forward. -/
theorem HorizonInv.swap_le {s : PoolState NetPacketMetric NetField} (h : HorizonInv s) {t : UInt32}
    (ht : t.toNat < netfilterSlotCapacity)
    (hlate : ∀ c' t', s.producer c' = .done (some t') → t' ≤ t) :
    s.lane.wrIdx ≤ netPool.slotWord t + 1 := by
  rw [UInt32.le_iff_toNat_le, slotWord_succ_toNat ht]
  rcases h.from_call with hzero | ⟨c', t', hdone, hwr⟩
  · rw [hzero]
    exact Nat.zero_le _
  · -- the horizon stems from a completed call, and that one has no later ticket
    have hle := UInt32.le_iff_toNat_le.mp (hlate c' t' hdone)
    omega

/-- **A producer's step keeps the invariant**, when it meets the condition. -/
theorem HorizonInv.producer_step {s : PoolState NetPacketMetric NetField} (h : HorizonInv s) {c : ℕ}
    (hok : HintsInOrder s (.producer c)) {metric : Option NetPacketMetric}
    {lane : TicketLane NetPacketMetric} {pc : ProducerPc NetField}
    (hmove : netPool.ProducerMove c metric s.lane (s.producer c) lane pc) :
    HorizonInv { s with lane := lane, producer := update s.producer c pc } := by
  rcases netPool_wrIdx hmove with ⟨t, hpc, hwr, rfl⟩ | ⟨hwr, hno⟩
  · -- a swap in order: the new hint is one past the latest ticket
    obtain ⟨ht, hlate⟩ := hok t hpc
    have hnew : lane.wrIdx.toNat = t.toNat + 1 := by rw [hwr, slotWord_succ_toNat ht]
    refine ⟨.inr ⟨c, t, Function.update_self _ _ _, hnew⟩, fun c' t' hdone => ?_⟩
    rw [UInt32.lt_iff_toNat_lt, hnew]
    by_cases heq : c' = c
    · subst heq
      simp only [Function.update_self] at hdone
      cases hdone
      exact Nat.lt_succ_self _
    · simp only [Function.update_of_ne heq] at hdone
      exact Nat.lt_succ_of_le (UInt32.le_iff_toNat_le.mp (hlate c' t' hdone))
  · -- no swap: the horizon and the completed calls are those of before
    have hdone : ∀ c' t, update s.producer c pc c' = .done (some t) ↔
        s.producer c' = .done (some t) := by
      intro c' t
      by_cases heq : c' = c
      · subst heq
        rw [Function.update_self]
        exact ⟨fun hpc => absurd hpc (hno t), fun hpc => absurd hpc (ProducerMove.not_done hmove _)⟩
      · rw [Function.update_of_ne heq]
    refine ⟨?_, fun c' t hpc => ?_⟩
    · simp only [hwr, hdone]
      exact h.from_call
    · simp only [hwr]
      exact h.past c' t ((hdone c' t).mp hpc)

/-- **The invariant holds along every run whose steps meet the condition.** -/
theorem horizonInv_of_reachable {packets : ℕ → Option SkBuff}
    {s : PoolState NetPacketMetric NetField}
    (h : ReachableUnder (netNext packets) HintsInOrder netPool.poolInit s) : HorizonInv s := by
  refine h.invariant ⟨.inl rfl, nofun⟩ fun s a s' hi hok hnext => ?_
  obtain ⟨c, lane, pc, rfl, hmove, rfl⟩ | ⟨mode, -, -, rfl⟩ | ⟨run, lane, k, -, hmove, rfl⟩ :=
    poolNext_cases hnext
  · exact hi.producer_step hok hmove
  · exact ⟨hi.from_call, hi.past⟩
  · have hwr := hmove.samePool.wrIdx
    refine ⟨?_, ?_⟩
    · simp only [hwr]
      exact hi.from_call
    · simp only [hwr]
      exact hi.past

/-! ## The law -/

/-- **The net horizon never moves backwards**, and when no call is in flight it lies past every
completed ticket, along every run in which each successful swap is by a call of the first lap and
after no call with a later ticket. -/
theorem horizonKept_of_reachable {packets : ℕ → Option SkBuff}
    {s : PoolState NetPacketMetric NetField}
    (h : ReachableUnder (netNext packets) HintsInOrder netPool.poolInit s) :
    HorizonKept packets HintsInOrder s := by
  have hinv := horizonInv_of_reachable h
  refine ⟨fun a s' hok hnext => ?_, fun _ => hinv.past⟩
  obtain ⟨c, lane, pc, rfl, hmove, rfl⟩ | ⟨mode, -, -, rfl⟩ | ⟨run, lane, k, -, hmove, rfl⟩ :=
    poolNext_cases hnext
  · rcases netPool_wrIdx hmove with ⟨t, hpc, hwr, -⟩ | ⟨hwr, -⟩
    · obtain ⟨ht, hlate⟩ := hok t hpc
      simp only [hwr]
      exact hinv.swap_le ht hlate
    · simp only [hwr]
      exact UInt32.le_refl _
  · exact UInt32.le_refl _
  · simp only [hmove.samePool.wrIdx]
    exact UInt32.le_refl _

/-- The call has not completed with a ticket after `t`. -/
def notPast (t : UInt32) : ProducerPc NetField → Bool
  | .done (some t') => decide (t' ≤ t)
  | _ => true

/-- A step of a run of `n` calls, checked to swap hints in order. -/
def hintsCheck (n : ℕ) (s : PoolState NetPacketMetric NetField) (a : PoolAction) : Bool :=
  callsBelow n a && match a with
    | .producer c => match s.producer c with
      | .hintSwap t _ => decide (t.toNat < netfilterSlotCapacity ∧
          ∀ c' < n, notPast t (s.producer c') = true)
      | _ => true
    | _ => true

/-- Such steps swap hints in order. -/
theorem hintsInOrder_of_check {n : ℕ} (s : PoolState NetPacketMetric NetField) (a : PoolAction)
    (hidle : IdleFrom n s) (h : hintsCheck n s a = true) : HintsInOrder s a := by
  obtain ⟨-, h⟩ := Bool.and_eq_true_iff.mp h
  cases a with
  | producer c =>
      intro t hpc
      simp only [hpc, decide_eq_true_eq] at h
      refine ⟨h.1, fun c' t' hdone => ?_⟩
      have hpast := hidle.forall_producer (p := fun pc => notPast t pc = true) rfl h.2 c'
      rw [hdone] at hpast
      exact of_decide_eq_true hpast
  | spawn mode => trivial
  | consumer run => trivial

/-- Two calls of the hook overlap, and swap in their hints in the order of their tickets. -/
def hooksInTurn : List PoolAction :=
  (List.replicate 8 [.producer 0, .producer 1]).flatten
    ++ [.producer 0, .producer 1, .producer 1]

/-- Two hook calls at once take the horizon past both their tickets; the second one fails once. -/
theorem horizonKept_two_hooks : ∃ s : PoolState NetPacketMetric NetField,
    s.producer 0 = .done (some 0) ∧ s.producer 1 = .done (some 1) ∧ s.lane.wrIdx = 2 ∧
      HorizonKept (fun _ => some samplePacket.skb) HintsInOrder s := by
  have hrun : (exec (checked (netNext fun _ => some samplePacket.skb) (hintsCheck 2))
      netPool.poolInit hooksInTurn).map (fun s => (s.producer 0, s.producer 1, s.lane.wrIdx))
        = some (.done (some 0), .done (some 1), 2) := by decide
  obtain ⟨s, hs, heq⟩ := Option.map_eq_some_iff.mp hrun
  simp only [Prod.mk.injEq] at heq
  have hreach : ReachableUnder (netNext fun _ => some samplePacket.skb) HintsInOrder
      netPool.poolInit s :=
    reachableUnder_of_firstCalls (fun _ _ hq => (Bool.and_eq_true_iff.mp hq).1)
      hintsInOrder_of_check hooksInTurn hs
  exact ⟨s, heq.1, heq.2.1, heq.2.2, horizonKept_of_reachable hreach⟩

/-! ## A late swap -/

/-- Call 0 claims ticket 0, call 1 claims ticket 1 and runs to its end, and call 0 goes on up to its
`cmpxchg`. -/
def lateSwapRun : List PoolAction :=
  .producer 0 :: List.replicate 9 (.producer 1) ++ List.replicate 7 (.producer 0)

/-- **A late swap moves the horizon back**, from 2 to 1, although the completed ticket 1 is not
below 1. -/
theorem late_swap_moves_back :
    ¬ ∀ s, ReachableUnder (netNext fun _ => some samplePacket.skb) (ClaimsBelow (2 ^ 31))
        netPool.poolInit s →
      HorizonKept (fun _ => some samplePacket.skb) (ClaimsBelow (2 ^ 31)) s := by
  intro h
  have hrun : ReachableUnder (netNext fun _ => some samplePacket.skb) (ClaimsBelow (2 ^ 31))
      netPool.poolInit _ := .of_check (claimsBelow_of_check _) lateSwapRun rfl .start
  have hle := (h _ hrun).wrIdx_le (.producer 0) _ nofun rfl
  exact absurd hle (by decide)

end TelemetrySubsystem
