import TelemetrySubsystem.TicketPool.System

/-! # Tickets before the counter wraps

As long as no more than `2^32` tickets are claimed, every claim draws a new one.

* **`ClaimsBelow n`** is the condition on a step: no more than `n` tickets are claimed.
* **`TicketInv`**: the counter counts the claims, tickets are below it, and no two calls share one.
  -/

namespace TelemetrySubsystem

open ActionSystem WrapCounter
open Function (update)

/-- The call is in the hint loop. -/
def ProducerPc.hinting {F : Type} : ProducerPc F → Bool
  | .hintLoad _ | .hintSwap _ _ => true
  | _ => false

/-- **The condition on a step**: fewer than `n` tickets have been claimed when one is claimed. -/
def ClaimsBelow {P F : Type} (n : ℕ) (s : PoolState P F) : PoolAction → Prop
  | .producer c => s.producer c = .entry → s.lane.claimed < n
  | _ => True

/-- The condition as a check. -/
def claimsBelowCheck {P F : Type} (n : ℕ) (s : PoolState P F) (_ : PoolAction) : Bool :=
  decide (s.lane.claimed < n)

/-- The check implies the condition. -/
theorem claimsBelow_of_check {P F : Type} (n : ℕ) (s : PoolState P F) (a : PoolAction)
    (h : claimsBelowCheck n s a = true) : ClaimsBelow n s a := by
  cases a with
  | producer c => exact fun _ => of_decide_eq_true h
  | spawn mode => trivial
  | consumer run => trivial

/-- **Tickets before the wrap.** -/
structure TicketInv {P F : Type} [DecidableEq F] [Fieldwise P F] (R : TicketPool P F)
    (calls : ℕ → Option P) (s : PoolState P F) : Prop where
  counter : R.counter s.lane = UInt32.ofNat s.lane.claimed
  hinting : R.publishesHint = false → ∀ c, (s.producer c).hinting = false
  ticket_lt : ∀ c t, (s.producer c).ticket = some t → t.toNat < s.lane.claimed
  ticket_inj : ∀ c c' t, (s.producer c).ticket = some t → (s.producer c').ticket = some t → c = c'
  metric : ∀ c t, (s.producer c).ticket = some t → ∃ m, calls c = some m

namespace TicketPool

variable {P F : Type} [DecidableEq F] [Fieldwise P F] {R : TicketPool P F}

/-- **How a move treats the tickets**: it claims one, or every ticket, the counter and the number of
claims stay as they are. -/
theorem ProducerMove.tickets {me : ℕ} {metric : Option P} {lane lane' : TicketLane P}
    {pc pc' : ProducerPc F} (h : R.ProducerMove me metric lane pc lane' pc')
    (hhint : R.publishesHint = false → pc.hinting = false) :
    (pc = .entry ∧ (∃ m, metric = some m) ∧ lane' = R.claim lane ∧
        pc' = .storing (R.counter lane) R.fields) ∨
      (pc'.ticket = pc.ticket ∧ R.counter lane' = R.counter lane ∧ lane'.claimed = lane.claimed ∧
        (R.publishesHint = false → pc'.hinting = false)) := by
  cases h with
  | leave hm => exact .inr ⟨rfl, rfl, rfl, fun _ => rfl⟩
  | claim hm => exact .inl ⟨rfl, ⟨_, hm⟩, rfl, rfl⟩
  | store hm => exact .inr ⟨rfl, rfl, rfl, fun _ => rfl⟩
  | stamp =>
      refine .inr ⟨afterStamp_ticket _, rfl, rfl, fun hno => ?_⟩
      rw [afterStamp, hno]
      rfl
  | reload hpc =>
      -- a pool without a hint has no call in the hint loop, here and in a swap
      refine .inr ⟨?_, rfl, rfl, fun hno => ?_⟩
      · rcases hpc with rfl | ⟨_, rfl⟩ <;> rfl
      · rcases hpc with rfl | ⟨_, rfl⟩ <;> cases hhint hno
  | swap =>
      refine .inr ⟨rfl, ?_, rfl, fun _ => rfl⟩
      cases hpub : R.publishesHint with
      | true =>
          rw [counter, counter, hpub]
          rfl
      | false => cases hhint hpub

end TicketPool

open TicketPool

variable {P F : Type} [DecidableEq F] [Fieldwise P F] {R : TicketPool P F} {calls : ℕ → Option P}

/-- No ticket has been claimed on the zeroed page. -/
theorem TicketInv.init : TicketInv R calls R.poolInit where
  counter := by
    rw [TicketPool.counter]
    split <;> rfl
  hinting := fun _ _ => rfl
  ticket_lt := nofun
  ticket_inj := nofun
  metric := nofun

/-- **A claim draws a new ticket**: the number of earlier claims. -/
theorem TicketInv.claim_step {s : PoolState P F} (h : TicketInv R calls s)
    (hlt : s.lane.claimed < 2 ^ 32) {c : ℕ} (hm : ∃ m, calls c = some m) :
    TicketInv R calls { s with
      lane := R.claim s.lane
      producer := update s.producer c (.storing (R.counter s.lane) R.fields) } := by
  -- below the wrap the counter is the number of claims, so it exceeds every ticket out
  have hnew : (R.counter s.lane).toNat = s.lane.claimed := by
    rw [h.counter, toNat_ofNat_of_lt hlt]
  have hticket : ∀ c' t,
      (update s.producer c (.storing (R.counter s.lane) R.fields) c').ticket = some t →
        (c' = c ∧ t.toNat = s.lane.claimed) ∨ (s.producer c').ticket = some t := by
    intro c' t ht
    by_cases heq : c' = c
    · subst heq
      rw [Function.update_self] at ht
      cases ht
      exact .inl ⟨rfl, hnew⟩
    · rw [Function.update_of_ne heq] at ht
      exact .inr ht
  refine ⟨?_, fun hno c' => ?_, fun c' t ht => ?_, fun c₁ c₂ t h₁ h₂ => ?_, fun c' t ht => ?_⟩
  · rw [counter_claim, claim_claimed, h.counter, ofNat_succ]
  · exact (Function.forall_update_iff s.producer fun _ pc => pc.hinting = false).mpr
      ⟨rfl, fun c' _ => h.hinting hno c'⟩ c'
  · rw [claim_claimed]
    rcases hticket c' t ht with ⟨-, heq⟩ | hold
    · omega
    · exact Nat.lt_succ_of_lt (h.ticket_lt c' t hold)
  · rcases hticket c₁ t h₁ with ⟨rfl, heq₁⟩ | hold₁ <;>
      rcases hticket c₂ t h₂ with ⟨rfl, heq₂⟩ | hold₂
    · rfl
    · have := h.ticket_lt c₂ t hold₂
      omega
    · have := h.ticket_lt c₁ t hold₁
      omega
    · exact h.ticket_inj c₁ c₂ t hold₁ hold₂
  · rcases hticket c' t ht with ⟨rfl, -⟩ | hold
    · exact hm
    · exact h.metric c' t hold

/-- A step that claims no ticket leaves all tickets where they are. -/
theorem TicketInv.keep_step {s : PoolState P F} (h : TicketInv R calls s) {c : ℕ}
    {lane : TicketLane P} {pc : ProducerPc F} (hticket : pc.ticket = (s.producer c).ticket)
    (hcounter : R.counter lane = R.counter s.lane) (hclaimed : lane.claimed = s.lane.claimed)
    (hhint : R.publishesHint = false → pc.hinting = false) :
    TicketInv R calls { s with lane := lane, producer := update s.producer c pc } := by
  have hsame : ∀ c', (update s.producer c pc c').ticket = (s.producer c').ticket :=
    (Function.forall_update_iff s.producer fun c' pc => pc.ticket = (s.producer c').ticket).mpr
      ⟨hticket, fun _ _ => rfl⟩
  refine ⟨?_, fun hno c' => ?_, fun c' t ht => ?_, fun c₁ c₂ t h₁ h₂ => ?_, fun c' t ht => ?_⟩
  · simp only [hcounter, hclaimed, h.counter]
  · exact (Function.forall_update_iff s.producer fun _ pc => pc.hinting = false).mpr
      ⟨hhint hno, fun c' _ => h.hinting hno c'⟩ c'
  · rw [hclaimed]
    exact h.ticket_lt c' t (hsame c' ▸ ht)
  · exact h.ticket_inj c₁ c₂ t (hsame c₁ ▸ h₁) (hsame c₂ ▸ h₂)
  · exact h.metric c' t (hsame c' ▸ ht)

/-- **Every step keeps the tickets apart**, while claims find the counter below the wrap. -/
theorem TicketInv.step {s s' : PoolState P F} {a : PoolAction} (h : TicketInv R calls s)
    (hfit : ClaimsBelow (2 ^ 32) s a) (hnext : R.poolNext calls s a = some s') :
    TicketInv R calls s' := by
  obtain ⟨c, lane, pc, rfl, hmove, rfl⟩ | ⟨mode, -, -, rfl⟩ | ⟨run, lane, k, -, hmove, rfl⟩ :=
    poolNext_cases hnext
  · rcases hmove.tickets fun hno => h.hinting hno c with
      ⟨hentry, hm, rfl, rfl⟩ | ⟨hticket, hcounter, hclaimed, hhint⟩
    · exact h.claim_step (hfit hentry) hm
    · exact h.keep_step hticket hcounter hclaimed hhint
  · exact ⟨h.counter, h.hinting, h.ticket_lt, h.ticket_inj, h.metric⟩
  · obtain ⟨-, hwr, hdisp, hclaimed⟩ := hmove.samePool
    have hcounter : R.counter lane = R.counter s.lane := by
      rw [TicketPool.counter, TicketPool.counter, hwr, hdisp]
    refine ⟨?_, h.hinting, fun c t ht => ?_, h.ticket_inj, h.metric⟩
    · simp only [hcounter, hclaimed, h.counter]
    · simp only [hclaimed]
      exact h.ticket_lt c t ht

end TelemetrySubsystem
