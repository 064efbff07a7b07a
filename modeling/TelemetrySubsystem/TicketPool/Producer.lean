import TelemetrySubsystem.Foundations.PiecewiseCopy
import Mathlib.Data.UInt

/-! # The producers of a ticketed slot pool

The net hook and the block hook fill a pool of slots in the same way. A call takes a ticket from an
atomic counter, the ticket modulo the capacity names its slot, the call stores its metric into the
slot field by field, and last it stamps the slot with the ticket. The net hook then pushes a horizon
hint forward with a `cmpxchg` loop.

* **`TicketPool`** holds what the two pools differ in, and **`TicketLane`** is the shared state.
* **`producerStep`** is one access of a producer call; **`ProducerMove`** lists what it can do.

Barriers have no step of their own: memory is sequentially consistent. -/

namespace TelemetrySubsystem

open Function (update)

/-! ## The pool and the shared state -/

/-- **What distinguishes one pool from another.** -/
structure TicketPool (P F : Type) [DecidableEq F] [Fieldwise P F] where
  /-- The number of slots. -/
  capacity : ℕ
  /-- The 32-bit words of a payload, in memory order, each with the fields it holds. -/
  words : List (List F)
  /-- A producer publishes a hint besides its stamp, and draws tickets from a counter of its own. -/
  publishesHint : Bool
  /-- The consumer processes every slot it looks at, before it tests the ticket. -/
  processesFirst : Bool
  /-- The flag a consumer thread raises while it runs. -/
  threadActive : UInt32
  /-- The payload of a zeroed page. -/
  zeroPayload : P
  capacity_pos : 0 < capacity
  fields_ne_nil : words.flatten ≠ []
  /-- Every field lies in some word. -/
  mem_words : ∀ f, f ∈ words.flatten
  /-- No field lies in two. -/
  nodup_words : words.flatten.Nodup

/-- **A payload slot.** -/
structure Slot (P : Type) where
  payload : P
  slotTicket : UInt32
  /-- History: the call that stamped the slot last. -/
  stampedBy : Option ℕ
  deriving DecidableEq, Repr

/-- **A lane with its pool of slots.** -/
structure TicketLane (P : Type) where
  rdIdx : UInt32
  wrIdx : UInt32
  ticketDispenser : UInt32
  stateFlags : UInt32
  slots : ℕ → Slot P
  /-- History: how many tickets have been claimed. -/
  claimed : ℕ

namespace TicketPool

variable {P F : Type} [DecidableEq F] [Fieldwise P F] (R : TicketPool P F)

/-- The fields of a payload in the order in which they are stored and loaded. -/
def fields : List F := R.words.flatten

/-- Every field is stored. -/
theorem mem_fields (f : F) : f ∈ R.fields := R.mem_words f

/-- No field is stored twice. -/
theorem nodup_fields : R.fields.Nodup := R.nodup_words

/-- There is a field to store. -/
theorem length_fields_pos : 0 < R.fields.length := List.length_pos_iff.mpr R.fields_ne_nil

/-- The slot number of a ticket. -/
def slotIdx (ticket : UInt32) : ℕ := ticket.toNat % R.capacity

/-- A slot of the zeroed page. -/
def zeroSlot : Slot P := ⟨R.zeroPayload, 0, none⟩

/-- The lane of the zeroed page. -/
def zeroLane : TicketLane P where
  rdIdx := 0
  wrIdx := 0
  ticketDispenser := 0
  stateFlags := 0
  slots := fun _ => R.zeroSlot
  claimed := 0

/-- The counter that tickets are drawn from. -/
def counter (lane : TicketLane P) : UInt32 :=
  if R.publishesHint then lane.ticketDispenser else lane.wrIdx

/-- The atomic `fetch_add` on the ticket counter. -/
def claim (lane : TicketLane P) : TicketLane P :=
  if R.publishesHint then
    { lane with ticketDispenser := lane.ticketDispenser + 1, claimed := lane.claimed + 1 }
  else { lane with wrIdx := lane.wrIdx + 1, claimed := lane.claimed + 1 }

/-- Claiming a ticket leaves the slots alone. -/
@[simp] theorem claim_slots (lane : TicketLane P) : (R.claim lane).slots = lane.slots := by
  rw [claim]
  split <;> rfl

/-- Claiming a ticket advances the counter. -/
@[simp] theorem counter_claim (lane : TicketLane P) :
    R.counter (R.claim lane) = R.counter lane + 1 := by
  rw [counter, counter, claim]
  split <;> rfl

/-- Claiming a ticket is counted. -/
@[simp] theorem claim_claimed (lane : TicketLane P) :
    (R.claim lane).claimed = lane.claimed + 1 := by
  rw [claim]
  split <;> rfl

end TicketPool

namespace TicketLane

/-- Two lanes with the same slots and the same tickets: only `rd_idx` and the flags may differ. -/
structure SamePool {P : Type} (lane lane' : TicketLane P) : Prop where
  slots : lane'.slots = lane.slots
  wrIdx : lane'.wrIdx = lane.wrIdx
  ticketDispenser : lane'.ticketDispenser = lane.ticketDispenser
  claimed : lane'.claimed = lane.claimed

/-- A lane has its own pool. -/
theorem SamePool.refl {P : Type} (lane : TicketLane P) : lane.SamePool lane := ⟨rfl, rfl, rfl, rfl⟩

variable {P F : Type} [DecidableEq F] [Fieldwise P F]

/-- Store one field of the metric into slot `i`. -/
def storeField (lane : TicketLane P) (i : ℕ) (f : F) (metric : P) : TicketLane P :=
  { lane with
    slots := update lane.slots i
      { lane.slots i with payload := Fieldwise.copy f metric (lane.slots i).payload } }

/-- Stamp slot `i` with a ticket. -/
def stamp (lane : TicketLane P) (i : ℕ) (ticket : UInt32) (me : ℕ) : TicketLane P :=
  { lane with
    slots := update lane.slots i { lane.slots i with slotTicket := ticket, stampedBy := some me } }

end TicketLane

/-! ## One step of a producer -/

/-- Program points of a producer call, each in front of one access. -/
inductive ProducerPc (F : Type)
  /-- The early exits and the `fetch_add`. -/
  | entry
  /-- Store the next field, or the stamp when no field is left. -/
  | storing (ticket : UInt32) (rest : List F)
  /-- Load `wr_idx` for the hint loop. -/
  | hintLoad (ticket : UInt32)
  /-- `cmpxchg` on `wr_idx`, with the value expected there. -/
  | hintSwap (ticket currentWr : UInt32)
  /-- Returned, with the ticket the call had claimed, if any. -/
  | done (ticket : Option UInt32)
  deriving DecidableEq, Repr

/-- **The test of the hint loop**,
`(((int32_t)(slot_idx - current_wr + CAPACITY)) % CAPACITY) >= 0`. The capacity is a 64-bit
`sizeof` quotient, so the signed value is converted back to an unsigned one before the modulo. -/
def hintGuard (capacity : UInt64) (slotIdx currentWr : UInt32) : Bool :=
  decide (0 ≤ ((slotIdx - currentWr).toUInt64 + capacity).toUInt32.toInt32.toInt64.toUInt64
    % capacity)

/-- The test never fails: an unsigned remainder is not negative. -/
theorem hintGuard_eq_true (capacity : UInt64) (slotIdx currentWr : UInt32) :
    hintGuard capacity slotIdx currentWr = true := by
  rw [hintGuard, decide_eq_true_iff]
  exact UInt64.le_iff_toNat_le.mpr (Nat.zero_le _)

namespace TicketPool

variable {P F : Type} [DecidableEq F] [Fieldwise P F] (R : TicketPool P F)

/-- The slot number of a ticket as the 32-bit variable `slot_idx`. -/
def slotWord (ticket : UInt32) : UInt32 := UInt32.ofNat (R.slotIdx ticket)

/-- The head of the hint loop. -/
def hintLoop (ticket currentWr : UInt32) : ProducerPc F :=
  if hintGuard (UInt64.ofNat R.capacity) (R.slotWord ticket) currentWr then
    .hintSwap ticket currentWr
  else .done (some ticket)

/-- What follows the stamp. -/
def afterStamp (ticket : UInt32) : ProducerPc F :=
  if R.publishesHint then .hintLoad ticket else .done (some ticket)

/-- **One step of a producer call** with number `me`. `metric` is `none` for a call that leaves
before it takes a ticket. -/
def producerStep (me : ℕ) (metric : Option P) (lane : TicketLane P) :
    ProducerPc F → Option (TicketLane P × ProducerPc F)
  | .entry =>
      match metric with
      | none => some (lane, .done none)
      -- `fetch_add` returns the counter as it was and wraps silently
      | some _ => some (R.claim lane, .storing (R.counter lane) R.fields)
  -- the old stamp stays on the slot while its payload is overwritten
  | .storing ticket (f :: rest) =>
      metric.map fun m => (lane.storeField (R.slotIdx ticket) f m, .storing ticket rest)
  | .storing ticket [] => some (lane.stamp (R.slotIdx ticket) ticket me, R.afterStamp ticket)
  | .hintLoad ticket => some (lane, R.hintLoop ticket lane.wrIdx)
  | .hintSwap ticket currentWr =>
      if lane.wrIdx = currentWr then
        some ({ lane with wrIdx := R.slotWord ticket + 1 }, .done (some ticket))
      -- a failed `cmpxchg` returns the value it found, and the loop tests that one
      else some (lane, R.hintLoop ticket lane.wrIdx)
  | .done _ => none

/-- **What a producer's step can do.** -/
inductive ProducerMove (me : ℕ) (metric : Option P) (lane : TicketLane P) :
    ProducerPc F → TicketLane P → ProducerPc F → Prop
  /-- Leave without a ticket. -/
  | leave : metric = none → ProducerMove me metric lane .entry lane (.done none)
  /-- Claim a ticket. -/
  | claim {m : P} : metric = some m →
      ProducerMove me metric lane .entry (R.claim lane) (.storing (R.counter lane) R.fields)
  /-- Store one field. -/
  | store {ticket : UInt32} {f : F} {rest : List F} {m : P} : metric = some m →
      ProducerMove me metric lane (.storing ticket (f :: rest))
        (lane.storeField (R.slotIdx ticket) f m) (.storing ticket rest)
  /-- Stamp the slot. -/
  | stamp {ticket : UInt32} :
      ProducerMove me metric lane (.storing ticket []) (lane.stamp (R.slotIdx ticket) ticket me)
        (R.afterStamp ticket)
  /-- Load the hint, or find it changed. -/
  | reload {ticket : UInt32} {pc : ProducerPc F} :
      (pc = .hintLoad ticket ∨ ∃ currentWr, pc = .hintSwap ticket currentWr) →
      ProducerMove me metric lane pc lane (.hintSwap ticket lane.wrIdx)
  /-- Swap the hint. -/
  | swap {ticket : UInt32} :
      ProducerMove me metric lane (.hintSwap ticket lane.wrIdx)
        { lane with wrIdx := R.slotWord ticket + 1 } (.done (some ticket))

/-- The hint loop is entered every time. -/
theorem hintLoop_eq (ticket currentWr : UInt32) :
    R.hintLoop ticket currentWr = .hintSwap ticket currentWr := by
  rw [hintLoop, hintGuard_eq_true, if_pos rfl]

variable {R}

/-- **Inversion of a producer's step.** -/
theorem producerStep_move {me : ℕ} {metric : Option P} {lane lane' : TicketLane P}
    {pc pc' : ProducerPc F} (h : R.producerStep me metric lane pc = some (lane', pc')) :
    R.ProducerMove me metric lane pc lane' pc' := by
  cases pc with
  | entry =>
      cases metric with
      | none => cases h; exact .leave rfl
      | some m => cases h; exact .claim rfl
  | storing ticket rest =>
      cases rest with
      | nil => cases h; exact .stamp
      | cons f rest =>
          obtain ⟨m, hm, heq⟩ := Option.map_eq_some_iff.mp h
          cases heq
          exact .store hm
  | hintLoad ticket =>
      rw [producerStep, hintLoop_eq] at h
      cases h
      exact .reload (.inl rfl)
  | hintSwap ticket currentWr =>
      rw [producerStep, hintLoop_eq] at h
      split at h
      · -- the `cmpxchg` found the value it expected
        rename_i hcur
        subst hcur
        cases h
        exact .swap
      · cases h
        exact .reload (.inr ⟨currentWr, rfl⟩)
  | done ticket => cases h

end TicketPool

end TelemetrySubsystem
