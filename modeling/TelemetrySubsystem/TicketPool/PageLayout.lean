import TelemetrySubsystem.Foundations.ByteMemory
import TelemetrySubsystem.TicketPool.System

/-! # A ticketed slot pool in memory

A pool is a lane of control words and an array of slots, at given addresses of a byte-addressed
memory.

* **`PoolPlace`** is where a pool lies; **`PoolLayout`** adds that its parts do not overlap.
* **`PoolLayout.decode`** reads the state of a pool off memory. The history that the lane carries is
  not in memory; it is kept beside it, in **`PoolThreads`**.
* `decodeLane_store_rdIdx`, …, **`decodeLane_store_field`** and **`decodeLane_store_ticket`**: each
  store of the threads changes the part of the lane it is meant to change. -/

namespace TelemetrySubsystem

open ByteMemory
open Function (update)

/-! ## Where a pool lies -/

/-- **Where a pool lies in memory**, and how a payload is made up of the values of its fields. -/
structure PoolPlace (P F : Type) where
  /-- The control lane. -/
  control : ℕ
  controlSize : ℕ
  rdIdx : ℕ
  wrIdx : ℕ
  /-- The counter that tickets are drawn from. -/
  ticketCounter : ℕ
  stateFlags : ℕ
  /-- The first slot. -/
  pool : ℕ
  slotSize : ℕ
  /-- `slot_ticket`, from the start of a slot. -/
  ticketOffset : ℕ
  /-- A field of the payload, from the start of a slot. -/
  offset : F → ℕ
  size : F → ℕ
  ofValues : (F → ℕ) → P

/-- **A place where a pool fits**: nothing overlaps, and every field holds its values. -/
structure PoolLayout {P F : Type} [DecidableEq F] [Fieldwise P F] (R : TicketPool P F) extends
    PoolPlace P F where
  control_le : control ≤ rdIdx
  rdIdx_le : rdIdx + 4 ≤ wrIdx
  wrIdx_le : wrIdx + 4 ≤ stateFlags
  stateFlags_le : stateFlags + 4 ≤ control + controlSize
  control_pool : control + controlSize ≤ pool
  /-- A pool that publishes a hint draws its tickets from a word of their own. -/
  counter_apart : R.publishesHint = true → wrIdx + 4 ≤ ticketCounter ∧
    ticketCounter + 4 ≤ stateFlags
  counter_eq : R.publishesHint = false → ticketCounter = wrIdx
  offset_le : ∀ f, offset f + size f ≤ ticketOffset
  offset_apart : ∀ f g, f ≠ g → offset f + size f ≤ offset g ∨ offset g + size g ≤ offset f
  ticketOffset_le : ticketOffset + 4 ≤ slotSize
  words_le : 4 * R.words.length ≤ ticketOffset
  word_span : ∀ w (hw : w < R.words.length), ∀ f ∈ R.words[w], 4 * w ≤ offset f ∧
    offset f + size f ≤ 4 * w + 4
  value_lt : ∀ (f : F) (p : P), Fieldwise.value f p < 256 ^ size f
  value_ofValues : ∀ (f : F) (v : F → ℕ), Fieldwise.value f (ofValues v : P) = v f % 256 ^ size f
  value_zero : ∀ f : F, Fieldwise.value f R.zeroPayload = 0

/-- **The threads of a pool**, and the history of the lane, which is not in memory. -/
structure PoolThreads (P F : Type) where
  producer : ℕ → ProducerPc F
  consumer : Consumer P F
  /-- History: the call that stamped a slot last. -/
  stampedBy : ℕ → Option ℕ
  /-- History: how many tickets have been claimed. -/
  claimed : ℕ

namespace PoolLayout

variable {P F : Type} [DecidableEq F] [Fieldwise P F] {R : TicketPool P F} (L : PoolLayout R)

/-! ## Decoding -/

/-- The address of a slot. -/
def slotAddr (i : ℕ) : ℕ := L.pool + L.slotSize * i

/-- The address of a slot's ticket word. -/
def ticketAddr (i : ℕ) : ℕ := L.slotAddr i + L.ticketOffset

/-- The address of a field of a slot. -/
def fieldAddr (i : ℕ) (f : F) : ℕ := L.slotAddr i + L.offset f

/-- The payload in a slot. -/
def decodePayload (m : Memory) (i : ℕ) : P :=
  L.ofValues fun f => load m (L.fieldAddr i f) (L.size f)

/-- A slot. -/
def decodeSlot (m : Memory) (stampedBy : ℕ → Option ℕ) (i : ℕ) : Slot P :=
  if i < R.capacity then ⟨L.decodePayload m i, word m (L.ticketAddr i), stampedBy i⟩
  else R.zeroSlot

/-- The lane. -/
def decodeLane (m : Memory) (l : PoolThreads P F) : TicketLane P where
  rdIdx := word m L.rdIdx
  wrIdx := word m L.wrIdx
  ticketDispenser := if R.publishesHint then word m L.ticketCounter else 0
  stateFlags := word m L.stateFlags
  slots := L.decodeSlot m l.stampedBy
  claimed := l.claimed

/-- **The state of a pool**, as its bytes in memory have it. -/
def decode (m : Memory) (l : PoolThreads P F) : PoolState P F :=
  ⟨L.decodeLane m l, l.producer, l.consumer⟩

/-- A field of a decoded payload. -/
theorem value_decodePayload (m : Memory) (i : ℕ) (f : F) :
    Fieldwise.value f (L.decodePayload m i) = load m (L.fieldAddr i f) (L.size f) := by
  rw [decodePayload, L.value_ofValues, Nat.mod_eq_of_lt (load_lt ..)]

/-! ## What a store does to the lane -/

/-- Different slots do not overlap. -/
theorem slotAddr_apart {i j : ℕ} (h : i ≠ j) :
    L.slotAddr i + L.slotSize ≤ L.slotAddr j ∨ L.slotAddr j + L.slotSize ≤ L.slotAddr i := by
  rw [slotAddr, slotAddr]
  rcases Nat.lt_or_gt_of_ne h with hlt | hlt
  · have hmul := Nat.mul_le_mul_left L.slotSize (Nat.succ_le_of_lt hlt)
    rw [Nat.mul_succ] at hmul
    omega
  · have hmul := Nat.mul_le_mul_left L.slotSize (Nat.succ_le_of_lt hlt)
    rw [Nat.mul_succ] at hmul
    omega

/-- A slot lies behind the control lane. -/
theorem control_le_slotAddr (i : ℕ) : L.control + L.controlSize ≤ L.slotAddr i :=
  L.control_pool.trans (Nat.le_add_right _ _)

/-- A store outside a slot leaves it alone. -/
theorem decodeSlot_store {m : Memory} {a n v i : ℕ}
    (h : a + n ≤ L.slotAddr i ∨ L.slotAddr i + L.slotSize ≤ a) (stampedBy : ℕ → Option ℕ) :
    L.decodeSlot (store m a n v) stampedBy i = L.decodeSlot m stampedBy i := by
  have hticket : word (store m a n v) (L.ticketAddr i) = word m (L.ticketAddr i) := by
    have hle := L.ticketOffset_le
    refine word_store_disjoint ?_
    rw [ticketAddr]
    omega
  have hpayload : L.decodePayload (store m a n v) i = L.decodePayload m i := by
    rw [decodePayload, decodePayload]
    refine congrArg _ (funext fun f => load_store_disjoint ?_)
    have hle := L.offset_le f
    have hle' := L.ticketOffset_le
    rw [fieldAddr]
    omega
  rw [decodeSlot, decodeSlot, hticket, hpayload]

/-- A store to the control lane leaves the slots alone. -/
theorem decodeSlots_store {m : Memory} {a n v : ℕ} (h : a + n ≤ L.control + L.controlSize)
    (stampedBy : ℕ → Option ℕ) :
    L.decodeSlot (store m a n v) stampedBy = L.decodeSlot m stampedBy :=
  funext fun i => L.decodeSlot_store (.inl (h.trans (L.control_le_slotAddr i))) stampedBy

/-- The counter of a decoded lane. -/
theorem counter_decodeLane (m : Memory) (l : PoolThreads P F) :
    R.counter (L.decodeLane m l) = word m L.ticketCounter := by
  rw [TicketPool.counter]
  split
  · rename_i h
    rw [decodeLane, if_pos h]
  · rename_i h
    rw [L.counter_eq (Bool.eq_false_iff.mpr h), decodeLane]

/-- The counter is a word of the control lane. -/
theorem ticketCounter_in : L.control ≤ L.ticketCounter ∧
    L.ticketCounter + 4 ≤ L.control + L.controlSize := by
  have h₁ := L.control_le
  have h₂ := L.rdIdx_le
  have h₃ := L.wrIdx_le
  have h₄ := L.stateFlags_le
  by_cases h : R.publishesHint = true
  · have hapart := L.counter_apart h
    omega
  · have heq := L.counter_eq (Bool.eq_false_iff.mpr h)
    omega

/-- The counter is not the read index, and not the flags. -/
theorem ticketCounter_apart : L.rdIdx + 4 ≤ L.ticketCounter ∧
    L.ticketCounter + 4 ≤ L.stateFlags := by
  have h₂ := L.rdIdx_le
  have h₃ := L.wrIdx_le
  by_cases h : R.publishesHint = true
  · have hapart := L.counter_apart h
    omega
  · have heq := L.counter_eq (Bool.eq_false_iff.mpr h)
    omega

/-- **Store `rd_idx`.** -/
theorem decodeLane_store_rdIdx (m : Memory) (l : PoolThreads P F) (v : UInt32) :
    L.decodeLane (store m L.rdIdx 4 v.toNat) l = { L.decodeLane m l with rdIdx := v } := by
  have h₂ := L.rdIdx_le
  have h₃ := L.wrIdx_le
  have h₄ := L.stateFlags_le
  have hcounter := L.ticketCounter_apart
  rw [decodeLane, decodeLane, word_store_same, word_store_disjoint (.inl h₂),
    word_store_disjoint (.inl hcounter.1), word_store_disjoint (b := L.stateFlags) (by omega),
    L.decodeSlots_store (by omega)]

/-- **Store `state_flags`.** -/
theorem decodeLane_store_stateFlags (m : Memory) (l : PoolThreads P F) (v : UInt32) :
    L.decodeLane (store m L.stateFlags 4 v.toNat) l
      = { L.decodeLane m l with stateFlags := v } := by
  have h₂ := L.rdIdx_le
  have h₃ := L.wrIdx_le
  have h₄ := L.stateFlags_le
  have hcounter := L.ticketCounter_apart
  rw [decodeLane, decodeLane, word_store_same, word_store_disjoint (.inr h₃),
    word_store_disjoint (.inr hcounter.2), word_store_disjoint (b := L.rdIdx) (by omega),
    L.decodeSlots_store (by omega)]

/-- **Store `wr_idx`.** -/
theorem decodeLane_store_wrIdx (m : Memory) (l : PoolThreads P F) (v : UInt32) :
    L.decodeLane (store m L.wrIdx 4 v.toNat) l = { L.decodeLane m l with wrIdx := v } := by
  have h₂ := L.rdIdx_le
  have h₃ := L.wrIdx_le
  have h₄ := L.stateFlags_le
  rw [decodeLane, decodeLane, word_store_same, word_store_disjoint (.inr h₂),
    word_store_disjoint (b := L.stateFlags) (by omega), L.decodeSlots_store (by omega)]
  split
  · rename_i h
    rw [word_store_disjoint (.inl (L.counter_apart h).1)]
  · rfl

/-- **Claim a ticket.** -/
theorem decodeLane_claim (m : Memory) (l : PoolThreads P F) :
    L.decodeLane (store m L.ticketCounter 4 (load m L.ticketCounter 4 + 1))
        { l with claimed := l.claimed + 1 }
      = R.claim (L.decodeLane m l) := by
  have hin := L.ticketCounter_in
  have hapart := L.ticketCounter_apart
  rw [TicketPool.claim, decodeLane, decodeLane, L.decodeSlots_store hin.2,
    word_store_disjoint (.inr hapart.1), word_store_disjoint (b := L.stateFlags) (.inl hapart.2)]
  split
  · rename_i h
    rw [word_store_add_one, word_store_disjoint (.inr (L.counter_apart h).1)]
  · rename_i h
    rw [← L.counter_eq (Bool.eq_false_iff.mpr h), word_store_add_one]

/-- Two decoded slots with the same ticket word and the same fields. -/
theorem decodePayload_ext {m : Memory} {i : ℕ} {p : P}
    (h : ∀ f, load m (L.fieldAddr i f) (L.size f) = Fieldwise.value f p) :
    L.decodePayload m i = p :=
  Fieldwise.ext _ _ fun f => (L.value_decodePayload m i f).trans (h f)

/-- **Store a field of a slot.** -/
theorem decodeLane_store_field {i : ℕ} (hi : i < R.capacity) (f : F) (metric : P) (m : Memory)
    (l : PoolThreads P F) :
    L.decodeLane (store m (L.fieldAddr i f) (L.size f) (Fieldwise.value f metric)) l
      = (L.decodeLane m l).storeField i f metric := by
  have hcontrol := L.control_le_slotAddr i
  have hin := L.ticketCounter_in
  have h₁ := L.control_le
  have h₂ := L.rdIdx_le
  have h₃ := L.wrIdx_le
  have h₄ := L.stateFlags_le
  have hf := L.offset_le f
  have hticket := L.ticketOffset_le
  have haddr : L.fieldAddr i f = L.slotAddr i + L.offset f := rfl
  have hslots : L.decodeSlot (store m (L.fieldAddr i f) (L.size f) (Fieldwise.value f metric))
      l.stampedBy = update (L.decodeSlot m l.stampedBy) i { L.decodeSlot m l.stampedBy i with
        payload := Fieldwise.copy f metric (L.decodeSlot m l.stampedBy i).payload } := by
    funext j
    by_cases hj : j = i
    · subst hj
      -- the other fields of the slot stay, and so does its ticket word
      have hpayload : L.decodePayload (store m (L.fieldAddr j f) (L.size f)
          (Fieldwise.value f metric)) j = Fieldwise.copy f metric (L.decodePayload m j) := by
        refine L.decodePayload_ext fun g => ?_
        rw [Fieldwise.value_copy]
        split
        · rename_i heq
          subst heq
          exact load_store_of_lt (L.value_lt g metric)
        · rename_i hne
          rw [L.value_decodePayload]
          have hapart := L.offset_apart f g fun heq => hne heq.symm
          refine load_store_disjoint ?_
          rw [fieldAddr, fieldAddr]
          omega
      rw [Function.update_self, decodeSlot, decodeSlot, if_pos hi, if_pos hi, hpayload,
        word_store_disjoint (.inl (by rw [ticketAddr]; omega))]
    · have hapart := L.slotAddr_apart hj
      rw [Function.update_of_ne hj, L.decodeSlot_store (by omega)]
  rw [TicketLane.storeField, decodeLane, decodeLane, hslots,
    word_store_disjoint (b := L.rdIdx) (.inr (by omega)),
    word_store_disjoint (b := L.wrIdx) (.inr (by omega)),
    word_store_disjoint (b := L.stateFlags) (.inr (by omega)),
    word_store_disjoint (b := L.ticketCounter) (.inr (by omega))]

/-- **Stamp a slot.** -/
theorem decodeLane_store_ticket {i : ℕ} (hi : i < R.capacity) (ticket : UInt32) (me : ℕ)
    (m : Memory) (l : PoolThreads P F) :
    L.decodeLane (store m (L.ticketAddr i) 4 ticket.toNat)
        { l with stampedBy := update l.stampedBy i (some me) }
      = (L.decodeLane m l).stamp i ticket me := by
  have hcontrol := L.control_le_slotAddr i
  have hin := L.ticketCounter_in
  have h₁ := L.control_le
  have h₂ := L.rdIdx_le
  have h₃ := L.wrIdx_le
  have h₄ := L.stateFlags_le
  have hticket := L.ticketOffset_le
  have haddr : L.ticketAddr i = L.slotAddr i + L.ticketOffset := rfl
  have hslots : L.decodeSlot (store m (L.ticketAddr i) 4 ticket.toNat)
      (update l.stampedBy i (some me)) = update (L.decodeSlot m l.stampedBy) i
        { L.decodeSlot m l.stampedBy i with slotTicket := ticket, stampedBy := some me } := by
    funext j
    by_cases hj : j = i
    · subst hj
      have hpayload : L.decodePayload (store m (L.ticketAddr j) 4 ticket.toNat) j
          = L.decodePayload m j := by
        refine L.decodePayload_ext fun f => ?_
        rw [L.value_decodePayload]
        have hf := L.offset_le f
        refine load_store_disjoint ?_
        rw [fieldAddr]
        omega
      rw [Function.update_self, decodeSlot, decodeSlot, if_pos hi, if_pos hi, hpayload,
        word_store_same, Function.update_self]
    · have hapart := L.slotAddr_apart hj
      rw [Function.update_of_ne hj, L.decodeSlot_store (by omega), decodeSlot, decodeSlot,
        Function.update_of_ne hj]
  rw [TicketLane.stamp, decodeLane, decodeLane, hslots,
    word_store_disjoint (b := L.rdIdx) (.inr (by omega)),
    word_store_disjoint (b := L.wrIdx) (.inr (by omega)),
    word_store_disjoint (b := L.stateFlags) (.inr (by omega)),
    word_store_disjoint (b := L.ticketCounter) (.inr (by omega))]

end PoolLayout

end TelemetrySubsystem
