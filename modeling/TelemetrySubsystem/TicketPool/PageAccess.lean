import TelemetrySubsystem.Foundations.SharedMemory
import TelemetrySubsystem.TicketPool.PageLayout

/-! # A ticketed slot pool, one access to memory at a time

Every program point of a producer and of the consumer is in front of at most one access to memory.
On the bytes of memory the threads do what they do on a lane.

* **`PoolLayout.access`** is the access of a step, and how the step goes on.
* **`PoolLayout.poolNext_decode`**: a step on memory is, decoded, the step on the lane.
* **`PoolLayout.tenant`** is the pool as a tenant of memory.
* **`PoolLayout.exec_decode`** and `PoolLayout.reachable_decode` carry this over to runs. -/

namespace TelemetrySubsystem

open ActionSystem ByteMemory SharedMemory
open Function (update)
open TicketPool (passStart nextRound resume view)

namespace PoolLayout

variable {P F : Type} [DecidableEq F] [Fieldwise P F] {R : TicketPool P F} (L : PoolLayout R)

/-! ## The access of every step -/

/-- **The access of a producer's step**, and how the call goes on with the number it returns. -/
def producerAccess (me : ℕ) (metric : Option P) (l : PoolThreads P F) :
    Option (MemOp × (ℕ → PoolThreads P F)) :=
  let goOn (pc : ProducerPc F) : PoolThreads P F :=
    { l with producer := update l.producer me pc }
  match l.producer me with
  | .entry =>
      match metric with
      | none => some (.skip, fun _ => goOn (.done none))
      | some _ => some (.fetchAdd L.ticketCounter 4 1, fun v =>
          { goOn (.storing (UInt32.ofNat v) R.fields) with claimed := l.claimed + 1 })
  | .storing ticket (f :: rest) =>
      metric.map fun m =>
        (.store (L.fieldAddr (R.slotIdx ticket) f) (L.size f) (Fieldwise.value f m),
          fun _ => goOn (.storing ticket rest))
  | .storing ticket [] =>
      some (.store (L.ticketAddr (R.slotIdx ticket)) 4 ticket.toNat, fun _ =>
        { goOn (R.afterStamp ticket) with
          stampedBy := update l.stampedBy (R.slotIdx ticket) (some me) })
  | .hintLoad ticket =>
      some (.load L.wrIdx 4, fun v => goOn (R.hintLoop ticket (UInt32.ofNat v)))
  | .hintSwap ticket currentWr =>
      some (.cmpxchg L.wrIdx 4 currentWr.toNat (R.slotWord ticket + 1).toNat, fun v =>
        if v = currentWr.toNat then goOn (.done (some ticket))
        else goOn (R.hintLoop ticket (UInt32.ofNat v)))
  | .done _ => none

/-- A slot as one of its 32-bit words shows it. -/
def shownSlot (l : PoolThreads P F) (i w v : ℕ) : Slot P where
  payload := L.ofValues fun f => v / 256 ^ (L.offset f - 4 * w)
  slotTicket := UInt32.ofNat v
  stampedBy := l.stampedBy i

/-- **The access of a step of the consumer thread**, and how it goes on. On a snapshot the thread
reads its own memory. -/
def consumerAccess (run : Bool) (l : PoolThreads P F) :
    Option (MemOp × (ℕ → PoolThreads P F)) :=
  let k := l.consumer
  let goOn (k' : Consumer P F) : PoolThreads P F := { l with consumer := k' }
  match k.pc with
  | .terminated => none
  | .raiseLoad => some (.load L.stateFlags 4, fun v =>
      goOn { k with pc := .raiseStore (UInt32.ofNat v ||| R.threadActive) })
  | .raiseStore stateFlags =>
      some (.store L.stateFlags 4 stateFlags.toNat, fun _ => goOn { k with pc := .loadRd })
  | .loadRd => some (.load L.rdIdx 4, fun v =>
      goOn { k with pc := .loop, expectedTicket := UInt32.ofNat v })
  | .loop =>
      some (.skip, fun _ => goOn { k with pc := if run then passStart k else .clearLoad })
  | .copy i w =>
      let goOnCopying (src : Slot P) : PoolThreads P F := goOn { k with
        snapshot := update k.snapshot i (R.copyWord w src (k.snapshot i))
        pc := R.afterCopy k i w }
      if w < R.words.length then
        some (.load (L.slotAddr i + 4 * w) 4, fun v => goOnCopying (L.shownSlot l i w v))
      else some (.load (L.ticketAddr i) 4, fun v => goOnCopying (L.shownSlot l i w v))
  | .loadHint => some (.load L.wrIdx 4, fun v =>
      goOn (nextRound { k with highestHint := UInt32.ofNat v } k.expectedTicket))
  | .loadTicket =>
      let i := R.slotIdx k.expectedTicket
      let goOnWith (slot : Slot P) : PoolThreads P F :=
        if R.processesFirst then
          goOn { k with pc := .processTicket (.compare slot.slotTicket slot.stampedBy) }
        else goOn { k with pc := .compare slot.slotTicket slot.stampedBy }
      match k.mode with
      | .scatterGather => some (.skip, fun _ => goOnWith (k.snapshot i))
      | .skipAhead => some (.load (L.ticketAddr i) 4, fun v => goOnWith (L.shownSlot l i 0 v))
  | .compare foundTicket stampedBy =>
      if foundTicket = k.expectedTicket then
        some (.skip, fun _ =>
          goOn { k with pc := .processTicket (.advance ⟨k.expectedTicket, stampedBy⟩) })
      else some (.skip, fun _ => goOn { k with pc := R.missing k })
  | .scanLoad scanTicket => some (.load (L.ticketAddr (R.slotIdx scanTicket)) 4, fun v =>
      if UInt32.ofNat v = scanTicket then goOn (nextRound k scanTicket)
      else goOn { k with pc := R.scanHead k (scanTicket + 1) })
  | .processTicket after =>
      let goOnWith (slotTicket : UInt32) : PoolThreads P F :=
        goOn { k with pc := .processField after slotTicket R.fields R.zeroPayload }
      match k.mode with
      | .scatterGather =>
          some (.skip, fun _ => goOnWith (k.snapshot (R.processedIdx k after)).slotTicket)
      | .skipAhead => some (.load (L.ticketAddr (R.processedIdx k after)) 4, fun v =>
          goOnWith (UInt32.ofNat v))
  | .processField after slotTicket (f :: rest) metric =>
      let goOnWith (payload : P) : PoolThreads P F := goOn { k with
        pc := .processField after slotTicket rest (Fieldwise.copy f payload metric) }
      match k.mode with
      | .scatterGather =>
          some (.skip, fun _ => goOnWith (k.snapshot (R.processedIdx k after)).payload)
      | .skipAhead => some (.load (L.fieldAddr (R.processedIdx k after) f) (L.size f), fun v =>
          goOnWith (L.ofValues fun _ => v))
  | .processField after slotTicket [] metric => some (.skip, fun _ =>
      goOn (resume { k with lines := k.lines ++ [⟨slotTicket, metric, after.accepted⟩] } after))
  | .storeRd =>
      some (.store L.rdIdx 4 k.expectedTicket.toNat, fun _ => goOn { k with pc := .loop })
  | .clearLoad => some (.load L.stateFlags 4, fun v =>
      goOn { k with pc := .clearStore (UInt32.ofNat v &&& ~~~R.threadActive) })
  | .clearStore stateFlags =>
      some (.store L.stateFlags 4 stateFlags.toNat, fun _ => goOn { k with pc := .terminated })

/-- **The access of a step of the pool.** -/
def access (calls : ℕ → Option P) (l : PoolThreads P F) :
    PoolAction → Option (MemOp × (ℕ → PoolThreads P F))
  | .producer c => L.producerAccess c (calls c) l
  | .spawn mode =>
      match l.consumer.pc with
      | .terminated => some (.skip, fun _ =>
          { l with consumer := { l.consumer with mode := mode, pc := .raiseLoad } })
      | _ => none
  | .consumer run => L.consumerAccess run l

/-! ## A step on memory is a step on the lane -/

/-- **A producer's step on memory** is, decoded, its step on the lane. -/
theorem producerStep_decode (me : ℕ) (metric : Option P) (m : Memory) (l : PoolThreads P F) :
    (R.producerStep me metric (L.decodeLane m l) (l.producer me)).map
        (fun p => ({ L.decode m l with
          lane := p.1, producer := update l.producer me p.2 } : PoolState P F))
      = (perform m (L.producerAccess me metric l)).map fun s => L.decode s.1 s.2 := by
  have hwr : (L.decodeLane m l).wrIdx = word m L.wrIdx := rfl
  unfold producerAccess
  cases hpc : l.producer me with
  | entry =>
      cases metric with
      | none => rfl
      | some metric =>
          simp only [TicketPool.producerStep, L.counter_decodeLane, perform_some, Option.map_some,
            MemOp.exec, ← L.decodeLane_claim]
          rfl
  | storing ticket rest =>
      have hslot : R.slotIdx ticket < R.capacity := Nat.mod_lt _ R.capacity_pos
      cases rest with
      | nil =>
          simp only [TicketPool.producerStep, perform_some, Option.map_some, MemOp.exec,
            ← L.decodeLane_store_ticket hslot]
          rfl
      | cons f rest =>
          cases metric with
          | none => rfl
          | some metric =>
              simp only [TicketPool.producerStep, perform_some, Option.map_some, MemOp.exec,
                ← L.decodeLane_store_field hslot]
              rfl
  | hintLoad ticket => rfl
  | hintSwap ticket currentWr =>
      simp only [TicketPool.producerStep, perform_some, Option.map_some, MemOp.exec, hwr,
        word_eq_iff]
      by_cases hcur : load m L.wrIdx 4 = currentWr.toNat
      · simp only [hcur, if_true, Option.map_some, ← L.decodeLane_store_wrIdx]
        rfl
      · simp only [hcur, if_false, Option.map_some]
        rfl
  | done ticket => rfl

/-- A slot of a decoded lane. -/
theorem slots_decodeLane {i : ℕ} (hi : i < R.capacity) (m : Memory) (l : PoolThreads P F) :
    (L.decodeLane m l).slots i = ⟨L.decodePayload m i, word m (L.ticketAddr i), l.stampedBy i⟩ :=
  if_pos hi

/-- A word of a slot shows the fields that lie in it. -/
theorem copyAll_shownSlot {w : ℕ} (hw : w < R.words.length) (m : Memory) (l : PoolThreads P F)
    (i : ℕ) (dst : P) :
    Fieldwise.copyAll R.words[w] (L.shownSlot l i w (load m (L.slotAddr i + 4 * w) 4)).payload dst
      = Fieldwise.copyAll R.words[w] (L.decodePayload m i) dst := by
  refine Fieldwise.ext _ _ fun f => ?_
  rw [Fieldwise.value_copyAll, Fieldwise.value_copyAll]
  split
  · rename_i hf
    obtain ⟨hle, hend⟩ := L.word_span w hw f hf
    have haddr : L.slotAddr i + 4 * w + (L.offset f - 4 * w) = L.fieldAddr i f := by
      rw [fieldAddr]
      omega
    rw [shownSlot, L.value_ofValues, load_div_mod (by omega), haddr, L.value_decodePayload]
  · rfl

/-- **Copying a word of a slot** from memory copies it from the lane. -/
theorem copyWord_shownSlot {i w a : ℕ} (hi : i < R.capacity) (m : Memory) (l : PoolThreads P F)
    (dst : Slot P)
    (ha : a = if w < R.words.length then L.slotAddr i + 4 * w else L.ticketAddr i) :
    R.copyWord w (L.shownSlot l i w (load m a 4)) dst
      = R.copyWord w ((L.decodeLane m l).slots i) dst := by
  rw [L.slots_decodeLane hi, TicketPool.copyWord, TicketPool.copyWord]
  by_cases hw : w < R.words.length
  · rw [if_pos hw] at ha
    subst ha
    simp only [List.getElem?_eq_getElem hw, L.copyAll_shownSlot hw]
  · rw [if_neg hw] at ha
    subst ha
    rw [List.getElem?_eq_none (Nat.le_of_not_lt hw)]
    rfl

/-- A field of a slot that was loaded. -/
theorem copy_ofValues_load {i : ℕ} (hi : i < R.capacity) (f : F) (m : Memory)
    (l : PoolThreads P F) (dst : P) :
    Fieldwise.copy f (L.ofValues fun _ => load m (L.fieldAddr i f) (L.size f)) dst
      = Fieldwise.copy f ((L.decodeLane m l).slots i).payload dst := by
  have hslot : ((L.decodeLane m l).slots i).payload = L.decodePayload m i := by
    rw [L.slots_decodeLane hi]
  refine Fieldwise.ext _ _ fun g => ?_
  rw [hslot, Fieldwise.value_copy, Fieldwise.value_copy]
  split
  · rename_i heq
    subst heq
    rw [L.value_ofValues, L.value_decodePayload, Nat.mod_eq_of_lt (load_lt ..)]
  · rfl

/-- The slots the thread works on are slots of the pool. -/
theorem processedIdx_lt (k : Consumer P F) (after : AfterProcess) :
    R.processedIdx k after < R.capacity := by
  cases after <;> exact Nat.mod_lt _ R.capacity_pos

/-- **The thread copies slots of the pool only.** -/
def CopyInRange (R : TicketPool P F) (k : Consumer P F) : Prop :=
  ∀ i w, k.pc = .copy i w → i < R.capacity

/-- **A step of the consumer thread on memory** is, decoded, its step on the lane. -/
theorem consumerStep_decode (run : Bool) {m : Memory} {l : PoolThreads P F}
    (hin : CopyInRange R l.consumer) :
    (R.consumerStep run (L.decodeLane m l) l.consumer).map
        (fun p => ({ L.decode m l with lane := p.1, consumer := p.2 } : PoolState P F))
      = (perform m (L.consumerAccess run l)).map fun s => L.decode s.1 s.2 := by
  have hidx (t : UInt32) : R.slotIdx t < R.capacity := Nat.mod_lt _ R.capacity_pos
  simp only [consumerAccess, TicketPool.consumerStep]
  cases hpc : l.consumer.pc with
  | terminated | raiseLoad | loadRd | loop | loadHint | clearLoad => rfl
  | raiseStore stateFlags | clearStore stateFlags =>
      simp only [perform_some, Option.map_some, MemOp.exec, ← L.decodeLane_store_stateFlags]
      rfl
  | storeRd =>
      simp only [perform_some, Option.map_some, MemOp.exec, ← L.decodeLane_store_rdIdx]
      rfl
  | copy i w =>
      have hi : i < R.capacity := hin i w hpc
      by_cases hw : w < R.words.length
      · simp only [if_pos hw, perform_some, Option.map_some, MemOp.exec,
          L.copyWord_shownSlot hi m l _ (if_pos hw).symm]
        rfl
      · simp only [if_neg hw, perform_some, Option.map_some, MemOp.exec,
          L.copyWord_shownSlot hi m l _ (if_neg hw).symm]
        rfl
  | loadTicket =>
      have hslot := L.slots_decodeLane (hidx l.consumer.expectedTicket) m l
      cases hmode : l.consumer.mode <;> cases hfirst : R.processesFirst <;>
        simp [perform_some, MemOp.exec, view, hmode, hslot, shownSlot, decode, word]
      all_goals rfl
  | compare foundTicket stampedBy =>
      by_cases heq : foundTicket = l.consumer.expectedTicket
      · simp only [if_pos heq]
        rfl
      · simp only [if_neg heq]
        rfl
  | scanLoad scanTicket =>
      have hslot := L.slots_decodeLane (hidx scanTicket) m l
      by_cases heq : word m (L.ticketAddr (R.slotIdx scanTicket)) = scanTicket
      · have hload : UInt32.ofNat (load m (L.ticketAddr (R.slotIdx scanTicket)) 4) = scanTicket :=
          heq
        simp only [hslot, perform_some, Option.map_some, MemOp.exec, heq, hload, if_true]
        rfl
      · have hload : UInt32.ofNat (load m (L.ticketAddr (R.slotIdx scanTicket)) 4) ≠ scanTicket :=
          heq
        simp only [hslot, perform_some, Option.map_some, MemOp.exec, heq, hload, if_false]
        rfl
  | processTicket after =>
      have hslot := L.slots_decodeLane (processedIdx_lt l.consumer after) m l
      cases hmode : l.consumer.mode <;>
        simp [perform_some, MemOp.exec, view, hmode, hslot, decode, word]
      all_goals rfl
  | processField after slotTicket rest metric =>
      cases rest with
      | nil => rfl
      | cons f rest =>
          have hcopy := L.copy_ofValues_load (processedIdx_lt l.consumer after) f m l metric
          cases hmode : l.consumer.mode with
          | scatterGather =>
              simp only [perform_some, Option.map_some, MemOp.exec, view, hmode]
              rfl
          | skipAhead =>
              simp only [perform_some, Option.map_some, MemOp.exec, view, hmode, hcopy]
              rfl

/-- **A step on memory is, decoded, the step on the lane.** -/
theorem poolNext_decode (calls : ℕ → Option P) {m : Memory} {l : PoolThreads P F}
    (hin : CopyInRange R l.consumer) (a : PoolAction) :
    R.poolNext calls (L.decode m l) a
      = (perform m (L.access calls l a)).map fun s => L.decode s.1 s.2 := by
  cases a with
  | producer c => exact L.producerStep_decode c (calls c) m l
  | spawn mode =>
      simp only [TicketPool.poolNext, access]
      cases hpc : l.consumer.pc <;> simp only [decode, hpc] <;> rfl
  | consumer run => exact L.consumerStep_decode run hin

/-! ## The pool as a tenant of memory -/

omit [DecidableEq F] [Fieldwise P F] in
/-- The loop over expected tickets copies nothing. -/
theorem roundHead_ne_copy (k : Consumer P F) (i w : ℕ) : TicketPool.roundHead k ≠ .copy i w := by
  rw [TicketPool.roundHead]
  split
  · simp
  · split <;> simp

/-- The scan copies nothing. -/
theorem scanHead_ne_copy (k : Consumer P F) (scanTicket : UInt32) (i w : ℕ) :
    R.scanHead k scanTicket ≠ .copy i w := by
  rw [TicketPool.scanHead]
  split
  · split <;> simp
  · simp

/-- A pass starts with the first slot. -/
theorem passStart_copy {k : Consumer P F} {i w : ℕ} (h : passStart k = .copy i w) :
    i < R.capacity := by
  rw [passStart] at h
  split at h <;> cases h
  exact R.capacity_pos

/-- The copy goes on to slots of the pool only. -/
theorem afterCopy_copy {k : Consumer P F} {i w i' w' : ℕ} (hi : i < R.capacity)
    (h : R.afterCopy k i w = .copy i' w') : i' < R.capacity := by
  rw [TicketPool.afterCopy] at h
  split at h
  · cases h
    exact hi
  · split at h
    · cases h
      assumption
    · exact absurd h (roundHead_ne_copy k i' w')

/-- **The thread stays within the pool.** -/
theorem copyInRange_consumerStep {run : Bool} {lane lane' : TicketLane P} {k k' : Consumer P F}
    (h : R.consumerStep run lane k = some (lane', k')) (hin : CopyInRange R k) :
    CopyInRange R k' := by
  intro i w hpc
  unfold TicketPool.consumerStep at h
  split at h
  case h_5 =>
    cases h
    cases run with
    | true => exact passStart_copy hpc
    | false => cases hpc
  case h_6 i' w' hcopy =>
    cases h
    exact afterCopy_copy (hin i' w' hcopy) hpc
  case h_9 =>
    split at h <;> cases h
    · cases hpc
    · -- a missing ticket ends the pass on a snapshot, and starts the scan otherwise
      simp only [TicketPool.missing] at hpc
      split at hpc
      · cases hpc
      · exact absurd hpc (scanHead_ne_copy _ _ i w)
  case h_10 =>
    split at h <;> cases h
    · exact absurd hpc (roundHead_ne_copy _ i w)
    · exact absurd hpc (scanHead_ne_copy _ _ i w)
  case h_13 after t metric _ =>
    cases h
    cases after with
    | advance accepted => exact absurd hpc (roundHead_ne_copy _ i w)
    | _ => cases hpc
  case h_7 =>
    cases h
    exact absurd hpc (roundHead_ne_copy _ i w)
  case h_8 => split at h <;> cases h <;> cases hpc
  all_goals cases h <;> cases hpc

/-- Every step of the pool keeps the thread within it. -/
theorem copyInRange_poolNext {calls : ℕ → Option P} {s s' : PoolState P F} {a : PoolAction}
    (h : R.poolNext calls s a = some s') (hin : CopyInRange R s.consumer) :
    CopyInRange R s'.consumer := by
  cases a with
  | producer c =>
      obtain ⟨_, _, rfl⟩ := Option.map_eq_some_iff.mp h
      exact hin
  | spawn mode =>
      rw [TicketPool.poolNext] at h
      split at h <;> cases h
      intro i w hpc
      cases hpc
  | consumer run =>
      obtain ⟨⟨lane, k⟩, hstep, rfl⟩ := Option.map_eq_some_iff.mp h
      exact copyInRange_consumerStep hstep hin

/-- **The bytes of the pool**: its lane and its slots. -/
def region : Set ℕ :=
  Set.Ico L.control (L.control + L.controlSize) ∪
    Set.Ico L.pool (L.pool + L.slotSize * R.capacity)

/-- A range in the control lane. -/
theorem control_subset {a n : ℕ} (h : L.control ≤ a) (h' : a + n ≤ L.control + L.controlSize) :
    Set.Ico a (a + n) ⊆ L.region := by
  rintro x ⟨hx, hx'⟩
  exact .inl ⟨h.trans hx, by omega⟩

/-- A range in a slot. -/
theorem slot_subset {i a n : ℕ} (hi : i < R.capacity) (h : L.slotAddr i ≤ a)
    (h' : a + n ≤ L.slotAddr i + L.slotSize) : Set.Ico a (a + n) ⊆ L.region := by
  have hmul := Nat.mul_le_mul_left L.slotSize (Nat.succ_le_of_lt hi)
  rw [Nat.mul_succ] at hmul
  rw [slotAddr] at h h'
  rintro x ⟨hx, hx'⟩
  exact .inr ⟨by omega, by omega⟩

/-- The ticket word of a slot. -/
theorem ticketAddr_subset {i : ℕ} (hi : i < R.capacity) :
    Set.Ico (L.ticketAddr i) (L.ticketAddr i + 4) ⊆ L.region := by
  have hle := L.ticketOffset_le
  refine L.slot_subset hi (Nat.le_add_right _ _) ?_
  rw [ticketAddr]
  omega

/-- A field of a slot. -/
theorem fieldAddr_subset {i : ℕ} (hi : i < R.capacity) (f : F) :
    Set.Ico (L.fieldAddr i f) (L.fieldAddr i f + L.size f) ⊆ L.region := by
  have hle := L.ticketOffset_le
  have hle' := L.offset_le f
  refine L.slot_subset hi (Nat.le_add_right _ _) ?_
  rw [fieldAddr]
  omega

/-- A word of a payload. -/
theorem payloadWord_subset {i w : ℕ} (hi : i < R.capacity) (hw : w < R.words.length) :
    Set.Ico (L.slotAddr i + 4 * w) (L.slotAddr i + 4 * w + 4) ⊆ L.region := by
  have hle := L.words_le
  have hle' := L.ticketOffset_le
  exact L.slot_subset hi (Nat.le_add_right _ _) (by omega)

/-- **Every access of the pool is within its bytes.** -/
theorem access_within {calls : ℕ → Option P} {l : PoolThreads P F} {a : PoolAction} {op : MemOp}
    {k : ℕ → PoolThreads P F} (hin : CopyInRange R l.consumer)
    (h : L.access calls l a = some (op, k)) : op.footprint ⊆ L.region := by
  have h₁ := L.control_le
  have h₂ := L.rdIdx_le
  have h₃ := L.wrIdx_le
  have h₄ := L.stateFlags_le
  have hctr := L.ticketCounter_in
  have hidx (t : UInt32) : R.slotIdx t < R.capacity := Nat.mod_lt _ R.capacity_pos
  have hskip : MemOp.skip.footprint ⊆ L.region := Set.empty_subset _
  have hrd : Set.Ico L.rdIdx (L.rdIdx + 4) ⊆ L.region := L.control_subset h₁ (by omega)
  have hwr : Set.Ico L.wrIdx (L.wrIdx + 4) ⊆ L.region := L.control_subset (by omega) (by omega)
  have hflags : Set.Ico L.stateFlags (L.stateFlags + 4) ⊆ L.region :=
    L.control_subset (by omega) h₄
  cases a with
  | producer c =>
      simp only [access, producerAccess] at h
      cases hpc : l.producer c with
      | entry =>
          cases hmetric : calls c <;> simp only [hpc, hmetric] at h <;> cases h
          · exact hskip
          · exact L.control_subset hctr.1 hctr.2
      | storing ticket rest =>
          cases rest with
          | nil =>
              simp only [hpc] at h
              cases h
              exact L.ticketAddr_subset (hidx ticket)
          | cons f rest =>
              simp only [hpc] at h
              obtain ⟨m, -, heq⟩ := Option.map_eq_some_iff.mp h
              cases heq
              exact L.fieldAddr_subset (hidx ticket) f
      | hintLoad ticket | hintSwap ticket currentWr =>
          simp only [hpc] at h
          cases h
          exact hwr
      | done ticket =>
          simp only [hpc] at h
          cases h
  | spawn mode =>
      simp only [access] at h
      split at h <;> cases h
      exact hskip
  | consumer run =>
      simp only [access, consumerAccess] at h
      split at h
      case h_1 => cases h
      case h_5 | h_13 => cases h; exact hskip
      case h_2 | h_3 | h_15 | h_16 => cases h; exact hflags
      case h_4 | h_14 => cases h; exact hrd
      case h_7 => cases h; exact hwr
      case h_6 i w hcopy =>
        split at h <;> cases h
        · exact L.payloadWord_subset (hin i w hcopy) ‹_›
        · exact L.ticketAddr_subset (hin i w hcopy)
      case h_8 =>
        split at h <;> cases h
        · exact hskip
        · exact L.ticketAddr_subset (hidx _)
      case h_9 => split at h <;> cases h <;> exact hskip
      case h_10 => cases h; exact L.ticketAddr_subset (hidx _)
      case h_11 =>
        split at h <;> cases h
        · exact hskip
        · exact L.ticketAddr_subset (processedIdx_lt _ _)
      case h_12 f rest metric _ =>
        split at h <;> cases h
        · exact hskip
        · exact L.fieldAddr_subset (processedIdx_lt _ _) f

/-- The threads before their first step. -/
def idleThreads (R : TicketPool P F) : PoolThreads P F where
  producer := fun _ => .entry
  consumer := R.idleConsumer
  stampedBy := fun _ => none
  claimed := 0

/-- **On zeroed memory the lane is the zeroed one.** -/
theorem decode_zeroed : L.decode (fun _ => 0) (idleThreads R) = R.poolInit := by
  have hword (a : ℕ) : word (fun _ => 0) a = 0 := by
    rw [word, load_zeroed]
    rfl
  have hpayload (i : ℕ) : L.decodePayload (fun _ => 0) i = R.zeroPayload :=
    L.decodePayload_ext fun f => by rw [load_zeroed, L.value_zero]
  have hslots : L.decodeSlot (fun _ => 0) (fun _ => none) = fun _ => R.zeroSlot := by
    funext i
    rw [decodeSlot, hpayload, hword, TicketPool.zeroSlot, ite_self]
  rw [decode, decodeLane, hword, hword, hword, hword, ite_self, idleThreads, hslots]
  rfl

/-- A step on memory keeps the thread within the pool. -/
theorem copyInRange_perform {calls : ℕ → Option P} {m m' : Memory} {l l' : PoolThreads P F}
    {a : PoolAction} (hin : CopyInRange R l.consumer)
    (h : perform m (L.access calls l a) = some (m', l')) : CopyInRange R l'.consumer := by
  have hstep := L.poolNext_decode calls (m := m) hin a
  rw [h, Option.map_some] at hstep
  exact copyInRange_poolNext hstep hin

/-- **What is decoded depends on the bytes of the pool only.** -/
theorem decode_congr {m m' : Memory} (h : Set.EqOn m m' L.region) (l : PoolThreads P F) :
    L.decode m l = L.decode m' l := by
  have h₁ := L.control_le
  have h₂ := L.rdIdx_le
  have h₃ := L.wrIdx_le
  have h₄ := L.stateFlags_le
  have hctr := L.ticketCounter_in
  have hword {a : ℕ} (ha : Set.Ico a (a + 4) ⊆ L.region) : word m a = word m' a := by
    rw [word, word, load_congr (h.mono ha)]
  have hslots : L.decodeSlot m l.stampedBy = L.decodeSlot m' l.stampedBy := by
    funext i
    rw [decodeSlot, decodeSlot]
    split
    · rename_i hi
      have hpayload : L.decodePayload m i = L.decodePayload m' i :=
        congrArg L.ofValues (funext fun f => load_congr (h.mono (L.fieldAddr_subset hi f)))
      rw [hpayload, hword (L.ticketAddr_subset hi)]
    · rfl
  rw [decode, decode, decodeLane, decodeLane, hslots, hword (L.control_subset h₁ (by omega)),
    hword (a := L.wrIdx) (L.control_subset (by omega) (by omega)),
    hword (L.control_subset hctr.1 hctr.2), hword (a := L.stateFlags)
      (L.control_subset (by omega) h₄)]

/-- **The pool as a tenant of memory**: from any contents of memory, its threads keep to its
bytes. -/
def tenant (calls : ℕ → Option P) : Tenant where
  Local := PoolThreads P F
  Action := PoolAction
  region := L.region
  access := L.access calls
  ok := fun _ => True
  Inv := fun _ l => CopyInRange R l.consumer
  inv_congr := fun _ h => h
  inv_step := fun hin _ h => L.copyInRange_perform hin h
  within := fun hin _ h => L.access_within hin h

/-- No thread copies before its first step. -/
theorem copyInRange_idle (R : TicketPool P F) : CopyInRange R (idleThreads R).consumer := by
  intro i w hpc
  cases hpc

/-- The states of the pool on memory. -/
abbrev OnPage (_ : PoolLayout R) : Type := Memory × PoolThreads P F

/-- A step of the pool on memory. -/
def pageNext (calls : ℕ → Option P) (s : L.OnPage) (a : PoolAction) : Option L.OnPage :=
  perform s.1 (L.access calls s.2 a)

/-- It is a step of the tenant. -/
theorem tenant_next (calls : ℕ → Option P) : (L.tenant calls).next = L.pageNext calls := rfl

/-- **Runs on memory are runs on the lane**: any list of steps, taken on zeroed memory and then
decoded, is what the same steps make of the zeroed lane. -/
theorem exec_decode (calls : ℕ → Option P) (as : List PoolAction) :
    exec (R.poolNext calls) R.poolInit as
      = (exec (L.pageNext calls) (fun _ => 0, idleThreads R) as).map fun s =>
          L.decode s.1 s.2 := by
  rw [← L.decode_zeroed]
  exact exec_map (I := fun s : L.OnPage => CopyInRange R s.2.consumer) (p := fun _ => True)
    (f := fun s : L.OnPage => L.decode s.1 s.2) (t := (fun _ => 0, idleThreads R))
    (fun s a hin _ => L.poolNext_decode calls hin a)
    (fun s a s' hin _ h => L.copyInRange_perform hin h) as (fun _ _ => trivial)
    (copyInRange_idle R)

/-- **What the pool reaches on memory** is, decoded, what it reaches on the lane. -/
theorem reachable_decode {calls : ℕ → Option P} {s : L.OnPage}
    (h : Reachable (L.pageNext calls) (fun _ => 0, idleThreads R) s) :
    Reachable (R.poolNext calls) R.poolInit (L.decode s.1 s.2) := by
  refine h.map (f := fun s : L.OnPage => L.decode s.1 s.2)
    (I := fun s : L.OnPage => CopyInRange R s.2.consumer) (copyInRange_idle R) L.decode_zeroed
    (fun s a s' hin _ hnext => L.copyInRange_perform hin hnext) ?_
  intro s a s' hin _ hnext
  refine .inr ⟨a, trivial, ?_⟩
  rw [L.poolNext_decode calls hin a]
  exact congrArg (Option.map fun s : L.OnPage => L.decode s.1 s.2) hnext

end PoolLayout

end TelemetrySubsystem
