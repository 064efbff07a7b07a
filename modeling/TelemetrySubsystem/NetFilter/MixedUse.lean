import TelemetrySubsystem.MetricPush.Alone
import TelemetrySubsystem.NetFilter.Hook
import TelemetrySubsystem.TicketPool.CompletedCalls

/-! # The net lane under both of its producers

`packet_telemetry_hook` takes the 768 bytes of `net_buffer` for 24 slots of 32 bytes, draws its
tickets from `ticket_dispenser` and leaves a slot number in `wr_idx`.
`telemetry_net_dev_push_metric` takes the same bytes for a byte ring and the same `wr_idx` for a
byte index.

* **`NetLane`** is the lane byte by byte, and **`netLaneNext`** a complete operation on it.
* **`NetLane.Shows`** reads a slot pool off the bytes; `Shows.hook` says that the byte-level hook is
  the hook of the pool.
* **`SlotsIntact`**: every slot still carries what the hook stamped into it last.
  `slotsIntact_of_clear` proves it for the runs in which no push stores into a record, and
  `push_overwrites_record` is a hook call and a push after which it fails. -/

namespace TelemetrySubsystem

open ActionSystem CyclicWindow TicketPool WrapCounter
open Function (update)

/-! ## Bytes in memory -/

/-- The `n` bytes from address `a` on. -/
def loadBytes (mem : ℕ → UInt8) (a n : ℕ) : List UInt8 := (List.range n).map fun k => mem (a + k)

/-- Store bytes from address `a` on. -/
def storeBytes (mem : ℕ → UInt8) (a : ℕ) (bs : List UInt8) : ℕ → UInt8 := fun c =>
  if a ≤ c ∧ c < a + bs.length then bs.getD (c - a) 0 else mem c

/-- What is stored is loaded. -/
theorem loadBytes_storeBytes (mem : ℕ → UInt8) (a : ℕ) (bs : List UInt8) :
    loadBytes (storeBytes mem a bs) a bs.length = bs := by
  apply List.ext_getElem (by simp [loadBytes])
  intro k _ hk
  have hin : a ≤ a + k ∧ a + k < a + bs.length := ⟨Nat.le_add_right a k, by omega⟩
  simp only [loadBytes, List.getElem_map, List.getElem_range, storeBytes, if_pos hin,
    Nat.add_sub_cancel_left, List.getD_eq_getElem?_getD, List.getElem?_eq_getElem hk,
    Option.getD_some]

/-- A load depends only on the bytes it loads. -/
theorem loadBytes_congr {mem mem' : ℕ → UInt8} {a n : ℕ} (h : ∀ k < n, mem' (a + k) = mem (a + k)) :
    loadBytes mem' a n = loadBytes mem a n :=
  List.map_congr_left fun k hk => h k (List.mem_range.mp hk)

/-- A store elsewhere is not seen. -/
theorem loadBytes_storeBytes_of_disjoint {mem : ℕ → UInt8} {a b n : ℕ} {bs : List UInt8}
    (h : a + n ≤ b ∨ b + bs.length ≤ a) :
    loadBytes (storeBytes mem b bs) a n = loadBytes mem a n :=
  loadBytes_congr fun k hk => if_neg (by omega)

/-! ## The lane -/

/-- The bytes of a slot that carry its record: the metric and the ticket. The rest is padding. -/
def sizeofRecord : ℕ := 20

/-- The record of a slot as it lies in memory. -/
def recordBytes (m : NetPacketMetric) (ticket : UInt32) : List UInt8 := m.bytes ++ leBytes32 ticket

/-- A record fills its bytes. -/
@[simp] theorem length_recordBytes (m : NetPacketMetric) (ticket : UInt32) :
    (recordBytes m ticket).length = sizeofRecord := rfl

/-- **The net lane byte by byte.** -/
structure NetLane where
  /-- The control words and the buffer that the pushes see as a byte ring. -/
  ring : ByteRing
  ticketDispenser : UInt32
  /-- History: what the hook stamped last into each slot. -/
  stamped : ℕ → Option (NetPacketMetric × UInt32)

/-- The address of a slot in the buffer. -/
def slotAddr (i : ℕ) : ℕ := netfilterSlotSize * i

/-- The record bytes of slot `i`. -/
def NetLane.record (l : NetLane) (i : ℕ) : List UInt8 :=
  loadBytes l.ring.buffer (slotAddr i) sizeofRecord

/-- The lane of the zeroed page. -/
def NetLane.zeroed : NetLane where
  ring := .zeroed
  ticketDispenser := 0
  stamped := fun _ => none

/-- A hook call that records a packet, from its ticket to the store of its hint. -/
def NetLane.hook (l : NetLane) (m : NetPacketMetric) : NetLane where
  ring := { l.ring with
    wrIdx := netPool.slotWord l.ticketDispenser + 1
    buffer := storeBytes l.ring.buffer (slotAddr (netPool.slotIdx l.ticketDispenser))
      (recordBytes m l.ticketDispenser) }
  ticketDispenser := l.ticketDispenser + 1
  stamped := update l.stamped (netPool.slotIdx l.ticketDispenser) (some (m, l.ticketDispenser))

/-- A complete operation on the net lane. -/
inductive NetLaneOp
  /-- `packet_telemetry_hook`. -/
  | hook (skb : Option SkBuff)
  /-- `telemetry_net_dev_push_metric`. -/
  | push (m : NetPacketMetric)
  /-- A consumer pass ends with its store of `rd_idx`. -/
  | storeRd (v : UInt32)
  deriving DecidableEq, Repr

/-- **One operation on the net lane**, from start to end. -/
def netLaneNext (l : NetLane) : NetLaneOp → Option NetLane
  | .hook skb => some ((hookMetric skb).elim l l.hook)
  | .push m =>
      some { l with ring := (pushBytes netfilterRingBufferCapacity 0 m.bytes l.ring).1 }
  | .storeRd v => some { l with ring := { l.ring with rdIdx := v } }

/-- **Every slot still carries what the hook stamped into it last**: that ticket, and that packet's
metric. -/
def SlotsIntact (l : NetLane) : Prop :=
  ∀ i m ticket, l.stamped i = some (m, ticket) → l.record i = recordBytes m ticket

/-! ## The pool in the bytes -/

/-- **The bytes of the lane show this pool.** -/
structure NetLane.Shows (l : NetLane) (lane : TicketLane NetPacketMetric) : Prop where
  rdIdx : l.ring.rdIdx = lane.rdIdx
  wrIdx : l.ring.wrIdx = lane.wrIdx
  ticketDispenser : l.ticketDispenser = lane.ticketDispenser
  record : ∀ i < netfilterSlotCapacity,
    l.record i = recordBytes (lane.slots i).payload (lane.slots i).slotTicket

/-- The zeroed page shows the zeroed pool. -/
theorem NetLane.Shows.zeroed : NetLane.zeroed.Shows netPool.zeroLane :=
  ⟨rfl, rfl, rfl, fun _ _ => by
    show (List.range sizeofRecord).map (fun _ => (0 : UInt8)) = recordBytes ⟨0, 0, 0, 0, 0⟩ 0
    decide⟩

/-- The slot that a hook call fills holds its record. -/
theorem NetLane.record_hook_self (l : NetLane) (m : NetPacketMetric) :
    (l.hook m).record (netPool.slotIdx l.ticketDispenser) = recordBytes m l.ticketDispenser :=
  loadBytes_storeBytes ..

/-- The other slots are left alone. -/
theorem NetLane.record_hook_of_ne (l : NetLane) (m : NetPacketMetric) {i : ℕ}
    (h : i ≠ netPool.slotIdx l.ticketDispenser) : (l.hook m).record i = l.record i := by
  apply loadBytes_storeBytes_of_disjoint
  rw [length_recordBytes]
  unfold slotAddr netfilterSlotSize sizeofRecord
  omega

/-- **The byte-level hook is the hook of the pool**: where the bytes show a pool, they show the
pool after the call when `packet_telemetry_hook` has run to its end. -/
theorem NetLane.Shows.hook {l : NetLane} {lane : TicketLane NetPacketMetric} (h : l.Shows lane)
    (me : ℕ) (p : TcpPacket) :
    ∃ lane' pc, Finishes (fun q => packetTelemetryHook me (some p.skb) q.1 q.2) (lane, .entry)
      (lane', pc) ∧ (l.hook p.metric).Shows lane' := by
  have hfin := finishes_commit (R := netPool) me p.metric lane
  refine ⟨netPool.commit me p.metric lane, .done (some (netPool.counter lane)), ?_, ?_⟩
  · -- the hook's steps are those of a call with the packet's metric
    have hstep : (fun q : TicketLane NetPacketMetric × ProducerPc NetField =>
        packetTelemetryHook me (some p.skb) q.1 q.2)
          = netPool.callStep me (some p.metric) := by
      funext q
      rw [packetTelemetryHook, hookMetric_tcp]
      rfl
    rw [hstep]
    exact hfin
  · have hticket : netPool.counter lane = l.ticketDispenser := h.ticketDispenser.symm
    have hslots : (netPool.commit me p.metric lane).slots
        = update lane.slots (netPool.slotIdx l.ticketDispenser)
          ⟨p.metric, l.ticketDispenser, some me⟩ := by
      rw [← hticket]
      rfl
    refine ⟨h.rdIdx, ?_, ?_, fun i hi => ?_⟩
    · show netPool.slotWord l.ticketDispenser + 1 = _
      rw [← hticket]
      rfl
    · show l.ticketDispenser + 1 = _
      rw [← hticket]
      rfl
    · rw [hslots]
      rcases eq_or_ne i (netPool.slotIdx l.ticketDispenser) with rfl | hne
      · rw [Function.update_self, l.record_hook_self]
      · rw [Function.update_of_ne hne, l.record_hook_of_ne p.metric hne]
        exact h.record i hi

/-! ## Where a push stores -/

/-- A push of `n` bytes stores into cell `c`: it reaches the byte that goes there without finding
the ring full. -/
def ByteRing.PushStores (cap : UInt32) (r : ByteRing) (n c : ℕ) : Prop :=
  ∃ j < n, c = (r.wrIdx.toNat + j) % cap.toNat ∧
    ∀ j' ≤ j, (r.wrIdx.toNat + j' + 1) % cap.toNat ≠ r.rdIdx.toNat

/-- **A push changes only the cells it stores into**, and leaves the write index in range. -/
theorem pushBytes_stores {cap : UInt32} (me : ℕ) (bs : List UInt8) {r : ByteRing}
    (hwr : r.wrIdx.toNat < cap.toNat) :
    (pushBytes cap me bs r).1.wrIdx.toNat < cap.toNat ∧
      ∀ c, ¬ r.PushStores cap bs.length c → (pushBytes cap me bs r).1.buffer c = r.buffer c := by
  induction bs generalizing r with
  | nil => exact ⟨hwr, fun _ _ => rfl⟩
  | cons b bs ih =>
      rw [pushBytes]
      split
      · exact ⟨hwr, fun _ _ => rfl⟩
      · next hfree =>
          have hnext : (next cap r.wrIdx).toNat = (r.wrIdx.toNat + 1) % cap.toNat := next_toNat hwr
          have hne : (r.wrIdx.toNat + 1) % cap.toNat ≠ r.rdIdx.toNat := by
            rw [← hnext]
            exact fun heq => hfree (UInt32.toNat_inj.mp heq)
          have hpos : 0 < cap.toNat := Nat.zero_lt_of_lt hwr
          obtain ⟨hwr', hkeep⟩ := ih (r := r.appendByte cap me b) (next_lt hpos _)
          refine ⟨hwr', fun c hc => ?_⟩
          have hother : c ≠ r.wrIdx.toNat := by
            rintro rfl
            refine hc ⟨0, Nat.succ_pos _, (Nat.mod_eq_of_lt hwr).symm, fun j' hj' => ?_⟩
            obtain rfl := Nat.le_zero.mp hj'
            exact hne
          rw [hkeep c fun hstore => hc ?_]
          · exact Function.update_of_ne hother ..
          · -- byte `j` of the rest is byte `j + 1` of the whole
            obtain ⟨j, hj, hcell, hroom⟩ := hstore
            have hshift : ∀ k, ((next cap r.wrIdx).toNat + k) % cap.toNat
                = (r.wrIdx.toNat + (k + 1)) % cap.toNat := by
              intro k
              rw [hnext, Nat.mod_add_mod]
              congr 1
              omega
            refine ⟨j + 1, Nat.succ_lt_succ hj, hcell.trans (hshift j), fun j' hj' => ?_⟩
            cases j' with
            | zero => exact hne
            | succ j' =>
                have := hroom j' (Nat.le_of_succ_le_succ hj')
                rw [Nat.add_assoc, ← hshift]
                exact this

/-! ## The law -/

/-- **The condition on an operation**: a push stores into no record of a slot that the hook has
stamped. -/
def ClearOfRecords (l : NetLane) : NetLaneOp → Prop
  | .push _ => ∀ i, l.stamped i ≠ none → ∀ k < sizeofRecord,
      ¬ l.ring.PushStores netfilterRingBufferCapacity sizeofNetPacketMetric (slotAddr i + k)
  | _ => True

/-- The invariant of the lane: whatever `wr_idx` means at the moment, it is a cell of the buffer,
and the stamped slots are intact. -/
structure NetLaneInv (l : NetLane) : Prop where
  wrIdx_lt : l.ring.wrIdx.toNat < netfilterRingBufferCapacity.toNat
  intact : SlotsIntact l

/-- The hint of a hook call is a cell of the buffer. -/
theorem slotWord_succ_lt (ticket : UInt32) :
    (netPool.slotWord ticket + 1).toNat < netfilterRingBufferCapacity.toNat := by
  have hlt : netPool.slotIdx ticket < 24 := Nat.mod_lt _ netPool.capacity_pos
  rw [slotWord, UInt32.toNat_add, toNat_ofNat, netfilterRingBufferCapacity_toNat, UInt32.toNat_one]
  omega

/-- **A hook call keeps the invariant**: it leaves its own record behind and no other one is
touched. -/
theorem NetLaneInv.hook {l : NetLane} (h : NetLaneInv l) (m : NetPacketMetric) :
    NetLaneInv (l.hook m) where
  wrIdx_lt := slotWord_succ_lt l.ticketDispenser
  intact := fun i m' ticket hstamp => by
    simp only [NetLane.hook] at hstamp
    rcases eq_or_ne i (netPool.slotIdx l.ticketDispenser) with rfl | hne
    · rw [Function.update_self, Option.some.injEq, Prod.mk.injEq] at hstamp
      obtain ⟨rfl, rfl⟩ := hstamp
      exact l.record_hook_self m
    · rw [Function.update_of_ne hne] at hstamp
      rw [l.record_hook_of_ne m hne]
      exact h.intact i m' ticket hstamp

/-- **A push that stays clear of the records keeps the invariant.** -/
theorem NetLaneInv.push {l : NetLane} (h : NetLaneInv l) {m : NetPacketMetric}
    (hclear : ClearOfRecords l (.push m)) :
    NetLaneInv { l with ring := (pushBytes netfilterRingBufferCapacity 0 m.bytes l.ring).1 } := by
  obtain ⟨hwr, hkeep⟩ := pushBytes_stores 0 m.bytes h.wrIdx_lt
  refine ⟨hwr, fun i m' ticket hstamp => ?_⟩
  have hstamped : l.stamped i ≠ none := fun hnone => by
    rw [show l.stamped i = some (m', ticket) from hstamp] at hnone
    cases hnone
  rw [← h.intact i m' ticket hstamp]
  exact loadBytes_congr fun k hk => hkeep _ (hclear i hstamped k hk)

/-- **Every operation under the condition keeps the invariant.** -/
theorem NetLaneInv.step {l l' : NetLane} {op : NetLaneOp} (h : NetLaneInv l)
    (hclear : ClearOfRecords l op) (hnext : netLaneNext l op = some l') : NetLaneInv l' := by
  cases op with
  | hook skb =>
      rw [netLaneNext, Option.some.injEq] at hnext
      subst hnext
      cases hookMetric skb with
      | none => exact h
      | some m => exact h.hook m
  | push m =>
      cases hnext
      exact h.push hclear
  | storeRd v =>
      cases hnext
      exact ⟨h.wrIdx_lt, h.intact⟩

/-- **The slots stay intact under all producers** as long as no push stores into a stamped record:
in every sequence of hook calls, pushes and stores of `rd_idx` from the zeroed page. -/
theorem slotsIntact_of_clear {l : NetLane}
    (h : ReachableUnder netLaneNext ClearOfRecords .zeroed l) : SlotsIntact l := by
  have hinv : NetLaneInv l :=
    h.invariant ⟨by decide, fun _ _ _ hstamp => by cases hstamp⟩ fun _ _ _ hi hok hnext =>
      hi.step hok hnext
  exact hinv.intact

/-- The check that a push stores into the padding of slots only. -/
def paddingCheck (l : NetLane) : NetLaneOp → Bool
  | .push _ => decide (∀ j < sizeofNetPacketMetric,
      (∃ j' ≤ j, (l.ring.wrIdx.toNat + j' + 1) % netfilterRingBufferCapacity.toNat
          = l.ring.rdIdx.toNat) ∨
        sizeofRecord ≤ (l.ring.wrIdx.toNat + j) % netfilterRingBufferCapacity.toNat
          % netfilterSlotSize)
  | _ => true

/-- A push that passes the check is clear of every record, stamped or not. -/
theorem clearOfRecords_of_check (l : NetLane) (op : NetLaneOp) (h : paddingCheck l op = true) :
    ClearOfRecords l op := by
  cases op with
  | push m =>
      rintro i - k hk ⟨j, hj, hcell, hroom⟩
      rcases of_decide_eq_true h j hj with ⟨j', hle, hfull⟩ | hpad
      · exact hroom j' hle hfull
      · -- byte `k` of slot `i` is no padding
        have hmod : (slotAddr i + k) % netfilterSlotSize = k := by
          have hk' : k < 20 := hk
          simp only [slotAddr, netfilterSlotSize]
          omega
        rw [← hcell, hmod] at hpad
        exact absurd hk (Nat.not_lt.mpr hpad)
  | hook skb => trivial
  | storeRd v => trivial

/-- Twenty packets leave `wr_idx` at 20, the first byte of padding in slot 0. The push that comes
then finds the ring full after three bytes, and a push behind one more packet at once. -/
def packetsAndPushes : List NetLaneOp :=
  List.replicate 20 (.hook (some samplePacket.skb))
    ++ [.storeRd 24, .push ⟨0x04030201, 5, 6, 7, 8⟩, .hook (some samplePacket.skb), .storeRd 22,
      .push ⟨1, 2, 3, 4, 5⟩]

/-- A push before the first packet, and pushes after 20 packets and after 21: the records are intact
and the padding holds the bytes of the second push. -/
theorem slotsIntact_pushes_between : ∃ l : NetLane,
    l.stamped 0 = some (samplePacket.metric, 0) ∧ l.stamped 20 = some (samplePacket.metric, 20) ∧
      loadBytes l.ring.buffer 20 4 = [1, 2, 3, 0] ∧ SlotsIntact l := by
  have hrun : ((netLaneNext .zeroed (.push ⟨6, 7, 8, 9, 10⟩)).bind fun l =>
      exec (checked netLaneNext paddingCheck) l packetsAndPushes).map
        (fun l => (l.stamped 0, l.stamped 20, loadBytes l.ring.buffer 20 4))
          = some (some (samplePacket.metric, 0), some (samplePacket.metric, 20), [1, 2, 3, 0]) := by
    decide +kernel
  obtain ⟨l, hl, heq⟩ := Option.map_eq_some_iff.mp hrun
  obtain ⟨l₁, hfirst, hrest⟩ := Option.bind_eq_some_iff.mp hl
  obtain ⟨hstamp₀, heq⟩ := Prod.mk.inj heq
  obtain ⟨hstamp₂₀, hpadding⟩ := Prod.mk.inj heq
  have hclear : ClearOfRecords .zeroed (.push ⟨6, 7, 8, 9, 10⟩) := fun _ hne => absurd rfl hne
  have hpush : ReachableUnder netLaneNext ClearOfRecords .zeroed l₁ := .step .start hclear hfirst
  exact ⟨l, hstamp₀, hstamp₂₀, hpadding, slotsIntact_of_clear
    (.of_check clearOfRecords_of_check packetsAndPushes hrest hpush)⟩

/-- **A push overwrites the record of a packet**: the first packet goes to slot 0 and leaves 1 in
`wr_idx`, which the next push takes for the index of its first byte. -/
theorem push_overwrites_record :
    ∃ l, Reachable netLaneNext .zeroed l ∧ l.stamped 0 = some (samplePacket.metric, 0) ∧
      ¬ SlotsIntact l := by
  refine ⟨_, .of_exec [.hook (some samplePacket.skb), .push ⟨1, 2, 3, 4, 5⟩] rfl, rfl,
    fun hintact => ?_⟩
  have hrecord := hintact 0 samplePacket.metric 0 rfl
  exact absurd hrecord (by decide +kernel)

end TelemetrySubsystem
