import TelemetrySubsystem.Foundations.PrefixCode
import TelemetrySubsystem.NetFilter.Snapshot

/-! # What the `cat` snapshot tells

The text of `telemetry_net_read` shows the number of every slot, its ticket, the addresses and ports
and the low half of the length, and nothing else: two pools have the same text exactly when they
agree on these.

* **`decimal_field`** and **`pI4_field`** are the fields of the format as prefix codes.
* **`ShownRecord`** is what a line shows; **`snapshotText_eq_iff`** is the law. -/

namespace TelemetrySubsystem

open ActionSystem ByteOrder
open Function (update)

/-! ## The fields of the format -/

/-- A number is printed with digits only. -/
theorem isDigit_of_mem_decimal {n : ℕ} {c : Char} (h : c ∈ decimal n) : c.isDigit = true :=
  Nat.isDigit_of_mem_toDigits (by decide) (by decide) h

/-- Different numbers are printed differently. -/
theorem decimal_injective : Function.Injective decimal := fun m n h => by
  rw [← Nat.ofDigitChars_ten_toDigits (n := m), ← Nat.ofDigitChars_ten_toDigits (n := n)]
  exact congrArg (Nat.ofDigitChars 10 · 0) h

/-- **A number can be read back** where it is closed by something else than a digit. -/
theorem decimal_field {c : Char} (hc : c.isDigit = false) (text : List Char) :
    PrefixCode fun n => decimal n ++ c :: text := by
  refine PrefixCode.delimited decimal_injective (fun n hn => ?_) text
  rw [isDigit_of_mem_decimal hn] at hc
  cases hc

/-- The four bytes of an address, as numbers. -/
def octets (address : UInt32) : ℕ × ℕ × ℕ × ℕ :=
  (address.toUInt8.toNat, (address >>> 8).toUInt8.toNat, (address >>> 16).toUInt8.toNat,
    (address >>> 24).toUInt8.toNat)

/-- They determine the address. -/
theorem octets_injective : Function.Injective octets := fun a b h => by
  simp only [octets, Prod.mk.injEq, UInt8.toNat_inj] at h
  obtain ⟨h₀, h₁, h₂, h₃⟩ := h
  have hbytes : leBytes32 a = leBytes32 b := by rw [leBytes32, leBytes32, h₀, h₁, h₂, h₃]
  rw [← UInt32.toNat_inj, ← ofBytesLE_leBytes32, ← ofBytesLE_leBytes32, hbytes]

/-- **An address can be read back** where it is closed by something else than a digit. -/
theorem pI4_field {c : Char} (hc : c.isDigit = false) (text : List Char) :
    PrefixCode fun address => pI4 address ++ c :: text := by
  have hdot : PrefixCode fun n => decimal n ++ ['.'] := decimal_field rfl []
  have hcode := (hdot.append (hdot.append (hdot.append (decimal_field hc text)))).comp
    octets_injective
  simp only [octets, List.append_assoc] at hcode
  have heq : (fun address => pI4 address ++ c :: text) = _ := funext fun address => by
    simp only [pI4, leBytes32, List.map_cons, List.map_nil, List.intercalate, List.intersperse,
      List.flatten_cons, List.flatten_nil, List.append_assoc, List.append_nil]
    rfl
  rw [heq]
  exact hcode

/-- Swapping the bytes of a word loses nothing. -/
theorem ntohs_injective : Function.Injective ntohs := fun x y h => by
  have hbytes : leBytes16 x = leBytes16 y := by
    refine List.reverse_injective (ofBytesLE_inj rfl ?_)
    have hnum := congrArg UInt16.toNat h
    rw [ntohs_toNat, ntohs_toNat] at hnum
    exact hnum
  rw [← UInt16.toNat_inj, ← ofBytesLE_leBytes16, ← ofBytesLE_leBytes16, hbytes]

/-! ## A line -/

/-- **What a line shows of a slot.** -/
structure ShownRecord where
  ticket : UInt32
  srcIp : UInt32
  srcPort : UInt16
  destIp : UInt32
  destPort : UInt16
  /-- The low half of the length. -/
  len : UInt16
  deriving DecidableEq, Repr

/-- What the line of a slot shows. -/
def shownRecord (slot : Slot NetPacketMetric) : ShownRecord where
  ticket := slot.slotTicket
  srcIp := slot.payload.srcIp
  srcPort := slot.payload.srcPort
  destIp := slot.payload.destIp
  destPort := slot.payload.destPort
  len := slot.payload.pktLen.toUInt16

/-- The text of a line, from what it shows. -/
def shownLine (i : ℕ) (x : ShownRecord) : List Char :=
  ("SLOT:".toList ++ decimal02 i ++ " | TICKET:".toList) ++ ((decimal x.ticket.toNat
    ++ " | ".toList) ++ ((pI4 x.srcIp ++ ":".toList) ++ ((decimal (ntohs x.srcPort).toNat
    ++ " -> ".toList) ++ ((pI4 x.destIp ++ ":".toList) ++ ((decimal (ntohs x.destPort).toNat
    ++ " | LEN:".toList) ++ (decimal (ntohs x.len).toNat ++ "\n".toList))))))

/-- It is the line of the slot. -/
theorem slotLine_eq (i : ℕ) (slot : Slot NetPacketMetric) :
    slotLine i slot = shownLine i (shownRecord slot) := by
  unfold slotLine shownLine
  simp only [shownRecord, readNumbers, List.append_assoc]

/-- The numbers of a line, in the order they are printed. -/
def ShownRecord.numbers (x : ShownRecord) : ℕ × UInt32 × ℕ × UInt32 × ℕ × ℕ :=
  (x.ticket.toNat, x.srcIp, (ntohs x.srcPort).toNat, x.destIp, (ntohs x.destPort).toNat,
    (ntohs x.len).toNat)

/-- They determine what is shown. -/
theorem numbers_injective : Function.Injective ShownRecord.numbers := fun x y h => by
  obtain ⟨t, s, sp, d, dp, l⟩ := x
  simp only [ShownRecord.numbers, Prod.mk.injEq, UInt32.toNat_inj, UInt16.toNat_inj,
    ntohs_injective.eq_iff] at h
  obtain ⟨rfl, rfl, rfl, rfl, rfl, rfl⟩ := h
  rfl

/-- **A line can be read back.** -/
theorem prefixCode_shownLine (i : ℕ) : PrefixCode (shownLine i) := by
  have hcode := ((decimal_field (c := ' ') rfl "| ".toList).append
    ((pI4_field (c := ':') rfl []).append ((decimal_field (c := ' ') rfl "-> ".toList).append
      ((pI4_field (c := ':') rfl []).append ((decimal_field (c := ' ') rfl "| LEN:".toList).append
        (decimal_field (c := '\n') rfl [])))))).comp numbers_injective
  exact hcode.text_append _

/-! ## The snapshot -/

/-- **The text determines what it shows, slot by slot.** -/
theorem snapshotText_eq_iff (slots slots' : ℕ → Slot NetPacketMetric) :
    snapshotText slots = snapshotText slots' ↔
      ∀ i < netfilterSlotCapacity, shownRecord (slots i) = shownRecord (slots' i) := by
  have htext : ∀ s : ℕ → Slot NetPacketMetric, snapshotText s = snapshotHeader
      ++ (((List.range netfilterSlotCapacity).map fun i => shownLine i (shownRecord (s i))).flatten
        ++ snapshotFooter) := by
    intro s
    simp only [snapshotText, snapshotTexts, slotLine_eq, List.cons_append, List.flatten_cons,
      List.flatten_append, List.flatten_nil, List.append_nil]
  rw [htext, htext]
  constructor
  · intro h i hi
    have hlines := PrefixCode.flatten_indexed prefixCode_shownLine _ (List.append_cancel_left h)
    exact hlines.1 i (List.mem_range.mpr hi)
  · intro h
    have hlines : (List.range netfilterSlotCapacity).map
          (fun i => shownLine i (shownRecord (slots i)))
        = (List.range netfilterSlotCapacity).map fun i => shownLine i (shownRecord (slots' i)) :=
      List.map_congr_left fun i hi => by rw [h i (List.mem_range.mp hi)]
    rw [hlines]

/-- The length that the hook stores is a 16-bit number. -/
def ShortLengths (slots : ℕ → Slot NetPacketMetric) : Prop :=
  ∀ i < netfilterSlotCapacity, (slots i).payload.pktLen.toNat < 2 ^ 16

/-- A slot with a 16-bit length is shown completely. -/
theorem eq_of_shownRecord {a b : Slot NetPacketMetric} (ha : a.payload.pktLen.toNat < 2 ^ 16)
    (hb : b.payload.pktLen.toNat < 2 ^ 16) (h : shownRecord a = shownRecord b) :
    a.slotTicket = b.slotTicket ∧ a.payload = b.payload := by
  obtain ⟨⟨s, d, sp, dp, l⟩, t, x⟩ := a
  obtain ⟨⟨s', d', sp', dp', l'⟩, t', x'⟩ := b
  simp only [shownRecord, ShownRecord.mk.injEq] at h
  obtain ⟨rfl, rfl, rfl, rfl, rfl, hlen⟩ := h
  have hlen : l = l' := by
    have hnum := congrArg UInt16.toNat hlen
    rw [UInt32.toNat_toUInt16, UInt32.toNat_toUInt16, Nat.mod_eq_of_lt ha, Nat.mod_eq_of_lt hb]
      at hnum
    exact UInt32.toNat_inj.mp hnum
  exact ⟨rfl, by rw [hlen]⟩

namespace TicketPool

variable {P F : Type} [DecidableEq F] [Fieldwise P F] {R : TicketPool P F}

/-- A call stores values of its own metric only. -/
theorem ProducerMove.value {me : ℕ} {metric : Option P} {lane lane' : TicketLane P}
    {pc pc' : ProducerPc F} {p : F → ℕ → Prop} (h : R.ProducerMove me metric lane pc lane' pc')
    (hmetric : ∀ m, metric = some m → ∀ f, p f (Fieldwise.value f m)) (i : ℕ) (f : F)
    (hold : p f (Fieldwise.value f (lane.slots i).payload)) :
    p f (Fieldwise.value f (lane'.slots i).payload) := by
  cases h with
  | claim =>
      rw [claim_slots]
      exact hold
  | @store t g rest m hm =>
      simp only [TicketLane.storeField]
      by_cases hi : i = R.slotIdx t
      · subst hi
        rw [Function.update_self, Fieldwise.value_copy]
        split
        · exact hmetric m hm f
        · exact hold
      · rw [Function.update_of_ne hi]
        exact hold
  | @stamp t =>
      simp only [TicketLane.stamp]
      by_cases hi : i = R.slotIdx t
      · subst hi
        rw [Function.update_self]
        exact hold
      · rw [Function.update_of_ne hi]
        exact hold
  | leave _ | reload _ | swap => exact hold

/-- **Every value in the pool comes from a metric**, or from the zeroed page. -/
theorem value_of_reachable {calls : ℕ → Option P} {p : F → ℕ → Prop}
    (hzero : ∀ f, p f (Fieldwise.value f R.zeroPayload))
    (hcalls : ∀ c m, calls c = some m → ∀ f, p f (Fieldwise.value f m)) {s : PoolState P F}
    (h : Reachable (R.poolNext calls) R.poolInit s) (i : ℕ) (f : F) :
    p f (Fieldwise.value f (s.lane.slots i).payload) := by
  refine h.invariant (I := fun s => ∀ i f, p f (Fieldwise.value f (s.lane.slots i).payload))
    (fun _ f => hzero f) ?_ i f
  intro s a s' hs _ hnext i f
  obtain ⟨c, lane, pc, -, hmove, rfl⟩ | ⟨mode, -, -, rfl⟩ | ⟨run, lane, k, -, hmove, rfl⟩ :=
    poolNext_cases hnext
  · exact hmove.value (hcalls c) i f (hs i f)
  · exact hs i f
  · simp only [hmove.samePool.slots]
    exact hs i f

end TicketPool

/-- The length of a packet that the hook records is a 16-bit number. -/
theorem pktLen_lt_of_hookMetric {skb : Option SkBuff} {m : NetPacketMetric}
    (h : hookMetric skb = some m) : m.pktLen.toNat < 2 ^ 16 := by
  obtain _ | ⟨ip, tcp⟩ := skb
  · cases h
  · obtain _ | ip := ip
    · cases h
    · simp only [hookMetric] at h
      split at h
      · cases h
      · obtain _ | tcp := tcp <;> cases h
        exact UInt16.toNat_toUInt32 ip.totLen ▸ ip.totLen.toNat_lt

/-- **The pool holds 16-bit lengths** in every run of the net filter. -/
theorem shortLengths_of_reachable {packets : ℕ → Option SkBuff}
    {s : PoolState NetPacketMetric NetField}
    (h : Reachable (netNext packets) netPool.poolInit s) : ShortLengths s.lane.slots := by
  intro i _
  have hvalue := TicketPool.value_of_reachable (p := fun f n => f = NetField.pktLen → n < 2 ^ 16)
    (fun f hf => by subst hf; decide)
    (fun c m hm f hf => by subst hf; exact pktLen_lt_of_hookMetric hm) h i .pktLen
  exact hvalue rfl

/-- **What `cat` tells two pools apart by.** -/
structure CatTells : Prop where
  /-- Two reads deliver the same text exactly when all lines show the same. -/
  output : ∀ slots slots' call r r', Delivered slots call r → Delivered slots' call r' →
    (r.output = r'.output ↔
      ∀ i < netfilterSlotCapacity, shownRecord (slots i) = shownRecord (slots' i))
  /-- What the hook records is shown completely. -/
  recorded : ∀ packets packets' s s', Reachable (netNext packets) netPool.poolInit s →
    Reachable (netNext packets') netPool.poolInit s' →
    (snapshotText s.lane.slots = snapshotText s'.lane.slots ↔ ∀ i < netfilterSlotCapacity,
      (s.lane.slots i).slotTicket = (s'.lane.slots i).slotTicket ∧
        (s.lane.slots i).payload = (s'.lane.slots i).payload)

/-- **The snapshot can be read back**: it tells two pools apart by every ticket, address and port,
and by the low half of every length, which is all of it in a pool that the hook has filled. -/
theorem catTells : CatTells where
  output slots slots' call r r' h h' := by
    rw [h.2.2, h'.2.2, Option.some.injEq]
    exact snapshotText_eq_iff slots slots'
  recorded packets packets' s s' h h' := by
    have hs := shortLengths_of_reachable h
    have hs' := shortLengths_of_reachable h'
    rw [snapshotText_eq_iff]
    refine forall₂_congr fun i hi => ⟨fun h => eq_of_shownRecord (hs i hi) (hs' i hi) h, ?_⟩
    rintro ⟨hticket, hpayload⟩
    rw [shownRecord, shownRecord, hticket, hpayload]

end TelemetrySubsystem
