import TelemetrySubsystem.Foundations.BoundedPrint
import TelemetrySubsystem.NetFilter.Hook
import TelemetrySubsystem.SharedPage.HostOrder
import Mathlib.Algebra.Order.BigOperators.Group.List
import Mathlib.Algebra.Order.Ring.Nat

/-! # The `cat` snapshot of the net pool

`telemetry_net_read` formats the whole pool into one page, a header, one line a slot and a footer,
and copies the page to the reader. A second read of the same file finds `*ppos` advanced and gets
the end of file.

* **`slotLine`** is the text of a line, **`snapshotTexts`** the row of `snprintf` calls.
* **`telemetryNetRead`** is the function, with its error paths in source order.
* **`length_slotLine_le`** bounds a line, and **`snapshotFits`** the page.
* **`telemetryNetRead_snapshot`** is the behaviour of a read. -/

namespace TelemetrySubsystem

open BoundedPrint

/-! ## The text -/

/-- `%u`. -/
def decimal (n : ℕ) : List Char := Nat.toDigits 10 n

/-- `%02d`. -/
def decimal02 (n : ℕ) : List Char := List.leftpad 2 '0' (decimal n)

/-- `%pI4`: the four bytes of an address in memory order. -/
def pI4 (address : UInt32) : List Char :=
  List.intercalate ['.'] ((leBytes32 address).map fun b => decimal b.toNat)

/-- The ports and the length that a reader of the ring shows for a slot. -/
structure ShownNumbers where
  srcPort : ℕ
  destPort : ℕ
  len : ℕ
  deriving DecidableEq, Repr

/-- The numbers that `telemetry_net_read` shows. `ntohs` takes the low 16 bits of the length. -/
def readNumbers (m : NetPacketMetric) : ShownNumbers where
  srcPort := (ntohs m.srcPort).toNat
  destPort := (ntohs m.destPort).toNat
  len := (ntohs m.pktLen.toUInt16).toNat

/-- The line of slot `i`. -/
def slotLine (i : ℕ) (slot : Slot NetPacketMetric) : List Char :=
  "SLOT:".toList ++ decimal02 i ++ " | TICKET:".toList ++ decimal slot.slotTicket.toNat
    ++ " | ".toList ++ pI4 slot.payload.srcIp ++ ":".toList
    ++ decimal (readNumbers slot.payload).srcPort ++ " -> ".toList
    ++ pI4 slot.payload.destIp ++ ":".toList ++ decimal (readNumbers slot.payload).destPort
    ++ " | LEN:".toList ++ decimal (readNumbers slot.payload).len ++ "\n".toList

/-- The header. -/
def snapshotHeader : List Char :=
  "=== TELEMETRY RAW MATRIX SNAPSHOT (CAPACITY: ".toList ++ decimal netfilterSlotCapacity
    ++ ") ===\n".toList

/-- The footer. -/
def snapshotFooter : List Char := "=== END OF TELEMETRY SNAPSHOT ===\n".toList

/-- **The pieces that are printed**, one for each call of `snprintf`. -/
def snapshotTexts (slots : ℕ → Slot NetPacketMetric) : List (List Char) :=
  snapshotHeader
    :: ((List.range netfilterSlotCapacity).map fun i => slotLine i (slots i)) ++ [snapshotFooter]

/-- **The snapshot.** -/
def snapshotText (slots : ℕ → Slot NetPacketMetric) : List Char := (snapshotTexts slots).flatten

/-! ## The function -/

/-- `PAGE_SIZE`. -/
def pageSize : ℕ := 4096

/-- `-ENOMEM`. -/
def negENOMEM : ℤ := -12

/-- `-EINVAL`. -/
def negEINVAL : ℤ := -22

/-- A call of `telemetry_net_read`. -/
structure NetRead where
  count : UInt64
  ppos : ℤ
  /-- The memory from the page on that `get_zeroed_page` returns, or `none` where it fails. -/
  page : Option (ℕ → Char)
  /-- `copy_to_user` leaves bytes uncopied. -/
  faults : Bool

/-- What a call comes to. -/
structure NetReadResult where
  ret : ℤ
  ppos : ℤ
  /-- What has been copied to the reader. -/
  output : Option (List Char)

/-- The page after the first `n` calls of `snprintf`. -/
def printed (slots : ℕ → Slot NetPacketMetric) (page : ℕ → Char) (n : ℕ) : Printed :=
  printAll pageSize ⟨page, 0⟩ ((snapshotTexts slots).take n)

/-- The page after all of them. -/
def printedAll (slots : ℕ → Slot NetPacketMetric) (page : ℕ → Char) : Printed :=
  printAll pageSize ⟨page, 0⟩ (snapshotTexts slots)

/-- **`telemetry_net_read`**; `ring` is `none` before the shared page has been allocated. -/
def telemetryNetRead (ring : Option (ℕ → Slot NetPacketMetric)) (call : NetRead) :
    NetReadResult :=
  match ring with
  | none => ⟨negENODEV, call.ppos, none⟩
  | some slots =>
      -- the snapshot was delivered by an earlier read
      if 0 < call.ppos then ⟨0, call.ppos, none⟩
      else
        match call.page with
        | none => ⟨negENOMEM, call.ppos, none⟩
        | some page =>
            let out := printedAll slots page
            if call.count.toNat < out.written then ⟨negEINVAL, call.ppos, none⟩
            else if call.faults then ⟨negEFAULT, call.ppos, none⟩
            else ⟨out.written, call.ppos + out.written, some (contents out.memory out.written)⟩

/-! ## The length of the text -/

/-- A number below a power of ten has at most that many digits. -/
theorem length_decimal_le {n k : ℕ} (hk : 0 < k) (h : n < 10 ^ k) : (decimal n).length ≤ k :=
  (Nat.length_toDigits_le_iff (by decide) hk).mpr h

/-- A byte has at most three digits. -/
theorem length_decimal_byte (b : UInt8) : (decimal b.toNat).length ≤ 3 := by
  have hb : b.toNat < 256 := b.toNat_lt
  exact length_decimal_le (by decide) (by omega)

/-- A 16-bit word has at most five digits. -/
theorem length_decimal_word16 (x : UInt16) : (decimal x.toNat).length ≤ 5 := by
  have hx : x.toNat < 65536 := x.toNat_lt
  exact length_decimal_le (by decide) (by omega)

/-- A 32-bit word has at most ten digits. -/
theorem length_decimal_word32 (x : UInt32) : (decimal x.toNat).length ≤ 10 := by
  have hx : x.toNat < 4294967296 := x.toNat_lt
  exact length_decimal_le (by decide) (by omega)

/-- A slot number has two digits. -/
theorem length_decimal02 {i : ℕ} (hi : i < 100) : (decimal02 i).length = 2 := by
  have hle : (decimal i).length ≤ 2 := length_decimal_le (by decide) hi
  rw [decimal02, List.length_leftpad]
  omega

/-- An address has at most fifteen characters. -/
theorem length_pI4_le (address : UInt32) : (pI4 address).length ≤ 15 := by
  have h₀ := length_decimal_byte address.toUInt8
  have h₁ := length_decimal_byte (address >>> 8).toUInt8
  have h₂ := length_decimal_byte (address >>> 16).toUInt8
  have h₃ := length_decimal_byte (address >>> 24).toUInt8
  have hlen : (pI4 address).length = (decimal address.toUInt8.toNat).length
      + (decimal (address >>> 8).toUInt8.toNat).length
      + (decimal (address >>> 16).toUInt8.toNat).length
      + (decimal (address >>> 24).toUInt8.toNat).length + 3 := by
    simp only [pI4, leBytes32, List.map_cons, List.map_nil, List.intercalate, List.intersperse,
      List.flatten_cons, List.flatten_nil, List.length_append, List.length_cons, List.length_nil]
    omega
  omega

/-- **A line has at most 89 characters**, whatever the slot holds. -/
theorem length_slotLine_le {i : ℕ} (hi : i < 100) (slot : Slot NetPacketMetric) :
    (slotLine i slot).length ≤ 89 := by
  have hslot := length_decimal02 hi
  have hticket := length_decimal_word32 slot.slotTicket
  have hsrc := length_pI4_le slot.payload.srcIp
  have hsrcPort := length_decimal_word16 (ntohs slot.payload.srcPort)
  have hdest := length_pI4_le slot.payload.destIp
  have hdestPort := length_decimal_word16 (ntohs slot.payload.destPort)
  have hlen := length_decimal_word16 (ntohs slot.payload.pktLen.toUInt16)
  -- the fixed texts of the format
  have h₁ : ("SLOT:".toList).length = 5 := by decide
  have h₂ : (" | TICKET:".toList).length = 10 := by decide
  have h₃ : (" | ".toList).length = 3 := by decide
  have h₄ : (":".toList).length = 1 := by decide
  have h₅ : (" -> ".toList).length = 4 := by decide
  have h₆ : (" | LEN:".toList).length = 7 := by decide
  have h₇ : ("\n".toList).length = 1 := by decide
  unfold slotLine
  simp only [readNumbers, List.length_append, h₁, h₂, h₃, h₄, h₅, h₆, h₇, hslot]
  omega

/-- The lines of all slots. -/
theorem length_lines_le (slots : ℕ → Slot NetPacketMetric) :
    (((List.range netfilterSlotCapacity).map fun i => slotLine i (slots i)).flatten).length
      ≤ 2136 := by
  have hle := List.sum_le_card_nsmul
    (((List.range netfilterSlotCapacity).map fun i => slotLine i (slots i)).map List.length) 89
    (by
      intro n hn
      rw [List.map_map, List.mem_map] at hn
      obtain ⟨i, hi, rfl⟩ := hn
      rw [Function.comp_apply]
      exact length_slotLine_le ((List.mem_range.mp hi).trans (by decide)) (slots i))
  have hcapacity : netfilterSlotCapacity = 24 := rfl
  rw [List.length_map, List.length_map, List.length_range, hcapacity] at hle
  rw [List.length_flatten, hcapacity]
  exact hle.trans (by decide)

/-- **The whole snapshot is shorter than a page**, whatever the pool holds. -/
theorem length_snapshotText_lt (slots : ℕ → Slot NetPacketMetric) :
    (snapshotText slots).length < pageSize := by
  have hheader : snapshotHeader.length = 53 := by decide
  have hfooter : snapshotFooter.length = 34 := by decide
  have hlines := length_lines_le slots
  have hpage : pageSize = 4096 := rfl
  rw [snapshotText, snapshotTexts, List.flatten_append, List.flatten_cons, List.length_append,
    List.length_append, List.flatten_singleton, hheader, hfooter]
  omega

/-! ## The page -/

/-- **The snapshot fits**: the position stays inside the page before and after every call of
`snprintf`, so the remaining size never wraps; the page then holds the header, the lines of the
slots in order and the footer, and memory behind it is untouched. -/
structure SnapshotFits (slots : ℕ → Slot NetPacketMetric) (page : ℕ → Char) : Prop where
  below : ∀ n, (printed slots page n).written < pageSize
  room : ∀ n, remaining pageSize (printed slots page n).written
    = pageSize - (printed slots page n).written
  length : (printedAll slots page).written = (snapshotText slots).length
  text : contents (printedAll slots page).memory (snapshotText slots).length
    = snapshotText slots
  outside : ∀ i, pageSize ≤ i → (printedAll slots page).memory i = page i

/-- **Every snapshot fits.** -/
theorem snapshotFits (slots : ℕ → Slot NetPacketMetric) (page : ℕ → Char) :
    SnapshotFits slots page := by
  have hsize : pageSize < 2 ^ 64 := by decide
  have hlt : (snapshotTexts slots).flatten.length < pageSize := length_snapshotText_lt slots
  have hfit : (⟨page, 0⟩ : Printed).written + (snapshotTexts slots).flatten.length < pageSize := by
    rw [Nat.zero_add]
    exact hlt
  have hbelow : ∀ n, (printed slots page n).written < pageSize := by
    intro n
    have hsplit := congrArg (fun texts => texts.flatten.length)
      (List.take_append_drop n (snapshotTexts slots))
    simp only [List.flatten_append, List.length_append] at hsplit
    rw [printed, written_printAll, Nat.zero_add]
    omega
  have hlength : (printedAll slots page).written = (snapshotText slots).length := by
    rw [printedAll, written_printAll, Nat.zero_add, snapshotText]
  refine ⟨hbelow, fun n => remaining_of_le (hbelow n).le hsize, hlength, ?_, fun i hi => ?_⟩
  · rw [← hlength, printedAll, contents_printAll hsize hfit]
    rfl
  · rw [printedAll, printAll_outside hsize hfit hi]

/-! ## The read -/

/-- The snapshot fits into what the reader asks for, and nothing fails on the way. -/
def Deliverable (slots : ℕ → Slot NetPacketMetric) (call : NetRead) : Prop :=
  (snapshotText slots).length ≤ call.count.toNat ∧ call.page ≠ none ∧ call.faults = false

/-- The reader has got the whole snapshot, its length is returned and `*ppos` advanced by it. -/
def Delivered (slots : ℕ → Slot NetPacketMetric) (call : NetRead) (r : NetReadResult) : Prop :=
  r.ret = (snapshotText slots).length ∧ r.ppos = call.ppos + (snapshotText slots).length ∧
    r.output = some (snapshotText slots)

/-- An error is returned, `*ppos` is unchanged and nothing is copied. -/
def Refused (call : NetRead) (r : NetReadResult) : Prop :=
  r.ret < 0 ∧ r.ppos = call.ppos ∧ r.output = none

/-- An error path leaves `*ppos` alone. -/
theorem refused_of_neg {call : NetRead} {error : ℤ} (h : error < 0) :
    Refused call ⟨error, call.ppos, none⟩ := ⟨h, rfl, rfl⟩

/-- **What a read of the snapshot does.** -/
structure NetReadLaw (ring : Option (ℕ → Slot NetPacketMetric)) (call : NetRead) : Prop where
  fits : ∀ slots, ring = some slots → ∀ page, SnapshotFits slots page
  noRing : ring = none → Refused call (telemetryNetRead ring call)
  /-- `cat` reads once more, and gets the end of file. -/
  endOfFile : ∀ slots, ring = some slots → 0 < call.ppos →
    telemetryNetRead ring call = ⟨0, call.ppos, none⟩
  delivered : ∀ slots, ring = some slots → call.ppos ≤ 0 → Deliverable slots call →
    Delivered slots call (telemetryNetRead ring call)
  refused : ∀ slots, ring = some slots → call.ppos ≤ 0 → ¬ Deliverable slots call →
    Refused call (telemetryNetRead ring call)

/-- A first read, on the page that is allocated for it. -/
theorem telemetryNetRead_page {slots : ℕ → Slot NetPacketMetric} {call : NetRead}
    {page : ℕ → Char} (hppos : call.ppos ≤ 0) (hpage : call.page = some page) :
    telemetryNetRead (some slots) call
      = if call.count.toNat < (snapshotText slots).length then ⟨negEINVAL, call.ppos, none⟩
        else if call.faults then ⟨negEFAULT, call.ppos, none⟩
        else ⟨(snapshotText slots).length, call.ppos + (snapshotText slots).length,
          some (snapshotText slots)⟩ := by
  have hfits := snapshotFits slots page
  simp only [telemetryNetRead, if_neg (not_lt.mpr hppos), hpage, hfits.length, hfits.text]

/-- A read that does not start at the beginning of the file gets the end of file. -/
theorem telemetryNetRead_endOfFile (slots : ℕ → Slot NetPacketMetric) {call : NetRead}
    (hppos : 0 < call.ppos) : telemetryNetRead (some slots) call = ⟨0, call.ppos, none⟩ := by
  simp only [telemetryNetRead, if_pos hppos]

/-- **The snapshot of `cat`**: for every pool and every call, the text fits into the page, and a
read from the start of the file delivers it completely or fails without a trace. -/
theorem telemetryNetRead_snapshot (ring : Option (ℕ → Slot NetPacketMetric)) (call : NetRead) :
    NetReadLaw ring call where
  fits slots _ page := snapshotFits slots page
  noRing h := by
    rw [h]
    exact refused_of_neg (by decide : negENODEV < 0)
  endOfFile slots h hppos := by
    rw [h]
    exact telemetryNetRead_endOfFile slots hppos
  delivered slots h hppos hcall := by
    obtain ⟨hlen, hpage, hfaults⟩ := hcall
    obtain ⟨page, hpage⟩ := Option.ne_none_iff_exists'.mp hpage
    rw [h, telemetryNetRead_page hppos hpage, if_neg (not_lt.mpr hlen), hfaults]
    exact ⟨rfl, rfl, rfl⟩
  refused slots h hppos hcall := by
    rw [h]
    cases hpage : call.page with
    | none =>
        simp only [telemetryNetRead, if_neg (not_lt.mpr hppos), hpage]
        exact refused_of_neg (by decide : negENOMEM < 0)
    | some page =>
        rw [telemetryNetRead_page hppos hpage]
        by_cases hlen : call.count.toNat < (snapshotText slots).length
        · rw [if_pos hlen]
          exact refused_of_neg (by decide : negEINVAL < 0)
        · have hfaults : call.faults = true := by
            by_contra hok
            exact hcall ⟨not_lt.mp hlen, by rw [hpage]; exact Option.some_ne_none page,
              Bool.eq_false_iff.mpr hok⟩
          rw [if_neg hlen, if_pos hfaults]
          exact refused_of_neg (by decide : negEFAULT < 0)

/-- The read that `cat` makes after the snapshot has been delivered. -/
def secondRead : NetRead := ⟨4096, 1335, some fun _ => Char.ofNat 0, false⟩

/-- **The second read** neither delivers the snapshot nor fails, whatever there is room for. -/
theorem secondRead_returns_zero :
    Deliverable (fun _ => netPool.zeroSlot) secondRead ∧
      ¬ Delivered (fun _ => netPool.zeroSlot) secondRead
        (telemetryNetRead (some fun _ => netPool.zeroSlot) secondRead) ∧
      ¬ Refused secondRead (telemetryNetRead (some fun _ => netPool.zeroSlot) secondRead) := by
  rw [telemetryNetRead_endOfFile _ (by decide)]
  refine ⟨⟨(length_snapshotText_lt _).le, Option.some_ne_none _, rfl⟩, ?_, ?_⟩
  · rintro ⟨-, -, houtput⟩
    cases houtput
  · rintro ⟨hret, -⟩
    exact absurd hret (lt_irrefl 0)

end TelemetrySubsystem
