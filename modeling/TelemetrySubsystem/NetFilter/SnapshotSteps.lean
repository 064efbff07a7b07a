import TelemetrySubsystem.NetFilter.ShownRecords
import TelemetrySubsystem.TicketPool.WordSources

/-! # The `cat` snapshot, one load at a time

`telemetry_net_read` takes no lock: a line is put together from words of its slot that are loaded
one after the other. C leaves open in which order the arguments of `snprintf` are evaluated, and so
whether the ports are loaded before the ticket or after it. Only the addresses, which are passed by
pointer, always come after it.

* **`SnapshotArgs`** is the order of the loads, and **`snapshotStep`** one step of the function.
* `snapshotStep_cases` is its inversion lemma, and `loaded_step` the rule for what has been loaded.
* **`snapshotStep_atRest`**: on a pool that nobody writes to, the steps compute
  `telemetryNetRead`. -/

namespace TelemetrySubsystem

open ActionSystem ByteOrder TicketPool
open Function (update)

/-! ## The words of a line -/

/-- What is loaded for a line, one load at a time: `%pI4` takes its address by bytes. -/
inductive SnapshotWord
  | ticket
  | srcPort
  | destPort
  | pktLen
  | srcIp (b : Fin 4)
  | destIp (b : Fin 4)
  deriving DecidableEq, Repr

namespace SnapshotWord

/-- The word of the slot that it belongs to, as the hook writes it. -/
def word : SnapshotWord → SlotWord NetField
  | .ticket => .stamp
  | .srcPort => .field .srcPort
  | .destPort => .field .destPort
  | .pktLen => .field .pktLen
  | .srcIp _ => .field .srcIp
  | .destIp _ => .field .destIp

/-- What is found there, as a number. -/
def value (slot : Slot NetPacketMetric) : SnapshotWord → ℕ
  | .ticket => slot.slotTicket.toNat
  | .srcPort => slot.payload.srcPort.toNat
  | .destPort => slot.payload.destPort.toNat
  | .pktLen => slot.payload.pktLen.toNat
  | .srcIp b => ((leBytes32 slot.payload.srcIp).get b).toNat
  | .destIp b => ((leBytes32 slot.payload.destIp).get b).toNat

/-- It is determined by the word of the slot. -/
theorem value_of_holds {w : SnapshotWord} {slot : Slot NetPacketMetric} {c : ℕ} {t : UInt32}
    {m : NetPacketMetric} (h : w.word.Holds slot c t m) :
    w.value slot = w.value ⟨m, t, some c⟩ := by
  cases w with
  | ticket => exact congrArg UInt32.toNat h.1
  | srcPort | destPort | pktLen => exact h
  | srcIp b =>
      have haddr : slot.payload.srcIp = m.srcIp := UInt32.toNat_inj.mp h
      rw [value, value, haddr]
  | destIp b =>
      have haddr : slot.payload.destIp = m.destIp := UInt32.toNat_inj.mp h
      rw [value, value, haddr]

/-- On a zeroed word it is 0. -/
theorem value_of_zeroed {w : SnapshotWord} {slot : Slot NetPacketMetric}
    (h : w.word.Zeroed netPool slot) : w.value slot = 0 := by
  have zero : ∀ b : Fin 4, ((leBytes32 0).get b).toNat = 0 := by decide
  cases w with
  | ticket => exact congrArg UInt32.toNat h.1
  | srcPort | destPort | pktLen => exact h
  | srcIp b =>
      have haddr : slot.payload.srcIp = 0 := UInt32.toNat_inj.mp h
      rw [value, haddr]
      exact zero b
  | destIp b =>
      have haddr : slot.payload.destIp = 0 := UInt32.toNat_inj.mp h
      rw [value, haddr]
      exact zero b

end SnapshotWord

/-! ## The function, one load at a time -/

/-- **The order of the loads**: C leaves open in which order the arguments of `snprintf` are
evaluated, for each line anew; the bytes of the addresses are loaded by `snprintf` itself. -/
structure SnapshotArgs where
  arguments : ℕ → List SnapshotWord
  addresses : ℕ → List SnapshotWord
  arguments_perm : ∀ i, (arguments i).Perm [.ticket, .srcPort, .destPort, .pktLen]
  addresses_perm : ∀ i, (addresses i).Perm
    ((List.finRange 4).map .srcIp ++ (List.finRange 4).map .destIp)

/-- The loads of a line: the arguments, and then the bytes of the addresses. -/
def SnapshotArgs.line (args : SnapshotArgs) (i : ℕ) : List SnapshotWord :=
  args.arguments i ++ args.addresses i

/-- The word is loaded after the ticket. -/
def SnapshotArgs.After (args : SnapshotArgs) (i : ℕ) (w : SnapshotWord) : Prop :=
  (args.line i).idxOf .ticket < (args.line i).idxOf w

/-- Program points of `telemetry_net_read`. -/
inductive SnapshotPc
  /-- The early exits. -/
  | entry
  /-- Line `i`, of which `n` words have been loaded. -/
  | load (i n : ℕ)
  /-- Left before the first line. -/
  | left
  /-- All lines have been printed. -/
  | printed
  deriving DecidableEq, Repr

/-- A call under way: its program counter and the words it has loaded. -/
structure SnapshotRead where
  pc : SnapshotPc
  words : ℕ → SnapshotWord → ℕ
  /-- History: the call that had stamped the ticket that has been loaded. -/
  stampedBy : ℕ → Option ℕ

/-- A call before its first step: its local variables hold what they happen to. -/
def SnapshotRead.start (words : ℕ → SnapshotWord → ℕ) : SnapshotRead :=
  ⟨.entry, words, fun _ => none⟩

/-- **One step of `telemetry_net_read`.** -/
def snapshotStep (args : SnapshotArgs) (call : NetRead) (lane : TicketLane NetPacketMetric)
    (k : SnapshotRead) : Option SnapshotRead :=
  match k.pc with
  | .entry =>
      if 0 < call.ppos ∨ call.page.isNone then some { k with pc := .left }
      else some { k with pc := .load 0 0 }
  | .load i n =>
      match (args.line i)[n]? with
      | some w =>
          some {
            pc := .load i (n + 1)
            words := update k.words i (update (k.words i) w (w.value (lane.slots i)))
            stampedBy :=
              if w = .ticket then update k.stampedBy i (lane.slots i).stampedBy else k.stampedBy }
      | none =>
          -- `snprintf` has all it needs
          some { k with pc := if i + 1 < netfilterSlotCapacity then .load (i + 1) 0 else .printed }
  | .left | .printed => none

namespace SnapshotRead

/-- An address from its bytes. -/
def address (bytes : Fin 4 → ℕ) : UInt32 :=
  load32 (.ofNat (bytes 0)) (.ofNat (bytes 1)) (.ofNat (bytes 2)) (.ofNat (bytes 3))

/-- What the line of slot `i` is printed from. -/
def slot (k : SnapshotRead) (i : ℕ) : Slot NetPacketMetric where
  payload := {
    srcIp := address fun b => k.words i (.srcIp b)
    destIp := address fun b => k.words i (.destIp b)
    srcPort := .ofNat (k.words i .srcPort)
    destPort := .ofNat (k.words i .destPort)
    pktLen := .ofNat (k.words i .pktLen) }
  slotTicket := .ofNat (k.words i .ticket)
  stampedBy := k.stampedBy i

/-- What the call comes to: the checks of the length and the copy to the reader come last and load
nothing. -/
def result (k : SnapshotRead) (call : NetRead) : NetReadResult :=
  telemetryNetRead (some k.slot) call

/-- The word of line `i` has been loaded. -/
def Loaded (args : SnapshotArgs) (k : SnapshotRead) (i : ℕ) (w : SnapshotWord) : Prop :=
  match k.pc with
  | .entry | .left => False
  | .load j n => i < j ∨ (i = j ∧ (args.line i).idxOf w < n)
  | .printed => i < netfilterSlotCapacity

/-- An address is what its bytes make. -/
theorem address_leBytes32 (x : UInt32) : (address fun b => ((leBytes32 x).get b).toNat) = x := by
  have hbytes : (address fun b => ((leBytes32 x).get b).toNat)
      = UInt32.ofNat (ofBytesLE (leBytes32 x)) := by
    simp only [address, load32, UInt8.ofNat_toNat]
    rfl
  rw [hbytes, ofBytesLE_leBytes32, UInt32.ofNat_toNat]

/-- **A line whose words are those of a slot** shows its payload. -/
theorem slot_payload {k : SnapshotRead} {i : ℕ} {slot : Slot NetPacketMetric}
    (h : ∀ w, w ≠ .ticket → k.words i w = w.value slot) : (k.slot i).payload = slot.payload := by
  have hsrc := fun b => h (.srcIp b) nofun
  have hdest := fun b => h (.destIp b) nofun
  simp only [SnapshotRead.slot, hsrc, hdest, h .srcPort nofun, h .destPort nofun, h .pktLen nofun,
    SnapshotWord.value, address_leBytes32, UInt32.ofNat_toNat, UInt16.ofNat_toNat]

end SnapshotRead

namespace SnapshotArgs

variable (args : SnapshotArgs)

/-- Each word of a line is loaded, and once. -/
theorem perm_line (i : ℕ) : (args.line i).Perm ([.ticket, .srcPort, .destPort, .pktLen]
    ++ ((List.finRange 4).map .srcIp ++ (List.finRange 4).map .destIp)) :=
  (args.arguments_perm i).append (args.addresses_perm i)

/-- A line has no word twice. -/
theorem nodup_line (i : ℕ) : (args.line i).Nodup := (args.perm_line i).nodup_iff.mpr (by decide)

/-- A line has every word. -/
theorem mem_line (i : ℕ) (w : SnapshotWord) : w ∈ args.line i := by
  rw [(args.perm_line i).mem_iff]
  cases w <;> simp

/-- The addresses come last. -/
theorem after_address (i : ℕ) {w : SnapshotWord}
    (hw : (∃ b, w = .srcIp b) ∨ ∃ b, w = .destIp b) : args.After i w := by
  have hticket : SnapshotWord.ticket ∈ args.arguments i :=
    (args.arguments_perm i).mem_iff.mpr List.mem_cons_self
  have hnot : w ∉ args.arguments i := by
    rw [(args.arguments_perm i).mem_iff]
    rcases hw with ⟨b, rfl⟩ | ⟨b, rfl⟩ <;> simp
  rw [After, line, List.idxOf_append_of_mem hticket, List.idxOf_append_of_notMem hnot]
  exact Nat.lt_add_right _ (List.idxOf_lt_length_of_mem hticket)

end SnapshotArgs

/-- **What a load of word `w` for line `i` does.** -/
structure SnapshotLoad (args : SnapshotArgs) (lane : TicketLane NetPacketMetric)
    (k k' : SnapshotRead) (i : ℕ) (w : SnapshotWord) : Prop where
  loads : k'.words i w = w.value (lane.slots i)
  stamp : w = .ticket → k'.stampedBy i = (lane.slots i).stampedBy
  /-- It changes nothing else. -/
  words : ∀ j w', ¬ (j = i ∧ w' = w) → k'.words j w' = k.words j w'
  stampedBy : ∀ j, ¬ (j = i ∧ w = .ticket) → k'.stampedBy j = k.stampedBy j
  /-- All earlier words of the line have been loaded, and no others. -/
  earlier : ∀ w', k.Loaded args i w' ↔ (args.line i).idxOf w' < (args.line i).idxOf w
  loaded : ∀ j w', k'.Loaded args j w' → k.Loaded args j w' ∨ (j = i ∧ w' = w)

/-- **What a step of the read is**: a load, or it goes on and loads nothing. -/
theorem snapshotStep_cases {args : SnapshotArgs} {call : NetRead}
    {lane : TicketLane NetPacketMetric} {k k' : SnapshotRead}
    (h : snapshotStep args call lane k = some k') :
    (k'.words = k.words ∧ k'.stampedBy = k.stampedBy ∧
        ∀ i w, k'.Loaded args i w → k.Loaded args i w) ∨
      ∃ i w, SnapshotLoad args lane k k' i w := by
  obtain ⟨pc, words, by'⟩ := k
  cases pc
  all_goals simp only [snapshotStep] at h
  case entry =>
    split at h <;> cases h
    · exact .inl ⟨rfl, rfl, fun i w hl => hl⟩
    · refine .inl ⟨rfl, rfl, fun i w hl => ?_⟩
      rcases hl with hlt | ⟨-, hlt⟩
      · exact absurd hlt (Nat.not_lt_zero _)
      · exact absurd hlt (Nat.not_lt_zero _)
  case load i n =>
    split at h
    · next w hw =>
        cases h
        obtain ⟨hlt, rfl⟩ := List.getElem?_eq_some_iff.mp hw
        have hidx : (args.line i).idxOf (args.line i)[n] = n :=
          (args.nodup_line i).idxOf_getElem n hlt
        refine .inr ⟨i, (args.line i)[n], ?_⟩
        refine ⟨?_, fun hw => ?_, fun j w' hne => ?_, fun j hne => ?_, fun w' => ?_,
          fun j w' hl => ?_⟩
        · simp only [Function.update_self]
        · simp only [if_pos hw, Function.update_self]
        · by_cases hj : j = i
          · subst hj
            simp only [Function.update_self, Function.update_of_ne fun heq => hne ⟨rfl, heq⟩]
          · simp only [Function.update_of_ne hj]
        · by_cases hw : (args.line i)[n] = .ticket
          · simp only [if_pos hw, Function.update_of_ne fun heq => hne ⟨heq, hw⟩]
          · simp only [if_neg hw]
        · rw [hidx]
          simp [SnapshotRead.Loaded]
        · rcases hl with hlow | ⟨rfl, hlow⟩
          · exact .inl (.inl hlow)
          · rcases Nat.lt_or_eq_of_le (Nat.le_of_lt_succ hlow) with hlow | heq
            · exact .inl (.inr ⟨rfl, hlow⟩)
            · refine .inr ⟨rfl, ?_⟩
              exact (List.idxOf_inj (args.mem_line j w')).mp (heq.trans hidx.symm)
    · next hnone =>
        cases h
        have hlen : (args.line i).length ≤ n := List.getElem?_eq_none_iff.mp hnone
        have hall : ∀ j w, j ≤ i → SnapshotRead.Loaded args ⟨.load i n, words, by'⟩ j w :=
          fun j w hle => by
            rcases Nat.lt_or_eq_of_le hle with hlt | rfl
            · exact .inl hlt
            · exact .inr ⟨rfl, (List.idxOf_lt_length_of_mem (args.mem_line j w)).trans_le hlen⟩
        refine .inl ⟨rfl, rfl, fun j w hl => hall j w ?_⟩
        split at hl
        · rcases hl with hlt | ⟨-, hlt⟩
          · exact Nat.le_of_lt_succ hlt
          · exact absurd hlt (Nat.not_lt_zero _)
        · next hge => exact Nat.le_of_lt_succ (lt_of_lt_of_le hl (Nat.le_of_not_lt hge))
  all_goals cases h

/-- The steps that are left, at most. -/
def SnapshotRead.rank (k : SnapshotRead) : ℕ :=
  match k.pc with
  | .entry => 14 * netfilterSlotCapacity + 14
  | .load i n => 14 * (netfilterSlotCapacity - i) + (12 - n) + 1
  | .left | .printed => 0

/-- Every step leaves fewer. -/
theorem snapshotStep_rank {args : SnapshotArgs} {call : NetRead}
    {lane : TicketLane NetPacketMetric} {k k' : SnapshotRead}
    (h : snapshotStep args call lane k = some k') : k'.rank < k.rank := by
  obtain ⟨pc, words, by'⟩ := k
  cases pc
  all_goals simp only [snapshotStep] at h
  case entry => split at h <;> cases h <;> simp only [SnapshotRead.rank] <;> omega
  case load i n =>
    have hlen : (args.line i).length = 12 := (args.perm_line i).length_eq
    split at h
    · next w hw =>
        cases h
        obtain ⟨hlt, -⟩ := List.getElem?_eq_some_iff.mp hw
        simp only [SnapshotRead.rank]
        omega
    · cases h
      split <;> simp only [SnapshotRead.rank] <;> omega
  all_goals cases h

/-- **The rule for what has been loaded**: what holds of every word of the pool holds of the words
that have been loaded. -/
theorem loaded_step {args : SnapshotArgs} {call : NetRead} {lane : TicketLane NetPacketMetric}
    {k k' : SnapshotRead} (hstep : snapshotStep args call lane k = some k')
    {Q : ℕ → SnapshotWord → ℕ → Prop} (hlane : ∀ i w, Q i w (w.value (lane.slots i)))
    (hk : ∀ i w, k.Loaded args i w → Q i w (k.words i w)) (i : ℕ) (w : SnapshotWord)
    (hl : k'.Loaded args i w) : Q i w (k'.words i w) := by
  rcases snapshotStep_cases hstep with ⟨hwords, -, hback⟩ | ⟨j, w', hload⟩
  · rw [hwords]
    exact hk i w (hback i w hl)
  · by_cases hnew : i = j ∧ w = w'
    · obtain ⟨rfl, rfl⟩ := hnew
      rw [hload.loads]
      exact hlane i w
    · rw [hload.words i w hnew]
      exact hk i w ((hload.loaded i w hl).resolve_right hnew)

/-- A call returns the same for pools that look the same. -/
theorem telemetryNetRead_congr {slots slots' : ℕ → Slot NetPacketMetric} (call : NetRead)
    (h : snapshotText slots = snapshotText slots') :
    telemetryNetRead (some slots) call = telemetryNetRead (some slots') call := by
  by_cases hppos : 0 < call.ppos
  · rw [telemetryNetRead_endOfFile _ hppos, telemetryNetRead_endOfFile _ hppos]
  · cases hpage : call.page with
    | none => simp only [telemetryNetRead, if_neg hppos, hpage]
    | some page =>
        rw [telemetryNetRead_page (not_lt.mp hppos) hpage, h,
          ← telemetryNetRead_page (not_lt.mp hppos) hpage]

/-- Only an early exit leaves before the first line. -/
theorem snapshotStep_left {args : SnapshotArgs} {call : NetRead} {lane : TicketLane NetPacketMetric}
    {k k' : SnapshotRead} (hstep : snapshotStep args call lane k = some k') (hpc : k'.pc = .left) :
    0 < call.ppos ∨ call.page.isNone = true := by
  obtain ⟨pc, words, by'⟩ := k
  cases pc <;> simp only [snapshotStep] at hstep
  case entry =>
    split at hstep
    · assumption
    · cases hstep
      cases hpc
  case load i n =>
    split at hstep <;> cases hstep
    · cases hpc
    · simp only at hpc
      split at hpc <;> cases hpc
  all_goals cases hstep

/-- A call that has come to its end has printed all lines, or has left early. -/
theorem snapshotStep_none {args : SnapshotArgs} {call : NetRead} {lane : TicketLane NetPacketMetric}
    {k : SnapshotRead} (h : snapshotStep args call lane k = none) :
    k.pc = .printed ∨ k.pc = .left := by
  obtain ⟨pc, words, by'⟩ := k
  cases pc <;> simp only [snapshotStep] at h
  case entry => split at h <;> cases h
  case load i n => split at h <;> cases h
  case left => exact .inr rfl
  case printed => exact .inl rfl

/-- An early exit does not depend on the pool. -/
theorem telemetryNetRead_left {call : NetRead} (h : 0 < call.ppos ∨ call.page.isNone = true)
    (slots slots' : ℕ → Slot NetPacketMetric) :
    telemetryNetRead (some slots) call = telemetryNetRead (some slots') call := by
  by_cases hppos : 0 < call.ppos
  · rw [telemetryNetRead_endOfFile _ hppos, telemetryNetRead_endOfFile _ hppos]
  · have hpage := Option.isNone_iff_eq_none.mp (h.resolve_left hppos)
    simp only [telemetryNetRead, hpage]

/-- **On a pool at rest the steps compute the function.** -/
theorem snapshotStep_atRest (args : SnapshotArgs) (call : NetRead)
    (lane : TicketLane NetPacketMetric) (words : ℕ → SnapshotWord → ℕ) :
    ∃ k, Finishes (snapshotStep args call lane) (.start words) k ∧
      k.result call = telemetryNetRead (some lane.slots) call := by
  obtain ⟨k, hk⟩ := Finishes.exists_of_rank SnapshotRead.rank
    (fun _ _ => snapshotStep_rank) (.start words)
  obtain ⟨⟨hloaded, hleft⟩, hhalt⟩ := hk.invariant
    (I := fun k => (∀ i w, k.Loaded args i w → k.words i w = w.value (lane.slots i)) ∧
      (k.pc = .left → 0 < call.ppos ∨ call.page.isNone = true))
    ⟨fun _ _ h => h.elim, nofun⟩ fun _ _ h hstep =>
      ⟨loaded_step hstep (Q := fun i w v => v = w.value (lane.slots i)) (fun _ _ => rfl) h.1,
        snapshotStep_left hstep⟩
  refine ⟨k, hk, ?_⟩
  rcases snapshotStep_none hhalt with hpc | hpc
  · refine telemetryNetRead_congr call ((snapshotText_eq_iff _ _).mpr fun i hi => ?_)
    have hword : ∀ w, k.words i w = w.value (lane.slots i) := fun w =>
      hloaded i w (by rw [SnapshotRead.Loaded, hpc]; exact hi)
    have hticket : (k.slot i).slotTicket = (lane.slots i).slotTicket := by
      simp only [SnapshotRead.slot, hword, SnapshotWord.value, UInt32.ofNat_toNat]
    rw [shownRecord, shownRecord, SnapshotRead.slot_payload fun w _ => hword w, hticket]
  · exact telemetryNetRead_left (hleft hpc) _ _

end TelemetrySubsystem
