import TelemetrySubsystem.NetFilter.SnapshotSteps

/-! # The snapshot of a pool at work

The hook goes on while `cat` prints.

* **`liveNext`** interleaves `telemetry_net_read` with the hook calls and with the client.
* **`liveSnapshot_recorded`**: no number of a snapshot is made up.
* **`liveSnapshot_vouched`**: what the ticket of a line says about the numbers loaded after it. The
  addresses are among them, and the ports need not be (`ports_not_vouched`). -/

namespace TelemetrySubsystem

open ActionSystem TicketPool

/-! ## The system -/

/-- The net pool at work, and a call of `telemetry_net_read`. -/
structure LiveState where
  pool : PoolState NetPacketMetric NetField
  read : SnapshotRead

/-- One step of the pool or of the read. -/
inductive LiveAction
  | pool (a : PoolAction)
  | read
  deriving DecidableEq, Repr

/-- The zeroed page, and a call that has loaded nothing. -/
def liveInit (words : ℕ → SnapshotWord → ℕ) : LiveState := ⟨netPool.poolInit, .start words⟩

section Live

variable (packets : ℕ → Option SkBuff) (args : SnapshotArgs) (call : NetRead)

/-- **The transitions of the system**: the read changes nothing on the page. -/
def liveNext (s : LiveState) : LiveAction → Option LiveState
  | .pool a => (netNext packets s.pool a).map fun p => { s with pool := p }
  | .read => (snapshotStep args call s.pool.lane s.read).map fun k => { s with read := k }

variable {packets args call}

/-- **What a step of the system is.** -/
theorem liveNext_cases {s s' : LiveState} {a : LiveAction}
    (h : liveNext packets args call s a = some s') :
    (∃ b p, a = .pool b ∧ netNext packets s.pool b = some p ∧ s' = { s with pool := p }) ∨
      ∃ k, a = .read ∧ snapshotStep args call s.pool.lane s.read = some k ∧
        s' = { s with read := k } := by
  cases a with
  | pool b =>
      obtain ⟨p, hp, rfl⟩ := Option.map_eq_some_iff.mp h
      exact .inl ⟨b, p, rfl, hp, rfl⟩
  | read =>
      obtain ⟨k, hk, rfl⟩ := Option.map_eq_some_iff.mp h
      exact .inr ⟨k, rfl, hk, rfl⟩

/-! ## No number is made up -/

/-- **Where a number comes from** that line `i` shows: it is 0, as on the zeroed page, or it is part
of a packet whose hook call has written it into slot `i`, or of the ticket of such a call. -/
def SnapshotWord.Recorded (packets : ℕ → Option SkBuff) (producer : ℕ → ProducerPc NetField)
    (i : ℕ) (w : SnapshotWord) (v : ℕ) : Prop :=
  v = 0 ∨ ∃ c t m, netPool.Wrote producer i w.word c t ∧ hookMetric (packets c) = some m ∧
    v = w.value ⟨m, t, some c⟩

/-- A word of the page that has a source shows a recorded number. -/
theorem Sourced.recorded {producer : ℕ → ProducerPc NetField} {i : ℕ} {w : SnapshotWord}
    {slot : Slot NetPacketMetric}
    (h : Sourced netPool (fun c => hookMetric (packets c)) producer i w.word slot) :
    w.Recorded packets producer i (w.value slot) := by
  rcases h with hzero | ⟨c, t, m, hwrote, hm, hholds⟩
  · exact .inl (SnapshotWord.value_of_zeroed hzero)
  · exact .inr ⟨c, t, m, hwrote, hm, SnapshotWord.value_of_holds hholds⟩

/-- The invariant: every word on the page has a source, and every number that has been loaded has
been recorded. -/
structure RecordedRead (packets : ℕ → Option SkBuff) (args : SnapshotArgs) (s : LiveState) :
    Prop where
  pool : SourceInv netPool (fun c => hookMetric (packets c)) s.pool
  read : ∀ i w, s.read.Loaded args i w →
    w.Recorded packets s.pool.producer i (s.read.words i w)

/-- **Every step keeps the sources.** -/
theorem RecordedRead.step {s s' : LiveState} {a : LiveAction} (h : RecordedRead packets args s)
    (hnext : liveNext packets args call s a = some s') : RecordedRead packets args s' := by
  obtain ⟨b, p, -, hp, rfl⟩ | ⟨k, -, hk, rfl⟩ := liveNext_cases hnext
  · refine ⟨h.pool.step hp, fun i w hl => (h.read i w hl).imp_right ?_⟩
    rintro ⟨c, t, m, hwrote, hm, hv⟩
    exact ⟨c, t, m, wrote_mono h.pool.nodup hp hwrote, hm, hv⟩
  · exact ⟨h.pool, loaded_step hk (fun i w => (h.pool.sourced i w.word).recorded) h.read⟩

/-- What a call delivers is the text of what it has loaded. -/
theorem output_telemetryNetRead {slots : ℕ → Slot NetPacketMetric} {text : List Char}
    (h : (telemetryNetRead (some slots) call).output = some text) : text = snapshotText slots := by
  by_cases hppos : 0 < call.ppos
  · rw [telemetryNetRead_endOfFile _ hppos] at h
    cases h
  · cases hpage : call.page with
    | none =>
        simp only [telemetryNetRead, if_neg hppos, hpage] at h
        cases h
    | some page =>
        rw [telemetryNetRead_page (not_lt.mp hppos) hpage] at h
        split at h
        · cases h
        · split at h <;> cases h
          rfl

/-- **No number of a snapshot is made up**, whatever the hook and the client do meanwhile: what is
delivered is the text of lines in which every number is that of the zeroed page, or has been
recorded by a call whose ticket belongs to the slot. -/
theorem liveSnapshot_recorded (packets : ℕ → Option SkBuff) (args : SnapshotArgs) (call : NetRead)
    (words : ℕ → SnapshotWord → ℕ) (s : LiveState)
    (h : Reachable (liveNext packets args call) (liveInit words) s)
    (hprinted : s.read.pc = .printed) (text : List Char)
    (htext : (s.read.result call).output = some text) :
    text = snapshotText s.read.slot ∧ ∀ i < netfilterSlotCapacity, ∀ w : SnapshotWord,
      w.Recorded packets s.pool.producer i (s.read.words i w) := by
  have hinv : RecordedRead packets args s :=
    h.invariant ⟨SourceInv.init, fun _ _ h => h.elim⟩ fun _ _ _ hi _ hnext => hi.step hnext
  refine ⟨output_telemetryNetRead htext, fun i hi w => hinv.read i w ?_⟩
  rw [SnapshotRead.Loaded, hprinted]
  exact hi

/-- The arguments are evaluated from right to left. -/
def rightToLeft : SnapshotArgs where
  arguments := fun _ => [.pktLen, .destPort, .srcPort, .ticket]
  addresses := fun _ => (List.finRange 4).map .srcIp ++ (List.finRange 4).map .destIp
  arguments_perm := fun _ => by decide
  addresses_perm := fun _ => .refl _

/-- A read of a page. -/
def catCall : NetRead := ⟨4096, 0, some fun _ => Char.ofNat 0, false⟩

/-- It delivers whatever it has loaded. -/
theorem output_catCall (slots : ℕ → Slot NetPacketMetric) :
    (telemetryNetRead (some slots) catCall).output = some (snapshotText slots) := by
  have hlen : ¬ catCall.count.toNat < (snapshotText slots).length :=
    not_lt.mpr (length_snapshotText_lt slots).le
  rw [telemetryNetRead_page (le_refl _) rfl, if_neg hlen]
  rfl

/-- Packets that differ in their ports. -/
def portPacket (c : ℕ) : TcpPacket := { samplePacket with tcpHdr := ⟨UInt16.ofNat c, 50000⟩ }

/-- Call 0 records its packet. Calls 1 to 24 claim their tickets, and `cat` loads the length and the
ports of slot 0. Then call 24, whose ticket belongs to slot 0, goes on to its stamp, and `cat` to
its end. -/
def overtakenRead : List LiveAction :=
  List.replicate 9 (.pool (.producer 0)) ++ (List.range' 1 24).map (fun c => .pool (.producer c))
    ++ List.replicate 4 .read ++ List.replicate 6 (.pool (.producer 24)) ++ List.replicate 309 .read

/-- The ports of packet 0 beside the ticket of packet 24 have been recorded, too. -/
theorem liveSnapshot_recorded_overtaken :
    ∃ s, Reachable (liveNext (fun c => some (portPacket c).skb) rightToLeft catCall)
        (liveInit fun _ _ => 7) s ∧
      s.read.words 0 .ticket = 24 ∧ ∃ text, (s.read.result catCall).output = some text ∧
        text = snapshotText s.read.slot ∧ ∀ i < netfilterSlotCapacity, ∀ w : SnapshotWord,
          w.Recorded (fun c => some (portPacket c).skb) s.pool.producer i (s.read.words i w) := by
  have hrun : (exec (liveNext (fun c => some (portPacket c).skb) rightToLeft catCall)
      (liveInit fun _ _ => 7) overtakenRead).map
        (fun s => (s.read.pc, s.read.words 0 .ticket)) = some (.printed, 24) := by
    decide +kernel
  obtain ⟨s, hs, heq⟩ := Option.map_eq_some_iff.mp hrun
  obtain ⟨hpc, hticket⟩ := Prod.mk.inj heq
  have hreach := Reachable.of_exec overtakenRead hs
  exact ⟨s, hreach, hticket, _, output_catCall _,
    liveSnapshot_recorded _ _ _ _ s hreach hpc _ (output_catCall _)⟩

/-! ## What a ticket vouches for -/

/-- No call has claimed a later ticket of slot `i`. -/
def NoLaterClaim (s : LiveState) (i : ℕ) (t : UInt32) : Prop :=
  ∀ c t', (s.pool.producer c).ticket = some t' → netPool.slotIdx t' = i → t' ≤ t

/-- **What the ticket of line `i`, stamped by call `c`, says about the line.** -/
structure Vouched (packets : ℕ → Option SkBuff) (args : SnapshotArgs) (s : LiveState) (i c : ℕ) :
    Prop where
  claimed : (s.pool.producer c).ticket = some (s.read.slot i).slotTicket ∧
    netPool.slotIdx (s.read.slot i).slotTicket = i
  /-- A number that is loaded after the ticket is never older than it. -/
  notOlder : ∀ w, args.After i w → ∃ c' t' m, (s.read.slot i).slotTicket ≤ t' ∧
    netPool.Wrote s.pool.producer i w.word c' t' ∧ hookMetric (packets c') = some m ∧
      s.read.words i w = w.value ⟨m, t', some c'⟩
  /-- As long as no later ticket of the slot has been claimed, the addresses are the packet's. -/
  addresses : NoLaterClaim s i (s.read.slot i).slotTicket →
    ∀ m, hookMetric (packets c) = some m →
      (s.read.slot i).payload.srcIp = m.srcIp ∧ (s.read.slot i).payload.destIp = m.destIp
  /-- And so is all of the line, where the ticket is loaded first. -/
  whole : NoLaterClaim s i (s.read.slot i).slotTicket → (∀ w, w ≠ .ticket → args.After i w) →
    hookMetric (packets c) = some (s.read.slot i).payload

/-- The condition on a step: the pool writes in ticket order, before the tickets wrap. -/
def LiveInOrder (s : LiveState) : LiveAction → Prop
  | .pool a => netPool.InTicketOrderBelowWrap s.pool a
  | .read => True

/-- **The invariant**: the ticket of a line is one that its call has written, and the words loaded
after it are not older. -/
structure VouchedRead (packets : ℕ → Option SkBuff) (args : SnapshotArgs) (s : LiveState) :
    Prop where
  order : OrderInv netPool (fun c => hookMetric (packets c)) s.pool
  stamp : ∀ i c, s.read.Loaded args i .ticket → s.read.stampedBy i = some c →
    netPool.Wrote s.pool.producer i .stamp c (s.read.slot i).slotTicket
  after : ∀ i w c, s.read.Loaded args i w → args.After i w → s.read.stampedBy i = some c →
    ∃ c' t', (s.read.slot i).slotTicket ≤ t' ∧ netPool.Wrote s.pool.producer i w.word c' t' ∧
      ∀ m, hookMetric (packets c') = some m → s.read.words i w = w.value ⟨m, t', some c'⟩

/-- **A step of the read keeps the invariant.** -/
theorem VouchedRead.read_step {s : LiveState} (h : VouchedRead packets args s) {k : SnapshotRead}
    (hk : snapshotStep args call s.pool.lane s.read = some k) :
    VouchedRead packets args { s with read := k } := by
  rcases snapshotStep_cases hk with ⟨hwords, hstamped, hback⟩ | ⟨i, w₀, hload⟩
  · have hslot : k.slot = s.read.slot := by
      funext i
      simp only [SnapshotRead.slot, hwords, hstamped]
    refine ⟨h.order, fun i c hl hby => ?_, fun i w c hl hafter hby => ?_⟩
    · simp only [hslot, hstamped] at hby ⊢
      exact h.stamp i c (hback i .ticket hl) hby
    · simp only [hslot, hstamped, hwords] at hby ⊢
      exact h.after i w c (hback i w hl) hafter hby
  -- the ticket of a line is the same, unless the step loads it
  have hticket : ∀ j, ¬ (j = i ∧ w₀ = .ticket) →
      (k.slot j).slotTicket = (s.read.slot j).slotTicket := fun j hne => by
    have hsame := hload.words j .ticket fun heq => hne ⟨heq.1, heq.2.symm⟩
    simp only [SnapshotRead.slot, hsame]
  refine ⟨h.order, fun j c hl hby => ?_, fun j w c hl hafter hby => ?_⟩
  · simp only at hl hby ⊢
    by_cases hnew : j = i ∧ w₀ = .ticket
    · obtain ⟨rfl, rfl⟩ := hnew
      rw [hload.stamp rfl] at hby
      have hloaded : (k.slot j).slotTicket = (s.pool.lane.slots j).slotTicket := by
        simp only [SnapshotRead.slot, hload.loads, SnapshotWord.value, UInt32.ofNat_toNat]
      rw [hloaded]
      exact h.order.wrote_stamp hby
    · rw [hload.stampedBy j hnew] at hby
      rw [hticket j hnew]
      have hold := (hload.loaded j _ hl).resolve_right fun heq => hnew ⟨heq.1, heq.2.symm⟩
      exact h.stamp j c hold hby
  · simp only at hl hby ⊢
    -- a word after the ticket is loaded, so the step does not load the ticket
    have hold : ¬ (j = i ∧ w₀ = .ticket) := by
      rintro ⟨rfl, rfl⟩
      rcases hload.loaded j w hl with hl | ⟨-, rfl⟩
      · exact Nat.lt_asymm ((hload.earlier w).mp hl) hafter
      · exact Nat.lt_irrefl _ hafter
    rw [hload.stampedBy j hold] at hby
    rw [hticket j hold]
    by_cases hnew : j = i ∧ w = w₀
    · -- the step loads `w`, and the ticket has been loaded before
      obtain ⟨rfl, rfl⟩ := hnew
      obtain ⟨c', t', hle, hwrote, hholds⟩ :=
        h.order.notOlder (h.stamp j c ((hload.earlier .ticket).mpr hafter) hby) w.word
      refine ⟨c', t', hle, hwrote, fun m hm => ?_⟩
      rw [hload.loads]
      exact SnapshotWord.value_of_holds (hholds m hm)
    · rw [hload.words j w hnew]
      exact h.after j w c ((hload.loaded j w hl).resolve_right hnew) hafter hby

/-- **Every step that meets the condition keeps the invariant.** -/
theorem VouchedRead.step {s s' : LiveState} {a : LiveAction} (h : VouchedRead packets args s)
    (hok : LiveInOrder s a) (hnext : liveNext packets args call s a = some s') :
    VouchedRead packets args s' := by
  obtain ⟨b, p, rfl, hp, rfl⟩ | ⟨k, -, hk, rfl⟩ := liveNext_cases hnext
  · have hmono := fun {i w c t} => wrote_mono (i := i) (w := w) (c := c) (t := t) h.order.nodup hp
    refine ⟨h.order.step hok hp, fun i c hl hby => hmono (h.stamp i c hl hby), ?_⟩
    intro i w c hl hafter hby
    obtain ⟨c', t', hle, hwrote, hvalue⟩ := h.after i w c hl hafter hby
    exact ⟨c', t', hle, hmono hwrote, hvalue⟩
  · exact h.read_step hk

/-- **What the tickets of a snapshot vouch for**, along every run in which the pool writes in ticket
order before the tickets wrap. -/
theorem liveSnapshot_vouched (packets : ℕ → Option SkBuff) (args : SnapshotArgs) (call : NetRead)
    (words : ℕ → SnapshotWord → ℕ) (s : LiveState)
    (h : ReachableUnder (liveNext packets args call) LiveInOrder (liveInit words) s)
    (hprinted : s.read.pc = .printed) (i c : ℕ) (hi : i < netfilterSlotCapacity)
    (hby : (s.read.slot i).stampedBy = some c) : Vouched packets args s i c := by
  have hinv : VouchedRead packets args s :=
    h.invariant ⟨.init, fun _ _ h => h.elim, fun _ _ _ h => h.elim⟩
      fun _ _ _ hi hok hnext => hi.step hok hnext
  have hloaded : ∀ w, s.read.Loaded args i w := fun w => by
    rw [SnapshotRead.Loaded, hprinted]
    exact hi
  obtain ⟨hidx, hticket, -⟩ := hinv.stamp i c (hloaded _) hby
  obtain ⟨m, hm⟩ := hinv.order.tickets.metric c _ hticket
  -- what comes after the ticket and is not later is the packet's
  have hown : NoLaterClaim s i (s.read.slot i).slotTicket → ∀ w, args.After i w →
      s.read.words i w = w.value ⟨m, (s.read.slot i).slotTicket, some c⟩ := by
    intro hlast w hafter
    obtain ⟨c', t', hle, hwrote, hvalue⟩ := hinv.after i w c (hloaded w) hafter hby
    obtain rfl := UInt32.le_antisymm hle (hlast c' t' hwrote.2.1 hwrote.1)
    obtain rfl := hinv.order.tickets.ticket_inj c c' _ hticket hwrote.2.1
    exact hvalue m hm
  refine ⟨⟨hticket, hidx⟩, fun w hafter => ?_, fun hlast m' hm' => ?_, fun hlast hfirst => ?_⟩
  · obtain ⟨c', t', hle, hwrote, hvalue⟩ := hinv.after i w c (hloaded w) hafter hby
    obtain ⟨m', hm'⟩ := hinv.order.tickets.metric c' t' hwrote.2.1
    exact ⟨c', t', m', hle, hwrote, hm', hvalue m' hm'⟩
  · obtain rfl : m = m' := Option.some.inj (hm.symm.trans hm')
    have hsrc := fun b => hown hlast (.srcIp b) (args.after_address i (.inl ⟨b, rfl⟩))
    have hdest := fun b => hown hlast (.destIp b) (args.after_address i (.inr ⟨b, rfl⟩))
    simp only [SnapshotRead.slot, hsrc, hdest, SnapshotWord.value, SnapshotRead.address_leBytes32,
      and_self]
  · rw [hm, Option.some.injEq]
    exact (SnapshotRead.slot_payload fun w hw => hown hlast w (hfirst w hw)).symm

end Live

/-- **A ticket that is loaded last vouches for the addresses only**: the line shows ticket 24, which
is the last one that has been claimed, beside the source port of packet 0. -/
theorem ports_not_vouched :
    ∃ s, Reachable (liveNext (fun c => some (portPacket c).skb) rightToLeft catCall)
        (liveInit fun _ _ => 7) s ∧
      s.read.pc = .printed ∧ (s.read.slot 0).stampedBy = some 24 ∧ s.pool.lane.claimed = 25 ∧
        (s.read.slot 0).payload.srcPort = 0 ∧ (portPacket 24).metric.srcPort = 24 := by
  have hrun : (exec (liveNext (fun c => some (portPacket c).skb) rightToLeft catCall)
      (liveInit fun _ _ => 7) overtakenRead).map
        (fun s => (s.read.pc, (s.read.slot 0).stampedBy, s.pool.lane.claimed,
          (s.read.slot 0).payload.srcPort)) = some (.printed, some 24, 25, 0) := by
    decide +kernel
  obtain ⟨s, hs, heq⟩ := Option.map_eq_some_iff.mp hrun
  simp only [Prod.mk.injEq] at heq
  exact ⟨s, .of_exec overtakenRead hs, heq.1, heq.2.1, heq.2.2.1, heq.2.2.2, rfl⟩

/-- Call 0 records its packet, and `cat` reads. -/
def readAfterPacket : List LiveAction :=
  List.replicate 9 (.pool (.producer 0)) ++ List.replicate 313 .read

/-- A step of a run with one call of the hook, checked to write in ticket order. -/
def firstPacketCheck (s : LiveState) : LiveAction → Bool
  | .pool a => netPool.orderCheck 1 s.pool a
  | .read => true

/-- The line of a packet that was recorded before the read is vouched for. -/
theorem liveSnapshot_vouched_packet :
    ∃ s, s.read.pc = .printed ∧ (s.read.slot 0).payload = samplePacket.metric ∧
      Vouched (fun _ => some samplePacket.skb) rightToLeft s 0 0 := by
  have hrun : (exec (checked (liveNext (fun _ => some samplePacket.skb) rightToLeft catCall)
      firstPacketCheck) (liveInit fun _ _ => 7) readAfterPacket).map
        (fun s => (s.read.pc, (s.read.slot 0).stampedBy, (s.read.slot 0).payload))
          = some (.printed, some 0, samplePacket.metric) := by decide +kernel
  obtain ⟨s, hs, heq⟩ := Option.map_eq_some_iff.mp hrun
  simp only [Prod.mk.injEq] at heq
  refine ⟨s, heq.1, heq.2.2, liveSnapshot_vouched _ _ catCall (fun _ _ => 7) s ?_
    heq.1 0 0 (by decide) heq.2.1⟩
  refine .of_checked (J := fun s => IdleFrom 1 s.pool) ?_ ?_ readAfterPacket hs
    (idleFrom_of_entry 1 rfl) .start
  · intro s a s' hidle hq hnext
    obtain ⟨b, p, rfl, hp, rfl⟩ | ⟨k, -, -, rfl⟩ := liveNext_cases hnext
    · exact hidle.step (netPool.callsBelow_of_orderCheck hq) hp
    · exact hidle
  · intro s a hidle hq
    cases a with
    | pool b => exact inTicketOrder_of_orderCheck netPool s.pool b hidle hq
    | read => trivial

end TelemetrySubsystem
