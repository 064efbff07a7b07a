import TelemetrySubsystem.TicketPool.Evidence
import TelemetrySubsystem.NetFilter.Hook
import TelemetrySubsystem.BlockFilter.Commit

/-! # Whole records

A producer overwrites its slot field by field without first taking the old ticket off it, and the
consumer reads a slot field by field without looking at the ticket again afterwards. A record stays
whole as long as the two do not meet on one slot, nor two producers.

* **`TicketPool.openSlot`**, **`Consumer.copying`** and **`TicketPool.readingSlot`** say which slot
  a call is overwriting, and which one the consumer is copying or reading.
* **`TicketPool.Apart`** is the condition on a step: nobody enters a slot that is in use so.
* **`wholeRecords_of_reachable`**: along every run whose steps meet the condition, a record accepted
  under a stamped ticket is the metric of the call that claimed the ticket.
* **`torn_record`**: without the condition a lap during the reading tears the record. -/

namespace TelemetrySubsystem

open ActionSystem TicketPool Fieldwise
open Function (update)

/-! ## Slots in use -/

/-- The slot of the scatter-gather copy under way, once its first word has been copied. -/
def Consumer.copying {P F : Type} (k : Consumer P F) : Option ℕ :=
  match k.pc with
  | .copy i w => if w = 0 then none else some i
  | _ => none

/-- Outside a copy nothing is being copied. -/
theorem copying_eq_none {P F : Type} {k : Consumer P F} (h : ∀ i w, k.pc ≠ .copy i w) :
    k.copying = none := by
  rw [Consumer.copying]
  split
  · rename_i hpc
    exact absurd hpc (h _ _)
  · rfl

namespace TicketPool

variable {P F : Type} [DecidableEq F] [Fieldwise P F] (R : TicketPool P F)

/-- The slot a call has begun to overwrite and not stamped yet. -/
def openSlot : ProducerPc F → Option ℕ
  | .storing ticket rest =>
      if rest.length < R.fields.length then some (R.slotIdx ticket) else none
  | _ => none

/-- The shared slot the consumer is reading: from the load that finds the expected ticket there to
the load of the last field. -/
def readingSlot (k : Consumer P F) : Option ℕ :=
  match k.mode, k.pc.holds with
  | .skipAhead, some (.compare foundTicket _) =>
      if foundTicket = k.expectedTicket then some (R.slotIdx k.expectedTicket) else none
  | .skipAhead, some (.advance _) => some (R.slotIdx k.expectedTicket)
  | _, _ => none

/-- No call is overwriting the slot. -/
def Closed (producer : ℕ → ProducerPc F) (i : ℕ) : Prop := ∀ c, R.openSlot (producer c) ≠ some i

/-- **The condition on a step**: a call stores a field only into a slot that no other call is
overwriting and that the consumer is neither copying nor reading; and the consumer starts to copy a
slot, or finds the expected ticket in it, only while no call is overwriting it. -/
def Apart (s : PoolState P F) : PoolAction → Prop
  | .producer c => ∀ t f rest, s.producer c = .storing t (f :: rest) →
      (∀ c', c' ≠ c → R.openSlot (s.producer c') ≠ some (R.slotIdx t)) ∧
        s.consumer.copying ≠ some (R.slotIdx t) ∧
        R.readingSlot s.consumer ≠ some (R.slotIdx t)
  | .consumer _ =>
      (∀ i, s.consumer.pc = .copy i 0 → R.Closed s.producer i) ∧
        (s.consumer.pc = .loadTicket → s.consumer.mode = .skipAhead →
          (s.lane.slots (R.slotIdx s.consumer.expectedTicket)).slotTicket
              = s.consumer.expectedTicket →
            R.Closed s.producer (R.slotIdx s.consumer.expectedTicket))
  | .spawn _ => True

/-! ## What a move does away from its slot -/

variable {R}

/-- After the stamp the slot is closed. -/
@[simp] theorem openSlot_afterStamp (t : UInt32) : R.openSlot (R.afterStamp t) = none := by
  rw [afterStamp]
  split <;> rfl

/-- The fields left to store are a final part of all fields. -/
theorem ProducerMove.suffix {me : ℕ} {metric : Option P} {lane lane' : TicketLane P}
    {pc pc' : ProducerPc F} (h : R.ProducerMove me metric lane pc lane' pc')
    (hsuffix : ∀ t rest, pc = .storing t rest → rest <:+ R.fields) (t : UInt32) (rest : List F)
    (hpc : pc' = .storing t rest) : rest <:+ R.fields := by
  cases h with
  | claim hm =>
      cases hpc
      exact List.suffix_refl _
  | store hm =>
      cases hpc
      exact (List.suffix_cons _ _).trans (hsuffix _ _ rfl)
  | stamp =>
      rw [afterStamp] at hpc
      split at hpc <;> cases hpc
  | leave | reload | swap => cases hpc

/-- **Away from the slot it writes, a move changes no slot, opens none and closes none.** -/
theorem ProducerMove.off_target {producer : ℕ → ProducerPc F} {c : ℕ} {metric : Option P}
    {lane lane' : TicketLane P} {pc : ProducerPc F}
    (h : R.ProducerMove c metric lane (producer c) lane' pc) {i : ℕ}
    (hi : ∀ t rest, producer c = .storing t rest → R.slotIdx t ≠ i) :
    lane'.slots i = lane.slots i ∧
      ∀ c', R.openSlot (update producer c pc c') = some i ↔ R.openSlot (producer c') = some i := by
  have hopen : (R.openSlot pc = some i ↔ R.openSlot (producer c) = some i) →
      ∀ c', R.openSlot (update producer c pc c') = some i ↔ R.openSlot (producer c') = some i := by
    intro hiff c'
    by_cases heq : c' = c
    · subst heq
      rw [Function.update_self]
      exact hiff
    · rw [Function.update_of_ne heq]
  generalize hpc : producer c = pc₀ at h hi hopen
  -- only a field store and the stamp touch a slot, and both of them touch the call's own
  cases h with
  | leave hm => exact ⟨rfl, hopen Iff.rfl⟩
  | claim hm =>
      -- a fresh ticket opens no slot: all its fields are still to be stored
      refine ⟨by rw [claim_slots], hopen ?_⟩
      simp [openSlot]
  | @store t f rest m hm =>
      have hne : R.slotIdx t ≠ i := hi t _ rfl
      refine ⟨Function.update_of_ne (Ne.symm hne) _ _, hopen ?_⟩
      simp [openSlot, hne]
  | @stamp t =>
      have hne : R.slotIdx t ≠ i := hi t _ rfl
      refine ⟨Function.update_of_ne (Ne.symm hne) _ _, hopen ?_⟩
      rw [openSlot_afterStamp]
      simp [openSlot, hne]
  | reload hor =>
      refine ⟨rfl, hopen ?_⟩
      rcases hor with rfl | ⟨_, rfl⟩ <;> exact Iff.rfl
  | swap => exact ⟨rfl, hopen Iff.rfl⟩

end TicketPool

/-! ## The slots of the page -/

section Generic

variable {P F : Type} [DecidableEq F] [Fieldwise P F] {R : TicketPool P F} {calls : ℕ → Option P}

/-- **What the page holds**: an open slot has one call that overwrites it, and agrees with that
call's metric on the fields stored so far; a closed one that is stamped holds the metric of the call
that stamped it. -/
structure PageInv (R : TicketPool P F) (calls : ℕ → Option P) (s : PoolState P F) : Prop where
  suffix : ∀ c t rest, s.producer c = .storing t rest → rest <:+ R.fields
  copied : ∀ c t rest, s.producer c = .storing t rest → ∃ m, calls c = some m ∧
    (R.openSlot (s.producer c) ≠ none → CopiedExcept rest m (s.lane.slots (R.slotIdx t)).payload)
  unique : ∀ c c' i, R.openSlot (s.producer c) = some i → R.openSlot (s.producer c') = some i →
    c = c'
  sound : ∀ i c, R.Closed s.producer i → (s.lane.slots i).stampedBy = some c →
    calls c = some (s.lane.slots i).payload

/-- A call that has stored all its fields is overwriting its slot. -/
theorem openSlot_storing_nil (t : UInt32) : R.openSlot (.storing t []) = some (R.slotIdx t) :=
  if_pos R.length_fields_pos

/-- A call that has stored a field is overwriting its slot. -/
theorem openSlot_of_suffix {t : UInt32} {f : F} {rest : List F} (h : f :: rest <:+ R.fields) :
    R.openSlot (.storing t rest) = some (R.slotIdx t) := by
  have hle := h.length_le
  rw [List.length_cons] at hle
  exact if_pos hle

/-- What a call has copied before it stores a field. -/
theorem PageInv.copied_store {s : PoolState P F} (h : PageInv R calls s) {c : ℕ} {t : UInt32}
    {f : F} {rest : List F} (hpc : s.producer c = .storing t (f :: rest)) {m : P}
    (hm : calls c = some m) :
    CopiedExcept (f :: rest) m (s.lane.slots (R.slotIdx t)).payload := by
  obtain ⟨m', hm', hcopied⟩ := h.copied c t _ hpc
  rw [hm] at hm'
  cases hm'
  by_cases hopen : R.openSlot (s.producer c) = none
  · -- nothing is stored yet, so every field is left
    rw [hpc, openSlot] at hopen
    split at hopen
    · cases hopen
    · rename_i hlen
      have hall : f :: rest = R.fields :=
        (h.suffix c t _ hpc).eq_of_length_le (Nat.le_of_not_lt hlen)
      rw [hall]
      exact CopiedExcept.start R.mem_fields _ _
  · exact hcopied hopen

/-- Two calls never overwrite one slot: a call that is about to write a slot finds no other call
overwriting it. -/
theorem PageInv.alone {s : PoolState P F} (h : PageInv R calls s) {c : ℕ}
    (hok : R.Apart s (.producer c)) {t : UInt32} {rest : List F}
    (hpc : s.producer c = .storing t rest) {c' : ℕ} (hne : c' ≠ c) :
    R.openSlot (s.producer c') ≠ some (R.slotIdx t) := by
  cases rest with
  | cons f rest => exact (hok t f rest hpc).1 c' hne
  | nil =>
      -- a call at its stamp has its slot open already
      intro hopen
      exact hne (h.unique c' c _ hopen (hpc ▸ openSlot_storing_nil t))

/-- What a call has copied after its step. -/
theorem PageInv.copied_step {s : PoolState P F} (h : PageInv R calls s) {c : ℕ}
    {lane : TicketLane P} {pc : ProducerPc F}
    (hmove : R.ProducerMove c (calls c) s.lane (s.producer c) lane pc) {t : UInt32} {rest : List F}
    (hpc : pc = .storing t rest) :
    ∃ m, calls c = some m ∧
      (R.openSlot pc ≠ none → CopiedExcept rest m (lane.slots (R.slotIdx t)).payload) := by
  generalize hold : s.producer c = pc₀ at hmove
  cases hmove with
  | claim hm =>
      cases hpc
      exact ⟨_, hm, fun hopen => absurd (if_neg (Nat.lt_irrefl _)) hopen⟩
  | @store ticket f rest' m hm =>
      cases hpc
      refine ⟨m, hm, fun _ => ?_⟩
      rw [TicketLane.storeField]
      simp only [Function.update_self]
      exact (h.copied_store hold hm).step
  | stamp =>
      rw [afterStamp] at hpc
      split at hpc <;> cases hpc
  | leave | reload | swap => cases hpc

/-- A stamped slot holds the metric of the call that has just stamped it. -/
theorem PageInv.sound_step {s : PoolState P F} (h : PageInv R calls s) {c : ℕ}
    {lane : TicketLane P} {pc : ProducerPc F}
    (hmove : R.ProducerMove c (calls c) s.lane (s.producer c) lane pc) {t : UInt32} {rest : List F}
    (hpc : s.producer c = .storing t rest) (hclosed : R.openSlot pc ≠ some (R.slotIdx t)) {c' : ℕ}
    (hby : (lane.slots (R.slotIdx t)).stampedBy = some c') :
    calls c' = some (lane.slots (R.slotIdx t)).payload := by
  have hsuffix := h.suffix c t rest hpc
  obtain ⟨m, hm, hcopied⟩ := h.copied c t rest hpc
  rw [hpc] at hmove hcopied
  cases hmove with
  | store _ => exact absurd (openSlot_of_suffix hsuffix) hclosed
  | stamp =>
      -- nothing is left to store, so the payload is the whole metric
      rw [openSlot_storing_nil] at hcopied
      have hpayload := (hcopied nofun).eq
      simp only [TicketLane.stamp, Function.update_self, Option.some.injEq] at hby ⊢
      rw [← hby, hpayload, hm]
  | reload hor => rcases hor with hor | ⟨_, hor⟩ <;> cases hor

/-- **A producer's step keeps the page sound**, when it meets the condition. -/
theorem PageInv.producer_step {s : PoolState P F} (h : PageInv R calls s) {c : ℕ}
    (hok : R.Apart s (.producer c)) {lane : TicketLane P} {pc : ProducerPc F}
    (hmove : R.ProducerMove c (calls c) s.lane (s.producer c) lane pc) :
    PageInv R calls { s with lane := lane, producer := update s.producer c pc } := by
  refine ⟨?_, fun c' t rest hpc => ?_, fun c₁ c₂ i h₁ h₂ => ?_, fun i c' hclosed hby => ?_⟩
  · exact (Function.forall_update_iff s.producer
      fun _ pc => ∀ t rest, pc = .storing t rest → rest <:+ R.fields).mpr
        ⟨hmove.suffix (h.suffix c), fun c' _ => h.suffix c'⟩
  · by_cases heq : c' = c
    · subst heq
      simp only [Function.update_self] at hpc ⊢
      exact h.copied_step hmove hpc
    · simp only [Function.update_of_ne heq] at hpc ⊢
      obtain ⟨m, hm, hcopied⟩ := h.copied c' t rest hpc
      refine ⟨m, hm, fun hopen => ?_⟩
      have hidx : R.openSlot (s.producer c') = some (R.slotIdx t) := by
        rw [hpc, openSlot] at hopen ⊢
        split at hopen
        · rw [if_pos ‹_›]
        · exact absurd rfl hopen
      -- the writer is in another slot, since this one is open to `c'`
      have hoff : ∀ t₀ rest₀, s.producer c = .storing t₀ rest₀ → R.slotIdx t₀ ≠ R.slotIdx t := by
        intro t₀ rest₀ hpc₀ heq₀
        exact h.alone hok hpc₀ heq (heq₀ ▸ hidx)
      rw [(hmove.off_target hoff).1]
      exact hcopied hopen
  · by_cases hoff : ∀ t rest, s.producer c = .storing t rest → R.slotIdx t ≠ i
    · have hiff := (hmove.off_target hoff).2
      exact h.unique c₁ c₂ i ((hiff c₁).mp h₁) ((hiff c₂).mp h₂)
    · push Not at hoff
      obtain ⟨t, rest, hpc, rfl⟩ := hoff
      -- on the slot written, nobody but the writer is open
      have hself : ∀ c', R.openSlot (update s.producer c pc c') = some (R.slotIdx t) → c' = c := by
        intro c' hopen
        by_contra hne
        rw [Function.update_of_ne hne] at hopen
        exact h.alone hok hpc hne hopen
      rw [hself c₁ h₁, hself c₂ h₂]
  · by_cases hoff : ∀ t rest, s.producer c = .storing t rest → R.slotIdx t ≠ i
    · obtain ⟨hslot, hiff⟩ := hmove.off_target hoff
      simp only [hslot] at hby ⊢
      exact h.sound i c' (fun c₀ hopen => hclosed c₀ ((hiff c₀).mpr hopen)) hby
    · push Not at hoff
      obtain ⟨t, rest, hpc, rfl⟩ := hoff
      -- the slot written is closed afterwards, so the writer has just stamped it
      have hself : R.openSlot pc ≠ some (R.slotIdx t) := by
        have hc := hclosed c
        simp only [Function.update_self] at hc
        exact hc
      exact h.sound_step hmove hpc hself hby

/-! ## What the consumer reads -/

/-- The consumer holds a ticket word with the stamp `stampedBy`, taken from the slot of the expected
ticket, and when that is a shared slot nobody is overwriting it. -/
def HoldsStamp (R : TicketPool P F) (s : PoolState P F) (stampedBy : Option ℕ) : Prop :=
  (s.consumer.mode = .skipAhead → R.Closed s.producer (R.slotIdx s.consumer.expectedTicket)) ∧
    stampedBy = (view s.lane s.consumer (R.slotIdx s.consumer.expectedTicket)).stampedBy

/-- **What the consumer reads**: a slot copied completely and stamped holds the metric of the call
that stamped it; the copy under way agrees with its slot so far; and a record being read agrees with
its slot so far. -/
structure ReaderInv (R : TicketPool P F) (calls : ℕ → Option P) (s : PoolState P F) : Prop where
  snapshot : ∀ i c, s.consumer.copying ≠ some i →
    (s.consumer.snapshot i).stampedBy = some c → calls c = some (s.consumer.snapshot i).payload
  copying : ∀ i w, s.consumer.pc = .copy i w → 0 < w → R.Closed s.producer i ∧
    CopiedExcept (R.words.drop w).flatten (s.lane.slots i).payload
      (s.consumer.snapshot i).payload
  loaded : ∀ t b, s.consumer.pc.loaded = some (t, b) →
    (s.consumer.mode = .skipAhead → t = s.consumer.expectedTicket) → HoldsStamp R s b
  accepted : ∀ a, s.consumer.pc.accepted = some a → HoldsStamp R s a.stampedBy
  reading : ∀ a t rest metric, s.consumer.pc = .processField (.advance a) t rest metric →
    CopiedExcept rest (view s.lane s.consumer (R.slotIdx s.consumer.expectedTicket)).payload metric

/-- A step that meets the condition writes no closed slot that the consumer is using. -/
theorem off_slot_of_apart {s : PoolState P F} {c : ℕ} (hok : R.Apart s (.producer c)) {i : ℕ}
    (hclosed : R.Closed s.producer i)
    (huse : s.consumer.copying = some i ∨ R.readingSlot s.consumer = some i) :
    ∀ t rest, s.producer c = .storing t rest → R.slotIdx t ≠ i := by
  rintro t rest hpc rfl
  cases rest with
  | nil => exact hclosed c (hpc ▸ openSlot_storing_nil t)
  | cons f rest =>
      obtain ⟨-, hcopy, hread⟩ := hok t f rest hpc
      exact huse.elim hcopy hread

/-- **What the consumer holds survives a producer's step**, when the step meets the condition. -/
theorem HoldsStamp.producer_step {s : PoolState P F} {stampedBy : Option ℕ}
    (h : HoldsStamp R s stampedBy)
    (hread : s.consumer.mode = .skipAhead →
      R.readingSlot s.consumer = some (R.slotIdx s.consumer.expectedTicket))
    {c : ℕ} (hok : R.Apart s (.producer c)) {lane : TicketLane P} {pc : ProducerPc F}
    (hmove : R.ProducerMove c (calls c) s.lane (s.producer c) lane pc) :
    HoldsStamp R { s with lane := lane, producer := update s.producer c pc } stampedBy ∧
      view lane s.consumer (R.slotIdx s.consumer.expectedTicket)
        = view s.lane s.consumer (R.slotIdx s.consumer.expectedTicket) := by
  obtain ⟨hclosed, hby⟩ := h
  cases hmode : s.consumer.mode with
  | scatterGather =>
      -- the snapshot is private to the thread
      have hview : view lane s.consumer = view s.lane s.consumer := by
        rw [TicketPool.view, TicketPool.view, hmode]
      refine ⟨⟨fun hskip => ?_, ?_⟩, by rw [hview]⟩
      · simp only [hmode] at hskip
        cases hskip
      · simp only [hview]
        exact hby
  | skipAhead =>
      -- the slot is shared, but it is being read, so the step is in another one
      obtain ⟨hslot, hiff⟩ :=
        hmove.off_target (off_slot_of_apart hok (hclosed hmode) (.inr (hread hmode)))
      have hview : view lane s.consumer (R.slotIdx s.consumer.expectedTicket)
          = view s.lane s.consumer (R.slotIdx s.consumer.expectedTicket) := by
        rw [TicketPool.view, TicketPool.view, hmode]
        exact hslot
      refine ⟨⟨fun _ c₀ hopen => hclosed hmode c₀ ((hiff c₀).mp hopen), ?_⟩, hview⟩
      simp only [hview]
      exact hby

/-- A ticket word equal to the expected ticket is being read. -/
theorem readingSlot_of_loaded {k : Consumer P F} {t : UInt32} {b : Option ℕ}
    (hloaded : k.pc.loaded = some (t, b)) (ht : k.mode = .skipAhead → t = k.expectedTicket)
    (hmode : k.mode = .skipAhead) : R.readingSlot k = some (R.slotIdx k.expectedTicket) := by
  rw [ConsumerPc.loaded] at hloaded
  split at hloaded
  · rename_i hholds
    cases hloaded
    simp only [readingSlot, hmode, hholds, ht hmode, if_true]
  · cases hloaded

/-- An accepted ticket is being read. -/
theorem readingSlot_of_accepted {k : Consumer P F} {a : Accepted}
    (haccepted : k.pc.accepted = some a) (hmode : k.mode = .skipAhead) :
    R.readingSlot k = some (R.slotIdx k.expectedTicket) := by
  obtain ⟨after, hholds, hafter⟩ := Option.bind_eq_some_iff.mp haccepted
  cases after with
  | advance a' => simp only [readingSlot, hmode, hholds]
  | compare foundTicket stampedBy => cases hafter
  | scan scanTicket => cases hafter

/-- **A producer's step keeps what the consumer reads**, when it meets the condition. -/
theorem ReaderInv.producer_step {s : PoolState P F} (h : ReaderInv R calls s) {c : ℕ}
    (hok : R.Apart s (.producer c)) {lane : TicketLane P} {pc : ProducerPc F}
    (hmove : R.ProducerMove c (calls c) s.lane (s.producer c) lane pc) :
    ReaderInv R calls { s with lane := lane, producer := update s.producer c pc } where
  snapshot := h.snapshot
  copying := fun i w hpc hw => by
    obtain ⟨hclosed, hcopied⟩ := h.copying i w hpc hw
    have hcopy : s.consumer.copying = some i := by
      rw [Consumer.copying, hpc]
      exact if_neg (Nat.ne_of_gt hw)
    obtain ⟨hslot, hiff⟩ := hmove.off_target (off_slot_of_apart hok hclosed (.inl hcopy))
    refine ⟨fun c₀ hopen => hclosed c₀ ((hiff c₀).mp hopen), ?_⟩
    simp only [hslot]
    exact hcopied
  loaded := fun t b hb ht =>
    ((h.loaded t b hb ht).producer_step (readingSlot_of_loaded hb ht) hok hmove).1
  accepted := fun a ha =>
    ((h.accepted a ha).producer_step (readingSlot_of_accepted ha) hok hmove).1
  reading := fun a t rest metric hpc => by
    have ha : s.consumer.pc.accepted = some a := by
      rw [hpc]
      rfl
    have hview := ((h.accepted a ha).producer_step (readingSlot_of_accepted ha) hok hmove).2
    simp only [hview]
    exact h.reading a t rest metric hpc

/-- **A copied word agrees with its slot**, and nobody is overwriting the slot. -/
theorem ReaderInv.copyWord {s : PoolState P F} (h : ReaderInv R calls s) {run : Bool}
    (hok : R.Apart s (.consumer run)) {i w : ℕ} (hpc : s.consumer.pc = .copy i w) :
    R.Closed s.producer i ∧ CopiedExcept (R.words.drop w).flatten (s.lane.slots i).payload
      (s.consumer.snapshot i).payload := by
  rcases Nat.eq_zero_or_pos w with rfl | hw
  · -- the first word: the condition is about this moment
    exact ⟨hok.1 i hpc, CopiedExcept.start R.mem_fields _ _⟩
  · exact h.copying i w hpc hw

/-- **A step of the copy keeps what the consumer reads**, when it meets the condition. -/
theorem ReaderInv.copy_step {s : PoolState P F} (h : ReaderInv R calls s)
    (hpage : PageInv R calls s) {run : Bool} (hok : R.Apart s (.consumer run)) {i w : ℕ}
    (hpc : s.consumer.pc = .copy i w) :
    ReaderInv R calls { s with consumer := { s.consumer with
      snapshot := update s.consumer.snapshot i
        (R.copyWord w (s.lane.slots i) (s.consumer.snapshot i))
      pc := R.afterCopy s.consumer i w } } := by
  obtain ⟨hclosed, hcopied⟩ := h.copyWord hok hpc
  have hcopying : ∀ j, j ≠ i → s.consumer.copying ≠ some j := by
    intro j hij
    rw [Consumer.copying, hpc]
    simp only
    split
    · exact nofun
    · exact fun heq => hij (Option.some.inj heq).symm
  refine ⟨fun j c hj hby => ?_, fun j w' hpc' hw' => ?_, fun t b hb => ?_, fun a ha => ?_,
    fun a t rest metric hpc' => ?_⟩
  · by_cases hij : j = i
    · -- slot `i` is copied completely only when this was its ticket word
      subst hij
      simp only [Function.update_self] at hby ⊢
      have hlast : R.words.length ≤ w := by
        by_contra hlt
        refine hj ?_
        simp only [Consumer.copying, afterCopy, if_pos (Nat.lt_of_not_le hlt),
          Nat.succ_ne_zero, if_false]
      obtain ⟨hstamp, hpayload⟩ := copyWord_ticket hlast hcopied
      rw [hstamp] at hby
      rw [hpayload]
      exact hpage.sound j c hclosed hby
    · simp only [Function.update_of_ne hij] at hby ⊢
      exact h.snapshot j c (hcopying j hij) hby
  · simp only [afterCopy] at hpc'
    split at hpc'
    · rename_i hlt
      cases hpc'
      simp only [Function.update_self]
      exact ⟨hclosed, copiedExcept_copyWord hlt hcopied⟩
    · -- the next slot starts with its first word, and there is none after the last slot
      split at hpc'
      · cases hpc'
        cases hw'
      · have haside := roundHead_aside s.consumer
        rw [hpc'] at haside
        exact absurd haside (Nat.ne_of_gt hw')
  · simp only [(afterCopy_holds R s.consumer i w).1] at hb
    cases hb
  · simp only [(afterCopy_holds R s.consumer i w).2] at ha
    cases ha
  · have hnone := (afterCopy_holds R s.consumer i w).2
    simp only at hpc'
    rw [hpc'] at hnone
    cases hnone

/-- **A step of the consumer keeps what it reads**, when it meets the condition. -/
theorem ReaderInv.consumer_step {s : PoolState P F} (h : ReaderInv R calls s)
    (hpage : PageInv R calls s) {run : Bool} (hok : R.Apart s (.consumer run))
    {lane : TicketLane P} {k : Consumer P F} (hmove : R.ConsumerMove s.lane s.consumer lane k) :
    ReaderInv R calls { s with lane := lane, consumer := k } := by
  -- outside a copy the whole snapshot is complete
  have hsnapshot : (∀ i w, s.consumer.pc ≠ .copy i w) → ∀ i c,
      (s.consumer.snapshot i).stampedBy = some c →
        calls c = some (s.consumer.snapshot i).payload := by
    intro hno i c hby
    exact h.snapshot i c (by rw [copying_eq_none hno]; exact (Option.some_ne_none _).symm) hby
  cases hmove with
  | aside hno _ _ hsnap _ haside =>
      refine ⟨fun i c _ hby => ?_, fun i w hpc hw => ?_, fun t b hb => ?_, fun a ha => ?_,
        fun a t rest metric hpc => ?_⟩
      · simp only [hsnap] at hby ⊢
        exact hsnapshot hno i c hby
      · rw [hpc] at haside
        exact absurd haside (Nat.ne_of_gt hw)
      · rw [loaded_of_aside haside] at hb
        cases hb
      · rw [accepted_of_aside haside] at ha
        cases ha
      · rw [hpc] at haside
        exact absurd haside id
  | copy hpc => exact h.copy_step hpage hok hpc
  | @load pc hpc hloaded =>
      refine ⟨fun i c _ => hsnapshot (by simp [hpc]) i c, fun i w hpc' => ?_, fun t b hb ht => ?_,
        fun a ha => ?_, fun a t rest metric hpc' => ?_⟩
      · obtain rfl : pc = .copy i w := hpc'
        cases hloaded
      · -- a word that equals the expected ticket was loaded from a closed slot, by the condition
        obtain ⟨rfl, rfl⟩ := Prod.mk.inj (Option.some.inj (hloaded.symm.trans hb))
        refine ⟨fun hmode => ?_, rfl⟩
        have hfound := ht hmode
        simp only [TicketPool.view, show s.consumer.mode = .skipAhead from hmode] at hfound
        exact hok.2 hpc hmode hfound
      · rw [accepted_of_loaded hloaded] at ha
        cases ha
      · obtain rfl : pc = .processField (.advance a) t rest metric := hpc'
        cases hloaded
  | accept hpc =>
      refine ⟨fun i c _ => hsnapshot (by simp [hpc]) i c, by rintro _ _ ⟨⟩,
        by rintro _ _ ⟨⟩, fun a ha => ?_, by rintro _ _ _ _ ⟨⟩⟩
      cases ha
      -- accepting means that the loaded word was the expected ticket
      exact h.loaded _ _ (by rw [hpc]; rfl) fun _ => rfl
  | @process after hpc =>
      refine ⟨fun i c _ => hsnapshot (by simp [hpc]) i c, by rintro _ _ ⟨⟩,
        fun t b hb => h.loaded t b (by rw [hpc]; exact hb),
        fun a ha => h.accepted a (by rw [hpc]; exact ha), fun a t rest metric hpc' => ?_⟩
      cases hpc'
      exact CopiedExcept.start R.mem_fields _ _
  | @field after t f rest metric hpc =>
      refine ⟨fun i c _ => hsnapshot (by simp [hpc]) i c, by rintro _ _ ⟨⟩,
        fun t b hb => h.loaded t b (by rw [hpc]; exact hb),
        fun a ha => h.accepted a (by rw [hpc]; exact ha), fun a t rest metric hpc' => ?_⟩
      cases hpc'
      exact (h.reading a _ _ _ hpc).step
  | @print after t₀ metric₀ hpc =>
      refine ⟨fun i c _ hby => ?_, fun i w hpc' hw => ?_, fun t b hb => ?_, fun a ha => ?_,
        fun a t rest metric hpc' => ?_⟩
      · simp only [resume_snapshot] at hby ⊢
        exact hsnapshot (by simp [hpc]) i c hby
      · exact absurd (resume_copy hpc') (Nat.ne_of_gt hw)
      · obtain rfl := resume_loaded hb
        exact h.loaded t b (by rw [hpc]; rfl)
      · rw [resume_accepted] at ha
        cases ha
      · have hnone := resume_accepted { s.consumer with
          lines := s.consumer.lines ++ [⟨t₀, metric₀, after.accepted⟩] } after
        rw [hpc'] at hnone
        cases hnone

/-! ## The law -/

/-- **No torn record**: what the consumer has printed for an accepted ticket that some call had
stamped is, field for field, the metric of that call, which had claimed the ticket. -/
def WholeRecords (calls : ℕ → Option P) (s : PoolState P F) : Prop :=
  ∀ l ∈ s.consumer.lines, ∀ t c, l.accepted = some ⟨t, some c⟩ →
    (s.producer c).ticket = some t ∧ calls c = some l.metric

/-- The invariant behind the law. -/
structure WholeInv (R : TicketPool P F) (calls : ℕ → Option P) (s : PoolState P F) : Prop where
  page : PageInv R calls s
  reader : ReaderInv R calls s
  printed : ∀ l ∈ s.consumer.lines, ∀ t c, l.accepted = some ⟨t, some c⟩ → calls c = some l.metric

/-- **The record that is printed is whole**: every field has been read from the slot, which holds
the metric of the call that stamped it. -/
theorem WholeInv.print {s : PoolState P F} (h : WholeInv R calls s) {t' : UInt32} {metric : P}
    {t : UInt32} {c : ℕ} (hpc : s.consumer.pc = .processField (.advance ⟨t, some c⟩) t' [] metric) :
    calls c = some metric := by
  obtain ⟨hclosed, hby⟩ := h.reader.accepted ⟨t, some c⟩ (by rw [hpc]; rfl)
  rw [(h.reader.reading _ _ _ _ hpc).eq]
  cases hmode : s.consumer.mode with
  | scatterGather =>
      simp only [TicketPool.view, hmode] at hby ⊢
      have hcopying : s.consumer.copying = none := copying_eq_none (by simp [hpc])
      exact h.reader.snapshot _ c (by rw [hcopying]; exact (Option.some_ne_none _).symm) hby.symm
  | skipAhead =>
      simp only [TicketPool.view, hmode] at hby ⊢
      exact h.page.sound _ c (hclosed hmode) hby.symm

/-- **Every step that meets the condition keeps the invariant.** -/
theorem WholeInv.step {s s' : PoolState P F} {a : PoolAction} (h : WholeInv R calls s)
    (hok : R.Apart s a) (hnext : R.poolNext calls s a = some s') : WholeInv R calls s' := by
  obtain ⟨c, lane, pc, rfl, hmove, rfl⟩ | ⟨mode, rfl, hpc, rfl⟩ | ⟨run, lane, k, rfl, hmove, rfl⟩ :=
    poolNext_cases hnext
  · exact ⟨h.page.producer_step hok hmove, h.reader.producer_step hok hmove, h.printed⟩
  · refine ⟨⟨h.page.suffix, h.page.copied, h.page.unique, h.page.sound⟩,
      ⟨fun i c _ => h.reader.snapshot i c ?_, nofun, nofun, nofun, nofun⟩, h.printed⟩
    rw [copying_eq_none (by simp [hpc])]
    exact nofun
  · have hslots := hmove.samePool.slots
    refine ⟨⟨h.page.suffix, ?_, h.page.unique, ?_⟩, h.reader.consumer_step h.page hok hmove, ?_⟩
    · simp only [hslots]
      exact h.page.copied
    · simp only [hslots]
      exact h.page.sound
    · intro l hl t c hacc
      cases hmove with
      | aside _ _ _ _ hlines _ => exact h.printed l (hlines ▸ hl) t c hacc
      | @print after t₀ metric₀ hpc =>
          simp only [resume_lines, List.mem_append, List.mem_singleton] at hl
          rcases hl with hl | rfl
          · exact h.printed l hl t c hacc
          · -- of the lines printed, only that of an accepted ticket is under the law
            cases after with
            | advance b =>
                cases hacc
                exact h.print hpc
            | compare foundTicket stampedBy => cases hacc
            | scan scanTicket => cases hacc
      | copy | load | accept | process | field => exact h.printed l hl t c hacc

/-- The zeroed page: nothing is stamped, and nothing has been read. -/
theorem WholeInv.init : WholeInv R calls R.poolInit :=
  ⟨⟨nofun, nofun, nofun, nofun⟩, ⟨nofun, nofun, nofun, nofun, nofun⟩, nofun⟩

/-- **No record is torn in one pool.** -/
theorem wholeRecords {s : PoolState P F}
    (h : ReachableUnder (R.poolNext calls) R.Apart R.poolInit s) : WholeRecords calls s := by
  have hwhole : WholeInv R calls s :=
    h.invariant WholeInv.init fun _ _ _ hi hok hnext => hi.step hok hnext
  have hev := evidenceInv_of_reachable h
  intro l hl t c hacc
  exact ⟨ProducerPc.ticket_of_stamped (hev.printed l hl _ hacc), hwhole.printed l hl t c hacc⟩

end Generic

/-- **A delivered record is never torn**, on the net pool and on the block pool, in both consumer
modes, along every run in which no call and no consumer enters a slot that is in use. -/
theorem wholeRecords_of_reachable (packets : ℕ → Option SkBuff)
    (metrics : ℕ → Option BlockIoMetric) :
    (∀ s, ReachableUnder (netNext packets) netPool.Apart netPool.poolInit s →
        WholeRecords (fun c => hookMetric (packets c)) s) ∧
      (∀ s, ReachableUnder (blockNext metrics) blockPool.Apart blockPool.poolInit s →
        WholeRecords metrics s) :=
  ⟨fun _ h => wholeRecords h, fun _ h => wholeRecords h⟩

/-- A step of a run of `n` calls, checked to enter no slot that is in use. -/
def TicketPool.slotsApartCheck {P F : Type} [DecidableEq F] [Fieldwise P F] (R : TicketPool P F)
    (n : ℕ) (s : PoolState P F) (a : PoolAction) : Bool :=
  let closed (i : ℕ) : Bool := decide (∀ c < n, R.openSlot (s.producer c) ≠ some i)
  callsBelow n a && match a with
    | .producer c => match s.producer c with
      | .storing t (_ :: _) =>
          decide (∀ c' < n, c' ≠ c → R.openSlot (s.producer c') ≠ some (R.slotIdx t)) &&
            decide (s.consumer.copying ≠ some (R.slotIdx t)) &&
            decide (R.readingSlot s.consumer ≠ some (R.slotIdx t))
      | _ => true
    | .consumer _ => match s.consumer.pc with
      | .copy i 0 => closed i
      | .loadTicket => closed (R.slotIdx s.consumer.expectedTicket)
      | _ => true
    | .spawn _ => true

/-- Such steps keep the calls and the consumer apart. -/
theorem apart_of_slotsApartCheck {P F : Type} [DecidableEq F] [Fieldwise P F] (R : TicketPool P F)
    {n : ℕ} (s : PoolState P F) (a : PoolAction) (hidle : IdleFrom n s)
    (h : R.slotsApartCheck n s a = true) : R.Apart s a := by
  have hclosed {i : ℕ} (hbelow : ∀ c < n, R.openSlot (s.producer c) ≠ some i) :
      R.Closed s.producer i :=
    hidle.forall_producer (p := fun pc => R.openSlot pc ≠ some i) nofun hbelow
  obtain ⟨-, h⟩ := Bool.and_eq_true_iff.mp h
  cases a with
  | producer c =>
      intro t f rest hpc
      simp only [hpc, Bool.and_eq_true, decide_eq_true_eq] at h
      obtain ⟨⟨hothers, hcopying⟩, hreading⟩ := h
      refine ⟨fun c' hne => ?_, hcopying, hreading⟩
      rcases Nat.lt_or_ge c' n with hlt | hge
      · exact hothers c' hlt hne
      · rw [hidle c' hge]
        exact nofun
  | spawn mode => trivial
  | consumer run =>
      refine ⟨fun i hpc => ?_, fun hpc _ _ => ?_⟩
      · simp only [hpc, decide_eq_true_eq] at h
        exact hclosed h
      · simp only [hpc, decide_eq_true_eq] at h
        exact hclosed h

/-- Call 0 runs to its end, and the consumer accepts its ticket. Then call 1 takes the next slot
while the consumer reads the fields and prints. -/
def storeWhileReading : List PoolAction :=
  List.replicate 10 (.producer 0) ++ .spawn .skipAhead :: List.replicate 8 (.consumer true)
    ++ (List.replicate 9 [.producer 1, .consumer true]).flatten

/-- A commit is delivered whole while the next one is under way. -/
theorem wholeRecords_beside_next : ∃ s : PoolState BlockIoMetric BlockField,
    s.consumer.lines = [⟨0, sampleBlockMetric, some ⟨0, some 0⟩⟩] ∧
      blockPool.openSlot (s.producer 1) = some 1 ∧
      WholeRecords (fun _ => some sampleBlockMetric) s := by
  have hrun : (exec (checked (blockNext fun _ => some sampleBlockMetric)
      (blockPool.slotsApartCheck 2)) blockPool.poolInit storeWhileReading).map
        (fun s => (s.consumer.lines, blockPool.openSlot (s.producer 1)))
          = some ([⟨0, sampleBlockMetric, some ⟨0, some 0⟩⟩], some 1) := by decide +kernel
  obtain ⟨s, hs, heq⟩ := Option.map_eq_some_iff.mp hrun
  obtain ⟨hlines, hopen⟩ := Prod.mk.inj heq
  have hreach : ReachableUnder (blockNext fun _ => some sampleBlockMetric) blockPool.Apart
      blockPool.poolInit s :=
    reachableUnder_of_firstCalls (fun _ _ hq => (Bool.and_eq_true_iff.mp hq).1)
      (apart_of_slotsApartCheck blockPool) storeWhileReading hs
  exact ⟨s, hlines, hopen, (wholeRecords_of_reachable (fun _ => none) _).2 s hreach⟩

/-! ## A lap during the reading -/

/-- The metrics of the run below: call 8 is on another device. -/
def lapMetrics (c : ℕ) : Option BlockIoMetric :=
  some (if c = 8 then { sampleBlockMetric with devMajor := 9 } else sampleBlockMetric)

/-- Call 0 runs to its end, and the consumer accepts ticket 0. Calls 1 to 7 claim their tickets, and
call 8 stores its first field into slot 0. Then the consumer reads the fields and prints. -/
def lapRun : List PoolAction :=
  List.replicate 10 (.producer 0) ++ .spawn .skipAhead :: List.replicate 8 (.consumer true)
    ++ (List.range' 1 7).map .producer ++ List.replicate 2 (.producer 8)
    ++ List.replicate 9 (.consumer true)

/-- **A torn record**: the line printed for ticket 0, which call 0 had stamped, has the device of
call 8 and the sectors of call 0. -/
theorem torn_record :
    ¬ ∀ s, Reachable (blockNext lapMetrics) blockPool.poolInit s → WholeRecords lapMetrics s := by
  intro h
  have hrun : Reachable (blockNext lapMetrics) blockPool.poolInit _ := .of_exec lapRun rfl
  have hwhole := h _ hrun _ (List.mem_singleton_self _) 0 0 rfl
  exact absurd hwhole.2 (by decide)

end TelemetrySubsystem
