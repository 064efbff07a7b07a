import TelemetrySubsystem.TicketPool.Evidence
import TelemetrySubsystem.TicketPool.Tickets
import TelemetrySubsystem.NetFilter.Hook
import TelemetrySubsystem.BlockFilter.Commit

/-! # Producers on one slot

Two calls whose tickets differ by a multiple of the capacity write the same slot, word by word, and
nothing keeps the earlier one from writing last.

* **`InTicketOrder`** is the condition on a step: no word of a slot is written by a call after a
  call with a later ticket has written it.
* **`OrderInv`**: every word of a slot is the word of the latest ticket that has written it.
* **`slotsKept_of_reachable`**: along every run whose steps meet the condition the tickets of the
  slots never decrease, and once no call is in flight every stamped slot holds the metric of the
  latest ticket claimed for it.
* **`stalled_call_rolls_back`**: without the condition a stalled call takes its slot back. -/

namespace TelemetrySubsystem

open ActionSystem TicketPool
open Function (update)

/-! ## The words of a slot -/

/-- What a call writes into its slot: the payload fields, and last the stamp. -/
inductive SlotWord (F : Type)
  | field (f : F)
  | stamp
  deriving DecidableEq, Repr

namespace ProducerPc

variable {F : Type}

/-- The call has written the word. -/
def Written (w : SlotWord F) : ProducerPc F → Prop
  | .entry => False
  | .storing _ rest =>
      match w with
      | .field f => f ∉ rest
      | .stamp => False
  | .hintLoad _ | .hintSwap _ _ => True
  | .done ticket => ticket ≠ none

/-- The word the call is about to write, and its ticket. -/
def nextWord : ProducerPc F → Option (UInt32 × SlotWord F)
  | .storing ticket (f :: _) => some (ticket, .field f)
  | .storing ticket [] => some (ticket, .stamp)
  | _ => none

/-- A call about to write has a ticket. -/
theorem ticket_of_nextWord {pc : ProducerPc F} {t : UInt32} {w : SlotWord F}
    (h : pc.nextWord = some (t, w)) : pc.ticket = some t := by
  cases pc with
  | storing ticket rest => cases rest <;> cases h <;> rfl
  | _ => cases h

end ProducerPc

/-- A call that has a ticket and is not in flight has written every word. -/
theorem written_of_quiescent {P F : Type} {s : PoolState P F} (hq : Quiescent s) {c : ℕ}
    {t : UInt32} (ht : (s.producer c).ticket = some t) (w : SlotWord F) :
    (s.producer c).Written w := by
  rcases hq c with hpc | ⟨ticket, hpc⟩
  · rw [hpc] at ht
    cases ht
  · rw [hpc] at ht ⊢
    obtain rfl : ticket = some t := ht
    exact nofun

/-- What a word of a slot holds after call `c` with ticket `t` and metric `m` has written it. -/
def SlotWord.Holds {P F : Type} [DecidableEq F] [Fieldwise P F] (slot : Slot P) (c : ℕ) (t : UInt32)
    (m : P) : SlotWord F → Prop
  | .field f => Fieldwise.value f slot.payload = Fieldwise.value f m
  | .stamp => slot.slotTicket = t ∧ slot.stampedBy = some c

/-- A word of a slot is the same as before. -/
def SlotWord.Same {P F : Type} [DecidableEq F] [Fieldwise P F] (slot slot' : Slot P) :
    SlotWord F → Prop
  | .field f => Fieldwise.value f slot'.payload = Fieldwise.value f slot.payload
  | .stamp => slot'.slotTicket = slot.slotTicket ∧ slot'.stampedBy = slot.stampedBy

/-- In a slot that is the same every word is. -/
theorem SlotWord.Same.of_eq {P F : Type} [DecidableEq F] [Fieldwise P F] {slot slot' : Slot P}
    {w : SlotWord F} (h : slot' = slot) : w.Same slot slot' := by
  subst h
  cases w with
  | field f => exact rfl
  | stamp => exact ⟨rfl, rfl⟩

/-- A word nobody has written: an unstamped slot carries ticket 0. -/
def SlotWord.Untouched {P F : Type} (slot : Slot P) : SlotWord F → Prop
  | .field _ => True
  | .stamp => slot.slotTicket = 0 ∧ slot.stampedBy = none

namespace TicketPool

variable {P F : Type} [DecidableEq F] [Fieldwise P F] (R : TicketPool P F)

/-- Call `c` with ticket `t` has written word `w` of slot `i`. -/
def Wrote (producer : ℕ → ProducerPc F) (i : ℕ) (w : SlotWord F) (c : ℕ) (t : UInt32) : Prop :=
  R.slotIdx t = i ∧ (producer c).ticket = some t ∧ (producer c).Written w

/-- **The condition on a step**: no word of a slot is written after a call with a later ticket has
written it. -/
def InTicketOrder (s : PoolState P F) : PoolAction → Prop
  | .producer c =>
      ∀ t w, (s.producer c).nextWord = some (t, w) →
        ∀ c' t', R.Wrote s.producer (R.slotIdx t) w c' t' → t' ≤ t
  | _ => True

/-- The condition on a step, before the tickets wrap. -/
def InTicketOrderBelowWrap (s : PoolState P F) (a : PoolAction) : Prop :=
  ClaimsBelow (2 ^ 32) s a ∧ R.InTicketOrder s a

variable {R}

/-! ## What a move writes -/

/-- After the stamp every word is written. -/
theorem afterStamp_written (t : UInt32) (w : SlotWord F) : (R.afterStamp t).Written w := by
  cases hpub : R.publishesHint with
  | true =>
      rw [afterStamp, hpub]
      trivial
  | false =>
      rw [afterStamp, hpub]
      exact Option.some_ne_none t

/-- A move keeps the fields left to store free of repetitions. -/
theorem ProducerMove.nodup {me : ℕ} {metric : Option P} {lane lane' : TicketLane P}
    {pc pc' : ProducerPc F} (h : R.ProducerMove me metric lane pc lane' pc')
    (hnodup : ∀ t rest, pc = .storing t rest → rest.Nodup) (t : UInt32) (rest : List F)
    (hpc : pc' = .storing t rest) : rest.Nodup := by
  cases h with
  | claim hm =>
      cases hpc
      exact R.nodup_fields
  | store hm =>
      cases hpc
      exact (List.nodup_cons.mp (hnodup _ _ rfl)).2
  | stamp =>
      rw [afterStamp] at hpc
      split at hpc <;> cases hpc
  | leave | reload | swap => cases hpc

/-- **A move writes the next word of its call**, and no other. -/
theorem ProducerMove.written_iff {me : ℕ} {metric : Option P} {lane lane' : TicketLane P}
    {pc pc' : ProducerPc F} (h : R.ProducerMove me metric lane pc lane' pc')
    (hnodup : ∀ t rest, pc = .storing t rest → rest.Nodup) (t : UInt32) (w : SlotWord F) :
    (pc'.ticket = some t ∧ pc'.Written w) ↔
      (pc.ticket = some t ∧ pc.Written w) ∨ pc.nextWord = some (t, w) := by
  cases h with
  | leave hm => simp [ProducerPc.ticket, ProducerPc.nextWord]
  | claim hm =>
      cases w with
      | field f => simp [ProducerPc.ticket, ProducerPc.Written, ProducerPc.nextWord, R.mem_fields f]
      | stamp => simp [ProducerPc.ticket, ProducerPc.Written, ProducerPc.nextWord]
  | @store ticket f rest m hm =>
      -- `f` does not come again, so storing it makes it written for good
      have hf : f ∉ rest := (List.nodup_cons.mp (hnodup _ _ rfl)).1
      cases w with
      | field g =>
          by_cases hfg : g = f
          · subst hfg
            simp [ProducerPc.ticket, ProducerPc.Written, ProducerPc.nextWord, hf]
          · simp [ProducerPc.ticket, ProducerPc.Written, ProducerPc.nextWord, hfg,
              Ne.symm hfg]
      | stamp => simp [ProducerPc.ticket, ProducerPc.Written, ProducerPc.nextWord]
  | @stamp ticket =>
      have hwritten : (R.afterStamp ticket).Written w := afterStamp_written ticket w
      rw [afterStamp_ticket, and_iff_left hwritten]
      cases w <;> simp [ProducerPc.ticket, ProducerPc.Written, ProducerPc.nextWord]
  | reload hpc =>
      rcases hpc with rfl | ⟨_, rfl⟩ <;>
        simp [ProducerPc.ticket, ProducerPc.Written, ProducerPc.nextWord]
  | swap => simp [ProducerPc.ticket, ProducerPc.Written, ProducerPc.nextWord]

/-- **Who has written what after a move.** -/
theorem ProducerMove.wrote_iff {producer : ℕ → ProducerPc F} {c : ℕ} {metric : Option P}
    {lane lane' : TicketLane P} {pc : ProducerPc F}
    (h : R.ProducerMove c metric lane (producer c) lane' pc)
    (hnodup : ∀ t rest, producer c = .storing t rest → rest.Nodup) (i : ℕ) (w : SlotWord F)
    (c' : ℕ) (t : UInt32) :
    R.Wrote (update producer c pc) i w c' t ↔
      R.Wrote producer i w c' t ∨
        (c' = c ∧ R.slotIdx t = i ∧ (producer c).nextWord = some (t, w)) := by
  by_cases heq : c' = c
  · subst heq
    simp only [Wrote, Function.update_self, h.written_iff hnodup t w]
    tauto
  · simp only [Wrote, Function.update_of_ne heq, heq, false_and, or_false]

/-- **What a move does to the words of the slots**: it changes only the word it writes. -/
theorem ProducerMove.slotWord {me : ℕ} {metric : Option P} {lane lane' : TicketLane P}
    {pc pc' : ProducerPc F} (h : R.ProducerMove me metric lane pc lane' pc') (i : ℕ)
    (w : SlotWord F) :
    (∃ t, pc.nextWord = some (t, w) ∧ R.slotIdx t = i ∧
        ∀ m, metric = some m → w.Holds (lane'.slots i) me t m) ∨
      ((∀ t, pc.nextWord = some (t, w) → R.slotIdx t ≠ i) ∧
        w.Same (lane.slots i) (lane'.slots i)) := by
  cases h with
  | leave hm => exact .inr ⟨by rintro _ ⟨⟩, .of_eq rfl⟩
  | claim hm => exact .inr ⟨by rintro _ ⟨⟩, .of_eq (congrFun (claim_slots R lane) i)⟩
  | @store ticket f rest m hm =>
      by_cases hi : R.slotIdx ticket = i
      · subst hi
        cases w with
        | stamp =>
            -- a field store leaves the stamp of its own slot alone
            refine .inr ⟨by rintro _ ⟨⟩, ?_⟩
            simp only [TicketLane.storeField, Function.update_self]
            exact ⟨rfl, rfl⟩
        | field g =>
            by_cases hfg : g = f
            · subst hfg
              refine .inl ⟨ticket, rfl, rfl, fun m' hm' => ?_⟩
              rw [hm] at hm'
              cases hm'
              simp only [SlotWord.Holds, TicketLane.storeField, Function.update_self,
                Fieldwise.value_copy, if_true]
            · refine .inr ⟨fun t ht => ?_, ?_⟩
              · simp only [ProducerPc.nextWord, Option.some.injEq, Prod.mk.injEq,
                  SlotWord.field.injEq] at ht
                exact absurd ht.2.symm hfg
              · simp only [SlotWord.Same, TicketLane.storeField, Function.update_self,
                  Fieldwise.value_copy, if_neg hfg]
      · refine .inr ⟨fun t ht => ?_, .of_eq (Function.update_of_ne (Ne.symm hi) _ _)⟩
        obtain rfl : ticket = t := Option.some.inj (ProducerPc.ticket_of_nextWord ht)
        exact hi
  | @stamp ticket =>
      by_cases hi : R.slotIdx ticket = i
      · subst hi
        cases w with
        | stamp =>
            refine .inl ⟨ticket, rfl, rfl, fun _ _ => ?_⟩
            simp only [SlotWord.Holds, TicketLane.stamp, Function.update_self, and_self]
        | field g =>
            -- and the stamp leaves the payload alone
            refine .inr ⟨by rintro _ ⟨⟩, ?_⟩
            simp only [SlotWord.Same, TicketLane.stamp, Function.update_self]
      · refine .inr ⟨fun t ht => ?_, .of_eq (Function.update_of_ne (Ne.symm hi) _ _)⟩
        obtain rfl : ticket = t := Option.some.inj (ProducerPc.ticket_of_nextWord ht)
        exact hi
  | reload hpc =>
      refine .inr ⟨fun t ht => ?_, .of_eq rfl⟩
      rcases hpc with rfl | ⟨_, rfl⟩ <;> cases ht
  | swap => exact .inr ⟨by rintro _ ⟨⟩, .of_eq rfl⟩

end TicketPool

/-! ## The invariant -/

section Generic

variable {P F : Type} [DecidableEq F] [Fieldwise P F] {R : TicketPool P F} {calls : ℕ → Option P}

/-- The word holds what call `c` with ticket `t` wrote there, and no call with a later ticket has
written it. -/
structure LatestWriter (R : TicketPool P F) (calls : ℕ → Option P) (s : PoolState P F) (i : ℕ)
    (w : SlotWord F) (c : ℕ) (t : UInt32) : Prop where
  wrote : R.Wrote s.producer i w c t
  holds : ∀ m, calls c = some m → w.Holds (s.lane.slots i) c t m
  latest : ∀ c' t', R.Wrote s.producer i w c' t' → t' ≤ t

/-- **The invariant**: tickets are apart, and every word of a slot is untouched or the word of the
latest ticket that has written it. -/
structure OrderInv (R : TicketPool P F) (calls : ℕ → Option P) (s : PoolState P F) : Prop where
  evidence : EvidenceInv s
  tickets : TicketInv R calls s
  nodup : ∀ c t rest, s.producer c = .storing t rest → rest.Nodup
  word : ∀ i w,
    ((∀ c t, ¬ R.Wrote s.producer i w c t) ∧ w.Untouched (s.lane.slots i)) ∨
      ∃ c t, LatestWriter R calls s i w c t

/-- A word that stays the same keeps what it holds. -/
theorem SlotWord.Holds.same {slot slot' : Slot P} {c : ℕ} {t : UInt32} {m : P} {w : SlotWord F}
    (h : w.Holds slot c t m) (hsame : w.Same slot slot') : w.Holds slot' c t m := by
  cases w with
  | field f => exact Eq.trans hsame h
  | stamp => exact ⟨hsame.1.trans h.1, hsame.2.trans h.2⟩

/-- A word that stays the same stays untouched. -/
theorem SlotWord.Untouched.same {slot slot' : Slot P} {w : SlotWord F} (h : w.Untouched slot)
    (hsame : w.Same slot slot') : w.Untouched slot' := by
  cases w with
  | field f => trivial
  | stamp => exact ⟨hsame.1.trans h.1, hsame.2.trans h.2⟩

/-- **A producer's step keeps every word the latest ticket's**, when it meets the condition. -/
theorem OrderInv.word_step {s : PoolState P F} (h : OrderInv R calls s) {c : ℕ}
    (hok : R.InTicketOrder s (.producer c)) {lane : TicketLane P} {pc : ProducerPc F}
    (hmove : R.ProducerMove c (calls c) s.lane (s.producer c) lane pc) (i : ℕ) (w : SlotWord F) :
    ((∀ c' t, ¬ R.Wrote (update s.producer c pc) i w c' t) ∧ w.Untouched (lane.slots i)) ∨
      ∃ c' t, LatestWriter R calls
        { s with lane := lane, producer := update s.producer c pc } i w c' t := by
  have hiff := hmove.wrote_iff (h.nodup c) i w
  rcases hmove.slotWord i w with ⟨t, hnext, hidx, hholds⟩ | ⟨hother, hsame⟩
  · -- the step writes this word: no later ticket has, by the condition
    refine .inr ⟨c, t, (hiff c t).mpr (.inr ⟨rfl, hidx, hnext⟩), hholds, fun c' t' hw => ?_⟩
    rcases (hiff c' t').mp hw with hold | ⟨-, -, hnext'⟩
    · exact hok t w hnext c' t' (hidx ▸ hold)
    · rw [hnext] at hnext'
      cases hnext'
      exact UInt32.le_refl t
  · -- the step writes elsewhere: nothing new has written this word
    have hback : ∀ c' t', R.Wrote (update s.producer c pc) i w c' t' →
        R.Wrote s.producer i w c' t' := by
      intro c' t' hw
      rcases (hiff c' t').mp hw with hold | ⟨-, hidx, hnext⟩
      · exact hold
      · exact absurd hidx (hother t' hnext)
    rcases h.word i w with ⟨hnone, hun⟩ | ⟨c₀, t₀, hlatest⟩
    · exact .inl ⟨fun c' t' hw => hnone c' t' (hback c' t' hw), hun.same hsame⟩
    · exact .inr ⟨c₀, t₀, (hiff c₀ t₀).mpr (.inl hlatest.wrote),
        fun m hm => (hlatest.holds m hm).same hsame,
        fun c' t' hw => hlatest.latest c' t' (hback c' t' hw)⟩

/-- **Every step that meets the condition keeps the invariant.** -/
theorem OrderInv.step {s s' : PoolState P F} {a : PoolAction} (h : OrderInv R calls s)
    (hok : R.InTicketOrderBelowWrap s a) (hnext : R.poolNext calls s a = some s') :
    OrderInv R calls s' := by
  have hev := h.evidence.step hnext
  have htickets := h.tickets.step hok.1 hnext
  obtain ⟨c, lane, pc, rfl, hmove, rfl⟩ | ⟨mode, -, -, rfl⟩ | ⟨run, lane, k, -, hmove, rfl⟩ :=
    poolNext_cases hnext
  · refine ⟨hev, htickets, ?_, h.word_step hok.2 hmove⟩
    exact (Function.forall_update_iff s.producer
      fun _ pc => ∀ t rest, pc = .storing t rest → rest.Nodup).mpr
        ⟨hmove.nodup (h.nodup c), fun c' _ => h.nodup c'⟩
  · exact ⟨hev, htickets, h.nodup, fun i w => (h.word i w).imp id
      fun ⟨c, t, hl⟩ => ⟨c, t, hl.wrote, hl.holds, hl.latest⟩⟩
  · have hslots := hmove.samePool.slots
    refine ⟨hev, htickets, h.nodup, fun i w => ?_⟩
    simp only [hslots]
    refine (h.word i w).imp id fun ⟨c, t, hl⟩ => ⟨c, t, hl.wrote, ?_, hl.latest⟩
    simp only [hslots]
    exact hl.holds

/-- The zeroed page: nothing is written. -/
theorem OrderInv.init : OrderInv R calls R.poolInit where
  evidence := EvidenceInv.init
  tickets := TicketInv.init
  nodup := nofun
  word := fun i w => .inl ⟨nofun, by
    cases w
    · trivial
    · exact ⟨rfl, rfl⟩⟩

/-- The invariant holds along every run whose steps meet the condition. -/
theorem orderInv_of_reachable {s : PoolState P F}
    (h : ReachableUnder (R.poolNext calls) R.InTicketOrderBelowWrap
      R.poolInit s) : OrderInv R calls s :=
  h.invariant OrderInv.init fun _ _ _ hi hok hnext => hi.step hok hnext

/-! ## The law -/

/-- **Slots are neither rolled back nor corrupted**: no step admitted by `ok` decreases the ticket
of a slot; and when no call is in flight, every slot for which a ticket was claimed is stamped, and
every stamped slot holds the ticket and the metric of one call, whose ticket is the largest claimed
for the slot. -/
structure SlotsKept (R : TicketPool P F) (calls : ℕ → Option P)
    (ok : PoolState P F → PoolAction → Prop) (s : PoolState P F) : Prop where
  ticket_le : ∀ a s', ok s a → R.poolNext calls s a = some s' →
    ∀ i, (s.lane.slots i).slotTicket ≤ (s'.lane.slots i).slotTicket
  stamped : Quiescent s → ∀ c t, (s.producer c).ticket = some t →
    (s.lane.slots (R.slotIdx t)).stampedBy ≠ none
  settled : Quiescent s → ∀ i c, (s.lane.slots i).stampedBy = some c →
    calls c = some (s.lane.slots i).payload ∧
      (s.producer c).ticket = some (s.lane.slots i).slotTicket ∧
      R.slotIdx (s.lane.slots i).slotTicket = i ∧
      ∀ c' t', (s.producer c').ticket = some t' → R.slotIdx t' = i →
        t' ≤ (s.lane.slots i).slotTicket

/-- **A stamp never lowers the ticket of its slot.** -/
theorem OrderInv.ticket_le {s s' : PoolState P F} {a : PoolAction} (h : OrderInv R calls s)
    (hok : R.InTicketOrder s a) (hnext : R.poolNext calls s a = some s') (i : ℕ) :
    (s.lane.slots i).slotTicket ≤ (s'.lane.slots i).slotTicket := by
  obtain ⟨c, lane, pc, rfl, hmove, rfl⟩ | ⟨mode, -, -, rfl⟩ | ⟨run, lane, k, -, hmove, rfl⟩ :=
    poolNext_cases hnext
  · rcases hmove.slotWord i .stamp with ⟨t, hword, hidx, hholds⟩ | ⟨-, hsame⟩
    · -- the step stamps slot `i`: compare the new ticket with that of the latest stamp
      have hnew : (lane.slots i).slotTicket = t := by
        obtain ⟨m, hm⟩ := h.tickets.metric c t (ProducerPc.ticket_of_nextWord hword)
        exact (hholds m hm).1
      simp only [hnew]
      rcases h.word i .stamp with ⟨-, hzero, -⟩ | ⟨c₀, t₀, hlatest⟩
      · rw [hzero]
        exact UInt32.zero_le
      · obtain ⟨m, hm⟩ := h.tickets.metric c₀ t₀ hlatest.wrote.2.1
        rw [(hlatest.holds m hm).1]
        exact hok t .stamp hword c₀ t₀ (hidx ▸ hlatest.wrote)
    · simp only [hsame.1]
      exact UInt32.le_refl _
  · exact UInt32.le_refl _
  · simp only [hmove.samePool.slots]
    exact UInt32.le_refl _

/-- When no call is in flight, the slot of a claimed ticket has been stamped. -/
theorem OrderInv.latestStamp {s : PoolState P F} (h : OrderInv R calls s) (hq : Quiescent s)
    {c : ℕ} {t : UInt32} (ht : (s.producer c).ticket = some t) :
    ∃ c₀ t₀, LatestWriter R calls s (R.slotIdx t) .stamp c₀ t₀ := by
  rcases h.word (R.slotIdx t) .stamp with ⟨hnone, -⟩ | hlatest
  · exact absurd ⟨rfl, ht, written_of_quiescent hq ht .stamp⟩ (hnone c t)
  · exact hlatest

/-- **When no call is in flight, all words of a slot are one call's**: the latest ticket to write a
field has also stamped, and the latest ticket to stamp has also written the field. -/
theorem OrderInv.payload_eq {s : PoolState P F} (h : OrderInv R calls s) (hq : Quiescent s)
    {i c : ℕ} {t : UInt32} (hlatest : LatestWriter R calls s i .stamp c t) {m : P}
    (hm : calls c = some m) :
    (s.lane.slots i).payload = m := by
  obtain ⟨hidx, hticket, -⟩ := hlatest.wrote
  refine Fieldwise.ext _ _ fun f => ?_
  have hwrote : R.Wrote s.producer i (.field f) c t :=
    ⟨hidx, hticket, written_of_quiescent hq hticket _⟩
  rcases h.word i (.field f) with ⟨hnone, -⟩ | ⟨c', t', hfield⟩
  · exact absurd hwrote (hnone c t)
  · -- each of the two latest tickets bounds the other, and a ticket belongs to one call
    obtain ⟨hidx', hticket', -⟩ := hfield.wrote
    have hle : t ≤ t' := hfield.latest c t hwrote
    have hge : t' ≤ t :=
      hlatest.latest c' t' ⟨hidx', hticket', written_of_quiescent hq hticket' _⟩
    obtain rfl : t = t' := UInt32.le_antisymm hle hge
    obtain rfl : c = c' := h.tickets.ticket_inj c c' t hticket hticket'
    exact hfield.holds m hm

/-- **The invariant yields the law.** -/
theorem OrderInv.slotsKept {s : PoolState P F} (h : OrderInv R calls s) :
    SlotsKept R calls R.InTicketOrderBelowWrap s where
  ticket_le := fun _ _ hok hnext => h.ticket_le hok.2 hnext
  stamped := fun hq c t ht => by
    obtain ⟨c₀, t₀, hlatest⟩ := h.latestStamp hq ht
    obtain ⟨m, hm⟩ := h.tickets.metric c₀ t₀ hlatest.wrote.2.1
    rw [(hlatest.holds m hm).2]
    exact nofun
  settled := fun hq i c hby => by
    rcases h.word i .stamp with ⟨-, -, hnone⟩ | ⟨c₀, t₀, hlatest⟩
    · rw [hnone] at hby
      cases hby
    · -- the stamp on the slot is the latest one, and its call is past all its stores
      obtain ⟨hidx, hticket, -⟩ := hlatest.wrote
      obtain ⟨m, hm⟩ := h.tickets.metric c₀ t₀ hticket
      obtain ⟨hslot, hby₀⟩ := hlatest.holds m hm
      obtain rfl : c₀ = c := Option.some.inj (hby₀.symm.trans hby)
      refine ⟨?_, hslot ▸ hticket, hslot ▸ hidx, fun c' t' ht' hidx' => ?_⟩
      · rw [h.payload_eq hq hlatest hm, hm]
      · rw [hslot]
        exact hlatest.latest c' t' ⟨hidx', ht', written_of_quiescent hq ht' _⟩

end Generic

/-- **Concurrent producers keep the slots**, on the net pool and on the block pool, along every run
before the tickets wrap in which no word of a slot is written after a call with a later ticket has
written it. -/
theorem slotsKept_of_reachable (packets : ℕ → Option SkBuff)
    (metrics : ℕ → Option BlockIoMetric) :
    (∀ s, ReachableUnder (netNext packets) netPool.InTicketOrderBelowWrap netPool.poolInit s →
        SlotsKept netPool (fun c => hookMetric (packets c)) netPool.InTicketOrderBelowWrap s) ∧
      (∀ s,
        ReachableUnder (blockNext metrics) blockPool.InTicketOrderBelowWrap blockPool.poolInit s →
          SlotsKept blockPool metrics blockPool.InTicketOrderBelowWrap s) :=
  ⟨fun _ h => (orderInv_of_reachable h).slotsKept, fun _ h => (orderInv_of_reachable h).slotsKept⟩

/-- The call has no ticket after `t` for the same slot. -/
def TicketPool.notAfter {P F : Type} [DecidableEq F] [Fieldwise P F] (R : TicketPool P F)
    (t : UInt32) (pc : ProducerPc F) : Bool :=
  match pc.ticket with
  | some t' => decide (R.slotIdx t' = R.slotIdx t → t' ≤ t)
  | none => true

/-- A step of a run of `n` calls, checked to claim its ticket below the wrap and to write in ticket
order. -/
def TicketPool.orderCheck {P F : Type} [DecidableEq F] [Fieldwise P F] (R : TicketPool P F) (n : ℕ)
    (s : PoolState P F) (a : PoolAction) : Bool :=
  callsBelow n a && decide (s.lane.claimed < 2 ^ 32) && match a with
    | .producer c => match (s.producer c).nextWord with
      | some (t, _) => decide (∀ c' < n, R.notAfter t (s.producer c') = true)
      | none => true
    | _ => true

/-- It is a step of one of them. -/
theorem TicketPool.callsBelow_of_orderCheck {P F : Type} [DecidableEq F] [Fieldwise P F]
    (R : TicketPool P F) {n : ℕ} {s : PoolState P F} {a : PoolAction}
    (h : R.orderCheck n s a = true) : callsBelow n a = true := by
  simp only [TicketPool.orderCheck, Bool.and_eq_true] at h
  exact h.1.1

/-- Such calls write in ticket order. -/
theorem inTicketOrder_of_orderCheck {P F : Type} [DecidableEq F] [Fieldwise P F]
    (R : TicketPool P F) {n : ℕ} (s : PoolState P F) (a : PoolAction) (hidle : IdleFrom n s)
    (h : R.orderCheck n s a = true) : R.InTicketOrderBelowWrap s a := by
  simp only [TicketPool.orderCheck, Bool.and_eq_true, decide_eq_true_iff] at h
  obtain ⟨⟨-, hclaimed⟩, h⟩ := h
  cases a with
  | producer c =>
      refine ⟨fun _ => hclaimed, fun t w hword c' t' hwrote => ?_⟩
      simp only [hword, decide_eq_true_eq] at h
      have hafter := hidle.forall_producer (p := fun pc => R.notAfter t pc = true) rfl h c'
      simp only [TicketPool.notAfter, hwrote.2.1, decide_eq_true_eq] at hafter
      exact hafter hwrote.1
  | spawn mode => exact ⟨trivial, trivial⟩
  | consumer run => exact ⟨trivial, trivial⟩

/-- Metrics that tell the calls apart. -/
def numberedMetric (c : ℕ) : BlockIoMetric := { sampleBlockMetric with devMinor := UInt32.ofNat c }

/-- Calls 0 and 1 overlap, calls 2 to 7 come after them, and call 8 takes slot 0 again. -/
def commitsInOrder : List PoolAction :=
  (List.replicate 10 [.producer 0, .producer 1]).flatten
    ++ (List.range' 2 7).flatMap fun c => List.replicate 10 (.producer c)

/-- After nine commits of the block hook slot 0 is stamped by the last one and holds its metric. -/
theorem slotsKept_nine_commits : ∃ s : PoolState BlockIoMetric BlockField,
    (s.lane.slots 0).slotTicket = 8 ∧ (s.lane.slots 0).payload = numberedMetric 8 ∧
      SlotsKept blockPool (fun c => some (numberedMetric c)) blockPool.InTicketOrderBelowWrap
        s := by
  have hrun : (exec
      (checked (blockNext fun c => some (numberedMetric c)) (blockPool.orderCheck 9))
      blockPool.poolInit commitsInOrder).map
        (fun s => ((s.lane.slots 0).slotTicket, (s.lane.slots 0).payload))
          = some (8, numberedMetric 8) := by decide +kernel
  obtain ⟨s, hs, heq⟩ := Option.map_eq_some_iff.mp hrun
  obtain ⟨hticket, hpayload⟩ := Prod.mk.inj heq
  have hreach : ReachableUnder (blockNext fun c => some (numberedMetric c))
      blockPool.InTicketOrderBelowWrap blockPool.poolInit s :=
    reachableUnder_of_firstCalls (fun _ _ hq => blockPool.callsBelow_of_orderCheck hq)
      (inTicketOrder_of_orderCheck blockPool) commitsInOrder hs
  exact ⟨s, hticket, hpayload, (slotsKept_of_reachable (fun _ => none) _).2 s hreach⟩

/-! ## A stalled call -/

/-- Call 0 stalls before its stamp, calls 1 to 7 claim their tickets, and call 8, which shares slot
0, runs to its end. -/
def stalledRun : List PoolAction :=
  List.replicate 9 (.producer 0) ++ (List.range' 1 7).map .producer
    ++ List.replicate 10 (.producer 8)

/-- **A stalled call rolls its slot back**: with the tickets far from the wrap, the stamp of call 0
takes slot 0 from ticket 8 back to ticket 0. -/
theorem stalled_call_rolls_back :
    ¬ ∀ s, ReachableUnder (blockNext fun _ => some sampleBlockMetric) (ClaimsBelow (2 ^ 32))
        blockPool.poolInit s →
      SlotsKept blockPool (fun _ => some sampleBlockMetric) (ClaimsBelow (2 ^ 32)) s := by
  intro h
  have hrun : ReachableUnder (blockNext fun _ => some sampleBlockMetric) (ClaimsBelow (2 ^ 32))
      blockPool.poolInit _ := .of_check (claimsBelow_of_check _) stalledRun rfl .start
  have hle := (h _ hrun).ticket_le (.producer 0) _ nofun rfl 0
  exact absurd hle (by decide)

end TelemetrySubsystem
