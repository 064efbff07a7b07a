import TelemetrySubsystem.CharRing.Fifo

/-! # Several readers on the char ring

The device may be opened by any number of readers. `dev_read` takes no lock: it tests for an empty
ring, loads the byte, hands it to user space and advances `rd_idx`, loading `rd_idx` anew for each.

* **`SharesStream`** is what readers of one stream expect: every byte goes to at most one of them,
  none is skipped, and `rd_idx` never passes `wr_idx`.
* **`ReadersApart`** is the condition on a step that keeps readers out of each other's way, and
  `sharesStream_of_apart` the law for the runs that meet it.
* `readers_pass_wrIdx` is a run of two readers outside the condition. -/

namespace TelemetrySubsystem

open ActionSystem CyclicWindow WrapCounter
open Function (update)

/-! ## The law and its condition -/

/-- **Readers share the stream**: what they were given, put in the order of delivery, is a prefix of
the append order, so no byte went to two readers or was left out; every byte removed from the ring
had been delivered; and the bytes between the indices are those not yet removed. -/
structure SharesStream (s : CharState) : Prop where
  delivered : ∃ delivered : List (ℕ × UInt8),
    (∀ d, (s.reader d).output = bytesOf d delivered) ∧
      delivered.map Prod.snd <+: s.ring.log ∧ s.ring.removed ≤ delivered.length
  removed_le : s.ring.removed ≤ s.ring.log.length
  unread : window 1024 s.ring.buffer s.ring.rdIdx.toNat s.ring.wrIdx.toNat
    = s.ring.log.drop s.ring.removed

/-- What an advance of `rd_idx` to `n` must not do to another reader: change the index that it has
loaded its byte with, or take the byte that it has seen, or will see by its stale snapshot. -/
def DevReadPc.Tolerates (r : ByteRing) (n : UInt32) : DevReadPc → Prop
  | .loadRd snapshot => n ≠ snapshot → n ≠ r.wrIdx
  | .index => n ≠ r.wrIdx
  | .loadByte _ | .putUser _ => False
  | .idle _ | .loadWr | .reload | .advance _ | .leave => True

instance (r : ByteRing) (n : UInt32) : DecidablePred (DevReadPc.Tolerates r n)
  | .loadRd snapshot => inferInstanceAs (Decidable (n ≠ snapshot → n ≠ r.wrIdx))
  | .index => inferInstanceAs (Decidable (n ≠ r.wrIdx))
  | .loadByte _ | .putUser _ => .isFalse id
  | .idle _ | .loadWr | .reload | .advance _ | .leave => .isTrue trivial

/-- The step at a reader's program point spares another reader: a byte is handed over only while the
other one has none in hand, and `rd_idx` is advanced only where the other one tolerates it. -/
def DevReadPc.Spares (r : ByteRing) (o : ReadOutcome) (other : DevRead) : DevReadPc → Prop
  | .putUser _ => o ≠ .fault → other.pending = 0
  | .advance n => other.pc.Tolerates r n
  | .idle _ | .loadWr | .loadRd _ | .index | .loadByte _ | .reload | .leave => True

instance (r : ByteRing) (o : ReadOutcome) (other : DevRead) :
    DecidablePred (DevReadPc.Spares r o other)
  | .putUser _ => inferInstanceAs (Decidable (o ≠ .fault → other.pending = 0))
  | .advance n => inferInstanceAs (Decidable (other.pc.Tolerates r n))
  | .idle _ | .loadWr | .loadRd _ | .index | .loadByte _ | .reload | .leave => .isTrue trivial

/-- **The condition on a step**: a reader spares every other one, and user space does not store
`rd_idx`. -/
def ReadersApart (s : CharState) : CharAction → Prop
  | .reader d o => ∀ d', d' ≠ d → (s.reader d).pc.Spares s.ring o (s.reader d')
  | .mapStoreRd _ => False
  | .writer _ _ | .ioctlWakeWriter => True

/-! ## What a reader may rely on -/

/-- **What each of several readers may rely on**: past the empty test the ring is not empty, and
what it holds belongs to the current `rd_idx`. -/
def DevRead.SharedFacts (r : ByteRing) (d : DevRead) : Prop :=
  match d.pc with
  | .loadRd snapshot => r.rdIdx ≠ snapshot → r.rdIdx ≠ r.wrIdx
  | .index | .reload => r.rdIdx ≠ r.wrIdx
  | .loadByte idx => r.rdIdx ≠ r.wrIdx ∧ idx = r.rdIdx
  | .putUser byte => r.rdIdx ≠ r.wrIdx ∧ byte = r.buffer r.rdIdx.toNat
  | .advance n => r.rdIdx ≠ r.wrIdx ∧ n = next ringBufferCapacity r.rdIdx
  | _ => True

/-- The loop head has nothing to rely on. -/
theorem DevRead.loopHead_sharedFacts (r : ByteRing) (d : DevRead) :
    d.loopHead.SharedFacts r := by
  unfold DevRead.loopHead
  split <;> trivial

/-- The facts depend on the contents only. -/
theorem DevRead.SharedFacts.congr {r r' : ByteRing} {d : DevRead} (h : d.SharedFacts r)
    (hsame : SameContents r r') : d.SharedFacts r' := by
  unfold DevRead.SharedFacts at *
  rw [hsame.buffer, hsame.rdIdx, hsame.wrIdx]
  exact h

/-- A writer takes nothing from a reader. -/
theorem DevRead.SharedFacts.writer_effect {r r' : ByteRing} {me : ℕ} {d : DevRead}
    (h : d.SharedFacts r) (he : WriterEffect me r r') : d.SharedFacts r' := by
  cases he with
  | same hsame => exact h.congr hsame
  | fill b hr' =>
      subst hr'
      obtain ⟨pc, len, n, ready, out⟩ := d
      cases pc with
      | putUser byte =>
          obtain ⟨hne, hbyte⟩ := h
          refine ⟨hne, hbyte.trans ?_⟩
          exact (Function.update_of_ne (ByteRing.Tracked.toNat_ne hne) ..).symm
      | _ => exact h
  | append hfree hr' =>
      subst hr'
      have hne' : r.rdIdx ≠ next ringBufferCapacity r.wrIdx := hfree.symm
      obtain ⟨pc, len, n, ready, out⟩ := d
      cases pc with
      | loadRd snapshot => exact fun _ => hne'
      | index => exact hne'
      | reload => exact hne'
      | loadByte idx => exact ⟨hne', h.2⟩
      | putUser byte => exact ⟨hne', h.2⟩
      | advance n => exact ⟨hne', h.2⟩
      | _ => trivial

/-- A reader that tolerates an advance, and has no byte in hand, keeps its facts. -/
theorem DevRead.SharedFacts.remove {r : ByteRing} {d : DevRead}
    (htol : d.pc.Tolerates r (next ringBufferCapacity r.rdIdx)) (hpend : d.pending = 0) :
    d.SharedFacts
      { r with rdIdx := next ringBufferCapacity r.rdIdx, removed := r.removed + 1 } := by
  obtain ⟨pc, len, n, ready, out⟩ := d
  cases pc with
  | loadRd snapshot => exact htol
  | index => exact htol
  | loadByte idx => exact absurd htol id
  | putUser byte => exact absurd htol id
  | reload => cases hpend
  | advance n => cases hpend
  | _ => trivial

/-- **What one step of a reader does**: nothing to the contents, or it hands over the byte at
`rd_idx`, or it removes that byte. -/
inductive ReaderEffect (r : ByteRing) (d : DevRead) (o : ReadOutcome) (r' : ByteRing)
    (d' : DevRead) : Prop
  | quiet : (∀ n, d.pc ≠ .advance n) → SameContents r r' → d'.output = d.output →
      d'.pending = d.pending → ReaderEffect r d o r' d'
  | put (byte : UInt8) : d.pc = .putUser byte → o ≠ .fault → r.rdIdx ≠ r.wrIdx → r' = r →
      d'.output = d.output ++ [r.buffer r.rdIdx.toNat] → d.pending = 0 → d'.pending = 1 →
      ReaderEffect r d o r' d'
  | remove : d.pc = .advance (next ringBufferCapacity r.rdIdx) → r.rdIdx ≠ r.wrIdx →
      r' = { r with rdIdx := next ringBufferCapacity r.rdIdx, removed := r.removed + 1 } →
      d'.output = d.output → d.pending = 1 → d'.pending = 0 → ReaderEffect r d o r' d'

/-- **The step lemma of a reader**: it keeps its own facts, and has one of the three effects. -/
theorem devReadStep_shared {r r' : ByteRing} {d d' : DevRead} {o : ReadOutcome}
    (hf : d.SharedFacts r) (h : devReadStep r d o = some (r', d')) :
    d'.SharedFacts r' ∧ ReaderEffect r d o r' d' := by
  obtain ⟨pc, len, n, ready, out⟩ := d
  cases pc
  all_goals simp only [devReadStep] at h
  case idle ret =>
    cases o <;> cases h
    obtain ⟨-, hpend, hout⟩ := DevRead.loopHead_facts r (⟨.idle ret, _, 0, false, out⟩ : DevRead)
    exact ⟨DevRead.loopHead_sharedFacts r _, .quiet (by simp) (.refl r) hout hpend⟩
  case loadWr =>
    cases h
    exact ⟨id, .quiet (by simp) (.refl r) rfl rfl⟩
  case loadRd snapshot =>
    split at h
    · cases h
      exact ⟨trivial, .quiet (by simp) (.refl r) rfl rfl⟩
    · next hne =>
        cases h
        exact ⟨hf hne, .quiet (by simp) (.refl r) rfl rfl⟩
  case index =>
    cases h
    exact ⟨⟨hf, rfl⟩, .quiet (by simp) (.refl r) rfl rfl⟩
  case loadByte idx =>
    cases h
    obtain ⟨hne, rfl⟩ := hf
    exact ⟨⟨hne, rfl⟩, .quiet (by simp) (.refl r) rfl rfl⟩
  case putUser byte =>
    split at h
    · -- a fault hands nothing over
      cases h
      exact ⟨trivial, .quiet (by simp) (.refl r) rfl rfl⟩
    · next hok =>
        cases h
        obtain ⟨hne, rfl⟩ := hf
        exact ⟨hne, .put _ rfl hok hne rfl rfl rfl rfl⟩
  case reload =>
    cases h
    exact ⟨⟨hf, rfl⟩, .quiet (by simp) (.refl r) rfl rfl⟩
  case advance n =>
    cases h
    obtain ⟨hne, rfl⟩ := hf
    obtain ⟨-, hpend, hout⟩ := DevRead.loopHead_facts r
      (⟨.advance (next ringBufferCapacity r.rdIdx), len - 1, _, true, out⟩ : DevRead)
    exact ⟨DevRead.loopHead_sharedFacts _ _, .remove rfl hne rfl hout rfl hpend⟩
  case leave =>
    cases h
    refine ⟨trivial, .quiet (by simp) ?_ rfl rfl⟩
    cases ready <;> exact ⟨rfl, rfl, rfl, rfl, rfl⟩

/-! ## The invariant -/

/-- **The tie between the readers and the history**: `delivered` lists what was handed over, to
whom, in order; at most one reader has a byte in hand, and then it is the last one listed and the
only one not yet removed. -/
structure Deliveries (s : CharState) (delivered : List (ℕ × UInt8)) : Prop where
  output : ∀ d, (s.reader d).output = bytesOf d delivered
  prefix_log : delivered.map Prod.snd <+: s.ring.log
  in_hand : (delivered.length = s.ring.removed ∧ ∀ d, (s.reader d).pending = 0) ∨
    ∃ d, delivered.length = s.ring.removed + 1 ∧ (s.reader d).pending = 1 ∧
      ∀ d', d' ≠ d → (s.reader d').pending = 0

/-- **The invariant of readers that stay apart.** -/
structure SharedInv (s : CharState) : Prop where
  writers : WritersInv s
  facts : ∀ d, (s.reader d).SharedFacts s.ring
  deliveries : ∃ delivered, Deliveries s delivered

namespace Deliveries

variable {s : CharState} {delivered : List (ℕ × UInt8)} {d : ℕ} {x : DevRead}

/-- Writers only add to the log, and readers that neither hand over nor remove change nothing. -/
theorem quiet (h : Deliveries s delivered) {s' : CharState} (hlog : s.ring.log <+: s'.ring.log)
    (hrem : s'.ring.removed = s.ring.removed)
    (hout : ∀ d, (s'.reader d).output = (s.reader d).output)
    (hpend : ∀ d, (s'.reader d).pending = (s.reader d).pending) : Deliveries s' delivered where
  output := fun d => (hout d).trans (h.output d)
  prefix_log := h.prefix_log.trans hlog
  in_hand := by
    simp only [hrem, hpend]
    exact h.in_hand

/-- **A byte handed over while nobody has one in hand** is the next one of the log. -/
theorem put (h : Deliveries s delivered) (ht : s.ring.Tracked)
    (hne : s.ring.rdIdx ≠ s.ring.wrIdx) (hfree : ∀ d, (s.reader d).pending = 0)
    (hout : x.output = (s.reader d).output ++ [s.ring.buffer s.ring.rdIdx.toNat])
    (hpend : x.pending = 1) :
    Deliveries { s with reader := update s.reader d x }
      (delivered ++ [(d, s.ring.buffer s.ring.rdIdx.toNat)]) := by
  have hlen : delivered.length = s.ring.removed := by
    rcases h.in_hand with ⟨hlen, -⟩ | ⟨d', -, hone, -⟩
    · exact hlen
    · rw [hfree d'] at hone
      cases hone
  refine ⟨fun d' => ?_, ?_, .inr ⟨d, ?_, ?_, fun d' hd' => ?_⟩⟩
  · rw [bytesOf_append]
    rcases eq_or_ne d' d with rfl | hd'
    · simp only [Function.update_self]
      rw [bytesOf_own, hout, h.output]
    · simp only [Function.update_of_ne hd']
      rw [bytesOf_other hd'.symm, List.append_nil]
      exact h.output d'
  · -- the byte at `rd_idx` is the oldest one not yet removed, and all before it are delivered
    rw [List.map_append, List.map_singleton]
    apply prefix_concat_of_getElem? h.prefix_log
    rw [List.length_map, hlen]
    exact Tracks.head_eq ht (ByteRing.Tracked.toNat_ne hne)
  · rw [List.length_append, hlen]
    rfl
  · simp only [Function.update_self]
    exact hpend
  · simp only [Function.update_of_ne hd']
    exact hfree d'

/-- **The reader that has a byte in hand removes it.** -/
theorem remove (h : Deliveries s delivered) (hone : (s.reader d).pending = 1)
    (hout : x.output = (s.reader d).output) (hpend : x.pending = 0) {r : ByteRing}
    (hlog : r.log = s.ring.log) (hrem : r.removed = s.ring.removed + 1) :
    Deliveries { s with ring := r, reader := update s.reader d x } delivered := by
  obtain ⟨d₀, hlen, -, hothers⟩ : ∃ d₀, delivered.length = s.ring.removed + 1 ∧
      (s.reader d₀).pending = 1 ∧ ∀ d', d' ≠ d₀ → (s.reader d').pending = 0 := by
    rcases h.in_hand with ⟨-, hnone⟩ | hsome
    · rw [hnone d] at hone
      cases hone
    · exact hsome
  obtain rfl : d = d₀ := by
    by_contra hne
    rw [hothers d hne] at hone
    cases hone
  refine ⟨fun d' => ?_, hlog ▸ h.prefix_log, .inl ⟨hlen.trans hrem.symm, fun d' => ?_⟩⟩
  · rcases eq_or_ne d' d with rfl | hd'
    · simp only [Function.update_self]
      rw [hout, h.output]
    · simp only [Function.update_of_ne hd']
      exact h.output d'
  · rcases eq_or_ne d' d with rfl | hd'
    · simp only [Function.update_self]
      exact hpend
    · simp only [Function.update_of_ne hd']
      exact hothers d' hd'

end Deliveries

namespace SharedInv

variable {s : CharState}

/-- **A writer's step keeps the invariant**, for any number of readers. -/
theorem writer_step (h : SharedInv s) {c : ℕ} {o : Outcome} {r : ByteRing} {w : Writer}
    (hstep : writerStep c s.ring o (s.writer c) = some (r, w)) :
    SharedInv { s with ring := r, writer := update s.writer c w } := by
  have heff := h.writers.effect hstep
  obtain ⟨delivered, hdel⟩ := h.deliveries
  refine ⟨h.writers.writer_step hstep, fun d => (h.facts d).writer_effect heff, delivered, ?_⟩
  obtain ⟨hlog, -, hrem⟩ := heff.log_prefix
  exact hdel.quiet hlog hrem (fun _ => rfl) fun _ => rfl

/-- **A reader's step keeps the invariant**, as long as readers stay apart. -/
theorem reader_step (h : SharedInv s) {d : ℕ} {o : ReadOutcome} {r : ByteRing} {x : DevRead}
    (hok : ReadersApart s (.reader d o))
    (hstep : devReadStep s.ring (s.reader d) o = some (r, x)) :
    SharedInv { s with ring := r, reader := update s.reader d x } := by
  obtain ⟨hfacts, heff⟩ := devReadStep_shared (h.facts d) hstep
  obtain ⟨delivered, hdel⟩ := h.deliveries
  cases heff with
  | quiet _ hsame hout hpend =>
      refine ⟨h.writers.same hsame (devReadStep_kept hstep).lock rfl, ?_, delivered,
        hdel.quiet ?_ hsame.removed ?_ ?_⟩
      · exact (Function.forall_update_iff s.reader fun _ y => y.SharedFacts r).mpr
          ⟨hfacts, fun d' _ => (h.facts d').congr hsame⟩
      · unfold ByteRing.log
        rw [hsame.appended]
      · exact (Function.forall_update_iff s.reader fun d' y => y.output = (s.reader d').output).mpr
          ⟨hout, fun _ _ => rfl⟩
      · exact (Function.forall_update_iff s.reader fun d' y =>
          y.pending = (s.reader d').pending).mpr ⟨hpend, fun _ _ => rfl⟩
  | put byte hpc hnofault hne hr hout hpend hpend' =>
      subst hr
      have hfree : ∀ d', (s.reader d').pending = 0 := fun d' => by
        rcases eq_or_ne d' d with rfl | hd'
        · exact hpend
        · have hspare := hok d' hd'
          rw [hpc] at hspare
          exact hspare hnofault
      refine ⟨h.writers.same (.refl _) rfl rfl, ?_, _,
        hdel.put h.writers.tracked hne hfree hout hpend'⟩
      exact (Function.forall_update_iff s.reader fun _ y => y.SharedFacts s.ring).mpr
        ⟨hfacts, fun d' _ => h.facts d'⟩
  | remove hpc hne hr hout hpend hpend' =>
      have hspare := fun d' hd' => hok d' hd'
      rw [hpc] at hspare
      refine ⟨h.writers.remove hne hr rfl, ?_, delivered,
        hdel.remove hpend hout hpend' (by rw [hr]; rfl) (by rw [hr])⟩
      subst hr
      refine (Function.forall_update_iff s.reader fun _ y => y.SharedFacts _).mpr
        ⟨hfacts, fun d' hd' => .remove (hspare d' hd') ?_⟩
      -- the byte in hand is the one of the reader that steps
      rcases hdel.in_hand with ⟨-, hnone⟩ | ⟨d₀, -, -, hothers⟩
      · exact hnone d'
      · apply hothers
        rintro rfl
        rw [hothers d hd'.symm] at hpend
        cases hpend

/-- The invariant holds on the zeroed page. -/
theorem init (calls : ℕ → WriterCall) : SharedInv (charInit calls) where
  writers := .init calls
  facts := fun _ => trivial
  deliveries := ⟨[], fun _ => rfl, List.prefix_rfl, .inl ⟨rfl, fun _ => rfl⟩⟩

/-- **Every step under the condition keeps the invariant.** -/
theorem step (h : SharedInv s) {a : CharAction} {s' : CharState} (hok : ReadersApart s a)
    (hnext : charNext s a = some s') : SharedInv s' := by
  obtain ⟨c, o, r, w, -, hstep, rfl⟩ | ⟨d, o, r, x, rfl, hstep, rfl⟩ | ⟨-, rfl⟩ | ⟨v, rfl, -⟩ :=
    charNext_cases hnext
  · exact h.writer_step hstep
  · exact h.reader_step hok hstep
  · have hsame : SameContents s.ring s.ring.wakeUp := ⟨rfl, rfl, rfl, rfl, rfl⟩
    obtain ⟨delivered, hdel⟩ := h.deliveries
    exact ⟨h.writers.same hsame rfl rfl, fun d => (h.facts d).congr hsame, delivered,
      hdel.quiet List.prefix_rfl rfl (fun _ => rfl) fun _ => rfl⟩
  · exact absurd hok id

end SharedInv

/-- **Readers that stay apart share the stream**: in every run of any number of writers and readers
whose steps meet the condition. -/
theorem sharesStream_of_apart {calls : ℕ → WriterCall} {s : CharState}
    (h : ReachableUnder charNext ReadersApart (charInit calls) s) : SharesStream s := by
  have hinv : SharedInv s :=
    h.invariant (SharedInv.init calls) fun _ _ _ hi hok hnext => hi.step hok hnext
  obtain ⟨delivered, hdel⟩ := hinv.deliveries
  refine ⟨⟨delivered, hdel.output, hdel.prefix_log, ?_⟩, Tracks.taken_le hinv.writers.tracked,
    Tracks.window_eq hinv.writers.tracked⟩
  rcases hdel.in_hand with ⟨hlen, -⟩ | ⟨_, hlen, -⟩
  · exact hlen.ge
  · rw [hlen]
    exact Nat.le_succ _

/-! ## Runs -/

/-- The condition as a check, for runs of two readers. -/
def twoReadersApart (s : CharState) : CharAction → Bool
  | .reader d o => decide (d < 2 ∧ ∀ d' ∈ List.range 2, d' ≠ d →
      (s.reader d).pc.Spares s.ring o (s.reader d'))
  | .mapStoreRd _ => false
  | .writer _ _ | .ioctlWakeWriter => true

/-- Every step spares a reader that has not started. -/
theorem DevReadPc.spares_start (r : ByteRing) (o : ReadOutcome) (pc : DevReadPc) :
    pc.Spares r o .start := by
  cases pc with
  | putUser byte => exact fun _ => rfl
  | _ => trivial

/-- A run of two readers that passes the check meets the condition. -/
theorem apart_of_twoReadersApart {calls : ℕ → WriterCall} {s : CharState} (run : List CharAction)
    (h : exec (checked charNext twoReadersApart) (charInit calls) run = some s) :
    ReachableUnder charNext ReadersApart (charInit calls) s := by
  refine ReachableUnder.of_checked (J := fun s => ∀ d, 2 ≤ d → s.reader d = .start) ?_ ?_ run h
    (fun _ _ => rfl) .start
  · intro s a s' hJ hq hnext d hd
    obtain ⟨c, o, r, w, -, -, rfl⟩ | ⟨d', o, r, x, rfl, -, rfl⟩ | ⟨-, rfl⟩ | ⟨v, rfl, -⟩ :=
      charNext_cases hnext
    · exact hJ d hd
    · have hlt : d' < 2 := (of_decide_eq_true hq).1
      exact (Function.update_of_ne (by omega) ..).trans (hJ d hd)
    · exact hJ d hd
    · cases hq
  · intro s a hJ hq
    cases a with
    | writer c o => trivial
    | ioctlWakeWriter => trivial
    | mapStoreRd v => cases hq
    | reader d o =>
        intro d' hne
        rcases Nat.lt_or_ge d' 2 with hlt | hge
        · exact (of_decide_eq_true hq).2 d' (List.mem_range.mpr hlt) hne
        · rw [hJ d' hge]
          exact DevReadPc.spares_start ..

/-- The steps of a `dev_read` of one byte. -/
def readOneByte (d : ℕ) : List CharAction :=
  .reader d (.call 1) :: List.replicate 8 (.reader d .ok)

/-- A `dev_write` of two bytes, and two readers that take one each. -/
def readersInTurn : List CharAction :=
  List.replicate 15 (.writer 0 .ok) ++ readOneByte 0 ++ readOneByte 1

/-- Two readers that take turns get one byte each. -/
theorem sharesStream_in_turn :
    ∃ s, SharesStream s ∧ (s.reader 0).output = [7] ∧ (s.reader 1).output = [8] := by
  have hrun : (exec (checked charNext twoReadersApart) (charInit fun _ => .devWrite [7, 8])
      readersInTurn).map (fun s => ((s.reader 0).output, (s.reader 1).output))
        = some ([7], [8]) := by decide +kernel
  obtain ⟨s, hs, heq⟩ := Option.map_eq_some_iff.mp hrun
  simp only [Prod.mk.injEq] at heq
  exact ⟨s, sharesStream_of_apart (apart_of_twoReadersApart readersInTurn hs), heq.1, heq.2⟩

/-- Reader 0 finds one byte and is stopped before it loads it; reader 1 takes the byte; reader 0
goes on. -/
def overtakenReader : List CharAction :=
  List.replicate 8 (.writer 0 .ok) ++ .reader 0 (.call 1) :: List.replicate 2 (.reader 0 .ok)
    ++ readOneByte 1 ++ List.replicate 6 (.reader 0 .ok)

/-- **A reader that is overtaken passes `wr_idx`**: one byte was appended, each of two readers was
given one, and `rd_idx` was advanced twice. -/
theorem readers_pass_wrIdx :
    ∃ s, Reachable charNext (charInit fun _ => .devWrite [7]) s ∧ s.ring.log = [7] ∧
      (s.reader 0).output = [0] ∧ (s.reader 1).output = [7] ∧ s.ring.removed = 2 ∧
      ¬ SharesStream s := by
  have hrun : (exec charNext (charInit fun _ => .devWrite [7]) overtakenReader).map
      (fun s => (s.ring.log, (s.reader 0).output, (s.reader 1).output, s.ring.removed))
        = some ([7], [0], [7], 2) := by decide +kernel
  obtain ⟨s, hs, heq⟩ := Option.map_eq_some_iff.mp hrun
  simp only [Prod.mk.injEq] at heq
  obtain ⟨hlog, h₀, h₁, hrem⟩ := heq
  refine ⟨s, .of_exec overtakenReader hs, hlog, h₀, h₁, hrem, fun hshare => ?_⟩
  have hle := hshare.removed_le
  rw [hlog, hrem] at hle
  exact absurd hle (by decide)

end TelemetrySubsystem
