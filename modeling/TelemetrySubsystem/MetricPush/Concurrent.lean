import TelemetrySubsystem.MetricPush.Alone

/-! # Concurrent pushes into the net lane

`telemetry_net_dev_push_metric` takes no lock. Each of its 16 iterations loads `wr_idx`, tests,
loads `wr_idx` again, stores a byte and stores `wr_idx`, and other calls may do the same in between.

* **`netPushNext`** is any number of calls, interleaved access by access.
* **`MultiProducerSafe`** is what the header promises of them once all have returned 0.
* **`Serialised`** is the invariant of the runs in which no call enters its loop while another one
  is inside it; `multiProducerSafe_of_apart` reads the promise off it.
* `netPush_lost_update` is a run outside the condition in which a metric is lost. -/

namespace TelemetrySubsystem

open ActionSystem CyclicWindow WrapCounter
open Function (update)

/-! ## The calls -/

/-- The net lane and the program counter of every call. -/
structure NetPushState where
  ring : ByteRing
  pc : ℕ → PushPc

/-- One step of one of the `n` calls, call `c` pushing `metrics c`. -/
def netPushNext (n : ℕ) (metrics : ℕ → NetPacketMetric) (s : NetPushState) (c : ℕ) :
    Option NetPushState :=
  if c < n then
    (telemetryNetDevPushMetric (some (metrics c)) c s.ring (s.pc c)).map fun p =>
      ⟨p.1, update s.pc c p.2⟩
  else none

/-- The lane before the calls. -/
def netPushInit (r : ByteRing) : NetPushState := ⟨r, fun _ => .entry⟩

/-- **Multi-producer safety** of `n` calls that started on the lane `r₀`: when every call has
returned 0, `wr_idx` has advanced by 16 for each, and the bytes added are the metrics, contiguous
and whole, in some order of the calls. -/
def MultiProducerSafe (n : ℕ) (metrics : ℕ → NetPacketMetric) (r₀ : ByteRing) (s : NetPushState) :
    Prop :=
  (∀ c < n, s.pc c = .done 0) →
    s.ring.wrIdx.toNat = (r₀.wrIdx.toNat + 16 * n) % 768 ∧
      ∃ order : List ℕ, order.Perm (List.range n) ∧
        window 768 s.ring.buffer r₀.wrIdx.toNat s.ring.wrIdx.toNat
          = metricStream (order.map metrics)

/-- A call is between its first load and its last store of `wr_idx`. -/
def PushPc.Inside : PushPc → Prop
  | .loadWr i => 0 < i
  | .loadRd _ _ | .index _ _ | .copy _ _ _ | .publish _ _ => True
  | _ => False

instance : DecidablePred PushPc.Inside
  | .loadWr i => inferInstanceAs (Decidable (0 < i))
  | .loadRd _ _ | .index _ _ | .copy _ _ _ | .publish _ _ => .isTrue trivial
  | .entry | .acquire | .release _ | .done _ => .isFalse id

/-- **The condition on a step**: a call loads `wr_idx` for the first time only while no other call
is between its first load and its last store of it. -/
def EntersApart (s : NetPushState) (c : ℕ) : Prop :=
  s.pc c = .loadWr 0 → ∀ c', c' ≠ c → ¬ (s.pc c').Inside

/-! ## The invariant -/

/-- What a call inside its loop may rely on: the bytes of its metric that it has appended, and its
view of `wr_idx`, which nobody else moves. -/
def PushPc.Holds (r : ByteRing) (m : NetPacketMetric) (cur : List UInt8) : PushPc → Prop
  | .loadWr i => i < sizeofNetPacketMetric ∧ cur = m.bytes.take i
  | .loadRd i n | .index i n =>
      i < sizeofNetPacketMetric ∧ cur = m.bytes.take i ∧
        n = next netfilterRingBufferCapacity r.wrIdx
  | .copy i n idx =>
      i < sizeofNetPacketMetric ∧ cur = m.bytes.take i ∧
        n = next netfilterRingBufferCapacity r.wrIdx ∧ idx = r.wrIdx
  | .publish i n =>
      i < sizeofNetPacketMetric ∧ cur = m.bytes.take i ∧
        n = next netfilterRingBufferCapacity r.wrIdx ∧ r.buffer r.wrIdx.toNat = m.bytes.getD i 0
  | _ => True

/-- What a ring with in-range indices has tracked before the calls. -/
def ByteRing.past (r : ByteRing) : List UInt8 :=
  (List.range r.rdIdx.toNat).map r.buffer ++ r.unread netfilterRingBufferCapacity

/-- **The invariant of calls that stay apart**: the calls in `order` are complete, at most one other
call is inside its loop, and `cur` is what it has appended so far. -/
structure Serialised (n : ℕ) (metrics : ℕ → NetPacketMetric) (r₀ : ByteRing) (order : List ℕ)
    (cur : List UInt8) (s : NetPushState) : Prop where
  rdIdx : s.ring.rdIdx = r₀.rdIdx
  follows : s.ring.Follows netfilterRingBufferCapacity
    (r₀.past ++ metricStream (order.map metrics) ++ cur) r₀.rdIdx.toNat
  nodup : order.Nodup
  mem_iff : ∀ c, c ∈ order ↔ c < n ∧ s.pc c = .done 0
  waiting : ∀ c, ¬ (s.pc c).Inside → s.pc c = .entry ∨ s.pc c = .loadWr 0 ∨ s.pc c = .done 0
  holds : ∀ c, (s.pc c).Inside → c < n ∧ (s.pc c).Holds s.ring (metrics c) cur
  alone : ∀ c c', (s.pc c).Inside → (s.pc c').Inside → c = c'
  idle : (∀ c, ¬ (s.pc c).Inside) → cur = []

/-- A metric stream has 16 bytes for each metric. -/
theorem length_metricStream (ms : List NetPacketMetric) :
    (metricStream ms).length = 16 * ms.length := by
  induction ms with
  | nil => rfl
  | cons m ms ih =>
      rw [metricStream, List.flatMap_cons, List.length_append, ← metricStream, ih, m.length_bytes,
        List.length_cons, sizeofNetPacketMetric]
      omega

/-- One more metric at the end of a stream. -/
theorem metricStream_concat (ms : List NetPacketMetric) (m : NetPacketMetric) :
    metricStream (ms ++ [m]) = metricStream ms ++ m.bytes := by
  simp [metricStream]

/-- The past of a lane with in-range indices ends at its write index. -/
theorem ReadyForPush.length_past {r : ByteRing}
    (h : ReadyForPush .telemetryNetDevPushMetric r) :
    r.past.length % 768 = r.wrIdx.toNat ∧
      r.past.length + r.free netfilterRingBufferCapacity = r.rdIdx.toNat + 767 := by
  have hwr : r.wrIdx.toNat = r.past.length % 768 := Tracks.wr_eq h.follows
  have hroom : r.past.length < r.rdIdx.toNat + 768 := Tracks.room h.follows
  have hfree : r.free netfilterRingBufferCapacity = r.rdIdx.toNat + 768 - 1 - r.past.length :=
    ByteRing.Follows.free_eq h.follows
  exact ⟨hwr.symm, by omega⟩

/-- Distinct calls below `n`, one of which is missing, are fewer than `n`. -/
theorem length_lt_of_missing {n c : ℕ} {order : List ℕ} (hnodup : order.Nodup)
    (hlt : ∀ c ∈ order, c < n) (hc : c < n) (hmiss : c ∉ order) : order.length < n := by
  have hsub : (c :: order) ⊆ List.range n := by
    intro d hd
    rcases List.mem_cons.mp hd with rfl | hd
    · exact List.mem_range.mpr hc
    · exact List.mem_range.mpr (hlt d hd)
  have hle := ((List.nodup_cons.mpr ⟨hmiss, hnodup⟩).subperm hsub).length_le
  rwa [List.length_cons, List.length_range] at hle

namespace Serialised

variable {n : ℕ} {metrics : ℕ → NetPacketMetric} {r₀ : ByteRing} {order : List ℕ}
  {cur : List UInt8} {s : NetPushState} {c : ℕ}

/-- While a call is inside its loop every other one is outside. -/
theorem others (h : Serialised n metrics r₀ order cur s) (hc : (s.pc c).Inside) :
    ∀ c', c' ≠ c → ¬ (s.pc c').Inside := fun c' hne hc' => hne (h.alone c' c hc' hc)

/-- A call inside its loop is not complete. -/
theorem not_mem_order (h : Serialised n metrics r₀ order cur s) (hin : (s.pc c).Inside) :
    c ∉ order := by
  intro hmem
  rw [((h.mem_iff c).mp hmem).2] at hin
  exact hin

/-- **The lane is never full** while a call is inside its loop: there was room for all metrics. -/
theorem not_full (h : Serialised n metrics r₀ order cur s)
    (hready : ReadyForPush .telemetryNetDevPushMetric r₀)
    (hroom : 16 * n ≤ r₀.free netfilterRingBufferCapacity) (hin : (s.pc c).Inside) {i : ℕ}
    (hi : i < sizeofNetPacketMetric) (hcur : cur = (metrics c).bytes.take i) :
    next netfilterRingBufferCapacity s.ring.wrIdx ≠ s.ring.rdIdx := by
  intro hfull
  have hfree := ByteRing.Follows.full_iff h.follows |>.mp hfull
  have hlen : order.length < n :=
    length_lt_of_missing h.nodup (fun d hd => ((h.mem_iff d).mp hd).1) (h.holds c hin).1
      (h.not_mem_order hin)
  obtain ⟨-, hpast⟩ := hready.length_past
  have hi' : i < 16 := hi
  rw [ByteRing.Follows.free_eq h.follows, List.length_append, List.length_append,
    length_metricStream, List.length_map, hcur, List.length_take,
    netfilterRingBufferCapacity_toNat] at hfree
  omega

/-- The call that takes the step stays in, or enters, its loop; what it has appended is `cur'`. -/
theorem move (h : Serialised n metrics r₀ order cur s) (hc : c < n)
    (hothers : ∀ c', c' ≠ c → ¬ (s.pc c').Inside) (hdone : s.pc c ≠ .done 0) {r : ByteRing}
    {pc : PushPc} {cur' : List UInt8} (hrd : r.rdIdx = s.ring.rdIdx)
    (hfollows : r.Follows netfilterRingBufferCapacity
      (r₀.past ++ metricStream (order.map metrics) ++ cur') r₀.rdIdx.toNat)
    (hin : pc.Inside) (hholds : pc.Holds r (metrics c) cur') (hpc : pc ≠ .done 0) :
    Serialised n metrics r₀ order cur' ⟨r, update s.pc c pc⟩ where
  rdIdx := hrd.trans h.rdIdx
  follows := hfollows
  nodup := h.nodup
  mem_iff := fun d => by
    rcases eq_or_ne d c with rfl | hne
    · rw [h.mem_iff]
      simp only [Function.update_self, hdone, hpc]
    · simp only [Function.update_of_ne hne]
      exact h.mem_iff d
  waiting := fun d hd => by
    rcases eq_or_ne d c with rfl | hne
    · simp only [Function.update_self] at hd
      exact absurd hin hd
    · simp only [Function.update_of_ne hne] at hd ⊢
      exact h.waiting d hd
  holds := fun d hd => by
    rcases eq_or_ne d c with rfl | hne
    · simp only [Function.update_self]
      exact ⟨hc, hholds⟩
    · simp only [Function.update_of_ne hne] at hd
      exact absurd hd (hothers d hne)
  alone := fun d d' hd hd' => by
    have hself : ∀ e, (update s.pc c pc e).Inside → e = c := by
      intro e he
      by_contra hne
      rw [Function.update_of_ne hne] at he
      exact hothers e hne he
    exact (hself d hd).trans (hself d' hd').symm
  idle := fun hall => by
    have hself := hall c
    simp only [Function.update_self] at hself
    exact absurd hin hself

/-- A call that has passed the null check waits in front of its loop. -/
theorem wait (h : Serialised n metrics r₀ order cur s) (hentry : s.pc c = .entry) :
    Serialised n metrics r₀ order cur ⟨s.ring, update s.pc c (.loadWr 0)⟩ := by
  have hin : ∀ d, (update s.pc c (.loadWr 0) d).Inside ↔ (s.pc d).Inside := by
    intro d
    rcases eq_or_ne d c with rfl | hne
    · rw [Function.update_self, hentry]
      exact iff_of_false (Nat.lt_irrefl 0) id
    · rw [Function.update_of_ne hne]
  refine ⟨h.rdIdx, h.follows, h.nodup, fun d => ?_, fun d hd => ?_, fun d hd => ?_,
    fun d d' hd hd' => h.alone d d' ((hin d).mp hd) ((hin d').mp hd'),
    fun hall => h.idle fun d hd => hall d ((hin d).mpr hd)⟩
  · rcases eq_or_ne d c with rfl | hne
    · rw [h.mem_iff, hentry]
      simp only [Function.update_self, reduceCtorEq]
    · simp only [Function.update_of_ne hne]
      exact h.mem_iff d
  · rcases eq_or_ne d c with rfl | hne
    · exact .inr (.inl (Function.update_self ..))
    · simp only [Function.update_of_ne hne] at hd ⊢
      exact h.waiting d hd
  · have hd' : (s.pc d).Inside := (hin d).mp hd
    rcases eq_or_ne d c with rfl | hne
    · rw [hentry] at hd'
      exact absurd hd' id
    · simp only [Function.update_of_ne hne]
      exact h.holds d hd'

/-- **A call that stores its last byte joins the order**, and nobody is inside any more. -/
theorem finish (h : Serialised n metrics r₀ order cur s) (hc : c < n) (hin : (s.pc c).Inside)
    {r : ByteRing} (hrd : r.rdIdx = s.ring.rdIdx)
    (hfollows : r.Follows netfilterRingBufferCapacity
      (r₀.past ++ metricStream (order.map metrics) ++ (metrics c).bytes) r₀.rdIdx.toNat) :
    Serialised n metrics r₀ (order ++ [c]) [] ⟨r, update s.pc c (.done 0)⟩ := by
  have hmiss : c ∉ order := h.not_mem_order hin
  have hout : ∀ d, ¬ (update s.pc c (.done 0) d).Inside := by
    intro d
    rcases eq_or_ne d c with rfl | hne
    · rw [Function.update_self]
      exact id
    · rw [Function.update_of_ne hne]
      exact h.others hin d hne
  refine ⟨hrd.trans h.rdIdx, ?_, ?_, fun d => ?_, fun d _ => ?_, fun d hd => absurd hd (hout d),
    fun d _ hd => absurd hd (hout d), fun _ => rfl⟩
  · rw [List.map_append, List.map_singleton, metricStream_concat, List.append_nil,
      ← List.append_assoc]
    exact hfollows
  · exact List.nodup_append_comm.mp (List.nodup_cons.mpr ⟨hmiss, h.nodup⟩)
  · rcases eq_or_ne d c with rfl | hne
    · simp only [List.mem_append, List.mem_singleton, or_true, hc, Function.update_self, and_self]
    · simp only [List.mem_append, List.mem_singleton, hne, or_false, Function.update_of_ne hne]
      exact h.mem_iff d
  · rcases eq_or_ne d c with rfl | hne
    · exact .inr (.inr (Function.update_self ..))
    · simp only [Function.update_of_ne hne]
      exact h.waiting d (h.others hin d hne)

/-- **The store of `wr_idx`** appends the byte that the call has put into the cell; the last one
completes the call. -/
theorem publish (h : Serialised n metrics r₀ order cur s)
    (hready : ReadyForPush .telemetryNetDevPushMetric r₀)
    (hroom : 16 * n ≤ r₀.free netfilterRingBufferCapacity) (hc : c < n) {i : ℕ} {nxt : UInt32}
    (hpc : s.pc c = .publish i nxt) :
    ∃ order' cur', Serialised n metrics r₀ order' cur'
      ⟨s.ring.publish c nxt, update s.pc c (.loopHead false (i + 1))⟩ := by
  have hin : (s.pc c).Inside := by
    rw [hpc]
    trivial
  have hholds := (h.holds c hin).2
  rw [hpc] at hholds
  obtain ⟨hi, hcur, rfl, hbyte⟩ := hholds
  have hfree := h.not_full hready hroom hin hi hcur
  have hget : (metrics c).bytes[i]? = some ((metrics c).bytes.getD i 0) := by
    rw [List.getD_eq_getElem?_getD, List.getElem?_eq_getElem hi]
    rfl
  have hgrow : cur ++ [(metrics c).bytes.getD i 0] = (metrics c).bytes.take (i + 1) := by
    rw [List.take_add_one, hget, hcur]
    rfl
  have happ : ByteRing.Follows netfilterRingBufferCapacity
      (s.ring.publish c (next netfilterRingBufferCapacity s.ring.wrIdx))
      (r₀.past ++ metricStream (order.map metrics) ++ (metrics c).bytes.take (i + 1))
      r₀.rdIdx.toNat := by
    rw [← hgrow, ← List.append_assoc, ← hbyte]
    exact ByteRing.Follows.publish h.follows hfree c
  by_cases hlast : i + 1 < sizeofNetPacketMetric
  · rw [PushPc.loopHead, if_pos hlast]
    exact ⟨order, _, h.move hc (h.others hin) (by simp [hpc]) rfl happ (Nat.succ_pos i)
      ⟨hlast, rfl⟩ (by simp)⟩
  · rw [PushPc.loopHead, if_neg hlast]
    rw [List.take_of_length_le ((metrics c).length_bytes.trans_le (Nat.le_of_not_lt hlast))] at happ
    exact ⟨order ++ [c], [], h.finish hc hin rfl happ⟩

/-- **A step of a call keeps the invariant**, as long as calls stay apart. -/
theorem step (h : Serialised n metrics r₀ order cur s)
    (hready : ReadyForPush .telemetryNetDevPushMetric r₀)
    (hroom : 16 * n ≤ r₀.free netfilterRingBufferCapacity) (hok : EntersApart s c)
    {s' : NetPushState} (hnext : netPushNext n metrics s c = some s') :
    ∃ order' cur', Serialised n metrics r₀ order' cur' s' := by
  unfold netPushNext at hnext
  split at hnext
  case isFalse => cases hnext
  case isTrue hc =>
  obtain ⟨⟨r, pc⟩, hstep, rfl⟩ := Option.map_eq_some_iff.mp hnext
  unfold telemetryNetDevPushMetric at hstep
  -- what a call that is inside its loop relies on, in the words of its program counter
  have hholds := fun hin => (h.holds c hin).2
  have hmove := fun hin => h.move hc (h.others (c := c) hin)
  cases hpc : s.pc c
  all_goals rw [hpc] at hstep hholds hmove; simp only [pushMetricStep] at hstep
  case entry =>
    cases hstep
    exact ⟨order, cur, h.wait hpc⟩
  case acquire =>
    have hwait := h.waiting c (by rw [hpc]; exact id)
    rw [hpc] at hwait
    simp at hwait
  case release ret =>
    have hwait := h.waiting c (by rw [hpc]; exact id)
    rw [hpc] at hwait
    simp at hwait
  case done => cases hstep
  case loadWr i =>
    cases hstep
    rcases Nat.eq_zero_or_pos i with rfl | hpos
    · -- the first load: nobody else is inside, and nothing is appended yet
      have hout : ∀ c', c' ≠ c → ¬ (s.pc c').Inside := hok hpc
      have hcur : cur = [] := h.idle fun d => by
        rcases eq_or_ne d c with rfl | hne
        · rw [hpc]
          exact Nat.lt_irrefl 0
        · exact hout d hne
      exact ⟨order, cur, h.move hc hout (by rw [hpc]; simp) rfl h.follows trivial
        ⟨by decide, hcur, rfl⟩ (by simp)⟩
    · obtain ⟨hi, hcur⟩ := hholds hpos
      exact ⟨order, cur, hmove hpos (by simp) rfl h.follows trivial ⟨hi, hcur, rfl⟩ (by simp)⟩
  case loadRd i nxt =>
    obtain ⟨hi, hcur, hn⟩ := hholds trivial
    have hfree := h.not_full hready hroom (by rw [hpc]; trivial) hi hcur
    rw [if_neg (hn ▸ hfree)] at hstep
    cases hstep
    exact ⟨order, cur, hmove trivial (by simp) rfl h.follows trivial ⟨hi, hcur, hn⟩ (by simp)⟩
  case index i nxt =>
    cases hstep
    obtain ⟨hi, hcur, hn⟩ := hholds trivial
    exact ⟨order, cur, hmove trivial (by simp) rfl h.follows trivial ⟨hi, hcur, hn, rfl⟩ (by simp)⟩
  case copy i nxt idx =>
    cases hstep
    obtain ⟨hi, hcur, hn, rfl⟩ := hholds trivial
    exact ⟨order, cur, hmove trivial (by simp) rfl (Tracks.store h.follows _) trivial
      ⟨hi, hcur, hn, Function.update_self ..⟩ (by simp)⟩
  case publish i nxt =>
    cases hstep
    exact h.publish hready hroom hc hpc

/-- Nobody is inside at the start, and nothing is appended. -/
theorem init (n : ℕ) (metrics : ℕ → NetPacketMetric)
    (hready : ReadyForPush .telemetryNetDevPushMetric r₀) :
    Serialised n metrics r₀ [] [] (netPushInit r₀) where
  rdIdx := rfl
  follows := by
    rw [List.append_nil, List.map_nil, metricStream, List.flatMap_nil, List.append_nil]
    exact hready.follows
  nodup := List.nodup_nil
  mem_iff := fun c => by simp [netPushInit]
  waiting := fun _ _ => .inl rfl
  holds := fun _ hin => absurd hin id
  alone := fun _ _ hin => absurd hin id
  idle := fun _ => rfl

/-- **Once every call has returned 0, the invariant is the promise of the header.** -/
theorem multiProducerSafe (h : Serialised n metrics r₀ order cur s)
    (hready : ReadyForPush .telemetryNetDevPushMetric r₀) :
    MultiProducerSafe n metrics r₀ s := by
  intro hall
  have hcur : cur = [] := h.idle fun c hin => by
    rw [hall c (h.holds c hin).1] at hin
    exact hin
  have hperm : order.Perm (List.range n) := by
    rw [List.perm_ext_iff_of_nodup h.nodup List.nodup_range]
    intro c
    rw [h.mem_iff, List.mem_range]
    exact ⟨And.left, fun hc => ⟨hc, hall c hc⟩⟩
  have hlen : order.length = n := by rw [hperm.length_eq, List.length_range]
  have hfollows := h.follows
  rw [hcur, List.append_nil] at hfollows
  obtain ⟨hpast, hfree⟩ := hready.length_past
  refine ⟨?_, order, hperm, ?_⟩
  · rw [Tracks.wr_eq hfollows, List.length_append, length_metricStream, List.length_map, hlen,
      netfilterRingBufferCapacity_toNat, ← hpast, Nat.mod_add_mod]
  · -- the window from the old write index on is the history behind the past
    have hskip := Tracks.skip hfollows (t := r₀.past.length)
      (hready.follows.taken_le) (by rw [List.length_append]; exact Nat.le_add_right _ _)
    have hwin := Tracks.window_eq hskip
    rw [List.drop_left' rfl, netfilterRingBufferCapacity_toNat, hpast] at hwin
    exact hwin

end Serialised

/-! ## The promise of the header -/

/-- **Calls that stay apart are multi-producer safe**: in every run of any number of calls for whose
metrics there is room, in which a call loads `wr_idx` for the first time only while no other one is
inside its loop. -/
theorem multiProducerSafe_of_apart {n : ℕ} {metrics : ℕ → NetPacketMetric} {r₀ : ByteRing}
    (hready : ReadyForPush .telemetryNetDevPushMetric r₀)
    (hroom : 16 * n ≤ r₀.free netfilterRingBufferCapacity) {s : NetPushState}
    (h : ReachableUnder (netPushNext n metrics) EntersApart (netPushInit r₀) s) :
    MultiProducerSafe n metrics r₀ s := by
  have hinv := h.invariant (I := fun s => ∃ order cur, Serialised n metrics r₀ order cur s)
    ⟨[], [], Serialised.init n metrics hready⟩ fun _ _ _ ⟨_, _, hi⟩ hok hnext =>
      hi.step hready hroom hok hnext
  obtain ⟨order, cur, hinv⟩ := hinv
  exact hinv.multiProducerSafe hready

/-- The condition as a check, for a run of `n` calls. -/
def apartCheck (n : ℕ) (s : NetPushState) (c : ℕ) : Bool :=
  decide (s.pc c = .loadWr 0 → ∀ c' ∈ List.range n, c' ≠ c → ¬ (s.pc c').Inside)

/-- A run that passes the check meets the condition: calls from `n` on never start. -/
theorem apart_of_check {n : ℕ} {metrics : ℕ → NetPacketMetric} {r₀ : ByteRing}
    {s : NetPushState} (run : List ℕ)
    (h : exec (checked (netPushNext n metrics) (apartCheck n)) (netPushInit r₀) run = some s) :
    ReachableUnder (netPushNext n metrics) EntersApart (netPushInit r₀) s := by
  refine ReachableUnder.of_checked (J := fun s => ∀ c, n ≤ c → s.pc c = .entry) ?_ ?_ run h
    (fun _ _ => rfl) .start
  · intro s c s' hJ _ hnext d hd
    unfold netPushNext at hnext
    split at hnext
    · next hc =>
        obtain ⟨p, -, rfl⟩ := Option.map_eq_some_iff.mp hnext
        exact (Function.update_of_ne (by omega : d ≠ c) ..).trans (hJ d hd)
    · cases hnext
  · intro s c hJ hcheck hload d hne
    rcases Nat.lt_or_ge d n with hlt | hge
    · exact of_decide_eq_true hcheck hload d (List.mem_range.mpr hlt) hne
    · rw [hJ d hge]
      exact id

/-- Two metrics to push. -/
def twoMetrics : ℕ → NetPacketMetric
  | 0 => ⟨1, 2, 3, 4, 5⟩
  | _ => ⟨6, 7, 8, 9, 10⟩

/-- One call after the other, 81 steps each. -/
def pushesInTurn : List ℕ := List.replicate 81 0 ++ List.replicate 81 1

/-- Two calls one after the other add both metrics. -/
theorem multiProducerSafe_two :
    ∃ s, s.pc 0 = .done 0 ∧ s.pc 1 = .done 0 ∧ s.ring.wrIdx = 32 ∧
      MultiProducerSafe 2 twoMetrics .zeroed s := by
  have hrun : (exec (checked (netPushNext 2 twoMetrics) (apartCheck 2)) (netPushInit .zeroed)
      pushesInTurn).map (fun s => (s.pc 0, s.pc 1, s.ring.wrIdx))
        = some (.done 0, .done 0, 32) := by decide +kernel
  obtain ⟨s, hs, heq⟩ := Option.map_eq_some_iff.mp hrun
  simp only [Prod.mk.injEq] at heq
  refine ⟨s, heq.1, heq.2.1, heq.2.2, ?_⟩
  exact multiProducerSafe_of_apart ⟨by decide, by decide, fun hl => by cases hl⟩ (by decide)
    (apart_of_check pushesInTurn hs)

/-- Call 0 loads `wr_idx`, call 1 runs from start to end, and call 0 goes on. -/
def overtakenPush : List ℕ :=
  List.replicate 2 0 ++ List.replicate 81 1 ++ List.replicate 79 0

/-- **A push that is overtaken takes `wr_idx` back**: it goes on from the index it loaded, so that
both calls return 0 and `wr_idx` has advanced by 16 instead of 32. -/
theorem netPush_lost_update :
    ∃ s, Reachable (netPushNext 2 twoMetrics) (netPushInit .zeroed) s ∧
      s.pc 0 = .done 0 ∧ s.pc 1 = .done 0 ∧ s.ring.wrIdx = 16 ∧
      ¬ MultiProducerSafe 2 twoMetrics .zeroed s := by
  have hrun : (exec (netPushNext 2 twoMetrics) (netPushInit .zeroed) overtakenPush).map
      (fun s => (s.pc 0, s.pc 1, s.ring.wrIdx)) = some (.done 0, .done 0, 16) := by decide +kernel
  obtain ⟨s, hs, heq⟩ := Option.map_eq_some_iff.mp hrun
  simp only [Prod.mk.injEq] at heq
  obtain ⟨h₀, h₁, hwr⟩ := heq
  refine ⟨s, .of_exec overtakenPush hs, h₀, h₁, hwr, fun hsafe => ?_⟩
  have hall : ∀ c < 2, s.pc c = .done 0 := fun c hc => by
    rcases Nat.le_one_iff_eq_zero_or_eq_one.mp (Nat.le_of_lt_succ hc) with rfl | rfl
    · exact h₀
    · exact h₁
  have hbad := (hsafe hall).1
  rw [hwr] at hbad
  exact absurd hbad (by decide)

end TelemetrySubsystem
