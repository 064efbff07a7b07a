import TelemetrySubsystem.CharRing.System

/-! # Which page contents keep a kernel call inside its buffer

User space maps the page writable, so a call may find any 32-bit words in `rd_idx` and `wr_idx`, and
other ones each time it looks. Each of the four calls that move bytes indexes its buffer with the
current index, and reduces only the next one modulo the capacity. So an index is dangerous once,
when it comes from user space; the ones that the kernel stores are remainders.

* **`KernelCall`** is such a call. It runs among other calls on its lane, and among stores of
  anything anywhere in the lane, which may free the ring while the call waits on it.
* **`StaysInBuffer`**: at every point of every such run (whatever faults and signals there are), the
  byte about to be accessed lies inside the buffer.
* **`staysInBuffer_iff`**: this is so exactly when the call has nothing to move, or the index it
  uses is inside the buffer on the page and in all that is stored there from outside. -/

namespace TelemetrySubsystem

open ActionSystem WrapCounter
open Function (update)

/-! ## A call on a page of any content -/

/-- The control words and the buffer of one lane, with whatever user space left there. -/
structure LanePage where
  rdIdx : UInt32
  wrIdx : UInt32
  stateFlags : UInt32
  buffer : ℕ → UInt8

/-- The char lane and the net lane of the page. -/
structure SharedPage where
  charLane : LanePage
  netLane : LanePage

/-- The lane as the calls share it, with no call under way. -/
def LanePage.ring (p : LanePage) : ByteRing :=
  { ByteRing.zeroed with
    rdIdx := p.rdIdx
    wrIdx := p.wrIdx
    stateFlags := p.stateFlags
    buffer := p.buffer }

/-- A kernel call that moves bytes of a tenant's buffer. -/
inductive KernelCall
  | devRead (len : ℕ)
  | devWrite (buffer : List UInt8)
  | telemetrySharedCharDevPushMetric (metric : Option NetPacketMetric)
  | telemetryNetDevPushMetric (metric : Option NetPacketMetric)
  deriving DecidableEq, Repr

/-- A kernel call under way. -/
inductive KernelCallState
  | devRead (d : DevRead)
  | devWrite (w : DevWrite)
  | charPush (metric : Option NetPacketMetric) (pc : PushPc)
  | netPush (metric : Option NetPacketMetric) (pc : PushPc)

/-- A `dev_read` call at its loop head. -/
def DevRead.callStart (len : ℕ) : DevRead := DevRead.loopHead { DevRead.start with len := len }

namespace KernelCall

/-- The call works on the net lane. -/
def onNet : KernelCall → Bool
  | .telemetryNetDevPushMetric _ => true
  | _ => false

/-- The capacity of the buffer the call works on. -/
def capacity : KernelCall → UInt32
  | .telemetryNetDevPushMetric _ => netfilterRingBufferCapacity
  | _ => ringBufferCapacity

/-- The lane the call works on. -/
def lane (page : SharedPage) : KernelCall → LanePage
  | .telemetryNetDevPushMetric _ => page.netLane
  | _ => page.charLane

/-- The index the call uses is `rd_idx`. -/
def reads : KernelCall → Bool
  | .devRead _ => true
  | _ => false

/-- The index the call uses: `rd_idx` for `dev_read`, `wr_idx` for the others. -/
def index (call : KernelCall) (r : ByteRing) : UInt32 := if call.reads then r.rdIdx else r.wrIdx

/-- The call has nothing to move. -/
def Empty : KernelCall → Prop
  | .devRead len => len = 0
  | .devWrite buffer => buffer = []
  | .telemetrySharedCharDevPushMetric metric | .telemetryNetDevPushMetric metric => metric = none

/-- The call before its first step. -/
def start : KernelCall → KernelCallState
  | .devRead len => .devRead (DevRead.callStart len)
  | .devWrite buffer => .devWrite (DevWrite.start buffer)
  | .telemetrySharedCharDevPushMetric metric => .charPush metric .entry
  | .telemetryNetDevPushMetric metric => .netPush metric .entry

end KernelCall

/-- One step of call `me`; the environment chooses faults and signals. -/
def kernelCallStep (me : ℕ) (r : ByteRing) (o : Outcome) :
    KernelCallState → Option (ByteRing × KernelCallState)
  | .devRead d =>
      (devReadStep r d (if o = .fault then .fault else .ok)).map fun p => (p.1, .devRead p.2)
  | .devWrite w => (devWriteStep me r w o).map fun p => (p.1, .devWrite p.2)
  | .charPush metric pc =>
      (telemetrySharedCharDevPushMetric metric me r pc).map fun p => (p.1, .charPush metric p.2)
  | .netPush metric pc =>
      (telemetryNetDevPushMetric metric me r pc).map fun p => (p.1, .netPush metric p.2)

/-! ## Calls among calls -/

/-- A store into the lane by anything but such a call: user space, or on the net lane the hook. -/
inductive OutsideStore
  | rdIdx (v : UInt32)
  | wrIdx (v : UInt32)
  | stateFlags (v : UInt32)
  | byte (i : ℕ) (b : UInt8)
  deriving DecidableEq, Repr

/-- The lane after the store. -/
def OutsideStore.apply (r : ByteRing) : OutsideStore → ByteRing
  | .rdIdx v => { r with rdIdx := v }
  | .wrIdx v => { r with wrIdx := v }
  | .stateFlags v => { r with stateFlags := v }
  | .byte i b => { r with buffer := update r.buffer i b }

/-- A lane with any number of calls under way. -/
structure LaneState where
  ring : ByteRing
  call : ℕ → KernelCallState

/-- One step on the lane. -/
inductive LaneAction
  /-- A call takes a step. -/
  | call (c : ℕ) (o : Outcome)
  /-- `telemetry_mmap_ioctl` with `TELEMETRY_IOC_WAKE_WRITER`. -/
  | ioctlWakeWriter
  | outside (st : OutsideStore)
  deriving DecidableEq, Repr

/-- **The transitions of the lane.** -/
def laneNext (s : LaneState) : LaneAction → Option LaneState
  | .call c o =>
      (kernelCallStep c s.ring o (s.call c)).map fun p => ⟨p.1, update s.call c p.2⟩
  | .ioctlWakeWriter => some { s with ring := s.ring.wakeUp }
  | .outside st => some { s with ring := st.apply s.ring }

/-- Call 0 on the page, with other calls on its lane about to be made. -/
def laneStart (page : SharedPage) (call : KernelCall) (others : ℕ → KernelCall) : LaneState where
  ring := (call.lane page).ring
  call := update (fun c => (others c).start) 0 call.start

/-- All that is stored from outside into the index that the call uses is in `stores`. -/
def LaneAction.Within (call : KernelCall) (stores : Set UInt32) : LaneAction → Prop
  | .outside (.rdIdx v) => call.reads = true → v ∈ stores
  | .outside (.wrIdx v) => call.reads = false → v ∈ stores
  | _ => True

/-- The buffer index that a metric push is about to store to. -/
def PushPc.touches : PushPc → Option UInt32
  | .copy _ _ idx => some idx
  | _ => none

/-- The buffer index that the call's next step loads from or stores to, if it does. -/
def KernelCallState.touches : KernelCallState → Option UInt32
  | .devRead d => match d.pc with
    | .loadByte idx => some idx
    | _ => none
  | .devWrite w => match w.pc with
    | .copy _ idx => some idx
    | _ => none
  | .charPush _ pc | .netPush _ pc => pc.touches

/-- **The call stays inside its buffer** when it starts on this page, whatever other calls there are
on its lane and whatever is stored into the lane meanwhile, if only `stores` go into the index it
uses: every byte it accesses has an index below the capacity. -/
def StaysInBuffer (page : SharedPage) (stores : Set UInt32) (call : KernelCall) : Prop :=
  ∀ others : ℕ → KernelCall, (∀ c, (others c).onNet = call.onNet) → ∀ s,
    ReachableUnder laneNext (fun _ a => a.Within call stores) (laneStart page call others) s →
      ∀ i, (s.call 0).touches = some i → i < call.capacity

/-- **The condition on the page and on user space**: the call has nothing to move, or the index it
uses is inside the buffer, on the page and in all that is stored there from outside. -/
def StartsInBuffer (page : SharedPage) (stores : Set UInt32) (call : KernelCall) : Prop :=
  call.Empty ∨
    call.index (call.lane page).ring < call.capacity ∧ ∀ v ∈ stores, v < call.capacity

/-! ## What one step of a call does to the indices -/

/-- The next index that a metric push has computed and is about to store. -/
def PushPc.held : PushPc → Option UInt32
  | .loadRd _ n | .index _ n | .copy _ n _ | .publish _ n => some n
  | _ => none

/-- The next index that the call has computed and is about to store. -/
def KernelCallState.held : KernelCallState → Option UInt32
  | .devRead d => match d.pc with
    | .advance n => some n
    | _ => none
  | .devWrite w => match w.pc with
    | .loadRd n | .index n | .copy n _ | .publish n => some n
    | _ => none
  | .charPush _ pc | .netPush _ pc => pc.held

/-- A call under way belongs to the call that was started. -/
def KernelCallState.IsOf : KernelCallState → KernelCall → Prop
  | .devRead _, .devRead _ => True
  | .devWrite _, .devWrite _ => True
  | .charPush metric _, .telemetrySharedCharDevPushMetric metric' => metric = metric'
  | .netPush metric _, .telemetryNetDevPushMetric metric' => metric = metric'
  | _, _ => False

/-- **What a step does to the indices**, of a call that uses the index `idx` of a buffer of `cap`
bytes: it holds the next index `before` and `after` the step, and then `access` is where it is about
to access the buffer. -/
structure IndexStep (cap idx : UInt32) (r : ByteRing) (before : Option UInt32) (r' : ByteRing)
    (after access : Option UInt32) : Prop where
  /-- The next index is computed as a remainder. -/
  held : ∀ n, after = some n → n < cap ∨ before = some n
  /-- The buffer is accessed at the index just loaded. -/
  touches : ∀ i, access = some i → i = idx
  /-- An index on the lane is left alone, or the next index is stored there. -/
  index : ∀ call : KernelCall, call.index r' = call.index r ∨ before = some (call.index r')

/-- `rd_idx` alone has changed. -/
theorem KernelCall.index_of_wrIdx {r r' : ByteRing} (h : r'.wrIdx = r.wrIdx) (call : KernelCall) :
    call.index r' = call.index r ∨ some r'.rdIdx = some (call.index r') := by
  unfold KernelCall.index
  split
  · exact .inr rfl
  · exact .inl h

/-- `wr_idx` alone has changed. -/
theorem KernelCall.index_of_rdIdx {r r' : ByteRing} (h : r'.rdIdx = r.rdIdx) (call : KernelCall) :
    call.index r' = call.index r ∨ some r'.wrIdx = some (call.index r') := by
  unfold KernelCall.index
  split
  · exact .inl h
  · exact .inr rfl

/-- The next index is inside the buffer, whatever the current one is. -/
theorem next_ringBufferCapacity_lt (i : UInt32) :
    next ringBufferCapacity i < ringBufferCapacity := next_lt (by decide) i

/-- Most steps hold nothing afterwards. -/
theorem IndexStep.quiet {cap idx : UInt32} {r r' : ByteRing} {before after access : Option UInt32}
    (h : after = none ∧ access = none)
    (hindex : ∀ call : KernelCall, call.index r' = call.index r ∨ before = some (call.index r')) :
    IndexStep cap idx r before r' after access := by
  obtain ⟨rfl, rfl⟩ := h
  exact ⟨fun n hn => (by cases hn), fun i hi => (by cases hi), hindex⟩

/-- A step that goes on with the next index in hand. -/
theorem IndexStep.hold {cap idx n : UInt32} {r r' : ByteRing} {before : Option UInt32}
    (h : n < cap ∨ before = some n)
    (hindex : ∀ call : KernelCall, call.index r' = call.index r ∨ before = some (call.index r')) :
    IndexStep cap idx r before r' (some n) none := by
  refine ⟨fun m hm => ?_, fun i hi => (by cases hi), hindex⟩
  obtain rfl := Option.some.inj hm
  exact h

/-- At the head of its loop `dev_read` holds no index. -/
theorem DevRead.loopHead_quiet (d : DevRead) :
    (KernelCallState.devRead d.loopHead).held = none ∧
      (KernelCallState.devRead d.loopHead).touches = none := by
  unfold DevRead.loopHead
  split <;> exact ⟨rfl, rfl⟩

/-- A step of `dev_read`. -/
theorem devReadStep_index {r r' : ByteRing} {d d' : DevRead} {o : ReadOutcome}
    (hstep : devReadStep r d o = some (r', d')) :
    IndexStep ringBufferCapacity r.rdIdx r (KernelCallState.devRead d).held r'
      (KernelCallState.devRead d').held (KernelCallState.devRead d').touches := by
  obtain ⟨pc, n, m, ready, out⟩ := d
  cases pc
  all_goals simp only [devReadStep] at hstep
  case idle =>
    cases o <;> cases hstep
    exact .quiet (DevRead.loopHead_quiet _) fun _ => .inl rfl
  case loadRd => split at hstep <;> cases hstep <;> exact .quiet ⟨rfl, rfl⟩ fun _ => .inl rfl
  case putUser => split at hstep <;> cases hstep <;> exact .quiet ⟨rfl, rfl⟩ fun _ => .inl rfl
  all_goals cases hstep
  case index =>
    exact ⟨fun n hn => (by cases hn), fun i hi => (Option.some.inj hi).symm, fun _ => .inl rfl⟩
  case reload => exact .hold (.inl (next_ringBufferCapacity_lt r.rdIdx)) fun _ => .inl rfl
  case advance nxt =>
    exact .quiet (DevRead.loopHead_quiet _) (KernelCall.index_of_wrIdx rfl)
  case leave =>
    refine .quiet ⟨rfl, rfl⟩ fun _ => .inl ?_
    split <;> rfl
  all_goals exact .quiet ⟨rfl, rfl⟩ fun _ => .inl rfl

/-- A step of `dev_write`. -/
theorem devWriteStep_index {r r' : ByteRing} {w w' : DevWrite} {me : ℕ} {o : Outcome}
    (hstep : devWriteStep me r w o = some (r', w')) :
    IndexStep ringBufferCapacity r.wrIdx r (KernelCallState.devWrite w).held r'
      (KernelCallState.devWrite w').held (KernelCallState.devWrite w').touches := by
  obtain ⟨pc, rest, n⟩ := w
  cases devWriteStep_move hstep with
  | loadWr => exact .hold (.inl (next_ringBufferCapacity_lt r.wrIdx)) fun _ => .inl rfl
  | free | fill => exact .hold (.inr rfl) fun _ => .inl rfl
  | index =>
      exact ⟨fun _ hi => .inr hi, fun _ hi => (Option.some.inj hi).symm, fun _ => .inl rfl⟩
  | publish => exact .quiet ⟨rfl, rfl⟩ (KernelCall.index_of_rdIdx rfl)
  | _ => exact .quiet ⟨rfl, rfl⟩ fun _ => .inl rfl

/-- Between two bytes a push holds no index. -/
theorem PushPc.held_leave (locked : Bool) (ret : ℤ) :
    (PushPc.leave locked ret).held = none ∧ (PushPc.leave locked ret).touches = none := by
  cases locked <;> exact ⟨rfl, rfl⟩

/-- Between two bytes a push holds no index. -/
theorem PushPc.held_loopHead (locked : Bool) (i : ℕ) :
    (PushPc.loopHead locked i).held = none ∧ (PushPc.loopHead locked i).touches = none := by
  unfold PushPc.loopHead
  split
  · exact ⟨rfl, rfl⟩
  · exact PushPc.held_leave locked 0

/-- A step of a push, into a ring of `cap` bytes. -/
theorem pushMetricStep_index {cap : UInt32} (hcap : 0 < cap.toNat) {locked : Bool}
    {metric : Option NetPacketMetric} {me : ℕ} {r r' : ByteRing} {pc pc' : PushPc}
    (hstep : pushMetricStep cap locked metric me r pc = some (r', pc')) :
    IndexStep cap r.wrIdx r pc.held r' pc'.held pc'.touches := by
  cases pc
  all_goals simp only [pushMetricStep] at hstep
  case entry =>
    split at hstep <;> cases hstep
    · exact .quiet ⟨rfl, rfl⟩ fun _ => .inl rfl
    · refine .quiet ?_ fun _ => .inl rfl
      split
      · exact ⟨rfl, rfl⟩
      · exact PushPc.held_loopHead locked 0
  case acquire =>
    split at hstep <;> cases hstep
    exact .quiet (PushPc.held_loopHead locked 0) fun _ => .inl rfl
  case loadWr i =>
    cases hstep
    exact .hold (.inl (next_lt hcap r.wrIdx)) fun _ => .inl rfl
  case loadRd i nxt =>
    split at hstep <;> cases hstep
    · exact .quiet (PushPc.held_leave locked _) fun _ => .inl rfl
    · exact .hold (.inr rfl) fun _ => .inl rfl
  case index i nxt =>
    cases hstep
    exact ⟨fun n hn => .inr hn, fun j hj => (Option.some.inj hj).symm, fun _ => .inl rfl⟩
  case copy i nxt idx =>
    cases metric with
    | none => cases hstep
    | some m =>
        cases hstep
        exact .hold (.inr rfl) fun _ => .inl rfl
  case publish i nxt =>
    cases hstep
    exact .quiet (PushPc.held_loopHead locked (i + 1)) (KernelCall.index_of_rdIdx rfl)
  case release =>
    cases hstep
    exact .quiet ⟨rfl, rfl⟩ fun _ => .inl rfl
  case done => cases hstep

/-- **A step of a call**, whichever it is. -/
theorem kernelCallStep_index {me : ℕ} {r r' : ByteRing} {o : Outcome} {k k' : KernelCallState}
    {call : KernelCall} (hof : k.IsOf call) (hstep : kernelCallStep me r o k = some (r', k')) :
    k'.IsOf call ∧ IndexStep call.capacity (call.index r) r k.held r' k'.held k'.touches := by
  cases k with
  | devRead d =>
      obtain ⟨⟨r₁, d₁⟩, hd, h⟩ := Option.map_eq_some_iff.mp hstep
      cases call <;> try exact absurd hof id
      cases h
      exact ⟨trivial, devReadStep_index hd⟩
  | devWrite w =>
      obtain ⟨⟨r₁, w₁⟩, hw, h⟩ := Option.map_eq_some_iff.mp hstep
      cases call <;> try exact absurd hof id
      cases h
      exact ⟨trivial, devWriteStep_index hw⟩
  | charPush metric pc =>
      obtain ⟨⟨r₁, pc₁⟩, hpush, h⟩ := Option.map_eq_some_iff.mp hstep
      cases call <;> try exact absurd hof id
      cases h
      have hcap : 0 < ringBufferCapacity.toNat := by decide
      exact ⟨hof, pushMetricStep_index hcap hpush⟩
  | netPush metric pc =>
      obtain ⟨⟨r₁, pc₁⟩, hpush, h⟩ := Option.map_eq_some_iff.mp hstep
      cases call <;> try exact absurd hof id
      cases h
      have hcap : 0 < netfilterRingBufferCapacity.toNat := by decide
      exact ⟨hof, pushMetricStep_index hcap hpush⟩

/-- A call that is about to start. -/
theorem KernelCall.start_quiet (call : KernelCall) :
    call.start.IsOf call ∧ call.start.held = none ∧ call.start.touches = none := by
  cases call with
  | devRead len => exact ⟨trivial, DevRead.loopHead_quiet _⟩
  | devWrite buffer => exact ⟨trivial, rfl, rfl⟩
  | telemetrySharedCharDevPushMetric metric => exact ⟨rfl, rfl, rfl⟩
  | telemetryNetDevPushMetric metric => exact ⟨rfl, rfl, rfl⟩

/-! ## An index that is inside the buffer -/

/-- The capacity is that of the lane. -/
theorem KernelCall.capacity_of_onNet {call call' : KernelCall} (h : call'.onNet = call.onNet) :
    call'.capacity = call.capacity := by
  cases call <;> cases call' <;> first | rfl | cases h

/-- **What holds along a run** that starts inside the buffer of call 0. -/
structure InBuffer (calls : ℕ → KernelCall) (s : LaneState) : Prop where
  isOf : ∀ c, (s.call c).IsOf (calls c)
  /-- What any call is about to store is a remainder. -/
  held : ∀ c n, (s.call c).held = some n → n < (calls 0).capacity
  index : (calls 0).index s.ring < (calls 0).capacity
  touches : ∀ i, (s.call 0).touches = some i → i < (calls 0).capacity

/-- **A step of a call keeps it.** -/
theorem InBuffer.call_step {calls : ℕ → KernelCall} {s : LaneState} (h : InBuffer calls s)
    (hlane : ∀ c, (calls c).onNet = (calls 0).onNet) {c : ℕ} {o : Outcome} {r : ByteRing}
    {k : KernelCallState} (hstep : kernelCallStep c s.ring o (s.call c) = some (r, k)) :
    InBuffer calls ⟨r, update s.call c k⟩ := by
  obtain ⟨hof, hindex⟩ := kernelCallStep_index (h.isOf c) hstep
  have htouches : ∀ c', c' = 0 → ∀ i, (update s.call c k c').touches = some i →
      i < (calls 0).capacity := by
    refine (Function.forall_update_iff s.call fun c' k' => c' = 0 → ∀ i, k'.touches = some i →
      i < (calls 0).capacity).mpr ⟨fun hc i hi => ?_, fun c' _ hc => hc ▸ h.touches⟩
    rw [hindex.touches i hi, hc]
    exact h.index
  refine ⟨?_, ?_, ?_, htouches 0 rfl⟩
  · exact (Function.forall_update_iff s.call fun c' k' => k'.IsOf (calls c')).mpr
      ⟨hof, fun c' _ => h.isOf c'⟩
  · refine (Function.forall_update_iff s.call fun _ k' => ∀ n, k'.held = some n →
      n < (calls 0).capacity).mpr ⟨fun n hn => ?_, fun c' _ => h.held c'⟩
    rcases hindex.held n hn with hlt | hheld
    · rwa [KernelCall.capacity_of_onNet (hlane c)] at hlt
    · exact h.held c n hheld
  · rcases hindex.index (calls 0) with hsame | hstored
    · exact hsame ▸ h.index
    · exact h.held c _ hstored

/-- **So does a store from outside** that stays inside the buffer. -/
theorem InBuffer.outside {calls : ℕ → KernelCall} {s : LaneState} (h : InBuffer calls s)
    {stores : Set UInt32} (hstores : ∀ v ∈ stores, v < (calls 0).capacity) {st : OutsideStore}
    (hok : (LaneAction.outside st).Within (calls 0) stores) :
    InBuffer calls { s with ring := st.apply s.ring } := by
  refine ⟨h.isOf, h.held, ?_, h.touches⟩
  have hindex := h.index
  unfold KernelCall.index at hindex ⊢
  cases st with
  | rdIdx v =>
      split
      case isTrue hreads => exact hstores v (hok hreads)
      case isFalse hreads => rwa [if_neg hreads] at hindex
  | wrIdx v =>
      split
      case isTrue hreads => rwa [if_pos hreads] at hindex
      case isFalse hreads => exact hstores v (hok (Bool.not_eq_true _ ▸ hreads))
  | stateFlags v => exact hindex
  | byte i b => exact hindex

/-- **A call that starts inside its buffer stays there.** -/
theorem staysInBuffer_of_index {page : SharedPage} {stores : Set UInt32} {call : KernelCall}
    (hindex : call.index (call.lane page).ring < call.capacity)
    (hstores : ∀ v ∈ stores, v < call.capacity) : StaysInBuffer page stores call := by
  intro others hlane s hs
  let calls : ℕ → KernelCall := update others 0 call
  have hcall : calls 0 = call := Function.update_self 0 call others
  have hlane' : ∀ c, (calls c).onNet = (calls 0).onNet := by
    rw [hcall]
    exact (Function.forall_update_iff others fun _ call' => call'.onNet = call.onNet).mpr
      ⟨rfl, fun c _ => hlane c⟩
  have hstart (c : ℕ) : (laneStart page call others).call c = (calls c).start :=
    (Function.apply_update (fun _ => KernelCall.start) others 0 call c).symm
  have hinv : InBuffer calls s := by
    refine hs.invariant ⟨fun c => ?_, fun c n hn => ?_, ?_, fun i hi => ?_⟩
      fun s a s' h hok hnext => ?_
    · rw [hstart]
      exact (calls c).start_quiet.1
    · rw [hstart, (calls c).start_quiet.2.1] at hn
      cases hn
    · rw [hcall]
      exact hindex
    · rw [hstart, (calls 0).start_quiet.2.2] at hi
      cases hi
    · cases a with
      | call c o =>
          obtain ⟨⟨r, k⟩, hstep, rfl⟩ := Option.map_eq_some_iff.mp hnext
          exact h.call_step hlane' hstep
      | ioctlWakeWriter =>
          cases hnext
          exact ⟨h.isOf, h.held, h.index, h.touches⟩
      | outside st =>
          cases hnext
          rw [← hcall] at hok hstores
          exact h.outside hstores hok
  rw [← hcall]
  exact hinv.touches

/-! ## A call that has nothing to move -/

/-- A call with nothing to move is about to return, or has returned. -/
def KernelCallState.Resting : KernelCallState → Prop
  | .devRead d => d.pc = .leave ∨ ∃ ret, d.pc = .idle ret
  | .devWrite w => w.pc = .entry ∧ w.rest = [] ∨ ∃ ret, w.pc = .done ret
  | .charPush metric pc | .netPush metric pc => pc = .entry ∧ metric = none ∨ ∃ ret, pc = .done ret

/-- A push of nothing returns. -/
theorem pushMetricStep_resting {cap : UInt32} {locked : Bool} {metric : Option NetPacketMetric}
    {me : ℕ} {r r' : ByteRing} {pc pc' : PushPc}
    (h : pc = .entry ∧ metric = none ∨ ∃ ret, pc = .done ret)
    (hstep : pushMetricStep cap locked metric me r pc = some (r', pc')) :
    pc' = .entry ∧ metric = none ∨ ∃ ret, pc' = .done ret := by
  rcases h with ⟨rfl, rfl⟩ | ⟨ret, rfl⟩
  · cases hstep
    exact .inr ⟨_, rfl⟩
  · cases hstep

/-- A step of such a call. -/
theorem kernelCallStep_resting {me : ℕ} {r r' : ByteRing} {o : Outcome} {k k' : KernelCallState}
    (h : k.Resting) (hstep : kernelCallStep me r o k = some (r', k')) : k'.Resting := by
  cases k with
  | devRead d =>
      obtain ⟨⟨r₁, d₁⟩, hd, hk⟩ := Option.map_eq_some_iff.mp hstep
      cases hk
      obtain ⟨pc, len, n, ready, out⟩ := d
      rcases h with rfl | ⟨ret, rfl⟩
      · cases hd
        exact .inr ⟨_, rfl⟩
      · -- the call is made once
        simp only [devReadStep] at hd
        cases o <;> cases hd
  | devWrite w =>
      obtain ⟨⟨r₁, w₁⟩, hw, hk⟩ := Option.map_eq_some_iff.mp hstep
      cases hk
      obtain ⟨pc, rest, n⟩ := w
      rcases h with ⟨rfl, rfl⟩ | ⟨ret, rfl⟩
      · cases hw
        exact .inr ⟨_, rfl⟩
      · cases hw
  | charPush metric pc =>
      obtain ⟨⟨r₁, pc₁⟩, hpush, hk⟩ := Option.map_eq_some_iff.mp hstep
      cases hk
      exact pushMetricStep_resting h hpush
  | netPush metric pc =>
      obtain ⟨⟨r₁, pc₁⟩, hpush, hk⟩ := Option.map_eq_some_iff.mp hstep
      cases hk
      exact pushMetricStep_resting h hpush

/-- Such a call does not access the buffer. -/
theorem KernelCallState.Resting.touches_eq_none {k : KernelCallState} (h : k.Resting) :
    k.touches = none := by
  cases k with
  | devRead d =>
      obtain ⟨pc, len, n, ready, out⟩ := d
      rcases h with rfl | ⟨ret, rfl⟩ <;> rfl
  | devWrite w =>
      obtain ⟨pc, rest, n⟩ := w
      rcases h with ⟨rfl, -⟩ | ⟨ret, rfl⟩ <;> rfl
  | charPush metric pc => rcases h with ⟨rfl, -⟩ | ⟨ret, rfl⟩ <;> rfl
  | netPush metric pc => rcases h with ⟨rfl, -⟩ | ⟨ret, rfl⟩ <;> rfl

/-- A call that has nothing to move starts like that. -/
theorem KernelCall.Empty.start_resting {call : KernelCall} (h : call.Empty) :
    call.start.Resting := by
  cases call with
  | devRead len =>
      obtain rfl : len = 0 := h
      exact .inl rfl
  | devWrite buffer => exact .inl ⟨rfl, h⟩
  | telemetrySharedCharDevPushMetric metric => exact .inl ⟨rfl, h⟩
  | telemetryNetDevPushMetric metric => exact .inl ⟨rfl, h⟩

/-- **A call with nothing to move stays inside its buffer.** -/
theorem staysInBuffer_of_empty {page : SharedPage} {stores : Set UInt32} {call : KernelCall}
    (h : call.Empty) : StaysInBuffer page stores call := by
  intro others _ s hs i hi
  have hrest : (s.call 0).Resting := by
    refine hs.invariant (I := fun s => (s.call 0).Resting) h.start_resting
      fun s a s' hrest _ hnext => ?_
    cases a with
    | call c o =>
        obtain ⟨⟨r, k⟩, hstep, rfl⟩ := Option.map_eq_some_iff.mp hnext
        rcases eq_or_ne 0 c with rfl | hne
        · show (update s.call 0 k 0).Resting
          rw [Function.update_self]
          exact kernelCallStep_resting hrest hstep
        · show (update s.call c k 0).Resting
          rwa [Function.update_of_ne hne]
    | ioctlWakeWriter =>
        cases hnext
        exact hrest
    | outside st =>
        cases hnext
        exact hrest
  rw [hrest.touches_eq_none] at hi
  cases hi

/-! ## A call that starts outside its buffer -/

/-- A store into the index the call uses. -/
def KernelCall.put (call : KernelCall) (v : UInt32) : OutsideStore :=
  if call.reads then .rdIdx v else .wrIdx v

/-- A store into the other index that keeps the call going, where the index `v` it uses is outside
the buffer: the ring is then neither empty nor full. -/
def KernelCall.goOn (call : KernelCall) (v : UInt32) : OutsideStore :=
  if call.reads then .wrIdx 0 else .rdIdx v

/-- The call then finds what was stored. -/
theorem KernelCall.index_put (call : KernelCall) (v : UInt32) (r : ByteRing) :
    call.index ((call.put v).apply r) = v := by
  unfold KernelCall.index KernelCall.put
  split <;> rfl

/-- One of `stores` may be stored there. -/
theorem KernelCall.put_within (call : KernelCall) {v : UInt32} {stores : Set UInt32}
    (hv : v ∈ stores) : (LaneAction.outside (call.put v)).Within call stores := by
  unfold KernelCall.put
  split <;> exact fun _ => hv

/-- Anything may be stored into the other index. -/
theorem KernelCall.goOn_within (call : KernelCall) (v : UInt32) (stores : Set UInt32) :
    (LaneAction.outside (call.goOn v)).Within call stores := by
  unfold KernelCall.goOn
  split
  case isTrue hreads => exact fun h => Bool.noConfusion (hreads.symm.trans h)
  case isFalse hreads => exact fun h => absurd h hreads

/-- Call 0 by itself. -/
def aloneNext (t : ByteRing × KernelCallState) (o : Outcome) :
    Option (ByteRing × KernelCallState) :=
  kernelCallStep 0 t.1 o t.2

/-- What call 0 does by itself it does on the lane. -/
theorem exec_alone (s : LaneState) (n : ℕ) (t : ByteRing × KernelCallState) :
    exec laneNext ⟨t.1, update s.call 0 t.2⟩ (List.replicate n (.call 0 .ok))
      = (exec aloneNext t (List.replicate n .ok)).map fun t => ⟨t.1, update s.call 0 t.2⟩ := by
  have hstep (t : ByteRing × KernelCallState) :
      laneNext ⟨t.1, update s.call 0 t.2⟩ (.call 0 .ok)
        = (aloneNext t .ok).map fun t => ⟨t.1, update s.call 0 t.2⟩ := by
    simp only [laneNext, aloneNext, Function.update_self, Function.update_idem]
  exact exec_replicate_embed (fun t : ByteRing × KernelCallState =>
    (⟨t.1, update s.call 0 t.2⟩ : LaneState)) hstep n t

/-- An index outside the ring is no remainder. -/
theorem next_ne_of_le {cap v : UInt32} (hcap : 0 < cap.toNat) (h : cap ≤ v) : next cap v ≠ v :=
  fun heq => Nat.not_lt.mpr h (heq ▸ next_lt hcap v)

/-- **A call that finds an index outside its buffer uses it**, once the ring lets it go on. -/
theorem exists_exec_alone {call : KernelCall} (hmove : ¬ call.Empty) {r : ByteRing}
    (hlock : r.lock = none) (hindex : call.capacity ≤ call.index r) :
    ∃ n t, exec aloneNext ((call.goOn (call.index r)).apply r, call.start)
        (List.replicate n .ok) = some t ∧ t.2.touches = some (call.index r) := by
  cases call with
  | devRead len =>
      have hne : r.rdIdx ≠ 0 := fun h => absurd (h ▸ hindex : ringBufferCapacity ≤ 0) (by decide)
      refine ⟨3, ({ r with wrIdx := 0 },
        .devRead { DevRead.callStart len with pc := .loadByte r.rdIdx }), ?_, rfl⟩
      simp [aloneNext, kernelCallStep, devReadStep, KernelCall.start, KernelCall.goOn,
        KernelCall.reads, OutsideStore.apply, DevRead.callStart, DevRead.loopHead, DevRead.start,
        Nat.pos_of_ne_zero hmove, hne]
  | devWrite buffer =>
      have hne : next ringBufferCapacity r.wrIdx ≠ r.wrIdx := next_ne_of_le (by decide) hindex
      refine ⟨5, ({ r with rdIdx := r.wrIdx, lock := some 0 },
        .devWrite { DevWrite.start buffer with
          pc := .copy (next ringBufferCapacity r.wrIdx) r.wrIdx }), ?_, rfl⟩
      have hsome : buffer ≠ [] := hmove
      simp [aloneNext, kernelCallStep, devWriteStep, KernelCall.start, KernelCall.goOn,
        KernelCall.reads, KernelCall.index, OutsideStore.apply, DevWrite.start, hsome, hlock, hne]
  | telemetrySharedCharDevPushMetric metric =>
      have hne : next ringBufferCapacity r.wrIdx ≠ r.wrIdx := next_ne_of_le (by decide) hindex
      refine ⟨5, ({ r with rdIdx := r.wrIdx, lock := some 0 },
        .charPush metric (.copy 0 (next ringBufferCapacity r.wrIdx) r.wrIdx)), ?_, rfl⟩
      have hsome : metric ≠ none := hmove
      simp [aloneNext, kernelCallStep, telemetrySharedCharDevPushMetric, pushMetricStep,
        KernelCall.start, KernelCall.goOn, KernelCall.reads, KernelCall.index, OutsideStore.apply,
        PushPc.loopHead, sizeofNetPacketMetric, hsome, hlock, hne]
  | telemetryNetDevPushMetric metric =>
      have hne : next netfilterRingBufferCapacity r.wrIdx ≠ r.wrIdx :=
        next_ne_of_le (by decide) hindex
      refine ⟨4, ({ r with rdIdx := r.wrIdx },
        .netPush metric (.copy 0 (next netfilterRingBufferCapacity r.wrIdx) r.wrIdx)), ?_, rfl⟩
      have hsome : metric ≠ none := hmove
      simp [aloneNext, kernelCallStep, telemetryNetDevPushMetric, pushMetricStep,
        KernelCall.start, KernelCall.goOn, KernelCall.reads, KernelCall.index, OutsideStore.apply,
        PushPc.loopHead, sizeofNetPacketMetric, hsome, hne]

/-- **A call that starts outside its buffer leaves it** with the first byte. -/
theorem not_staysInBuffer_of_le {page : SharedPage} {stores : Set UInt32} {call : KernelCall}
    (hmove : ¬ call.Empty) {v : UInt32} (hv : call.capacity ≤ v)
    (hfound : v = call.index (call.lane page).ring ∨ v ∈ stores) :
    ¬ StaysInBuffer page stores call := by
  intro hstays
  let s₀ := laneStart page call fun _ => call
  -- the index is there from the start, or it is stored before the call has taken a step
  obtain ⟨r, hr, hlock, hindex⟩ : ∃ r, ReachableUnder laneNext
      (fun _ a => a.Within call stores) s₀ { s₀ with ring := r } ∧
        r.lock = none ∧ call.index r = v := by
    rcases hfound with rfl | hmem
    · exact ⟨(call.lane page).ring, .start, rfl, rfl⟩
    · refine ⟨(call.put v).apply (call.lane page).ring, ?_, ?_, call.index_put v _⟩
      · exact ReachableUnder.start.step (call.put_within hmem) rfl
      · unfold KernelCall.put
        split <;> rfl
  obtain ⟨n, t, hexec, htouches⟩ := exists_exec_alone hmove hlock (hindex ▸ hv)
  have hgo := hr.step (a := .outside (call.goOn v)) (call.goOn_within v stores) rfl
  have hsame : update s₀.call 0 call.start = s₀.call := Function.update_idem _ _ _
  have hrun := exec_alone s₀ n ((call.goOn v).apply r, call.start)
  rw [← hindex, hexec, hindex, hsame] at hrun
  have hreach := ReachableUnder.of_exec _
    (fun a ha => by rw [List.eq_of_mem_replicate ha]; exact trivial) hrun hgo
  have hlt := hstays (fun _ => call) (fun _ => rfl) _ hreach (call.index r)
    (by rw [← htouches]; exact congrArg _ (Function.update_self 0 t.2 s₀.call))
  exact absurd (hindex ▸ hlt) (Nat.not_lt.mpr hv)

/-- **When a kernel call stays inside its buffer**: on a page of any content, exactly when it has
nothing to move or the index it uses is inside the buffer, on the page and in all that is stored
there from outside. -/
theorem staysInBuffer_iff (page : SharedPage) (stores : Set UInt32) (call : KernelCall) :
    StaysInBuffer page stores call ↔ StartsInBuffer page stores call := by
  constructor
  · intro hstays
    by_contra hstarts
    obtain ⟨hmove, hout⟩ := not_or.mp hstarts
    have hindex : call.index (call.lane page).ring < call.capacity :=
      Nat.not_le.mp fun hle => not_staysInBuffer_of_le hmove hle (.inl rfl) hstays
    have hstores : ∀ v ∈ stores, v < call.capacity := fun v hv =>
      Nat.not_le.mp fun hle => not_staysInBuffer_of_le hmove hle (.inr hv) hstays
    exact hout ⟨hindex, hstores⟩
  · rintro (hempty | ⟨hindex, hstores⟩)
    · exact staysInBuffer_of_empty hempty
    · exact staysInBuffer_of_index hindex hstores

/-- A page whose `char_ctl.rx.rd_idx` user space has set to 5000, the rest zero. -/
def pageWithReadIndex5000 : SharedPage where
  charLane := ⟨5000, 0, 0, fun _ => 0⟩
  netLane := ⟨0, 0, 0, fun _ => 0⟩

/-- **`dev_read` leaves `char_buffer`**: reading one byte from that page loads byte 5000, with
nobody else at work. -/
theorem devRead_leaves_buffer : ¬ StaysInBuffer pageWithReadIndex5000 ∅ (.devRead 1) := by
  intro h
  have hexec : exec laneNext (laneStart pageWithReadIndex5000 (.devRead 1) fun _ => .devRead 1)
      (List.replicate 3 (.call 0 .ok)) = some _ := rfl
  have hrun := ReachableUnder.of_exec (p := LaneAction.Within (.devRead 1) ∅)
    (List.replicate 3 (.call 0 .ok)) (fun a ha => List.eq_of_mem_replicate ha ▸ trivial) hexec
    .start
  have hlt : (5000 : UInt32) < 1024 := h _ (fun _ => rfl) _ hrun 5000 rfl
  exact absurd hlt (by decide)

/-- A page on which the char ring looks full, with `char_ctl.tx.wr_idx` set to 2047. -/
def pageWithWriteIndex2047 : SharedPage where
  charLane := ⟨0, 2047, 0, fun _ => 0⟩
  netLane := ⟨0, 0, 0, fun _ => 0⟩

/-- On that page `dev_write` goes to sleep; a `dev_read` of one byte wakes it up, and it goes on to
store byte 2047. -/
example : ¬ StaysInBuffer pageWithWriteIndex2047 ∅ (.devWrite [7]) := by
  intro h
  have hrun : (exec laneNext (laneStart pageWithWriteIndex2047 (.devWrite [7]) fun _ => .devRead 1)
      (List.replicate 12 (.call 0 .ok) ++ List.replicate 8 (.call 1 .ok) ++
        List.replicate 12 (.call 0 .ok))).map (fun s => (s.call 0).touches) = some (some 2047) := by
    decide
  obtain ⟨s, hexec, htouches⟩ := Option.map_eq_some_iff.mp hrun
  have hreach := ReachableUnder.of_exec (p := LaneAction.Within (.devWrite [7]) ∅) _
    (fun a ha => by
      simp only [List.mem_append, List.mem_replicate] at ha
      rcases ha with (⟨-, rfl⟩ | ⟨-, rfl⟩) | ⟨-, rfl⟩ <;> trivial) hexec .start
  exact absurd (h (fun _ => .devRead 1) (fun _ => rfl) s hreach 2047 htouches) (by decide)

end TelemetrySubsystem
