import TelemetrySubsystem.CharRing.Fifo

/-! # A metric push that runs alone

Both push functions test for a full ring once per byte and publish every byte on its own. So a push
that meets the full ring in the middle of its metric has already published the bytes before it.

* **`pushBytes`** is a push as one function of the ring, and `push_finishes` says that the step
  functions of both pushes compute it.
* **`pushBytes_spec`**: a push appends as much of its metric as fits.
* **`AllOrNothing`** is what a caller would like to have; `push_allOrNothing_iff` says that it holds
  exactly where the whole metric fits, or not even its first byte does. -/

namespace TelemetrySubsystem

open ActionSystem CyclicWindow WrapCounter
open Function (update)

/-! ## The two push functions -/

/-- The exported functions that push a metric into a byte ring. -/
inductive PushFunction
  | telemetrySharedCharDevPushMetric
  | telemetryNetDevPushMetric
  deriving DecidableEq, Repr

namespace PushFunction

/-- `actual_buffer_size`. -/
def capacity : PushFunction → UInt32
  | .telemetrySharedCharDevPushMetric => ringBufferCapacity
  | .telemetryNetDevPushMetric => netfilterRingBufferCapacity

/-- Whether the function takes `telemetry_char_write_lock`. -/
def locked : PushFunction → Bool
  | .telemetrySharedCharDevPushMetric => true
  | .telemetryNetDevPushMetric => false

/-- One step of a call with a metric to push. -/
def step (f : PushFunction) (m : NetPacketMetric) (me : ℕ) (s : ByteRing × PushPc) :
    Option (ByteRing × PushPc) :=
  match f with
  | .telemetrySharedCharDevPushMetric =>
      TelemetrySubsystem.telemetrySharedCharDevPushMetric (some m) me s.1 s.2
  | .telemetryNetDevPushMetric =>
      TelemetrySubsystem.telemetryNetDevPushMetric (some m) me s.1 s.2

/-- Both functions are the one step function, at their capacity and with or without the lock. -/
theorem step_eq (f : PushFunction) (m : NetPacketMetric) (me : ℕ) (s : ByteRing × PushPc) :
    f.step m me s = pushMetricStep f.capacity f.locked (some m) me s.1 s.2 := by
  cases f <;> rfl

/-- Both rings have room for a cell and fit a word. -/
theorem capacity_pos (f : PushFunction) : 0 < f.capacity.toNat := by
  cases f <;> decide

end PushFunction

/-! ## A push as one function -/

/-- Store a byte at the write index and publish it. -/
def ByteRing.appendByte (r : ByteRing) (cap : UInt32) (me : ℕ) (b : UInt8) : ByteRing :=
  ByteRing.publish { r with buffer := update r.buffer r.wrIdx.toNat b } me (next cap r.wrIdx)

/-- **The loop of a push** over the bytes still to be written: the ring it leaves behind and what it
returns. -/
def pushBytes (cap : UInt32) (me : ℕ) : List UInt8 → ByteRing → ByteRing × ℤ
  | [], r => (r, 0)
  | b :: bs, r =>
      if next cap r.wrIdx = r.rdIdx then (r, negENOSPC)
      else pushBytes cap me bs (r.appendByte cap me b)

/-- The loop does not read the lock. -/
theorem pushBytes_lock (cap : UInt32) (me : ℕ) (l : Option ℕ) (bs : List UInt8) (r : ByteRing) :
    pushBytes cap me bs { r with lock := l }
      = ({ (pushBytes cap me bs r).1 with lock := l }, (pushBytes cap me bs r).2) := by
  induction bs generalizing r with
  | nil => rfl
  | cons b bs ih =>
      simp only [pushBytes]
      split
      · rfl
      · exact ih (r.appendByte cap me b)

/-- The loop leaves the lock, the read index and the number of removals alone. -/
theorem pushBytes_frame (cap : UInt32) (me : ℕ) (bs : List UInt8) (r : ByteRing) :
    (pushBytes cap me bs r).1.lock = r.lock ∧ (pushBytes cap me bs r).1.rdIdx = r.rdIdx ∧
      (pushBytes cap me bs r).1.removed = r.removed := by
  induction bs generalizing r with
  | nil => exact ⟨rfl, rfl, rfl⟩
  | cons b bs ih =>
      simp only [pushBytes]
      split
      · exact ⟨rfl, rfl, rfl⟩
      · exact ih (r.appendByte cap me b)

/-- What the unlock at the return of a locked push does to the ring. -/
def ByteRing.unlockIf (r : ByteRing) (locked : Bool) : ByteRing :=
  if locked then { r with lock := none } else r

/-- A push on its way out returns. -/
theorem leave_finishes (cap : UInt32) (locked : Bool) (m : NetPacketMetric) (me : ℕ) (r : ByteRing)
    (ret : ℤ) :
    Finishes (fun s => pushMetricStep cap locked (some m) me s.1 s.2) (r, .leave locked ret)
      (r.unlockIf locked, .done ret) := by
  cases locked with
  | false => exact .halt rfl
  | true => exact .step rfl (.halt rfl)

/-- **The step function runs the loop**: from iteration `i` on, with the rest of the metric to
write. -/
theorem loop_finishes (cap : UInt32) (locked : Bool) (m : NetPacketMetric) (me : ℕ)
    (bs : List UInt8) {i : ℕ} (hbs : m.bytes.drop i = bs) (r : ByteRing) :
    Finishes (fun s => pushMetricStep cap locked (some m) me s.1 s.2) (r, .loopHead locked i)
      ((pushBytes cap me bs r).1.unlockIf locked, .done (pushBytes cap me bs r).2) := by
  induction bs generalizing i r with
  | nil =>
      have hend : ¬ i < sizeofNetPacketMetric := Nat.not_lt.mpr (List.drop_eq_nil_iff.mp hbs)
      rw [PushPc.loopHead, if_neg hend]
      exact leave_finishes cap locked m me r 0
  | cons b bs ih =>
      have hlt : i < sizeofNetPacketMetric := by
        by_contra hge
        have hnil : m.bytes.drop i = [] := List.drop_eq_nil_of_le (Nat.le_of_not_lt hge)
        rw [hnil] at hbs
        cases hbs
      have hget : m.bytes.getD i 0 = b := by
        rw [List.getD_eq_getElem?_getD, ← Nat.add_zero i, ← List.getElem?_drop, hbs]
        rfl
      have htail : m.bytes.drop (i + 1) = bs := by
        rw [← List.tail_drop, hbs, List.tail_cons]
      rw [PushPc.loopHead, if_pos hlt, pushBytes]
      have hload : pushMetricStep cap locked (some m) me r (.loadWr i)
          = some (r, .loadRd i (next cap r.wrIdx)) := rfl
      refine .step hload ?_
      split
      · next hfull =>
          have htest : pushMetricStep cap locked (some m) me r (.loadRd i (next cap r.wrIdx))
              = some (r, .leave locked negENOSPC) := by
            simp only [pushMetricStep, if_pos hfull]
          exact .step htest (leave_finishes ..)
      · next hfree =>
          have htest : pushMetricStep cap locked (some m) me r (.loadRd i (next cap r.wrIdx))
              = some (r, .index i (next cap r.wrIdx)) := by
            simp only [pushMetricStep, if_neg hfree]
          -- the byte is stored and published: one turn of the loop
          have hturn : pushMetricStep cap locked (some m) me
              { r with buffer := update r.buffer r.wrIdx.toNat (m.bytes.getD i 0) }
                (.publish i (next cap r.wrIdx))
              = some (r.appendByte cap me b, .loopHead locked (i + 1)) := by
            rw [hget]
            rfl
          exact .step htest (.step rfl (.step rfl (.step hturn (ih htail _))))

/-- **A push that runs alone returns**, and its call as a whole is `pushBytes` on its metric. -/
theorem push_finishes (f : PushFunction) (m : NetPacketMetric) (me : ℕ) {r : ByteRing}
    (hlock : f.locked = true → r.lock = none) :
    Finishes (f.step m me) (r, .entry)
      ((pushBytes f.capacity me m.bytes r).1, .done (pushBytes f.capacity me m.bytes r).2) := by
  have hloop := fun r => loop_finishes f.capacity f.locked m me m.bytes (i := 0) rfl r
  rw [funext (f.step_eq m me)]
  cases hl : f.locked with
  | false =>
      rw [hl] at hloop
      exact .step rfl (hloop r)
  | true =>
      rw [hl] at hloop
      have hfree : r.lock = none := hlock hl
      have hacquire : pushMetricStep f.capacity true (some m) me r .acquire
          = some ({ r with lock := some me }, .loopHead true 0) := by
        simp only [pushMetricStep, if_pos hfree]
      -- the lock taken at the start is given back at the end, and the loop never reads it
      have hrun := hloop { r with lock := some me }
      rw [pushBytes_lock] at hrun
      have hback : (pushBytes f.capacity me m.bytes r).1.lock = none :=
        (pushBytes_frame f.capacity me m.bytes r).1.trans hfree
      have heq : ByteRing.unlockIf
          { (pushBytes f.capacity me m.bytes r).1 with lock := some me } true
            = (pushBytes f.capacity me m.bytes r).1 := by
        rw [ByteRing.unlockIf, if_pos rfl, ← hback]
      rw [heq] at hrun
      exact .step rfl (.step hacquire hrun)

/-! ## A push appends as much as fits -/

/-- The unread bytes of a ring of `cap` bytes. -/
def ByteRing.unread (cap : UInt32) (r : ByteRing) : List UInt8 :=
  window cap.toNat r.buffer r.rdIdx.toNat r.wrIdx.toNat

/-- The free bytes: the capacity less one, less the unread bytes. -/
def ByteRing.free (cap : UInt32) (r : ByteRing) : ℕ := cap.toNat - 1 - (r.unread cap).length

/-- The free bytes, read off the indices. -/
theorem ByteRing.free_eq_distance (cap : UInt32) (r : ByteRing) :
    r.free cap = cap.toNat - 1 - (r.wrIdx.toNat + cap.toNat - r.rdIdx.toNat) % cap.toNat := by
  rw [ByteRing.free, ByteRing.unread, length_window]

/-- A ring of `cap` bytes is tied to a history. -/
abbrev ByteRing.Follows (cap : UInt32) (r : ByteRing) (log : List UInt8) (taken : ℕ) : Prop :=
  Tracks cap.toNat r.buffer r.rdIdx.toNat r.wrIdx.toNat log taken

/-- The free bytes of a ring tied to a history. -/
theorem ByteRing.Follows.free_eq {cap : UInt32} {r : ByteRing} {log : List UInt8} {taken : ℕ}
    (h : r.Follows cap log taken) : r.free cap = taken + cap.toNat - 1 - log.length := by
  have hle := Tracks.taken_le h
  rw [ByteRing.free, ByteRing.unread, Tracks.window_eq h, List.length_drop]
  omega

/-- The full test of a push is the test for no free byte. -/
theorem ByteRing.Follows.full_iff {cap : UInt32} {r : ByteRing} {log : List UInt8} {taken : ℕ}
    (h : r.Follows cap log taken) : next cap r.wrIdx = r.rdIdx ↔ r.free cap = 0 := by
  rw [← UInt32.toNat_inj, next_toNat (Tracks.wr_lt h), Tracks.full_iff h, h.free_eq]
  have hroom := Tracks.room h
  omega

/-- Publishing the cell at the write index adds its byte to the history. -/
theorem ByteRing.Follows.publish {cap : UInt32} {r : ByteRing} {log : List UInt8} {taken : ℕ}
    (h : r.Follows cap log taken) (hfree : next cap r.wrIdx ≠ r.rdIdx) (me : ℕ) :
    (r.publish me (next cap r.wrIdx)).Follows cap (log ++ [r.buffer r.wrIdx.toNat]) taken := by
  have hnext : (next cap r.wrIdx).toNat = (r.wrIdx.toNat + 1) % cap.toNat := next_toNat h.wr_lt
  have hne : (r.wrIdx.toNat + 1) % cap.toNat ≠ r.rdIdx.toNat := by
    rw [← hnext]
    exact fun heq => hfree (UInt32.toNat_inj.mp heq)
  have happ := Tracks.append h hne
  rw [← hnext] at happ
  exact happ

/-- Appending a byte to a ring that is not full adds it to the history. -/
theorem ByteRing.Follows.appendByte {cap : UInt32} {r : ByteRing} {log : List UInt8} {taken : ℕ}
    (h : r.Follows cap log taken) (hfree : next cap r.wrIdx ≠ r.rdIdx) (me : ℕ) (b : UInt8) :
    (r.appendByte cap me b).Follows cap (log ++ [b]) taken := by
  have hstored : ByteRing.Follows cap { r with buffer := update r.buffer r.wrIdx.toNat b } log
      taken := Tracks.store h b
  have happ := hstored.publish hfree me
  simp only [Function.update_self] at happ
  exact happ

/-- Appending a byte records it in the ring's own history. -/
theorem ByteRing.log_appendByte (r : ByteRing) (cap : UInt32) (me : ℕ) (b : UInt8) :
    (r.appendByte cap me b).log = r.log ++ [b] := by
  rw [ByteRing.appendByte, ByteRing.log_publish]
  simp only [Function.update_self]
  rfl

/-- **A push appends as much of its bytes as fits**, and returns 0 exactly if that is all. -/
theorem pushBytes_spec {cap : UInt32} (me : ℕ) (bs : List UInt8) {r : ByteRing} {log : List UInt8}
    {taken : ℕ} (h : r.Follows cap log taken) :
    (pushBytes cap me bs r).1.Follows cap (log ++ bs.take (r.free cap)) taken ∧
      (pushBytes cap me bs r).1.log = r.log ++ bs.take (r.free cap) ∧
      (pushBytes cap me bs r).2 = if bs.length ≤ r.free cap then 0 else negENOSPC := by
  induction bs generalizing r log with
  | nil =>
      rw [List.take_nil, List.append_nil, List.append_nil]
      exact ⟨h, rfl, (if_pos (Nat.zero_le _)).symm⟩
  | cons b bs ih =>
      simp only [pushBytes]
      by_cases hfull : next cap r.wrIdx = r.rdIdx
      · rw [if_pos hfull, h.full_iff.mp hfull, List.take_zero, List.append_nil, List.append_nil,
          if_neg (by simp)]
        exact ⟨h, rfl, rfl⟩
      · have happ := h.appendByte hfull me b
        -- the byte takes one of the free cells, which leaves one less for the rest
        obtain ⟨k, hk⟩ : ∃ k, r.free cap = k + 1 :=
          Nat.exists_eq_succ_of_ne_zero fun h₀ => hfull (h.full_iff.mpr h₀)
        have hk' : (r.appendByte cap me b).free cap = k := by
          rw [happ.free_eq, List.length_append, List.length_singleton]
          rw [h.free_eq] at hk
          omega
        obtain ⟨htracks, hlog, hret⟩ := ih happ
        rw [hk'] at htracks hlog hret
        rw [ByteRing.log_appendByte, List.append_assoc] at hlog
        rw [List.append_assoc] at htracks
        rw [if_neg hfull, hk, List.take_succ_cons, List.length_cons]
        refine ⟨htracks, hlog, hret.trans ?_⟩
        simp only [Nat.add_le_add_iff_right]

/-! ## All or nothing -/

/-- **All or nothing**: the push returns 0 exactly if the whole metric fits, and has then added it
to the unread bytes; otherwise it returns `-ENOSPC` and has not moved anything. -/
structure AllOrNothing (cap : UInt32) (m : NetPacketMetric) (r r' : ByteRing) (ret : ℤ) :
    Prop where
  zero_iff : ret = 0 ↔ sizeofNetPacketMetric ≤ r.free cap
  appended : ret = 0 → r'.unread cap = r.unread cap ++ m.bytes
  refused : ret ≠ 0 → ret = negENOSPC ∧ r'.wrIdx = r.wrIdx ∧ r'.unread cap = r.unread cap

/-- The push, running alone on its lane, returns and is all or nothing. -/
def PushesWhole (f : PushFunction) (m : NetPacketMetric) (me : ℕ) (r : ByteRing) : Prop :=
  ∃ r' ret, Finishes (f.step m me) (r, .entry) (r', .done ret) ∧
    AllOrNothing f.capacity m r r' ret

/-- A ring on which a push may start: both indices in range, and the lock, if the push takes it,
not held. -/
structure ReadyForPush (f : PushFunction) (r : ByteRing) : Prop where
  rdIdx_lt : r.rdIdx < f.capacity
  wrIdx_lt : r.wrIdx < f.capacity
  lock_free : f.locked = true → r.lock = none

/-- What a ring that is ready for a push has tracked so far. -/
theorem ReadyForPush.follows {f : PushFunction} {r : ByteRing} (h : ReadyForPush f r) :
    r.Follows f.capacity ((List.range r.rdIdx.toNat).map r.buffer ++ r.unread f.capacity)
      r.rdIdx.toNat :=
  Tracks.of_lt r.buffer h.rdIdx_lt h.wrIdx_lt

/-- The unread bytes after a push are those before and what fitted. -/
theorem ReadyForPush.unread_pushBytes {f : PushFunction} {r : ByteRing} (h : ReadyForPush f r)
    (me : ℕ) (bs : List UInt8) :
    (pushBytes f.capacity me bs r).1.unread f.capacity
      = r.unread f.capacity ++ bs.take (r.free f.capacity) := by
  have hafter := Tracks.window_eq (pushBytes_spec me bs h.follows).1
  have hlen : ((List.range r.rdIdx.toNat).map r.buffer).length = r.rdIdx.toNat := by simp
  rw [List.append_assoc, List.drop_left' hlen] at hafter
  exact hafter

/-- **A push is all or nothing exactly where the whole metric fits, or nothing does.** -/
theorem pushesWhole_iff {f : PushFunction} (m : NetPacketMetric) (me : ℕ) {r : ByteRing}
    (h : ReadyForPush f r) :
    PushesWhole f m me r ↔
      sizeofNetPacketMetric ≤ r.free f.capacity ∨ r.free f.capacity = 0 := by
  have hrun := push_finishes f m me h.lock_free
  obtain ⟨-, -, hret⟩ := pushBytes_spec me m.bytes h.follows
  have hunread := h.unread_pushBytes me m.bytes
  rw [m.length_bytes] at hret
  constructor
  · rintro ⟨r', ret, hrun', hall⟩
    obtain ⟨rfl, hdone⟩ := Prod.mk.injEq .. ▸ hrun'.unique hrun
    obtain rfl := PushPc.done.inj hdone
    by_contra! hpart
    -- some bytes fitted but not all: the call failed, and yet the unread bytes have grown
    obtain ⟨hlt, hpos⟩ := hpart
    rw [if_neg (Nat.not_le.mpr hlt)] at hret
    obtain ⟨-, -, hsame⟩ := hall.refused (by rw [hret]; decide)
    have hlen := congrArg List.length (hsame.symm.trans hunread)
    rw [List.length_append, List.length_take, m.length_bytes] at hlen
    omega
  · intro hfit
    refine ⟨_, _, hrun, ?_⟩
    rcases hfit with hfit | hnone
    · rw [if_pos hfit] at hret
      rw [List.take_of_length_le (m.length_bytes.trans_le hfit)] at hunread
      exact ⟨iff_of_true hret hfit, fun _ => hunread, fun hne => absurd hret hne⟩
    · have hsmall : ¬ sizeofNetPacketMetric ≤ r.free f.capacity := by rw [hnone]; decide
      rw [if_neg hsmall] at hret
      have hne : negENOSPC ≠ 0 := by decide
      rw [hnone, List.take_zero, List.append_nil] at hunread
      refine ⟨iff_of_false (hret ▸ hne) hsmall, fun h₀ => absurd (hret.symm.trans h₀) hne,
        fun _ => ⟨hret, ?_, hunread⟩⟩
      -- the very first test finds the ring full
      have hfull : next f.capacity r.wrIdx = r.rdIdx := h.follows.full_iff.mpr hnone
      obtain ⟨b, bs, hb⟩ : ∃ b bs, m.bytes = b :: bs := ⟨_, _, rfl⟩
      rw [hb, pushBytes, if_pos hfull]

/-! ## A sequence of pushes -/

/-- What happens to a lane between two complete calls: a push runs from start to end, or the
consumer stores `rd_idx`. -/
inductive StreamAction
  | push (m : NetPacketMetric)
  | storeRd (v : UInt32)
  deriving DecidableEq, Repr

/-- The lane with the metrics pushed so far that the caller was told were accepted. -/
structure PushStream where
  ring : ByteRing
  accepted : List NetPacketMetric

/-- One complete call on the lane. -/
def streamNext (f : PushFunction) (me : ℕ) (s : PushStream) : StreamAction → Option PushStream
  | .push m =>
      let out := pushBytes f.capacity me m.bytes s.ring
      some ⟨out.1, if out.2 = 0 then s.accepted ++ [m] else s.accepted⟩
  | .storeRd v => some { s with ring := { s.ring with rdIdx := v } }

/-- The guard on the calls: a push finds room for a whole metric or for nothing, and the consumer
keeps its index in range. -/
def FitsWhole (f : PushFunction) (s : PushStream) : StreamAction → Prop
  | .push _ => sizeofNetPacketMetric ≤ s.ring.free f.capacity ∨ s.ring.free f.capacity = 0
  | .storeRd v => v < f.capacity

/-- The bytes of a list of metrics, one metric after the other. -/
def metricStream (ms : List NetPacketMetric) : List UInt8 := ms.flatMap NetPacketMetric.bytes

/-- **The invariant of the stream**: the lane stays ready for a push, and what was appended since
the start is the accepted metrics. -/
structure StreamInv (f : PushFunction) (log₀ : List UInt8) (s : PushStream) : Prop where
  ready : ReadyForPush f s.ring
  log_eq : s.ring.log = log₀ ++ metricStream s.accepted

/-- **A complete call keeps the stream whole.** -/
theorem StreamInv.step {f : PushFunction} {me : ℕ} {log₀ : List UInt8} {s s' : PushStream}
    {a : StreamAction} (h : StreamInv f log₀ s) (hfit : FitsWhole f s a)
    (hnext : streamNext f me s a = some s') : StreamInv f log₀ s' := by
  cases a with
  | storeRd v =>
      cases hnext
      exact ⟨⟨hfit, h.ready.wrIdx_lt, h.ready.lock_free⟩, h.log_eq⟩
  | push m =>
      cases hnext
      obtain ⟨htracks, hlog, hret⟩ := pushBytes_spec me m.bytes h.ready.follows
      obtain ⟨hlock, hrd, -⟩ := pushBytes_frame f.capacity me m.bytes s.ring
      have hready : ReadyForPush f (pushBytes f.capacity me m.bytes s.ring).1 :=
        ⟨Tracks.rd_lt htracks, Tracks.wr_lt htracks, fun hl => hlock.trans (h.ready.lock_free hl)⟩
      refine ⟨hready, ?_⟩
      rw [m.length_bytes] at hret
      simp only [hlog, hret, h.log_eq]
      rcases hfit with hfit | hnone
      · rw [if_pos hfit, if_pos rfl, List.take_of_length_le (m.length_bytes.trans_le hfit)]
        simp [metricStream]
      · have hsmall : ¬ sizeofNetPacketMetric ≤ s.ring.free f.capacity := by rw [hnone]; decide
        rw [if_neg hsmall, if_neg (by decide), hnone, List.take_zero, List.append_nil]

/-- **A push alone on its lane is all or nothing exactly where the whole metric fits or nothing
does; and as long as every push of a sequence does so, the stream is a concatenation of whole
metrics**, those whose push returned 0. -/
theorem push_allOrNothing_iff (f : PushFunction) (m : NetPacketMetric) (me : ℕ) {r : ByteRing}
    (h : ReadyForPush f r) :
    (PushesWhole f m me r ↔
      sizeofNetPacketMetric ≤ r.free f.capacity ∨ r.free f.capacity = 0) ∧
    ∀ s, ReachableUnder (streamNext f me) (FitsWhole f) ⟨r, []⟩ s →
      s.ring.log = r.log ++ metricStream s.accepted := by
  refine ⟨pushesWhole_iff m me h, fun s hs => StreamInv.log_eq (f := f) ?_⟩
  exact hs.invariant ⟨h, (List.append_nil _).symm⟩ fun _ _ _ hi hok hnext => hi.step hok hnext

/-- The zeroed page with `wr_idx` moved on. -/
def ByteRing.writtenUpTo (wr : UInt32) : ByteRing := { ByteRing.zeroed with wrIdx := wr }

/-- The check that a call meets the guard. -/
def fitsWholeCheck (f : PushFunction) (s : PushStream) : StreamAction → Bool
  | .push _ => decide
      (sizeofNetPacketMetric ≤ s.ring.free f.capacity ∨ s.ring.free f.capacity = 0)
  | .storeRd v => decide (v < f.capacity)

/-- A call that passes the check meets the guard. -/
theorem fitsWhole_of_check (f : PushFunction) (s : PushStream) (a : StreamAction)
    (h : fitsWholeCheck f s a = true) : FitsWhole f s a := by
  cases a <;> simpa only [fitsWholeCheck, FitsWhole, decide_eq_true_eq] using h

/-- The net ring with one unread byte, eight cells before the wrap. -/
def ringBeforeWrap : ByteRing := { ByteRing.writtenUpTo 760 with rdIdx := 759 }

/-- Two metrics go in, the first across the wrap; the consumer then stores the index behind
`wr_idx`, and the third push finds the ring full. -/
def pushesAcrossWrap : List StreamAction :=
  [.push ⟨1, 2, 3, 4, 5⟩, .storeRd 4, .push ⟨6, 7, 8, 9, 10⟩, .storeRd 25,
    .push ⟨11, 12, 13, 14, 15⟩]

/-- On that ring a push is all or nothing, and two whole metrics are what three pushes leave in the
stream. -/
theorem push_allOrNothing_across_wrap :
    PushesWhole .telemetryNetDevPushMetric ⟨1, 2, 3, 4, 5⟩ 0 ringBeforeWrap ∧
      ∃ s, ReachableUnder (streamNext .telemetryNetDevPushMetric 0)
          (FitsWhole .telemetryNetDevPushMetric) ⟨ringBeforeWrap, []⟩ s ∧ s.ring.wrIdx = 24 ∧
        s.ring.log = metricStream [⟨1, 2, 3, 4, 5⟩, ⟨6, 7, 8, 9, 10⟩] := by
  obtain ⟨hfirst, hstream⟩ := push_allOrNothing_iff .telemetryNetDevPushMetric ⟨1, 2, 3, 4, 5⟩ 0
    (r := ringBeforeWrap) ⟨by decide, by decide, fun _ => rfl⟩
  refine ⟨hfirst.mpr (.inl (by decide +kernel)), ?_⟩
  have hrun : (exec (checked (streamNext .telemetryNetDevPushMetric 0)
      (fitsWholeCheck .telemetryNetDevPushMetric)) ⟨ringBeforeWrap, []⟩ pushesAcrossWrap).map
        (fun s => (s.ring.wrIdx, s.accepted))
          = some (24, [⟨1, 2, 3, 4, 5⟩, ⟨6, 7, 8, 9, 10⟩]) := by decide +kernel
  obtain ⟨s, hs, heq⟩ := Option.map_eq_some_iff.mp hrun
  obtain ⟨hwr, haccepted⟩ := Prod.mk.inj heq
  have hreach : ReachableUnder (streamNext .telemetryNetDevPushMetric 0)
      (FitsWhole .telemetryNetDevPushMetric) ⟨ringBeforeWrap, []⟩ s :=
    .of_check (fitsWhole_of_check _) pushesAcrossWrap hs .start
  exact ⟨s, hreach, hwr, haccepted ▸ hstream s hreach⟩

/-- **Neither push is all or nothing**: after as many whole metrics as the ring takes (63 in the
char ring, 47 in the net ring) there are 15 bytes free, and the next push fills them. -/
theorem push_fills_gap :
    ¬ PushesWhole .telemetrySharedCharDevPushMetric ⟨1, 2, 3, 4, 5⟩ 0 (.writtenUpTo 1008) ∧
      ¬ PushesWhole .telemetryNetDevPushMetric ⟨1, 2, 3, 4, 5⟩ 0 (.writtenUpTo 752) := by
  constructor
  · rw [pushesWhole_iff _ 0 ⟨by decide, by decide, fun _ => rfl⟩, ByteRing.free_eq_distance]
    decide
  · rw [pushesWhole_iff _ 0 ⟨by decide, by decide, fun _ => rfl⟩, ByteRing.free_eq_distance]
    decide

end TelemetrySubsystem
