import TelemetrySubsystem.TicketPool.PassEnds

/-! # One scatter-gather pass on a quiet lane

With no producer at work, the copy of the pool is exact, and the rounds over it accept the tickets
from the expected one on for as long as each is in its slot. There is no scan: the first ticket that
is not there ends the pass.

* **`passEnds_copyPool`** takes the copy, word by word and slot by slot.
* **`passEnds_gather`** walks the copy.
* **`scatterGatherPass`** is the result. -/

namespace TelemetrySubsystem

open ActionSystem WrapCounter Fieldwise
open Function (update)

namespace TicketPool

variable {P F : Type} [DecidableEq F] [Fieldwise P F] {R : TicketPool P F}

/-- A thread in a scatter-gather pass, with its expected ticket as a count. -/
def gatherState (snapshot : ℕ → Slot P) (e : ℕ) (lines : List (Line P)) (pc : ConsumerPc P F) :
    Consumer P F :=
  ⟨.scatterGather, pc, UInt32.ofNat e, 0, snapshot, lines⟩

variable {lane : TicketLane P} {snapshot : ℕ → Slot P} {e : ℕ} {lines : List (Line P)}
  {rd : UInt32} {out : List (Line P)}

/-! ## The copy of the pool -/

/-- The program point once the first `i` slots have been copied. -/
def copiedPc (R : TicketPool P F) (i : ℕ) : ConsumerPc P F :=
  if i < R.capacity then .copy i 0 else .loadTicket

/-- **The copy of a slot**, by induction on the words that are left: a quiet slot is copied exactly,
whatever the destination held before. -/
theorem passEnds_copySlot {i : ℕ} (n : ℕ) : ∀ (w : ℕ) (snapshot : ℕ → Slot P),
    w + n = R.words.length →
    CopiedExcept (R.words.drop w).flatten (lane.slots i).payload (snapshot i).payload →
    PassEnds R lane (gatherState (update snapshot i (lane.slots i)) e lines (copiedPc R (i + 1))) rd
      out →
    PassEnds R lane (gatherState snapshot e lines (.copy i w)) rd out := by
  induction n with
  | zero =>
      -- the ticket word comes last
      intro w snapshot hw hcopied h
      have hslot : R.copyWord w (lane.slots i) (snapshot i) = lane.slots i :=
        copyWord_last (Nat.le_of_eq hw.symm) hcopied
      have hlast : ¬ w < R.words.length := by omega
      refine PassEnds.step ?_ h rfl
      rw [copiedPc]
      simp only [passStep, gatherState, consumerStep, afterCopy, if_neg hlast, hslot]
      rfl
  | succ n ih =>
      intro w snapshot hw hcopied h
      have hlt : w < R.words.length := by omega
      have hstep : R.passStep (lane, gatherState snapshot e lines (.copy i w))
          = some (lane, gatherState (update snapshot i (R.copyWord w (lane.slots i) (snapshot i))) e
            lines (.copy i (w + 1))) := by
        simp only [passStep, gatherState, consumerStep, afterCopy, if_pos hlt]
      refine PassEnds.step hstep (ih (w + 1) _ (by omega) ?_ ?_) rfl
      · rw [Function.update_self]
        exact copiedExcept_copyWord hlt hcopied
      · rw [Function.update_idem]
        exact h

/-- **The copy of the pool**, by induction on the slots that are left. -/
theorem passEnds_copyPool
    (h : ∀ snapshot : ℕ → Slot P, (∀ j < R.capacity, snapshot j = lane.slots j) →
      PassEnds R lane (gatherState snapshot e lines .loadTicket) rd out) (n : ℕ) :
    ∀ (i : ℕ) (snapshot : ℕ → Slot P), i + n = R.capacity →
      (∀ j < i, snapshot j = lane.slots j) →
      PassEnds R lane (gatherState snapshot e lines (copiedPc R i)) rd out := by
  induction n with
  | zero =>
      intro i snapshot hi hcopied
      rw [copiedPc, if_neg (by omega)]
      exact h snapshot fun j hj => hcopied j (by omega)
  | succ n ih =>
      intro i snapshot hi hcopied
      rw [copiedPc, if_pos (by omega)]
      refine passEnds_copySlot R.words.length 0 snapshot (Nat.zero_add _)
        (CopiedExcept.start (fun f => R.mem_words f) _ _) (ih (i + 1) _ (by omega) fun j hj => ?_)
      rcases Nat.lt_succ_iff_lt_or_eq.mp hj with hlt | rfl
      · rw [Function.update_of_ne hlt.ne]
        exact hcopied j hlt
      · exact Function.update_self ..

/-! ## The rounds over the copy -/

/-- **Rounds over an exact copy**: `n` tickets in a row are there and are accepted, the next one is
not and ends the pass. -/
theorem passEnds_gather (hcopied : ∀ j < R.capacity, snapshot j = lane.slots j) (n : ℕ) :
    ∀ e, (∀ t, e ≤ t → t < e + n → R.Present lane t) → ¬ R.Present lane (e + n) →
      ∀ lines, PassEnds R lane (gatherState snapshot e lines .loadTicket) (UInt32.ofNat (e + n))
        ((List.range' e n).map (R.lineOf lane)) := by
  have hview : ∀ t,
      snapshot (R.slotIdx (UInt32.ofNat t)) = lane.slots (R.slotIdx (UInt32.ofNat t)) :=
    fun t => hcopied _ (Nat.mod_lt _ R.capacity_pos)
  induction n with
  | zero =>
      intro e _ hmissing lines
      refine PassEnds.miss (k := gatherState snapshot e lines .loadTicket) (hview e) hmissing
        (fun lines' => ?_) lines
      exact passEnds_storeRd (gatherState snapshot e lines' .storeRd)
  | succ n ih =>
      intro e hpresent hmissing lines
      refine PassEnds.accept (k := gatherState snapshot e lines .loadTicket) (hview e)
        (hpresent e le_rfl (by omega)) (fun lines' => ?_) lines
      have hnext := ih (e + 1) (fun t hle hlt => hpresent t (by omega) (by omega))
        (by rwa [Nat.add_right_comm]) lines'
      rw [gatherState, ofNat_succ, show e + 1 + n = e + (n + 1) by omega] at hnext
      exact hnext

/-- **A scatter-gather pass on a quiet lane** from ticket `e`, when exactly the next `n` tickets in
a row are in their slots: it terminates, accepts these tickets in order and stores one past the last
of them. -/
theorem scatterGatherPass {lane : TicketLane P} {e n : ℕ}
    (hpresent : ∀ t, e ≤ t → t < e + n → R.Present lane t) (hmissing : ¬ R.Present lane (e + n)) :
    ∃ lines,
      R.Pass .scatterGather (UInt32.ofNat e) lane { lane with rdIdx := UInt32.ofNat (e + n) }
        lines ∧
      acceptedLines lines = (List.range' e n).map (R.lineOf lane) ∧
      (R.processesFirst = false → acceptedLines lines = lines) := by
  have hstart : R.passAt .scatterGather (UInt32.ofNat e)
      = gatherState (fun _ => R.zeroSlot) e [] (copiedPc R 0) := by
    rw [copiedPc, if_pos R.capacity_pos]
    rfl
  have hends : PassEnds R lane (R.passAt .scatterGather (UInt32.ofNat e)) (UInt32.ofNat (e + n))
      ((List.range' e n).map (R.lineOf lane)) := by
    rw [hstart]
    exact passEnds_copyPool
      (fun snapshot hcopied => passEnds_gather hcopied n e hpresent hmissing [])
      R.capacity 0 _ (Nat.zero_add _) (fun j hj => absurd hj (Nat.not_lt_zero j))
  obtain ⟨k', more, hfin, hlines, hout, hall⟩ := hends
  refine ⟨more, ⟨k', hfin, hlines⟩, hout, fun hno => ?_⟩
  rw [hout, hall hno]

end TicketPool

end TelemetrySubsystem
