import TelemetrySubsystem.TicketPool.PassEnds

/-! # One skip-ahead pass on a quiet lane

With no producer at work, a skip-ahead pass from ticket `e` with horizon hint `H` accepts exactly
the tickets in `[e, H]` whose slot carries them, in order, and ends one past the last of them.
Tickets are unbounded counts here; the words the thread works with are these counts modulo `2^32`.

* **`presentTickets`**: the tickets of a range that the lane carries.
* **`passEnds_rounds`** follows the rounds and the scans up to the horizon.
* **`skipAheadPass`** is the result. -/

namespace TelemetrySubsystem

open ActionSystem WrapCounter

namespace TicketPool

variable {P F : Type} [DecidableEq F] [Fieldwise P F] (R : TicketPool P F)

/-! ## What a pass accepts -/

/-- The tickets from `e` to `H` that the lane carries. -/
def presentTickets (lane : TicketLane P) (e H : ℕ) : List ℕ :=
  (List.range' e (H + 1 - e)).filter fun t => R.Present lane t

/-- One past the last ticket accepted, or the start when none was. -/
def endTicket (tickets : List ℕ) (e : ℕ) : ℕ := (tickets.getLast?.map (· + 1)).getD e

variable {R}

theorem mem_presentTickets {lane : TicketLane P} {e H t : ℕ} :
    t ∈ R.presentTickets lane e H ↔ (e ≤ t ∧ t ≤ H) ∧ R.Present lane t := by
  rw [presentTickets, List.mem_filter, List.mem_range'_1, decide_eq_true_iff]
  exact and_congr_left fun _ => by omega

theorem presentTickets_of_lt {lane : TicketLane P} {e H : ℕ} (h : H < e) :
    R.presentTickets lane e H = [] := by
  rw [presentTickets, Nat.sub_eq_zero_of_le h]
  rfl

theorem presentTickets_of_present {lane : TicketLane P} {e H : ℕ} (h : e ≤ H)
    (hp : R.Present lane e) :
    R.presentTickets lane e H = e :: R.presentTickets lane (e + 1) H := by
  rw [presentTickets, presentTickets, show H + 1 - e = H + 1 - (e + 1) + 1 by omega,
    List.range'_succ, List.filter_cons_of_pos (by simpa using hp)]

theorem presentTickets_of_not_present {lane : TicketLane P} {e H : ℕ} (h : e ≤ H)
    (hp : ¬ R.Present lane e) :
    R.presentTickets lane e H = R.presentTickets lane (e + 1) H := by
  rw [presentTickets, presentTickets, show H + 1 - e = H + 1 - (e + 1) + 1 by omega,
    List.range'_succ, List.filter_cons_of_neg (by simpa using hp)]

theorem endTicket_cons (t : ℕ) (ts : List ℕ) (e : ℕ) :
    endTicket (t :: ts) e = endTicket ts (t + 1) := by
  rw [endTicket, endTicket, List.getLast?_cons]
  cases ts.getLast? <;> rfl

/-! ## Rounds and scans -/

/-- A thread in a skip-ahead pass, with its expected ticket and its hint as counts. -/
def skipState (snapshot : ℕ → Slot P) (e H : ℕ) (lines : List (Line P)) (pc : ConsumerPc P F) :
    Consumer P F :=
  ⟨.skipAhead, pc, UInt32.ofNat e, UInt32.ofNat H, snapshot, lines⟩

variable {lane : TicketLane P} {snapshot : ℕ → Slot P} {e H : ℕ} {lines : List (Line P)}
  {rd : UInt32} {out : List (Line P)}

/-- The program point at the head of a round. -/
def roundPc (e H : ℕ) : ConsumerPc P F :=
  if atOrPast (UInt32.ofNat H) (UInt32.ofNat e) then .loadTicket else .storeRd

/-- The program point at the head of a scan. -/
def scanPc (R : TicketPool P F) (s H : ℕ) : ConsumerPc P F :=
  if atOrPast (UInt32.ofNat H) (UInt32.ofNat s) then
    if R.processesFirst then .processTicket (.scan (UInt32.ofNat s)) else .scanLoad (UInt32.ofNat s)
  else .storeRd

/-- **A round that finds its ticket** accepts it, and the next round is about the next ticket. -/
theorem passEnds_accept (hp : R.Present lane e)
    (h : ∀ lines, PassEnds R lane (skipState snapshot (e + 1) H lines (roundPc (e + 1) H)) rd out)
    (lines : List (Line P)) :
    PassEnds R lane (skipState snapshot e H lines .loadTicket) rd (R.lineOf lane e :: out) := by
  refine PassEnds.accept (k := skipState snapshot e H lines .loadTicket) rfl hp (fun lines' => ?_)
    lines
  have hnext := h lines'
  rw [skipState, roundPc, ofNat_succ] at hnext
  exact hnext

/-- **A round that misses its ticket** starts a scan from the next one. -/
theorem passEnds_miss (hp : ¬ R.Present lane e)
    (h : ∀ lines, PassEnds R lane (skipState snapshot e H lines (scanPc R (e + 1) H)) rd out)
    (lines : List (Line P)) :
    PassEnds R lane (skipState snapshot e H lines .loadTicket) rd out := by
  refine PassEnds.miss (k := skipState snapshot e H lines .loadTicket) rfl hp (fun lines' => ?_)
    lines
  have hnext := h lines'
  rw [scanPc, ofNat_succ] at hnext
  exact hnext

/-- **A scan that looks at a slot** goes on there: to a round when it carries the ticket, to the
next ticket when it does not. -/
theorem passEnds_scan {s : ℕ} (hle : atOrPast (UInt32.ofNat H) (UInt32.ofNat s) = true)
    (hpresent : R.Present lane s →
      ∀ lines, PassEnds R lane (skipState snapshot s H lines (roundPc s H)) rd out)
    (hmissing : ¬ R.Present lane s →
      ∀ lines, PassEnds R lane (skipState snapshot e H lines (scanPc R (s + 1) H)) rd out)
    (lines : List (Line P)) :
    PassEnds R lane (skipState snapshot e H lines (scanPc R s H)) rd out := by
  have hload : ∀ lines,
      PassEnds R lane (skipState snapshot e H lines (.scanLoad (UInt32.ofNat s))) rd out := by
    intro lines
    by_cases hp : R.Present lane s
    · exact PassEnds.step (if_pos hp) (hpresent hp lines) rfl
    · refine PassEnds.step ?_ (hmissing hp lines) rfl
      rw [scanPc, ofNat_succ]
      exact if_neg hp
  rw [scanPc, if_pos hle]
  cases hfirst : R.processesFirst with
  | false => exact hload lines
  | true =>
      exact PassEnds.process (k := skipState snapshot e H lines .loadTicket) (.scan _) rfl
        (by simp [hfirst]) (hload _)

/-! ## The whole pass -/

/-- **Rounds and scans up to the horizon**, by induction on what is left of it: a round at ticket
`e` accepts the tickets present from `e` on, and so does a scan at `e` on behalf of an earlier
ticket. -/
theorem passEnds_rounds (n : ℕ) : ∀ e, e + n = H + 1 → n ≤ 2 ^ 31 →
    (∀ lines, PassEnds R lane (skipState snapshot e H lines (roundPc e H))
      (UInt32.ofNat (endTicket (R.presentTickets lane e H) e))
      ((R.presentTickets lane e H).map (R.lineOf lane))) ∧
    ∀ e₀ lines, PassEnds R lane (skipState snapshot e₀ H lines (scanPc R e H))
      (UInt32.ofNat (endTicket (R.presentTickets lane e H) e₀))
      ((R.presentTickets lane e H).map (R.lineOf lane)) := by
  induction n with
  | zero =>
      -- past the horizon nothing is left to look at
      intro e he _
      have hpast : atOrPast (UInt32.ofNat H) (UInt32.ofNat e) = false := by
        rw [Bool.eq_false_iff, Ne, atOrPast_ofNat_iff (by omega) (by omega)]
        omega
      rw [presentTickets_of_lt (by omega), roundPc, scanPc, hpast]
      exact ⟨fun lines => passEnds_storeRd (skipState snapshot e H lines .storeRd),
        fun e₀ lines => passEnds_storeRd (skipState snapshot e₀ H lines .storeRd)⟩
  | succ n ih =>
      intro e he hn
      obtain ⟨hround, hscan⟩ := ih (e + 1) (by omega) (by omega)
      have hle : atOrPast (UInt32.ofNat H) (UInt32.ofNat e) = true :=
        (atOrPast_ofNat_iff (by omega) (by omega)).mpr (by omega)
      have hfirst : ∀ lines, PassEnds R lane (skipState snapshot e H lines (roundPc e H))
          (UInt32.ofNat (endTicket (R.presentTickets lane e H) e))
          ((R.presentTickets lane e H).map (R.lineOf lane)) := by
        intro lines
        rw [roundPc, if_pos hle]
        by_cases hp : R.Present lane e
        · rw [presentTickets_of_present (by omega) hp, endTicket_cons, List.map_cons]
          exact passEnds_accept hp hround lines
        · rw [presentTickets_of_not_present (by omega) hp]
          exact passEnds_miss hp (hscan e) lines
      -- a scan that finds its ticket starts a round there, one that does not goes on scanning
      refine ⟨hfirst, fun e₀ lines => passEnds_scan hle (fun hp => ?_) (fun hp => ?_) lines⟩
      · rw [presentTickets_of_present (by omega) hp, endTicket_cons] at hfirst ⊢
        exact hfirst
      · rw [presentTickets_of_not_present (by omega) hp]
        exact hscan e₀

/-- **A skip-ahead pass on a quiet lane** from ticket `e` with horizon hint `H` terminates, accepts
exactly the tickets in `[e, H]` whose slots carry them, each once and in order, and stores one past
the last of them, or `e` when there is none. -/
theorem skipAheadPass {lane : TicketLane P} {e H : ℕ} (hwr : lane.wrIdx = UInt32.ofNat H)
    (hA : H < e + 2 ^ 31) (hB : e ≤ H + 2 ^ 31) : ∃ lines,
      R.Pass .skipAhead (UInt32.ofNat e) lane
        { lane with rdIdx := UInt32.ofNat (endTicket (R.presentTickets lane e H) e) } lines ∧
      acceptedLines lines = (R.presentTickets lane e H).map (R.lineOf lane) ∧
      (R.processesFirst = false → acceptedLines lines = lines) := by
  have hends : PassEnds R lane (skipState (fun _ => R.zeroSlot) e H [] (roundPc e H))
      (UInt32.ofNat (endTicket (R.presentTickets lane e H) e))
      ((R.presentTickets lane e H).map (R.lineOf lane)) := by
    rcases Nat.lt_or_ge H e with hlt | hle
    · have hpast : atOrPast (UInt32.ofNat H) (UInt32.ofNat e) = false := by
        rw [Bool.eq_false_iff, Ne, atOrPast_ofNat_iff hA hB]
        omega
      rw [presentTickets_of_lt hlt, roundPc, hpast]
      exact passEnds_storeRd (skipState (fun _ => R.zeroSlot) e H [] .storeRd)
    · exact (passEnds_rounds (H + 1 - e) e (by omega) (by omega)).1 []
  obtain ⟨k', more, hfin, hlines, hout, hall⟩ := hends
  have hload : R.passStep (lane, R.passAt .skipAhead (UInt32.ofNat e))
      = some (lane, skipState (fun _ => R.zeroSlot) e H [] (roundPc e H)) := by
    rw [skipState, ← hwr, roundPc, ← hwr]
    rfl
  refine ⟨more, ⟨k', .step hload hfin, hlines⟩, hout, fun hno => ?_⟩
  rw [hout, hall hno]

/-- **The tickets a skip-ahead pass accepts** on a quiet lane. -/
theorem acceptedTickets_skipAhead {lane lane' : TicketLane P} {e H : ℕ} {lines : List (Line P)}
    (h : R.Pass .skipAhead (UInt32.ofNat e) lane lane' lines) (hwr : lane.wrIdx = UInt32.ofNat H)
    (hA : H < e + 2 ^ 31) (hB : e ≤ H + 2 ^ 31) :
    acceptedTickets lines = (R.presentTickets lane e H).map UInt32.ofNat ∧
      lane'.rdIdx = UInt32.ofNat (endTicket (R.presentTickets lane e H) e) := by
  obtain ⟨lines', hpass, hout, -⟩ := skipAheadPass (R := R) hwr hA hB
  obtain ⟨rfl, rfl⟩ := h.unique hpass
  refine ⟨?_, rfl⟩
  rw [← acceptedTickets_acceptedLines, hout, acceptedTickets, List.filterMap_map]
  exact congrFun List.filterMap_eq_map' _

end TicketPool

end TelemetrySubsystem
