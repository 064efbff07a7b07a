import TelemetrySubsystem.BlockFilter.SkipAhead
import TelemetrySubsystem.TicketPool.ScatterGatherPass

/-! # The two engines of the block client on one quiet page

A scatter-gather pass stops at the first ticket that is not in its slot, a skip-ahead pass scans on.
On a page filled by completed commits a missing ticket is either the next one to come, which ends
both passes alike, or one that was overwritten a lap later: there the first engine stays where it is
and the second goes on to the oldest record left.

* **`EnginesAgree`** says that both deliver the same and store the same `rd_idx`.
* **`enginesAgree_iff`**: they agree exactly when the consumer has not been lapped. -/

namespace TelemetrySubsystem

open TicketPool WrapCounter

/-- **The engines agree**: one pass of either, from the same position on the same page, prints the
same lines in the same order and stores the same `rd_idx`. -/
def EnginesAgree (lane : TicketLane BlockIoMetric) (e : ℕ) : Prop :=
  ∃ lane₁ lane₂ lines, blockPool.Pass .scatterGather (UInt32.ofNat e) lane lane₁ lines ∧
    blockPool.Pass .skipAhead (UInt32.ofNat e) lane lane₂ lines ∧ lane₁.rdIdx = lane₂.rdIdx

section

variable {metrics : ℕ → BlockIoMetric} {W e : ℕ} {lane : TicketLane BlockIoMetric}

/-- **What is in its slot** after `W` commits: the last 8 records. -/
theorem blockPool_present_iff (h : FilledBy blockPool metrics W lane) (hW : 1 ≤ W) (he : e ≤ W)
    (hlag : W < e + 2 ^ 31) :
    blockPool.Present lane e ↔ e < W ∧ W ≤ e + blockfilterSlotCapacity :=
  h.present_iff (by decide) (fun k _ => blockPool_slotIdx k) hW he hlag

/-- **The skip-ahead engine** prints every record from its position on that is still there. -/
theorem skipAhead_prints (h : FilledBy blockPool metrics W lane) (hW : 1 ≤ W) (he : e ≤ W)
    (hlag : W < e + 2 ^ 31) :
    blockPool.Pass .skipAhead (UInt32.ofNat e) lane { lane with rdIdx := UInt32.ofNat W }
      ((recent blockfilterSlotCapacity e W).map (recordLine metrics)) := by
  obtain ⟨lines, hpass, hout, hall⟩ := h.skipAheadPass (by decide) (fun k _ => blockPool_slotIdx k)
    (blockPool_wrIdx h) hW he hlag
  rw [hall rfl] at hout
  exact hout ▸ hpass

/-- **The scatter-gather engine within a lap**: every record from its position on is there, up to
the ticket that comes next. -/
theorem scatterGather_within_lap (h : FilledBy blockPool metrics W lane) (hW : 1 ≤ W) (he : e ≤ W)
    (hlag : W < e + 2 ^ 31) (hlap : W ≤ e + blockfilterSlotCapacity) :
    blockPool.Pass .scatterGather (UInt32.ofNat e) lane { lane with rdIdx := UInt32.ofNat W }
      ((recent blockfilterSlotCapacity e W).map (recordLine metrics)) := by
  have hend : e + (W - e) = W := Nat.add_sub_of_le he
  have hpresent : ∀ t, e ≤ t → t < e + (W - e) → blockPool.Present lane t := by
    intro t hle hlt
    rw [blockPool_present_iff h hW (by omega) (by omega)]
    omega
  have hmissing : ¬ blockPool.Present lane (e + (W - e)) := by
    rw [hend, blockPool_present_iff h hW le_rfl (by omega)]
    omega
  obtain ⟨lines, hpass, hout, hall⟩ := scatterGatherPass hpresent hmissing
  rw [hall rfl] at hout
  rw [hend, hout] at hpass
  have hlines : (List.range' e (W - e)).map (blockPool.lineOf lane)
      = (recent blockfilterSlotCapacity e W).map (recordLine metrics) := by
    rw [recent, Nat.max_eq_left (by omega)]
    refine List.map_congr_left fun t ht => ?_
    rw [List.mem_range'_1] at ht
    have hslot := h.slot_of_recent (fun k _ => blockPool_slotIdx k) (e := t) (by omega)
      (show W ≤ t + blockfilterSlotCapacity by omega)
    rw [lineOf, hslot]
    rfl
  exact hlines ▸ hpass

/-- **The scatter-gather engine after a lap**: the ticket it waits for has been overwritten. It
prints nothing and stores the position it started from, where the next pass starts again. -/
theorem scatterGather_lapped (h : FilledBy blockPool metrics W lane) (hW : 1 ≤ W)
    (hlag : W < e + 2 ^ 31) (hlap : e + blockfilterSlotCapacity < W) :
    blockPool.Pass .scatterGather (UInt32.ofNat e) lane { lane with rdIdx := UInt32.ofNat e }
      [] := by
  have hmissing : ¬ blockPool.Present lane (e + 0) := by
    rw [Nat.add_zero, blockPool_present_iff h hW (by omega) hlag]
    omega
  obtain ⟨lines, hpass, hout, hall⟩ := scatterGatherPass (n := 0)
    (fun t hle hlt => absurd hlt (Nat.not_lt.mpr hle)) hmissing
  rw [hall rfl, List.range'_zero, List.map_nil] at hout
  exact hout ▸ hpass

/-- **After a lap the engines disagree**: the second one prints records that are still there. -/
theorem not_enginesAgree_of_lapped (h : FilledBy blockPool metrics W lane) (hW : 1 ≤ W)
    (hlag : W < e + 2 ^ 31) (hlap : e + blockfilterSlotCapacity < W) : ¬ EnginesAgree lane e := by
  rintro ⟨lane₁, lane₂, lines, hgather, hskip, -⟩
  obtain ⟨-, hnone⟩ := hgather.unique (scatterGather_lapped h hW hlag hlap)
  obtain ⟨-, hsome⟩ := hskip.unique (skipAhead_prints h hW (by omega) hlag)
  rw [hnone, recent, Nat.max_eq_right (by omega)] at hsome
  have hlength := congrArg List.length hsome
  have hcap : blockfilterSlotCapacity = 8 := rfl
  simp only [List.length_nil, List.length_map, List.length_range'] at hlength
  omega

end

/-- **The engines agree as long as the consumer has not been lapped, and only then**: after `W`
completed commits, at position `e`, one pass of either delivers the same records and stores the same
`rd_idx` exactly when at most 8 commits lie between the two. -/
theorem enginesAgree_iff (metrics : ℕ → BlockIoMetric) (W e : ℕ) (lane : TicketLane BlockIoMetric)
    (hW : 1 ≤ W) (he : e ≤ W) (hlag : W - e < 2 ^ 31)
    (h : blockPool.CompletedCalls (fun k => some (metrics k)) W lane) :
    EnginesAgree lane e ↔ W ≤ e + blockfilterSlotCapacity := by
  have hfilled := h.filledBy
  constructor
  · intro hagree
    by_contra hlap
    exact not_enginesAgree_of_lapped hfilled hW (by omega) (by omega) hagree
  · intro hlap
    exact ⟨_, _, _, scatterGather_within_lap hfilled hW he (by omega) hlap,
      skipAhead_prints hfilled hW he (by omega), rfl⟩

/-- After five commits the engines agree at position 2. -/
theorem enginesAgree_five : ∃ lane,
    blockPool.CompletedCalls (fun _ => some sampleBlockMetric) 5 lane ∧ EnginesAgree lane 2 := by
  obtain ⟨lane, h⟩ := exists_completedCalls (R := blockPool) (fun _ => sampleBlockMetric) 5
  exact ⟨lane, h, (enginesAgree_iff _ 5 2 lane (by decide) (by decide) (by decide) h).mpr
    (by decide)⟩

/-- **A lapped consumer in scatter-gather mode is stuck**: after ten commits and at position 1 it
prints nothing and stores 1 again, while skip-ahead mode prints the eight records of tickets 2 to 9
and stores 10. -/
theorem scatterGather_stuck : ∃ lane lines,
    blockPool.CompletedCalls (fun _ => some sampleBlockMetric) 10 lane ∧
      blockPool.Pass .scatterGather 1 lane { lane with rdIdx := 1 } [] ∧
      blockPool.Pass .skipAhead 1 lane { lane with rdIdx := 10 } lines ∧
      acceptedTickets lines = [2, 3, 4, 5, 6, 7, 8, 9] ∧ ¬ EnginesAgree lane 1 := by
  obtain ⟨lane, h⟩ := exists_completedCalls (R := blockPool) (fun _ => sampleBlockMetric) 10
  have hfilled := h.filledBy
  exact ⟨lane, _, h, scatterGather_lapped hfilled (by decide) (by decide) (by decide),
    skipAhead_prints hfilled (by decide) (by decide) (by decide), by decide,
    not_enginesAgree_of_lapped hfilled (by decide) (by decide) (by decide)⟩

end TelemetrySubsystem
