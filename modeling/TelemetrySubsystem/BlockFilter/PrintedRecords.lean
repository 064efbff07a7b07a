import TelemetrySubsystem.BlockFilter.SkipAhead
import TelemetrySubsystem.NetFilter.ShownRecords

/-! # What the block client's lines tell

`process_block_metric` prints one line for a record. All numbers of a line are printed completely
and the sector is put together from its halves, so that the lines can be read back into the records
that were processed, up to the moment they were looked at. The status lines of the client's threads
are not among them.

* **`blockText`** is the line, **`transcript`** the lines that `process_block_metric` prints.
* **`TranscriptTells`** is the law. -/

namespace TelemetrySubsystem

open ActionSystem TicketPool
open Function (update)

/-! ## A line -/

/-- The text of a line of `process_block_metric`. -/
def blockText (l : BlockLine) : List Char :=
  "BLOCK TICKET:".toList ++ ((decimal l.ticket.toNat
    ++ " | DEV:".toList) ++ ((decimal l.devMajor.toNat ++ ":".toList) ++ ((decimal l.devMinor.toNat
    ++ " | SECTOR:".toList) ++ ((decimal l.sector.toNat
    ++ " | NSECT:".toList) ++ ((decimal l.nsect.toNat
    ++ " | BYTES:".toList) ++ ((decimal l.bytes.toNat ++ " | OP:".toList) ++ ((decimal l.op.toNat
    ++ " | FLAGS:".toList) ++ (decimal l.flags.toNat ++ "\n".toList))))))))

/-- The numbers of a line, in the order they are printed. -/
def BlockLine.numbers (l : BlockLine) : ℕ × ℕ × ℕ × ℕ × ℕ × ℕ × ℕ × ℕ :=
  (l.ticket.toNat, l.devMajor.toNat, l.devMinor.toNat, l.sector.toNat, l.nsect.toNat,
    l.bytes.toNat, l.op.toNat, l.flags.toNat)

/-- They determine the line. -/
theorem BlockLine.numbers_injective : Function.Injective BlockLine.numbers := fun x y h => by
  obtain ⟨t, major, minor, sector, nsect, bytes, op, flags⟩ := x
  simp only [BlockLine.numbers, Prod.mk.injEq, UInt32.toNat_inj, UInt64.toNat_inj] at h
  obtain ⟨rfl, rfl, rfl, rfl, rfl, rfl, rfl, rfl⟩ := h
  rfl

/-- **A line can be read back.** -/
theorem prefixCode_blockText : PrefixCode blockText := by
  have hcode := ((decimal_field (c := ' ') rfl "| DEV:".toList).append
    ((decimal_field (c := ':') rfl []).append
      ((decimal_field (c := ' ') rfl "| SECTOR:".toList).append
        ((decimal_field (c := ' ') rfl "| NSECT:".toList).append
          ((decimal_field (c := ' ') rfl "| BYTES:".toList).append
            ((decimal_field (c := ' ') rfl "| OP:".toList).append
              ((decimal_field (c := ' ') rfl "| FLAGS:".toList).append
                (decimal_field (c := '\n') rfl [])))))))).comp BlockLine.numbers_injective
  exact hcode.text_append _

/-! ## The lines -/

/-- A record as the `process` function has read it. -/
def Line.record {P : Type} (l : Line P) : UInt32 × P := (l.slotTicket, l.metric)

/-- The sector as a number, from its halves. -/
theorem sector_toNat (high low : UInt32) :
    ((high.toUInt64 <<< 32) ||| low.toUInt64).toNat = high.toNat * 2 ^ 32 + low.toNat := by
  have hhigh : high.toNat < 2 ^ 32 := high.toNat_lt
  have hlow : low.toNat < 2 ^ 32 := low.toNat_lt
  have hshift : (high.toUInt64 <<< 32).toNat = high.toNat <<< 32 := by
    rw [UInt64.toNat_shiftLeft, UInt32.toNat_toUInt64]
    simp only [UInt64.toNat_ofNat, Nat.shiftLeft_eq, Nat.reducePow, Nat.reduceMod]
    omega
  rw [UInt64.toNat_or, hshift, UInt32.toNat_toUInt64, ← Nat.shiftLeft_add_eq_or_of_lt hlow,
    Nat.shiftLeft_eq]

/-- **No two records are printed alike**: the halves of the sector do not run into each other. -/
theorem processBlockMetric_injective :
    Function.Injective fun r : UInt32 × BlockIoMetric => processBlockMetric r.1 r.2 := by
  rintro ⟨t, major, minor, low, high, nsect, bytes, op, flags⟩
    ⟨t', major', minor', low', high', nsect', bytes', op', flags'⟩ h
  simp only [processBlockMetric, BlockLine.mk.injEq] at h
  obtain ⟨rfl, rfl, rfl, hsector, rfl, rfl, rfl, rfl⟩ := h
  have hnum := congrArg UInt64.toNat hsector
  rw [sector_toNat, sector_toNat] at hnum
  have hlow : low.toNat < 2 ^ 32 := low.toNat_lt
  have hlow' : low'.toNat < 2 ^ 32 := low'.toNat_lt
  obtain rfl : high = high' := UInt32.toNat_inj.mp (by omega)
  obtain rfl : low = low' := UInt32.toNat_inj.mp (by omega)
  rfl

/-- **The lines `process_block_metric` prints**, one after another. -/
def transcript (lines : List (Line BlockIoMetric)) : List Char :=
  (lines.map fun l => blockText l.printed).flatten

/-- They are a row of words, one for each record. -/
theorem transcript_eq (lines : List (Line BlockIoMetric)) : transcript lines
    = ((lines.map Line.record).map fun r => blockText (processBlockMetric r.1 r.2)).flatten := by
  rw [transcript, List.map_map]
  rfl

/-- **A part of the lines shows a part of the records.** -/
theorem transcript_prefix_iff (lines lines' : List (Line BlockIoMetric)) :
    transcript lines <+: transcript lines' ↔
      lines.map Line.record <+: lines'.map Line.record := by
  rw [transcript_eq, transcript_eq]
  exact (prefixCode_blockText.comp processBlockMetric_injective).flatten_prefix_iff
    (fun r h => List.cons_ne_nil _ _ h) _ _

namespace TicketPool

variable {P F : Type} [DecidableEq F] [Fieldwise P F] {R : TicketPool P F}

/-- A step of the thread only adds to what has been printed. -/
theorem ConsumerMove.lines_prefix {lane lane' : TicketLane P} {k k' : Consumer P F}
    (h : R.ConsumerMove lane k lane' k') : k.lines <+: k'.lines := by
  cases h with
  | aside _ _ _ _ hlines => rw [hlines]
  | copy _ | load _ _ | accept _ | process _ | field _ => exact List.prefix_refl _
  | print _ =>
      rw [resume_lines]
      exact List.prefix_append _ _

/-- **A run only adds to what has been printed.** -/
theorem lines_prefix_of_reachable {calls : ℕ → Option P} {s s' : PoolState P F}
    (h : Reachable (R.poolNext calls) s s') : s.consumer.lines <+: s'.consumer.lines := by
  refine h.invariant (I := fun t => s.consumer.lines <+: t.consumer.lines) (List.prefix_refl _) ?_
  intro t a t' hi _ hnext
  obtain ⟨c, lane, pc, -, -, rfl⟩ | ⟨mode, -, -, rfl⟩ | ⟨run, lane, k, -, hmove, rfl⟩ :=
    poolNext_cases hnext
  · exact hi
  · exact hi
  · exact hi.trans hmove.lines_prefix

end TicketPool

/-- **What the lines `process_block_metric` prints tell.** -/
structure TranscriptTells : Prop where
  /-- Two runs have printed the same lines exactly when they have processed the same records in the
  same order, and one has printed the beginning of the other's when it has processed its
  beginning. -/
  records : ∀ lines lines', transcript lines <+: transcript lines' ↔
    lines.map Line.record <+: lines'.map Line.record
  /-- What has been printed stays: later lines go on where earlier ones end. -/
  grows : ∀ metrics s s', Reachable (blockNext metrics) s s' →
    transcript s.consumer.lines <+: transcript s'.consumer.lines

/-- **The lines `process_block_metric` prints can be read back**, at every moment of a run. -/
theorem transcriptTells : TranscriptTells where
  records := transcript_prefix_iff
  grows _ _ _ h := (transcript_prefix_iff _ _).mpr ((lines_prefix_of_reachable h).map _)

end TelemetrySubsystem
