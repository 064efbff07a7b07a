import TelemetrySubsystem.Foundations.ActionSystem
import TelemetrySubsystem.Foundations.WrapCounter
import TelemetrySubsystem.TicketPool.Producer

/-! # The consumer of a ticketed slot pool

The net client and the block client run the same consumer thread. It keeps the ticket it expects
next and works in one of two modes: scatter-gather copies the whole pool and then walks the copy,
skip-ahead walks the shared slots up to a horizon hint and, where the expected ticket is missing,
scans ahead for the next one that is there. Either way a ticket is accepted when the ticket word of
its slot equals it, and the slot is handed to the client's `process` function, which reads it field
by field and prints a line.

* **`Consumer`** is the thread with its locals; **`Line`** is what one call of the `process`
  function prints.
* **`consumerStep`** is one access of the thread, on any lane.
* **`passStep`** is the same thread in between two tests of `run_signal`: one pass. -/

namespace TelemetrySubsystem

open ActionSystem WrapCounter
open Function (update)

/-! ## The thread and its locals -/

/-- `consumer_mode_t` and `block_consumer_mode_t`. -/
inductive ConsumerMode
  | scatterGather
  | skipAhead
  deriving DecidableEq, Repr

/-- A ticket the consumer has accepted. -/
structure Accepted where
  ticket : UInt32
  /-- History: the call that had stamped the ticket word found equal to it. -/
  stampedBy : Option ℕ
  deriving DecidableEq, Repr

/-- **One line of the `process` function**: the ticket word and the payload it read. -/
structure Line (P : Type) where
  slotTicket : UInt32
  metric : P
  /-- The ticket the line was printed for, or `none` for a line printed before the ticket test. -/
  accepted : Option Accepted
  deriving DecidableEq, Repr

/-- Where the thread continues when the `process` function returns. -/
inductive AfterProcess
  /-- Compare the ticket word that was loaded with the expected ticket. -/
  | compare (foundTicket : UInt32) (stampedBy : Option ℕ)
  /-- Load the ticket word of the slot scanned. -/
  | scan (scanTicket : UInt32)
  /-- Go on to the next ticket. -/
  | advance (accepted : Accepted)
  deriving DecidableEq, Repr

/-- Why the `process` function was called. -/
def AfterProcess.accepted : AfterProcess → Option Accepted
  | .advance accepted => some accepted
  | _ => none

/-- Program points of the consumer thread, each in front of one access. -/
inductive ConsumerPc (P F : Type)
  /-- Not running. -/
  | terminated
  /-- Load `state_flags` to raise the active flag. -/
  | raiseLoad
  /-- Store `state_flags`. -/
  | raiseStore (stateFlags : UInt32)
  /-- Load `rd_idx` as the first expected ticket. -/
  | loadRd
  /-- `while (args->run_signal)`. -/
  | loop
  /-- Scatter-gather: copy word `w` of slot `i`, the ticket word coming last. -/
  | copy (i w : ℕ)
  /-- Skip-ahead: load `wr_idx` as the highest hint. -/
  | loadHint
  /-- Load the ticket word of the expected ticket's slot. -/
  | loadTicket
  /-- Compare the loaded ticket word with the expected ticket. -/
  | compare (foundTicket : UInt32) (stampedBy : Option ℕ)
  /-- Skip-ahead: load the ticket word of the slot scanned. -/
  | scanLoad (scanTicket : UInt32)
  /-- The `process` function: load the ticket word. -/
  | processTicket (after : AfterProcess)
  /-- The `process` function: load the next field, or print when no field is left. -/
  | processField (after : AfterProcess) (slotTicket : UInt32) (rest : List F) (metric : P)
  /-- Store `rd_idx`. -/
  | storeRd
  /-- Load `state_flags` to clear the active flag. -/
  | clearLoad
  /-- Store `state_flags`. -/
  | clearStore (stateFlags : UInt32)
  deriving DecidableEq, Repr

/-- What the thread goes on with at a program point: a ticket word it has loaded, a ticket it scans
for, or a ticket it has accepted. -/
def ConsumerPc.holds {P F : Type} : ConsumerPc P F → Option AfterProcess
  | .compare foundTicket stampedBy => some (.compare foundTicket stampedBy)
  | .scanLoad scanTicket => some (.scan scanTicket)
  | .processTicket after | .processField after _ _ _ => some after
  | _ => none

/-- The ticket word that has been loaded and is going to be compared. -/
def ConsumerPc.loaded {P F : Type} (pc : ConsumerPc P F) : Option (UInt32 × Option ℕ) :=
  match pc.holds with
  | some (.compare foundTicket stampedBy) => some (foundTicket, stampedBy)
  | _ => none

/-- The ticket that has been accepted and is being processed. -/
def ConsumerPc.accepted {P F : Type} (pc : ConsumerPc P F) : Option Accepted :=
  pc.holds.bind AfterProcess.accepted

/-- Program points outside the copying and outside the processing of an expected ticket. -/
def ConsumerPc.Aside {P F : Type} : ConsumerPc P F → Prop
  | .copy _ w => w = 0
  | .compare _ _ | .processField _ _ _ _ => False
  | .processTicket after => ∃ scanTicket, after = .scan scanTicket
  | _ => True

/-- **The consumer thread with its locals**, and the lines printed so far. -/
structure Consumer (P F : Type) where
  mode : ConsumerMode
  pc : ConsumerPc P F
  expectedTicket : UInt32
  highestHint : UInt32
  /-- `local_snapshot`. -/
  snapshot : ℕ → Slot P
  lines : List (Line P)

namespace TicketPool

variable {P F : Type} [DecidableEq F] [Fieldwise P F] (R : TicketPool P F)

/-! ## Control -/

/-- No thread has been started. -/
def idleConsumer : Consumer P F where
  mode := .scatterGather
  pc := .terminated
  expectedTicket := 0
  highestHint := 0
  snapshot := fun _ => R.zeroSlot
  lines := []

/-- The slots the thread looks at: the shared ones, or its copy of them. -/
def view (lane : TicketLane P) (k : Consumer P F) : ℕ → Slot P :=
  match k.mode with
  | .scatterGather => k.snapshot
  | .skipAhead => lane.slots

/-- The first access of a pass. -/
def passStart (k : Consumer P F) : ConsumerPc P F :=
  match k.mode with
  | .scatterGather => .copy 0 0
  | .skipAhead => .loadHint

/-- The head of the loop over expected tickets: unconditional on a snapshot, bounded by the hint
otherwise. -/
def roundHead (k : Consumer P F) : ConsumerPc P F :=
  match k.mode with
  | .scatterGather => .loadTicket
  | .skipAhead => if atOrPast k.highestHint k.expectedTicket then .loadTicket else .storeRd

/-- The head of the scan loop. -/
def scanHead (k : Consumer P F) (scanTicket : UInt32) : ConsumerPc P F :=
  if atOrPast k.highestHint scanTicket then
    if R.processesFirst then .processTicket (.scan scanTicket) else .scanLoad scanTicket
  else .storeRd

/-- The expected ticket is not there: leave the snapshot, or scan ahead. -/
def missing (k : Consumer P F) : ConsumerPc P F :=
  match k.mode with
  | .scatterGather => .storeRd
  | .skipAhead => R.scanHead k (k.expectedTicket + 1)

/-- The thread at the head of the loop over expected tickets, with a new expected ticket. -/
def nextRound (k : Consumer P F) (expectedTicket : UInt32) : Consumer P F :=
  { k with
    expectedTicket := expectedTicket
    pc := roundHead { k with expectedTicket := expectedTicket } }

/-- The `process` function returns. -/
def resume (k : Consumer P F) : AfterProcess → Consumer P F
  | .compare foundTicket stampedBy => { k with pc := .compare foundTicket stampedBy }
  | .scan scanTicket => { k with pc := .scanLoad scanTicket }
  | .advance _ => nextRound k (k.expectedTicket + 1)

/-- The slot the `process` function was called on. -/
def processedIdx (k : Consumer P F) : AfterProcess → ℕ
  | .scan scanTicket => R.slotIdx scanTicket
  | _ => R.slotIdx k.expectedTicket

section Control

omit [DecidableEq F] [Fieldwise P F]

/-- Aside, no ticket word is waiting to be compared. -/
theorem loaded_of_aside {pc : ConsumerPc P F} (h : pc.Aside) : pc.loaded = none := by
  cases pc with
  | compare | processField => cases h
  | processTicket after =>
      obtain ⟨t, rfl⟩ := h
      rfl
  | _ => rfl

/-- Aside, no accepted ticket is being processed. -/
theorem accepted_of_aside {pc : ConsumerPc P F} (h : pc.Aside) : pc.accepted = none := by
  cases pc with
  | compare | processField => cases h
  | processTicket after =>
      obtain ⟨t, rfl⟩ := h
      rfl
  | _ => rfl

/-- A thread that has yet to compare a ticket word has not accepted one. -/
theorem accepted_of_loaded {pc : ConsumerPc P F} {w : UInt32 × Option ℕ}
    (h : pc.loaded = some w) : pc.accepted = none := by
  rw [ConsumerPc.loaded] at h
  rw [ConsumerPc.accepted]
  split at h
  · rename_i hholds
    rw [hholds]
    rfl
  · cases h

theorem passStart_aside (k : Consumer P F) : (passStart k).Aside := by
  rw [passStart]
  split
  · rfl
  · trivial

theorem roundHead_aside (k : Consumer P F) : (roundHead k).Aside := by
  rw [roundHead]
  split
  · trivial
  · split <;> trivial

end Control

theorem scanHead_aside (k : Consumer P F) (scanTicket : UInt32) :
    (R.scanHead k scanTicket).Aside := by
  rw [scanHead]
  split
  · split
    · exact ⟨scanTicket, rfl⟩
    · trivial
  · trivial

theorem missing_aside (k : Consumer P F) : (R.missing k).Aside := by
  rw [missing]
  split
  · trivial
  · exact R.scanHead_aside k _

/-! ## One step of the thread -/

/-- Copy some fields of one slot's payload, or its ticket word. -/
def copyWord (w : ℕ) (src dst : Slot P) : Slot P :=
  match R.words[w]? with
  | some fs => { dst with payload := Fieldwise.copyAll fs src.payload dst.payload }
  | none => { dst with slotTicket := src.slotTicket, stampedBy := src.stampedBy }

/-- What follows the copy of word `w` of slot `i`. -/
def afterCopy (k : Consumer P F) (i w : ℕ) : ConsumerPc P F :=
  if w < R.words.length then .copy i (w + 1)
  else if i + 1 < R.capacity then .copy (i + 1) 0
  else roundHead k

/-- **One step of the consumer thread**; `run` is the value of `run_signal`, which only the loop
test reads. On a snapshot, where the order does not matter, the ticket word is taken before the
first call of the `process` function, as it is on the shared slots. -/
def consumerStep (run : Bool) (lane : TicketLane P) (k : Consumer P F) :
    Option (TicketLane P × Consumer P F) :=
  match k.pc with
  | .terminated => none
  | .raiseLoad => some (lane, { k with pc := .raiseStore (lane.stateFlags ||| R.threadActive) })
  | .raiseStore stateFlags =>
      some ({ lane with stateFlags := stateFlags }, { k with pc := .loadRd })
  | .loadRd => some (lane, { k with pc := .loop, expectedTicket := lane.rdIdx })
  | .loop => some (lane, { k with pc := if run then passStart k else .clearLoad })
  | .copy i w =>
      some (lane, { k with
        snapshot := update k.snapshot i (R.copyWord w (lane.slots i) (k.snapshot i))
        pc := R.afterCopy k i w })
  -- the hint is loaded once a pass; hooks may have moved on by the time it is used
  | .loadHint =>
      some (lane, nextRound { k with highestHint := lane.wrIdx } k.expectedTicket)
  | .loadTicket =>
      -- the net client prints the slot before it looks at the word it has loaded
      let slot := view lane k (R.slotIdx k.expectedTicket)
      if R.processesFirst then
        some (lane, { k with pc := .processTicket (.compare slot.slotTicket slot.stampedBy) })
      else some (lane, { k with pc := .compare slot.slotTicket slot.stampedBy })
  | .compare foundTicket stampedBy =>
      if foundTicket = k.expectedTicket then
        some (lane, { k with pc := .processTicket (.advance ⟨k.expectedTicket, stampedBy⟩) })
      else some (lane, { k with pc := R.missing k })
  | .scanLoad scanTicket =>
      -- a ticket found ahead becomes the expected one, and its slot is looked at again
      if (lane.slots (R.slotIdx scanTicket)).slotTicket = scanTicket then
        some (lane, nextRound k scanTicket)
      else some (lane, { k with pc := R.scanHead k (scanTicket + 1) })
  -- the ticket is not looked at again after the fields have been read
  | .processTicket after =>
      some (lane, { k with
        pc := .processField after (view lane k (R.processedIdx k after)).slotTicket R.fields
          R.zeroPayload })
  | .processField after slotTicket (f :: rest) metric =>
      some (lane, { k with
        pc := .processField after slotTicket rest
          (Fieldwise.copy f (view lane k (R.processedIdx k after)).payload metric) })
  | .processField after slotTicket [] metric =>
      some (lane,
        resume { k with lines := k.lines ++ [⟨slotTicket, metric, after.accepted⟩] } after)
  | .storeRd => some ({ lane with rdIdx := k.expectedTicket }, { k with pc := .loop })
  | .clearLoad => some (lane, { k with pc := .clearStore (lane.stateFlags &&& ~~~R.threadActive) })
  | .clearStore stateFlags =>
      some ({ lane with stateFlags := stateFlags }, { k with pc := .terminated })

/-! ## Copying a slot word by word -/

section Copy

variable {R}

/-- The copy goes on: one more word agrees. -/
theorem copiedExcept_copyWord {src dst : Slot P} {w : ℕ} (hw : w < R.words.length)
    (h : Fieldwise.CopiedExcept (R.words.drop w).flatten src.payload dst.payload) :
    Fieldwise.CopiedExcept (R.words.drop (w + 1)).flatten src.payload
      (R.copyWord w src dst).payload := by
  rw [copyWord, List.getElem?_eq_getElem hw]
  rw [List.drop_eq_getElem_cons hw, List.flatten_cons] at h
  exact h.copyAll

/-- The copy is complete: the ticket word comes with the payload it belongs to. -/
theorem copyWord_ticket {src dst : Slot P} {w : ℕ} (hw : R.words.length ≤ w)
    (h : Fieldwise.CopiedExcept (R.words.drop w).flatten src.payload dst.payload) :
    (R.copyWord w src dst).stampedBy = src.stampedBy ∧
      (R.copyWord w src dst).payload = src.payload := by
  rw [List.drop_eq_nil_of_le hw] at h
  rw [copyWord, List.getElem?_eq_none hw]
  exact ⟨rfl, h.eq⟩

/-- **The copy of a slot ends with the slot.** -/
theorem copyWord_last {src dst : Slot P} {w : ℕ} (hw : R.words.length ≤ w)
    (h : Fieldwise.CopiedExcept (R.words.drop w).flatten src.payload dst.payload) :
    R.copyWord w src dst = src := by
  obtain ⟨hby, hpayload⟩ := copyWord_ticket hw h
  have hticket : (R.copyWord w src dst).slotTicket = src.slotTicket := by
    rw [copyWord, List.getElem?_eq_none hw]
  obtain ⟨payload, ticket, by'⟩ := src
  exact Slot.mk.injEq .. |>.mpr ⟨hpayload, hticket, hby⟩

end Copy

/-! ## What a step of the thread can do -/

/-- **What a step of the thread can do.** -/
inductive ConsumerMove (lane : TicketLane P) (k : Consumer P F) :
    TicketLane P → Consumer P F → Prop
  /-- Steps around the copying and the processing. -/
  | aside {lane' : TicketLane P} {k' : Consumer P F} : (∀ i w, k.pc ≠ .copy i w) →
      lane.SamePool lane' → k'.mode = k.mode → k'.snapshot = k.snapshot → k'.lines = k.lines →
      k'.pc.Aside → ConsumerMove lane k lane' k'
  /-- Copy a word. -/
  | copy {i w : ℕ} : k.pc = .copy i w →
      ConsumerMove lane k lane { k with
        snapshot := update k.snapshot i (R.copyWord w (lane.slots i) (k.snapshot i))
        pc := R.afterCopy k i w }
  /-- Load the ticket word of the expected ticket's slot. -/
  | load {pc : ConsumerPc P F} : k.pc = .loadTicket →
      pc.loaded = some ((view lane k (R.slotIdx k.expectedTicket)).slotTicket,
        (view lane k (R.slotIdx k.expectedTicket)).stampedBy) →
      ConsumerMove lane k lane { k with pc := pc }
  /-- Accept the expected ticket. -/
  | accept {stampedBy : Option ℕ} : k.pc = .compare k.expectedTicket stampedBy →
      ConsumerMove lane k lane
        { k with pc := .processTicket (.advance ⟨k.expectedTicket, stampedBy⟩) }
  /-- Load the ticket word inside the `process` function. -/
  | process {after : AfterProcess} : k.pc = .processTicket after →
      ConsumerMove lane k lane { k with
        pc := .processField after (view lane k (R.processedIdx k after)).slotTicket R.fields
          R.zeroPayload }
  /-- Load a field inside the `process` function. -/
  | field {after : AfterProcess} {t : UInt32} {f : F} {rest : List F} {metric : P} :
      k.pc = .processField after t (f :: rest) metric →
      ConsumerMove lane k lane { k with
        pc := .processField after t rest
          (Fieldwise.copy f (view lane k (R.processedIdx k after)).payload metric) }
  /-- Print the line and return from the `process` function. -/
  | print {after : AfterProcess} {t : UInt32} {metric : P} :
      k.pc = .processField after t [] metric →
      ConsumerMove lane k lane
        (resume { k with lines := k.lines ++ [⟨t, metric, after.accepted⟩] } after)

/-- While the pool is being copied, no ticket word is loaded and none accepted. -/
theorem afterCopy_holds (k : Consumer P F) (i w : ℕ) :
    (R.afterCopy k i w).loaded = none ∧ (R.afterCopy k i w).accepted = none := by
  rw [afterCopy]
  split
  · exact ⟨rfl, rfl⟩
  · split
    · exact ⟨rfl, rfl⟩
    · exact ⟨loaded_of_aside (roundHead_aside k), accepted_of_aside (roundHead_aside k)⟩

variable {R}

/-- **Inversion of a step of the thread.** -/
theorem consumerStep_move {run : Bool} {lane lane' : TicketLane P} {k k' : Consumer P F}
    (h : R.consumerStep run lane k = some (lane', k')) : R.ConsumerMove lane k lane' k' := by
  unfold consumerStep at h
  -- the cases that need an argument come first, the others are all aside
  split at h
  case h_1 => cases h
  case h_6 i w hpc =>
    cases h
    exact .copy hpc
  case h_8 hpc =>
    -- the word in hand is the same whether the slot is processed before the test or not
    split at h <;> cases h <;> exact .load hpc rfl
  case h_9 t b hpc =>
    split at h
    · rename_i heq
      subst heq
      cases h
      exact .accept hpc
    · cases h
      exact .aside (by simp [hpc]) (.refl lane) rfl rfl rfl (R.missing_aside k)
  case h_10 t hpc =>
    split at h <;> cases h
    · exact .aside (by simp [hpc]) (.refl lane) rfl rfl rfl (roundHead_aside _)
    · exact .aside (by simp [hpc]) (.refl lane) rfl rfl rfl (R.scanHead_aside k _)
  case h_11 after hpc =>
    cases h
    exact .process hpc
  case h_12 after t f rest metric hpc =>
    cases h
    exact .field hpc
  case h_13 after t metric hpc =>
    cases h
    exact .print hpc
  case h_5 hpc =>
    cases h
    refine .aside (by simp [hpc]) (.refl lane) rfl rfl rfl ?_
    cases run
    · trivial
    · exact passStart_aside k
  case h_7 hpc =>
    cases h
    exact .aside (by simp [hpc]) (.refl lane) rfl rfl rfl (roundHead_aside _)
  all_goals
    rename_i hpc
    cases h
    exact .aside (by simp [hpc]) ⟨rfl, rfl, rfl, rfl⟩ rfl rfl rfl trivial

section Resume

omit [DecidableEq F] [Fieldwise P F]

/-- Returning from the `process` function prints nothing more. -/
@[simp] theorem resume_lines (k : Consumer P F) (after : AfterProcess) :
    (resume k after).lines = k.lines := by cases after <;> rfl

/-- Returning from the `process` function leaves the snapshot alone. -/
@[simp] theorem resume_snapshot (k : Consumer P F) (after : AfterProcess) :
    (resume k after).snapshot = k.snapshot := by cases after <;> rfl

/-- The `process` function does not return into a copy under way. -/
theorem resume_copy {k : Consumer P F} {after : AfterProcess} {i w : ℕ}
    (h : (resume k after).pc = .copy i w) : w = 0 := by
  cases after with
  | advance a =>
      have haside := roundHead_aside { k with expectedTicket := k.expectedTicket + 1 }
      rw [show roundHead _ = _ from h] at haside
      exact haside
  | _ => cases h

/-- After the `process` function no ticket is being processed. -/
theorem resume_accepted (k : Consumer P F) (after : AfterProcess) :
    (resume k after).pc.accepted = none := by
  cases after with
  | advance a => exact accepted_of_aside (roundHead_aside _)
  | _ => rfl

/-- A ticket word still to be compared after the `process` function was so before. -/
theorem resume_loaded {k : Consumer P F} {after : AfterProcess} {t : UInt32} {b : Option ℕ}
    (h : (resume k after).pc.loaded = some (t, b)) : after = .compare t b := by
  cases after with
  | compare foundTicket stampedBy =>
      cases h
      rfl
  | scan scanTicket => cases h
  | advance a =>
      rw [resume, nextRound, loaded_of_aside (roundHead_aside _)] at h
      cases h

end Resume

/-- **The thread does not touch the pool.** -/
theorem ConsumerMove.samePool {lane lane' : TicketLane P} {k k' : Consumer P F}
    (h : R.ConsumerMove lane k lane' k') : lane.SamePool lane' := by
  cases h with
  | aside _ hsame => exact hsame
  | copy | load | accept | process | field | print => exact .refl lane

variable (R)

/-! ## One pass -/

/-- The thread in between two tests of `run_signal`. -/
def passStep (s : TicketLane P × Consumer P F) : Option (TicketLane P × Consumer P F) :=
  match s.2.pc with
  | .loop => none
  | _ => R.consumerStep true s.1 s.2

/-- A thread about to start a pass in the given mode with the given expected ticket. -/
def passAt (mode : ConsumerMode) (expectedTicket : UInt32) : Consumer P F :=
  let k := { R.idleConsumer with mode := mode, expectedTicket := expectedTicket }
  { k with pc := passStart k }

/-- **One pass of the consumer with no concurrent producer**, from the test of `run_signal` that
lets it in to the next one: it terminates, leaves the lane in `lane'` and has printed `lines`. -/
def Pass (mode : ConsumerMode) (expectedTicket : UInt32) (lane lane' : TicketLane P)
    (lines : List (Line P)) : Prop :=
  ∃ k', Finishes R.passStep (lane, R.passAt mode expectedTicket) (lane', k') ∧ k'.lines = lines

/-- A pass has one outcome. -/
theorem Pass.unique {R : TicketPool P F} {mode : ConsumerMode} {e : UInt32}
    {lane lane₁ lane₂ : TicketLane P} {lines₁ lines₂ : List (Line P)}
    (h₁ : R.Pass mode e lane lane₁ lines₁) (h₂ : R.Pass mode e lane lane₂ lines₂) :
    lane₁ = lane₂ ∧ lines₁ = lines₂ := by
  obtain ⟨k₁, hk₁, rfl⟩ := h₁
  obtain ⟨k₂, hk₂, rfl⟩ := h₂
  have heq := hk₁.unique hk₂
  simp only [Prod.mk.injEq] at heq
  exact ⟨heq.1, heq.2 ▸ rfl⟩

end TicketPool

/-- The tickets a list of lines was printed for, in order. -/
def acceptedTickets {P : Type} (lines : List (Line P)) : List UInt32 :=
  lines.filterMap fun l => l.accepted.map Accepted.ticket

/-- A line adds its ticket to the accepted ones. -/
theorem acceptedTickets_concat {P : Type} (lines : List (Line P)) (l : Line P) :
    acceptedTickets (lines ++ [l])
      = acceptedTickets lines ++ (l.accepted.map Accepted.ticket).toList := by
  rw [acceptedTickets, acceptedTickets, List.filterMap_append]
  cases h : l.accepted <;> simp [h]

end TelemetrySubsystem
