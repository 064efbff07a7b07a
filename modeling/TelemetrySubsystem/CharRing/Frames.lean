import TelemetrySubsystem.CharRing.Fifo
import TelemetrySubsystem.Foundations.PrefixCode
import TelemetrySubsystem.SharedPage.HostOrder

/-! # Metrics as frames of the char stream

`telemetry_shared_char_dev_push_metric` keeps the write lock for all 16 bytes of its metric. While
only pushes write, the char stream is a row of pieces, one for each push that has appended
something; and unless a full ring has cut one of them short, a reader that cuts its output every 16
bytes gets the metrics back.

* **`exists_order`**: a log in which every call's bytes stand together is a row of pieces.
* **`PushPc.Progress.place`**: where a push is in the history.
* **`FramedStream`** is the law, and `framedStream_of_reachable` says that it holds in every
  reachable state with one reader. -/

namespace TelemetrySubsystem

open ActionSystem

/-! ## Logs made of pieces -/

/-- The bytes of call `c` stand together in the log. -/
def StandsTogether (c : ℕ) (log : List (ℕ × UInt8)) : Prop :=
  ∃ pre post, log = pre ++ (tagged c (bytesOf c log) ++ post) ∧ bytesOf c pre = [] ∧
    bytesOf c post = []

/-- A call with no bytes. -/
theorem StandsTogether.of_nil {c : ℕ} {log : List (ℕ × UInt8)} (h : bytesOf c log = []) :
    StandsTogether c log := by
  refine ⟨log, [], ?_, h, rfl⟩
  rw [h]
  exact (List.append_nil log).symm

/-- The bytes of one call in a piece of another. -/
theorem bytesOf_tagged_of_ne {c c' : ℕ} (h : c ≠ c') (bs : List UInt8) :
    bytesOf c' (tagged c bs) = [] := by
  induction bs with
  | nil => rfl
  | cons b bs ih =>
      rw [tagged, List.map_cons, ← tagged, ← List.singleton_append, bytesOf_append, ih,
        bytesOf_other h]
      rfl

/-- Behind a piece of another call, a call's bytes stand together if they did before. -/
theorem StandsTogether.behind {c c' : ℕ} (hne : c ≠ c') {bs : List UInt8}
    {post : List (ℕ × UInt8)} (h : StandsTogether c' (tagged c bs ++ post)) :
    StandsTogether c' post := by
  have hshare : bytesOf c' (tagged c bs ++ post) = bytesOf c' post := by
    rw [bytesOf_append, bytesOf_tagged_of_ne hne, List.nil_append]
  obtain ⟨pre, rest, hlog, hpre, hrest⟩ := h
  rw [hshare] at hlog
  rcases List.append_eq_append_iff.mp hlog with ⟨mid, hover, hmid⟩ | ⟨mid, hpiece, hmid⟩
  · rw [hover, bytesOf_append] at hpre
    exact ⟨mid, rest, hmid, (List.append_eq_nil_iff.mp hpre).2, hrest⟩
  · cases mid with
    | nil => exact ⟨[], rest, hmid.symm, rfl, hrest⟩
    | cons p mid =>
        -- the piece of `c'` would begin inside the piece of `c`
        refine .of_nil ?_
        by_contra hsome
        obtain ⟨b, bs', hbytes⟩ := List.exists_cons_of_ne_nil hsome
        rw [hbytes] at hmid
        have hp' : p = (c', b) := (List.head_eq_of_cons_eq hmid).symm
        have hp : p ∈ tagged c bs := by
          rw [hpiece]
          exact List.mem_append_right _ List.mem_cons_self
        obtain ⟨b', -, hb'⟩ := List.mem_map.mp hp
        exact hne (congrArg Prod.fst (hb'.trans hp'))

/-- A log that begins with a byte of a call holds a byte of it. -/
theorem bytesOf_cons_own_ne_nil (c : ℕ) (b : UInt8) (log : List (ℕ × UInt8)) :
    bytesOf c ((c, b) :: log) ≠ [] := by
  rw [← List.singleton_append, bytesOf_append, bytesOf_own]
  exact List.cons_ne_nil b _

/-- The piece of the call that appended the first byte stands in front. -/
theorem StandsTogether.in_front {c : ℕ} {b : UInt8} {rest : List (ℕ × UInt8)}
    (h : StandsTogether c ((c, b) :: rest)) :
    ∃ post, (c, b) :: rest = tagged c (bytesOf c ((c, b) :: rest)) ++ post ∧
      bytesOf c post = [] ∧ post.length < ((c, b) :: rest).length := by
  obtain ⟨pre, post, hlog, hpre, hpost⟩ := h
  cases pre with
  | nil =>
      refine ⟨post, hlog, hpost, ?_⟩
      have hpos := List.length_pos_iff.mpr (bytesOf_cons_own_ne_nil c b rest)
      have hlen := congrArg List.length hlog
      rw [List.nil_append, List.length_append, tagged, List.length_map] at hlen
      omega
  | cons p pre =>
      rw [List.cons_append] at hlog
      obtain rfl := List.head_eq_of_cons_eq hlog
      exact absurd hpre (bytesOf_cons_own_ne_nil c b pre)

/-- **A log in which every call's bytes stand together is a row of pieces**, one for each call that
has bytes in it. -/
theorem exists_order {log : List (ℕ × UInt8)} (h : ∀ c, StandsTogether c log) :
    ∃ order : List ℕ, order.Nodup ∧ (∀ c, c ∈ order ↔ bytesOf c log ≠ []) ∧
      log = order.flatMap fun c => tagged c (bytesOf c log) := by
  induction hn : log.length using Nat.strong_induction_on generalizing log with
  | _ n ih =>
      subst hn
      cases log with
      | nil => exact ⟨[], List.nodup_nil, fun c => by simp, rfl⟩
      | cons p rest =>
          obtain ⟨c, b⟩ := p
          obtain ⟨post, hlog, hpost, hlt⟩ := (h c).in_front
          -- behind the piece of `c` the other calls have all their bytes
          have hother : ∀ c', c ≠ c' → bytesOf c' ((c, b) :: rest) = bytesOf c' post :=
            fun c' hne => by
              rw [hlog, bytesOf_append, bytesOf_tagged_of_ne hne, List.nil_append]
          have hbehind : ∀ c', StandsTogether c' post := fun c' => by
            rcases eq_or_ne c c' with rfl | hne
            · exact .of_nil hpost
            · exact (hlog ▸ h c').behind hne
          obtain ⟨order, hnodup, hmem, hrow⟩ := ih _ hlt hbehind rfl
          have hnot : c ∉ order := fun hc => (hmem c).mp hc hpost
          have hsame : (order.flatMap fun c' => tagged c' (bytesOf c' ((c, b) :: rest)))
              = order.flatMap fun c' => tagged c' (bytesOf c' post) :=
            List.flatMap_congr fun c' hc' => by rw [hother c' fun heq => hnot (heq ▸ hc')]
          refine ⟨c :: order, List.nodup_cons.mpr ⟨hnot, hnodup⟩, fun c' => ?_, ?_⟩
          · rcases eq_or_ne c c' with rfl | hne
            · exact iff_of_true List.mem_cons_self (bytesOf_cons_own_ne_nil c b rest)
            · rw [List.mem_cons, or_iff_right hne.symm, hother c' hne, hmem]
          · rw [List.flatMap_cons, hsame, ← hrow]
            exact hlog

/-! ## Pieces of metrics -/

/-- Words of two bytes are told apart by them. -/
theorem leBytes16_injective : Function.Injective leBytes16 := fun x y h => by
  rw [← UInt16.toNat_inj, ← ofBytesLE_leBytes16, ← ofBytesLE_leBytes16, h]

/-- Words of four bytes are, too. -/
theorem leBytes32_injective : Function.Injective leBytes32 := fun x y h => by
  rw [← UInt32.toNat_inj, ← ofBytesLE_leBytes32, ← ofBytesLE_leBytes32, h]

/-- **A frame determines its metric.** -/
theorem NetPacketMetric.bytes_injective : Function.Injective NetPacketMetric.bytes := by
  rintro ⟨a, b, c, d, e⟩ ⟨a', b', c', d', e'⟩ h
  obtain ⟨h, he⟩ := List.append_inj' h rfl
  obtain ⟨h, hd⟩ := List.append_inj' h rfl
  obtain ⟨h, hc⟩ := List.append_inj' h rfl
  obtain ⟨ha, hb⟩ := List.append_inj' h rfl
  rw [NetPacketMetric.mk.injEq]
  exact ⟨leBytes32_injective ha, leBytes32_injective hb, leBytes16_injective hc,
    leBytes16_injective hd, leBytes32_injective he⟩

/-- No metric is longer than its struct. -/
theorem WriterCall.length_push_data_le (metric : Option NetPacketMetric) :
    (WriterCall.push metric).data.length ≤ sizeofNetPacketMetric := by
  cases metric with
  | none => exact Nat.zero_le _
  | some m => exact m.length_bytes.le

/-- A contiguous piece is a call's bytes standing together. -/
theorem ContiguousIn.standsTogether {data : List UInt8} {c i : ℕ} {post log : List (ℕ × UInt8)}
    (h : ContiguousIn data c i post log) : StandsTogether c log := by
  obtain ⟨pre, hlog, hpre, hpost⟩ := id h
  refine ⟨pre, post, ?_, hpre, hpost⟩
  rw [h.bytesOf_eq, ← List.append_assoc]
  exact hlog

/-- **Where a push is in the history**: it has no bytes there, it is appending at the end, or it has
returned, with 0 only if all of its metric is there. -/
theorem PushPc.Progress.place {metric : Option NetPacketMetric} {c : ℕ} {log : List (ℕ × UInt8)}
    {pc : PushPc} (h : pc.Progress (WriterCall.push metric).data c log) :
    bytesOf c log = [] ∨ (∃ i, ContiguousIn (WriterCall.push metric).data c i [] log) ∨
      ∃ ret i post, pc = .done ret ∧ ContiguousIn (WriterCall.push metric).data c i post log ∧
        (ret = 0 → bytesOf c log = (WriterCall.push metric).data) := by
  cases pc with
  | entry => exact .inl h
  | acquire => exact .inl h.2
  | release ret =>
      obtain ⟨i, -, hc⟩ := h
      exact .inr (.inl ⟨i, hc⟩)
  | done ret =>
      obtain ⟨i, post, hret, hc⟩ := h
      refine .inr (.inr ⟨ret, i, post, rfl, hc, fun h₀ => ?_⟩)
      rw [hc.bytesOf_eq, List.take_of_length_le (hret h₀)]
  | _ => exact .inr (.inl ⟨_, h.2.2⟩)

/-- The bytes of a push stand together. -/
theorem PushPc.Progress.standsTogether {metric : Option NetPacketMetric} {c : ℕ}
    {log : List (ℕ × UInt8)} {pc : PushPc}
    (h : pc.Progress (WriterCall.push metric).data c log) : StandsTogether c log := by
  rcases h.place with hnil | ⟨i, hc⟩ | ⟨ret, i, post, -, hc, -⟩
  · exact .of_nil hnil
  · exact hc.standsTogether
  · exact hc.standsTogether

/-- Behind a piece, the last byte is of its call. -/
theorem getLast?_tagged (c : ℕ) (front : List (ℕ × UInt8)) {bs : List UInt8} (hbs : bs ≠ []) :
    (front ++ tagged c bs).getLast?.map Prod.fst = some c := by
  obtain ⟨init, b, rfl⟩ := List.eq_nil_or_concat bs |>.resolve_left hbs
  rw [List.concat_eq_append, ← tagged_concat, ← List.append_assoc, List.getLast?_concat]
  rfl

/-- A call that appends at the end has the last piece. -/
theorem ContiguousIn.last {data : List UInt8} {c c' i : ℕ} {log pre : List (ℕ × UInt8)}
    (h : ContiguousIn data c i [] log) (hsome : bytesOf c log ≠ []) {bs : List UInt8}
    (hlog : log = pre ++ tagged c' bs) (hbs : bs ≠ []) : c = c' := by
  have hshare := h.bytesOf_eq
  obtain ⟨pre', hlog', -, -⟩ := h
  rw [← hshare, List.append_nil] at hlog'
  have hown := getLast?_tagged c pre' hsome
  have hother := getLast?_tagged c' pre hbs
  rw [← hlog'] at hown
  rw [← hlog, hown] at hother
  exact Option.some.inj hother

/-- What a push knows about itself. -/
theorem Writer.Progress.push {metric : Option NetPacketMetric} {c : ℕ} {log : List (ℕ × UInt8)}
    {w : Writer} (h : w.Progress (.push metric) c log) :
    ∃ pc, w = .push metric pc ∧ pc.Progress (WriterCall.push metric).data c log := by
  cases w with
  | devWrite w =>
      obtain ⟨buffer, hcall, -⟩ := h
      cases hcall
  | push metric' pc =>
      obtain ⟨hcall, h⟩ := h
      cases hcall
      exact ⟨pc, rfl, h⟩

/-! ## The law -/

/-- What call `c` has in the char stream. -/
def CharState.share (s : CharState) (c : ℕ) : List UInt8 := bytesOf c s.ring.appended

/-- No push that has returned an error has left a part of its metric behind. -/
def NoneCutShort (s : CharState) : Prop :=
  ∀ c metric ret, s.writer c = .push metric (.done ret) → ret ≠ 0 → s.share c = []

/-- **The char stream of a system of pushes is a row of metrics**, in some order of the calls. -/
structure FramedStream (metrics : ℕ → Option NetPacketMetric) (s : CharState) (order : List ℕ) :
    Prop where
  nodup : order.Nodup
  /-- The calls in the row are those that have appended something. -/
  mem_iff : ∀ c, c ∈ order ↔ s.share c ≠ []
  /-- Their pieces follow one another. -/
  log_eq : s.ring.log = order.flatMap s.share
  /-- A piece is the beginning of the metric. -/
  piece : ∀ c, s.share c <+: (WriterCall.push (metrics c)).data
  /-- A push that has returned 0 has a whole one. -/
  returned : ∀ c m, s.writer c = .push (some m) (.done 0) → s.share c = m.bytes
  /-- Only the last one can be unfinished: another piece is whole, or its push has failed. -/
  settled : ∀ c ∈ order.dropLast, s.share c = (WriterCall.push (metrics c)).data ∨
    ∃ ret, ret ≠ 0 ∧ s.writer c = .push (metrics c) (.done ret)
  /-- **What the reader gets**: unless a push was cut short, every 16 bytes of its output show a
  metric, the next one in the row. -/
  frames : NoneCutShort s → ∀ k,
    sizeofNetPacketMetric * (k + 1) ≤ (s.reader 0).output.length →
      ∃ c m, order[k]? = some c ∧ metrics c = some m ∧ ∀ m' : NetPacketMetric,
        m'.bytes = ((s.reader 0).output.drop (sizeofNetPacketMetric * k)).take sizeofNetPacketMetric
          ↔ m' = m

section Row

variable {metrics : ℕ → Option NetPacketMetric} {s : CharState} {order : List ℕ}

/-- A push that has returned 0 has its whole metric in the stream. -/
theorem FifoInv.returned (h : FifoInv (fun c => .push (metrics c)) s) {c : ℕ}
    {m : NetPacketMetric} (hdone : s.writer c = .push (some m) (.done 0)) :
    s.share c = m.bytes := by
  obtain ⟨pc, hw, hprog⟩ := (h.progress c).push
  obtain ⟨hm, rfl⟩ := Writer.push.inj (hdone.symm.trans hw)
  rw [← hm] at hprog
  obtain ⟨i, post, hret, hc⟩ := hprog
  rw [CharState.share, hc.bytesOf_eq, List.take_of_length_le (hret rfl)]
  rfl

/-- Every piece but the last one is whole, or its push has failed. -/
theorem FifoInv.settled (h : FifoInv (fun c => .push (metrics c)) s) (hnodup : order.Nodup)
    (hmem : ∀ c, c ∈ order ↔ s.share c ≠ [])
    (hrow : s.ring.appended = order.flatMap fun c => tagged c (s.share c)) {c : ℕ}
    (hc : c ∈ order.dropLast) : s.share c = (WriterCall.push (metrics c)).data ∨
      ∃ ret, ret ≠ 0 ∧ s.writer c = .push (metrics c) (.done ret) := by
  have hsome : s.share c ≠ [] := (hmem c).mp (List.mem_of_mem_dropLast hc)
  obtain ⟨pc, hw, hprog⟩ := (h.progress c).push
  rcases hprog.place with hnil | ⟨i, hlast⟩ | ⟨ret, i, post, rfl, -, hret⟩
  · exact absurd hnil hsome
  · -- a push that is still appending has the last piece
    obtain ⟨front, c', rfl⟩ := List.eq_nil_or_concat order |>.resolve_left fun hnil => by
      rw [hnil] at hc
      exact List.not_mem_nil hc
    rw [List.concat_eq_append] at *
    rw [List.flatMap_append, List.flatMap_singleton] at hrow
    rw [List.dropLast_concat] at hc
    obtain rfl := hlast.last hsome hrow ((hmem c').mp (by simp))
    exact absurd rfl ((List.nodup_append.mp hnodup).2.2 c hc c (List.mem_singleton_self c))
  · rcases eq_or_ne ret 0 with h₀ | hne
    · exact .inl (hret h₀)
    · exact .inr ⟨ret, hne, hw⟩

/-- A piece of the full length is the metric. -/
theorem metric_of_piece {metric : Option NetPacketMetric} {piece : List UInt8}
    (h : piece <+: (WriterCall.push metric).data) (hlen : piece.length = sizeofNetPacketMetric) :
    ∃ m, metric = some m ∧ piece = m.bytes := by
  cases metric with
  | none =>
      have hnil : piece.length ≤ 0 := h.length_le
      rw [hlen] at hnil
      exact absurd hnil (by decide)
  | some m => exact ⟨m, rfl, h.eq_of_length (hlen.trans m.length_bytes.symm)⟩

/-- **The reader's output shows the metrics**, cut every 16 bytes. -/
theorem FifoInv.frames (h : FifoInv (fun c => .push (metrics c)) s)
    (hmem : ∀ c, c ∈ order ↔ s.share c ≠ []) (hlog : s.ring.log = order.flatMap s.share)
    (hsettled : ∀ c ∈ order.dropLast, s.share c = (WriterCall.push (metrics c)).data ∨
      ∃ ret, ret ≠ 0 ∧ s.writer c = .push (metrics c) (.done ret))
    (hnone : NoneCutShort s) {k : ℕ}
    (hk : sizeofNetPacketMetric * (k + 1) ≤ (s.reader 0).output.length) :
    ∃ c m, order[k]? = some c ∧ metrics c = some m ∧
      ((s.reader 0).output.drop (sizeofNetPacketMetric * k)).take sizeofNetPacketMetric
        = m.bytes := by
  have hpiece : ∀ c, s.share c <+: (WriterCall.push (metrics c)).data := fun c =>
    (h.progress c).share_le
  -- no piece is longer than a metric, and all but the last one are metrics
  have hle : ∀ w ∈ order.map s.share, w.length ≤ sizeofNetPacketMetric := fun w hw => by
    obtain ⟨c, -, rfl⟩ := List.mem_map.mp hw
    exact (hpiece c).length_le.trans (WriterCall.length_push_data_le _)
  have hfull : ∀ w ∈ (order.map s.share).dropLast, w.length = sizeofNetPacketMetric :=
    fun w hw => by
      rw [← List.map_dropLast] at hw
      obtain ⟨c, hc, rfl⟩ := List.mem_map.mp hw
      have hsome := (hmem c).mp (List.mem_of_mem_dropLast hc)
      rcases hsettled c hc with hwhole | ⟨ret, hret, hdone⟩
      · cases hm : metrics c with
        | none =>
            rw [hm] at hwhole
            exact absurd hwhole hsome
        | some m =>
            rw [hwhole, hm]
            exact m.length_bytes
      · exact absurd (hnone c _ ret hdone hret) hsome
  have hout : (s.reader 0).output <+: (order.map s.share).flatten := by
    rw [← List.flatMap_def, ← hlog, h.delivered.1]
    exact List.take_prefix _ _
  obtain ⟨hcut, hlen⟩ := PrefixCode.cut_of_prefix hfull hle (by decide) hout hk
  rw [List.getElem?_map, Option.map_eq_some_iff] at hcut
  obtain ⟨c, hc, hcut⟩ := hcut
  obtain ⟨m, hm, hbytes⟩ := metric_of_piece (hpiece c) (hcut ▸ hlen)
  exact ⟨c, m, hc, hm, hcut.symm.trans hbytes⟩

end Row

/-- **Every reachable state of a system of pushes with one reader has a framed stream.** -/
theorem framedStream_of_reachable {metrics : ℕ → Option NetPacketMetric} {s : CharState}
    (h : ReachableUnder charNext (fun _ a => a.OneReader)
      (charInit fun c => .push (metrics c)) s) :
    ∃ order, FramedStream metrics s order := by
  have hinv := fifoInv_of_reachable h
  obtain ⟨order, hnodup, hmem, hrow⟩ := exists_order fun c => by
    obtain ⟨pc, -, hprog⟩ := (hinv.progress c).push
    exact hprog.standsTogether
  have hlog : s.ring.log = order.flatMap s.share := by
    rw [ByteRing.log, hrow, List.map_flatMap]
    refine List.flatMap_congr fun c _ => ?_
    rw [tagged, List.map_map]
    exact List.map_id _
  have hsettled := fun c (hc : c ∈ order.dropLast) => hinv.settled hnodup hmem hrow hc
  refine ⟨order, hnodup, hmem, hlog, fun c => (hinv.progress c).share_le,
    fun c m => hinv.returned, hsettled, fun hnone k hk => ?_⟩
  obtain ⟨c, m, hc, hm, hcut⟩ := hinv.frames hmem hlog hsettled hnone hk
  refine ⟨c, m, hc, hm, fun m' => ?_⟩
  rw [hcut]
  exact NetPacketMetric.bytes_injective.eq_iff

/-- Metrics that show their call. -/
def ownPort (c : ℕ) : Option NetPacketMetric := some ⟨1, 2, UInt16.ofNat c, 4, 5⟩

/-- Call 1 pushes its metric, then call 0, and a read of 32 bytes fetches both. -/
def twoFrames : List CharAction :=
  List.replicate 83 (.writer 1 .ok) ++ List.replicate 83 (.writer 0 .ok)
    ++ .reader 0 (.call 32) :: List.replicate 225 (.reader 0 .ok)

/-- The second 16 bytes of the output are the metric of call 0. -/
theorem framedStream_twoFrames :
    ∃ s, exec charNext (charInit fun c => .push (ownPort c)) twoFrames = some s ∧
      (∃ order, FramedStream ownPort s order) ∧
      ((s.reader 0).output.drop 16).take 16 = (⟨1, 2, 0, 4, 5⟩ : NetPacketMetric).bytes := by
  have hrun : (exec charNext (charInit fun c => .push (ownPort c)) twoFrames).map
      (fun s => (s.reader 0).output.drop 16) = some (⟨1, 2, 0, 4, 5⟩ : NetPacketMetric).bytes := by
    decide +kernel
  obtain ⟨s, hs, hout⟩ := Option.map_eq_some_iff.mp hrun
  refine ⟨s, hs, framedStream_of_reachable ?_, by rw [hout]; rfl⟩
  exact ReachableUnder.of_exec twoFrames (by decide +kernel) hs .start

end TelemetrySubsystem
