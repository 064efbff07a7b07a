import TelemetrySubsystem.BlockFilter.SkipAhead
import TelemetrySubsystem.Foundations.ActionSystem
import TelemetrySubsystem.Kernel.BaseModule
import TelemetrySubsystem.NetFilter.Hook

/-! # The page outlives its users

Three kernel modules are loaded and removed in any order that the kernel allows, whatever its calls
return, while any number of processes open, map, read and close the nodes and while packets and bios
come in.

* **`Modules`** is the state; `Modules.fault` records that a module's code was run after the module
  had been removed, or that memory was used that is not the page.
* **`modulesNext`** is what the code does, **`KernelAllows`** what the kernel promises: it resolves
  the symbol `ring_ptr`, it counts the users of a module, and it calls what is registered.
* **`PageOutlivesUsers`** is the law.

A call is one step. One that sleeps keeps its file open, and a hook that is running is waited for
when it is unregistered. -/

namespace TelemetrySubsystem

open ActionSystem
open Function (update)

/-! ## The filters -/

/-- `net_filter_init`, with what `nf_register_net_hook` returns: its result, and whether the hook is
registered. -/
def netFilterInit (register : ℤ) : ℤ × Bool :=
  if register ≠ 0 then (negEFAULT, false) else (0, true)

/-- `block_filter_init`, with what `register_kprobe` returns: its result, and whether the probe is
registered. -/
def blockFilterInit (register : ℤ) : ℤ × Bool :=
  if register ≠ 0 then (register, false) else (0, true)

/-- The architectures that `block_rq_issue_pre_handler` knows. -/
inductive ProbeArch
  | x8664
  | arm64
  | other
  deriving DecidableEq, Repr

/-- The registers it looks at, as pointers to a bio. -/
structure PtRegs where
  di : Option Bio
  regs0 : Option Bio

/-- `block_rq_issue_pre_handler`: the bio that is submitted. -/
def blockRqIssuePreHandler (regs : PtRegs) : ProbeArch → Option Bio
  | .x8664 => regs.di
  | .arm64 => regs.regs0
  | .other => none

/-! ## The system -/

/-- `struct file`, from `open` until the last descriptor and the last mapping are gone. -/
structure OpenFile where
  fOp : FileOps
  /-- A descriptor refers to it. -/
  descriptor : Bool
  mappings : List Mapping
  deriving DecidableEq, Repr

/-- A file that nothing refers to is gone. -/
def OpenFile.kept (file : OpenFile) : Option OpenFile :=
  if file.descriptor = false ∧ file.mappings = [] then none else some file

/-- **The modules and the files.** -/
structure Modules where
  base : BaseModule
  baseLoaded : Bool
  netLoaded : Bool
  /-- `packet_telemetry_hook` is registered. -/
  hookRegistered : Bool
  blockLoaded : Bool
  /-- `block_rq_issue_pre_handler` is registered. -/
  probeRegistered : Bool
  files : ℕ → Option OpenFile
  /-- Code or memory has been used that was not there. -/
  fault : Bool

namespace Modules

/-- The memory at `a` is used, which must be in a page that the base module holds. -/
def touch (pages : KernelPages) (a : ℕ) (s : Modules) : Modules :=
  let inside : BaseResource → Bool
    | .page p => pages.virtToPhys p ≤ a ∧ a < pages.virtToPhys p + 2 ^ pages.pageShift
    | _ => false
  if s.base.held.any inside then s else { s with fault := true }

/-- The ring is used through `ring_ptr`. -/
def touchRing (pages : KernelPages) (s : Modules) : Modules :=
  match s.base.ringPtr with
  | some p => s.touch pages (pages.virtToPhys p)
  | none => { s with fault := true }

/-- The ring is used through `ring_ptr`, after a test for null. -/
def touchRingUnlessNull (pages : KernelPages) (s : Modules) : Modules :=
  if s.base.ringPtr.isSome then s.touchRing pages else s

/-- Code of a module is run, which must be loaded. -/
def run (loaded : Bool) (s : Modules) : Modules := if loaded then s else { s with fault := true }

/-- A call of `read`. -/
def readCall (pages : KernelPages) (s : Modules) (len ppos : ℕ) : FileOps → Modules
  | .charFops =>
      let s₁ := s.run s.baseLoaded
      if 0 < len then s₁.touchRing pages else s₁
  | .netFops =>
      let s₁ := s.run s.baseLoaded
      if 0 < ppos then s₁ else s₁.touchRingUnlessNull pages
  -- there is no such operation
  | .mmapFops => s

/-- A call of `write`. -/
def writeCall (pages : KernelPages) (s : Modules) (len : ℕ) : FileOps → Modules
  | .charFops =>
      let s₁ := s.run s.baseLoaded
      if 0 < len then s₁.touchRing pages else s₁
  | .mmapFops | .netFops => s

/-- A call of `mmap`: the state, and the pages mapped. -/
def mmapCall (pages : KernelPages) (s : Modules) (vma : VmArea) (remap : ℤ) :
    FileOps → Modules × Option Mapping
  | .mmapFops => (s.run s.baseLoaded, (telemetryMmapIo pages s.base.ringPtr vma remap).2)
  | .charFops | .netFops => (s, none)

/-- A call of `ioctl`, which wakes the writers of the char ring. -/
def ioctlCall (s : Modules) : FileOps → Modules
  | .mmapFops => s.run s.baseLoaded
  | .charFops | .netFops => s

end Modules

/-- One step of the system. -/
inductive ModulesAction
  | insmodTelemetry (o : BaseOutcomes)
  | rmmodTelemetry
  | insmodNetFilter (register : ℤ)
  | rmmodNetFilter
  | insmodBlockFilter (register : ℤ)
  | rmmodBlockFilter
  /-- A node is opened as file `f`. -/
  | openNode (f minor : ℕ)
  /-- `mmap` of file `f`. -/
  | mmap (f : ℕ) (vma : VmArea) (remap : ℤ)
  /-- `munmap` of the `i`-th mapping of file `f`. -/
  | munmap (f i : ℕ)
  /-- The last descriptor of file `f` is closed. -/
  | close (f : ℕ)
  /-- `read` of file `f` at position `ppos`. -/
  | read (f len ppos : ℕ)
  /-- `write` to file `f`. -/
  | write (f len : ℕ)
  /-- `ioctl` on file `f`. -/
  | ioctl (f : ℕ)
  /-- A process uses address `v` of the `i`-th mapping of file `f`. -/
  | access (f i v : ℕ)
  /-- A packet comes in. -/
  | packet (skb : Option SkBuff)
  /-- A bio is submitted. -/
  | bio (regs : PtRegs)

/-- **What the code does** in each step. -/
def modulesNext (pages : KernelPages) (arch : ProbeArch) (api : BlockApi) (s : Modules) :
    ModulesAction → Option Modules
  | .insmodTelemetry o =>
      let (ret, base) := telemetryBaseInit o ⟨none, s.base.held, s.base.fault⟩
      some { s with base := base, baseLoaded := decide (0 ≤ ret) }
  | .rmmodTelemetry => some { s with base := telemetryBaseExit s.base, baseLoaded := false }
  | .insmodNetFilter register =>
      let (ret, registered) := netFilterInit register
      some { s with netLoaded := decide (0 ≤ ret), hookRegistered := registered }
  | .rmmodNetFilter => some { s with netLoaded := false, hookRegistered := false }
  | .insmodBlockFilter register =>
      let (ret, registered) := blockFilterInit register
      some { s with blockLoaded := decide (0 ≤ ret), probeRegistered := registered }
  | .rmmodBlockFilter => some { s with blockLoaded := false, probeRegistered := false }
  | .openNode f minor =>
      let s₁ := s.run s.baseLoaded
      match telemetryMasterOpen minor with
      | (0, some fOp) => some { s₁ with files := update s.files f (some ⟨fOp, true, []⟩) }
      | _ => some s₁
  | .mmap f vma remap => (s.files f).map fun file =>
      match s.mmapCall pages vma remap file.fOp with
      | (s₁, some m) =>
          { s₁ with files := update s.files f (some { file with mappings := m :: file.mappings }) }
      | (s₁, none) => s₁
  | .munmap f i => (s.files f).map fun file =>
      { s with files :=
          update s.files f { file with mappings := file.mappings.eraseIdx i }.kept }
  | .close f => (s.files f).map fun file =>
      { s with files := update s.files f { file with descriptor := false }.kept }
  | .read f len ppos => (s.files f).map fun file => s.readCall pages len ppos file.fOp
  | .write f len => (s.files f).map fun file => s.writeCall pages len file.fOp
  | .ioctl f => (s.files f).map fun file => s.ioctlCall file.fOp
  | .access f i v => (s.files f).bind fun file =>
      file.mappings[i]?.map fun m => s.touch pages (m.phys pages v)
  | .packet skb =>
      let s₁ := s.run s.netLoaded
      some (if (hookMetric skb).isSome then s₁.touchRingUnlessNull pages else s₁)
  | .bio regs =>
      let s₁ := s.run s.blockLoaded
      some (if (bioMetric api (blockRqIssuePreHandler regs arch)).isSome then
        s₁.touchRingUnlessNull pages else s₁)

/-- What the calls of the kernel in `telemetry_base_init` may return. -/
structure BaseOutcomes.Documented (pages : KernelPages) (o : BaseOutcomes) : Prop where
  /-- A page starts where a page frame starts. -/
  page : ∀ p, o.page = some p → 2 ^ pages.pageShift ∣ pages.virtToPhys p
  /-- An error pointer is a negative number. -/
  classErr : ∀ err, o.classErr = some err → err < 0

/-- **What the kernel promises**: which steps it lets happen. -/
def KernelAllows (pages : KernelPages) (s : Modules) : ModulesAction → Prop
  | .insmodTelemetry o => s.baseLoaded = false ∧ o.Documented pages
  -- nothing uses a symbol of the module, and no file of its nodes is open
  | .rmmodTelemetry => s.baseLoaded = true ∧ s.netLoaded = false ∧ s.blockLoaded = false ∧
      ∀ f, s.files f = none
  -- the symbol `ring_ptr` can be resolved
  | .insmodNetFilter register => s.baseLoaded = true ∧ s.netLoaded = false ∧ register ≤ 0
  | .insmodBlockFilter register => s.baseLoaded = true ∧ s.blockLoaded = false ∧ register ≤ 0
  | .rmmodNetFilter => s.netLoaded = true
  | .rmmodBlockFilter => s.blockLoaded = true
  | .openNode f _ => .cdev ∈ s.base.held ∧ s.files f = none
  | .mmap f vma _ => (∃ file, s.files f = some file ∧ file.descriptor = true) ∧
      vma.WholePages pages
  | .read f _ _ | .write f _ | .ioctl f => ∃ file, s.files f = some file ∧ file.descriptor = true
  | .munmap _ _ | .close _ => True
  | .access f i v => ∃ file m, s.files f = some file ∧ file.mappings[i]? = some m ∧
      m.vma.vmStart ≤ v ∧ v < m.vma.vmEnd
  | .packet _ => s.hookRegistered = true
  | .bio _ => s.probeRegistered = true

/-! ## The invariant -/

/-- Page `p` is held, with everything else that a loaded module holds. -/
structure HoldsRing (pages : KernelPages) (s : Modules) (p : ℕ) : Prop where
  ringPtr : s.base.ringPtr = some p
  held : ∃ nodes : List ℕ, nodes.Nodup ∧ (∀ n ∈ nodes, n ∈ nodeMinors) ∧
    s.base.held = loadedHoldings nodes p
  frame : 2 ^ pages.pageShift ∣ pages.virtToPhys p

/-- **A mapping of page `p`**: byte for byte, and of 4096-byte pages only. -/
structure Mapping.ShowsPage (pages : KernelPages) (p : ℕ) (m : Mapping) : Prop where
  pageShift : pages.pageShift = 12
  size : m.vma.vmEnd = m.vma.vmStart + RingMember.telemetryPageSize
  phys : ∀ v, m.phys pages v = pages.virtToPhys p + (v - m.vma.vmStart)

/-- Every mapping of a file shows page `p`. -/
def FilesShow (pages : KernelPages) (p : ℕ) (files : ℕ → Option OpenFile) : Prop :=
  ∀ f file, files f = some file → ∀ m ∈ file.mappings, m.ShowsPage pages p

/-- **The modules are in order.** -/
structure ModulesInv (pages : KernelPages) (s : Modules) : Prop where
  fault : s.fault = false
  baseFault : s.base.fault = false
  loaded : s.baseLoaded = true → ∃ p, HoldsRing pages s p ∧ FilesShow pages p s.files
  unloaded : s.baseLoaded = false → s.base.held = [] ∧ s.netLoaded = false ∧
    s.blockLoaded = false ∧ ∀ f, s.files f = none
  hook : s.hookRegistered = true → s.netLoaded = true
  probe : s.probeRegistered = true → s.blockLoaded = true

namespace ModulesInv

variable {pages : KernelPages} {arch : ProbeArch} {api : BlockApi} {s : Modules}

/-- The base module is loaded while a file is open. -/
theorem loaded_of_file (h : ModulesInv pages s) {f : ℕ} {file : OpenFile}
    (hf : s.files f = some file) : s.baseLoaded = true := by
  by_contra hbase
  rw [(h.unloaded (Bool.eq_false_iff.mpr hbase)).2.2.2 f] at hf
  cases hf

/-- The base module is loaded while the net filter is. -/
theorem loaded_of_net (h : ModulesInv pages s) (hnet : s.netLoaded = true) :
    s.baseLoaded = true := by
  by_contra hbase
  rw [(h.unloaded (Bool.eq_false_iff.mpr hbase)).2.1] at hnet
  cases hnet

/-- The base module is loaded while the block filter is. -/
theorem loaded_of_block (h : ModulesInv pages s) (hblock : s.blockLoaded = true) :
    s.baseLoaded = true := by
  by_contra hbase
  rw [(h.unloaded (Bool.eq_false_iff.mpr hbase)).2.2.1] at hblock
  cases hblock

/-- The base module is loaded while it holds something. -/
theorem loaded_of_held (h : ModulesInv pages s) {r : BaseResource} (hr : r ∈ s.base.held) :
    s.baseLoaded = true := by
  by_contra hbase
  rw [(h.unloaded (Bool.eq_false_iff.mpr hbase)).1] at hr
  cases hr

end ModulesInv

section Calls

variable {pages : KernelPages} {s : Modules} {p : ℕ}

/-- Code of a module that is loaded may run. -/
theorem run_loaded {loaded : Bool} (h : loaded = true) : s.run loaded = s := by
  rw [Modules.run, if_pos h]

/-- A byte of the page may be used. -/
theorem HoldsRing.touch (h : HoldsRing pages s p) {a : ℕ}
    (hle : pages.virtToPhys p ≤ a) (hlt : a < pages.virtToPhys p + 2 ^ pages.pageShift) :
    s.touch pages a = s := by
  obtain ⟨nodes, -, -, hheld⟩ := h.held
  rw [Modules.touch, if_pos]
  refine List.any_eq_true.mpr ⟨.page p, ?_, decide_eq_true ⟨hle, hlt⟩⟩
  rw [hheld, loadedHoldings]
  exact List.mem_append_right _ (by simp)

/-- The ring may be used. -/
theorem HoldsRing.touchRing (h : HoldsRing pages s p) : s.touchRing pages = s := by
  rw [Modules.touchRing, h.ringPtr]
  exact h.touch le_rfl (Nat.lt_add_of_pos_right (Nat.two_pow_pos _))

/-- The test for null passes. -/
theorem HoldsRing.touchRingUnlessNull (h : HoldsRing pages s p) :
    s.touchRingUnlessNull pages = s := by
  rw [Modules.touchRingUnlessNull, h.ringPtr, Option.isSome_some, if_pos rfl, h.touchRing]

/-- `read` uses what is there. -/
theorem HoldsRing.readCall (h : HoldsRing pages s p) (hbase : s.baseLoaded = true) (len ppos : ℕ)
    (fOp : FileOps) : s.readCall pages len ppos fOp = s := by
  cases fOp with
  | mmapFops => rfl
  | charFops => simp only [Modules.readCall, run_loaded hbase, h.touchRing, ite_self]
  | netFops => simp only [Modules.readCall, run_loaded hbase, h.touchRingUnlessNull, ite_self]

/-- `write` uses what is there. -/
theorem HoldsRing.writeCall (h : HoldsRing pages s p) (hbase : s.baseLoaded = true) (len : ℕ)
    (fOp : FileOps) : s.writeCall pages len fOp = s := by
  cases fOp with
  | mmapFops | netFops => rfl
  | charFops => simp only [Modules.writeCall, run_loaded hbase, h.touchRing, ite_self]

/-- `ioctl` uses what is there. -/
theorem ioctlCall_loaded (hbase : s.baseLoaded = true) (fOp : FileOps) : s.ioctlCall fOp = s := by
  cases fOp with
  | mmapFops => exact run_loaded hbase
  | charFops | netFops => rfl

/-- `mmap` maps the page or nothing. -/
theorem HoldsRing.mmapCall (h : HoldsRing pages s p) (hbase : s.baseLoaded = true) {vma : VmArea}
    (hvma : vma.WholePages pages) (remap : ℤ) (fOp : FileOps) :
    (s.mmapCall pages vma remap fOp).1 = s ∧
      ∀ m, (s.mmapCall pages vma remap fOp).2 = some m → m.ShowsPage pages p := by
  cases fOp with
  | charFops | netFops => exact ⟨rfl, fun m hm => by cases hm⟩
  | mmapFops =>
      refine ⟨run_loaded hbase, fun m hm => ?_⟩
      simp only [Modules.mmapCall, h.ringPtr] at hm
      obtain ⟨hshift, hsize, hphys⟩ := telemetryMmapIo_mapped hvma h.frame (Prod.ext rfl hm)
      exact ⟨hshift, hsize, hphys⟩

/-- A byte of a mapping may be used. -/
theorem HoldsRing.access (h : HoldsRing pages s p) {m : Mapping} (hm : m.ShowsPage pages p) {v : ℕ}
    (hlt : v < m.vma.vmEnd) : s.touch pages (m.phys pages v) = s := by
  have hpage : RingMember.telemetryPageSize = 2 ^ pages.pageShift := by rw [hm.pageShift]; rfl
  have hpos : 0 < 2 ^ pages.pageShift := Nat.two_pow_pos _
  have hsize := hm.size
  rw [hm.phys]
  exact h.touch (Nat.le_add_right _ _) (by omega)

end Calls

/-! ## The steps -/

section Steps

variable {pages : KernelPages} {arch : ProbeArch} {api : BlockApi} {s s' : Modules} {p f : ℕ}

/-- Updating one file keeps what the files show. -/
theorem FilesShow.update (h : FilesShow pages p s.files) {file : Option OpenFile}
    (hfile : ∀ g, file = some g → ∀ m ∈ g.mappings, m.ShowsPage pages p) :
    FilesShow pages p (update s.files f file) := by
  intro f' g hg m hm
  by_cases hf : f' = f
  · subst hf
    rw [Function.update_self] at hg
    exact hfile g hg m hm
  · rw [Function.update_of_ne hf] at hg
    exact h f' g hg m hm

/-- A file that is kept is the file. -/
theorem OpenFile.kept_eq {file g : OpenFile} (h : file.kept = some g) : g = file := by
  rw [OpenFile.kept] at h
  split at h
  · cases h
  · exact (Option.some.inj h).symm

/-- **Only the files change**, while the base module is loaded. -/
theorem ModulesInv.withFiles (h : ModulesInv pages s) (hbase : s.baseLoaded = true)
    {files : ℕ → Option OpenFile}
    (hshow : ∀ p, HoldsRing pages s p → FilesShow pages p s.files → FilesShow pages p files) :
    ModulesInv pages { s with files := files } := by
  obtain ⟨p, hring, hfiles⟩ := h.loaded hbase
  exact { h with
    loaded := fun _ => ⟨p, ⟨hring.ringPtr, hring.held, hring.frame⟩, hshow p hring hfiles⟩
    unloaded := fun hunloaded => by rw [hbase] at hunloaded; cases hunloaded }

/-- **Loading the base module.** -/
theorem ModulesInv.insmodTelemetry (h : ModulesInv pages s) {o : BaseOutcomes}
    (ho : o.Documented pages) (hbase : s.baseLoaded = false)
    (hnext : modulesNext pages arch api s (.insmodTelemetry o) = some s') :
    ModulesInv pages s' := by
  obtain ⟨hheld, hnet, hblock, hfiles⟩ := h.unloaded hbase
  simp only [modulesNext, Option.some.injEq] at hnext
  obtain ⟨ret, base, hinit⟩ : ∃ ret base,
      telemetryBaseInit o ⟨none, s.base.held, s.base.fault⟩ = (ret, base) := ⟨_, _, rfl⟩
  rw [hinit] at hnext
  subst hnext
  rcases telemetryBaseInit_cases hinit with ⟨p, hp, rfl, rfl⟩ | ⟨hkept, hfault, hret⟩
  · have hnodup : (nodeMinors.filter o.created).reverse.Nodup :=
      List.nodup_reverse.mpr (List.Nodup.filter _ (by decide))
    have hnodes : ∀ n ∈ (nodeMinors.filter o.created).reverse, n ∈ nodeMinors := fun n hn =>
      (List.mem_filter.mp (List.mem_reverse.mp hn)).1
    have hall : loadedHoldings (nodeMinors.filter o.created).reverse p ++ s.base.held
        = loadedHoldings (nodeMinors.filter o.created).reverse p := by
      rw [hheld, List.append_nil]
    have hshow : FilesShow pages p s.files := fun f file hf => by rw [hfiles f] at hf; cases hf
    exact { h with
      loaded := fun _ => ⟨p, ⟨rfl, ⟨_, hnodup, hnodes, hall⟩, ho.page p hp⟩, hshow⟩
      unloaded := fun hret => by cases (show true = false from hret) }
  · have hneg : ret < 0 := by
      rcases hret with ⟨-, rfl⟩ | ⟨hneg, -⟩ | hclass
      · decide
      · exact hneg
      · exact ho.classErr ret hclass
    refine { h with baseFault := hfault ▸ h.baseFault, loaded := ?_, unloaded := ?_ }
    · exact fun hret => absurd (of_decide_eq_true hret) (Int.not_le.mpr hneg)
    · exact fun _ => ⟨hkept.trans hheld, hnet, hblock, hfiles⟩

/-- **Removing the base module.** -/
theorem ModulesInv.rmmodTelemetry (h : ModulesInv pages s)
    (hok : KernelAllows pages s .rmmodTelemetry)
    (hnext : modulesNext pages arch api s .rmmodTelemetry = some s') : ModulesInv pages s' := by
  obtain ⟨hbase, hnet, hblock, hfiles⟩ := hok
  obtain ⟨p, ⟨hptr, ⟨nodes, hnodup, hnodes, hheld⟩, -⟩, -⟩ := h.loaded hbase
  have hexit : telemetryBaseExit s.base = ⟨some p, [], false⟩ := by
    have hbaseEq : s.base = ⟨some p, loadedHoldings nodes p, false⟩ := by
      rw [← hptr, ← hheld, ← h.baseFault]
    rw [hbaseEq, telemetryBaseExit_loaded hnodup hnodes]
  simp only [modulesNext, hexit, Option.some.injEq] at hnext
  subst hnext
  exact { h with
    baseFault := rfl
    loaded := fun hloaded => by cases hloaded
    unloaded := fun _ => ⟨rfl, hnet, hblock, hfiles⟩ }

/-- **Loading and removing the net filter.** -/
theorem ModulesInv.netFilter (h : ModulesInv pages s) {loaded registered : Bool}
    (hbase : loaded = true → s.baseLoaded = true) (hreg : registered = true → loaded = true) :
    ModulesInv pages { s with netLoaded := loaded, hookRegistered := registered } := by
  refine { h with loaded := fun hloaded => ?_, unloaded := fun hunloaded => ?_, hook := hreg }
  · obtain ⟨p, hring, hfiles⟩ := h.loaded hloaded
    exact ⟨p, ⟨hring.ringPtr, hring.held, hring.frame⟩, hfiles⟩
  · obtain ⟨hheld, -, hblock, hfiles⟩ := h.unloaded hunloaded
    refine ⟨hheld, Bool.eq_false_iff.mpr fun hloaded => ?_, hblock, hfiles⟩
    exact Bool.false_ne_true (hunloaded.symm.trans (hbase hloaded))

/-- **Loading and removing the block filter.** -/
theorem ModulesInv.blockFilter (h : ModulesInv pages s) {loaded registered : Bool}
    (hbase : loaded = true → s.baseLoaded = true) (hreg : registered = true → loaded = true) :
    ModulesInv pages { s with blockLoaded := loaded, probeRegistered := registered } := by
  refine { h with loaded := fun hloaded => ?_, unloaded := fun hunloaded => ?_, probe := hreg }
  · obtain ⟨p, hring, hfiles⟩ := h.loaded hloaded
    exact ⟨p, ⟨hring.ringPtr, hring.held, hring.frame⟩, hfiles⟩
  · obtain ⟨hheld, hnet, -, hfiles⟩ := h.unloaded hunloaded
    refine ⟨hheld, hnet, Bool.eq_false_iff.mpr fun hloaded => ?_, hfiles⟩
    exact Bool.false_ne_true (hunloaded.symm.trans (hbase hloaded))

/-- `net_filter_init` leaves the hook registered only when it succeeds. -/
theorem netFilterInit_registered {register : ℤ} (h : (netFilterInit register).2 = true) :
    decide (0 ≤ (netFilterInit register).1) = true := by
  rw [netFilterInit] at h ⊢
  split at h
  · cases h
  · rename_i hzero
    rw [if_neg hzero]
    rfl

/-- `block_filter_init` leaves the probe registered only when it succeeds. -/
theorem blockFilterInit_registered {register : ℤ} (h : (blockFilterInit register).2 = true) :
    decide (0 ≤ (blockFilterInit register).1) = true := by
  rw [blockFilterInit] at h ⊢
  split at h
  · cases h
  · rename_i hzero
    rw [if_neg hzero]
    rfl

/-- **Opening a node.** -/
theorem ModulesInv.openNode (h : ModulesInv pages s) (hbase : s.baseLoaded = true) {minor : ℕ}
    (hnext : modulesNext pages arch api s (.openNode f minor) = some s') :
    ModulesInv pages s' := by
  simp only [modulesNext, run_loaded hbase] at hnext
  split at hnext
  · cases hnext
    refine h.withFiles hbase fun p _ hfiles => hfiles.update fun g hg m hm => ?_
    cases hg
    cases hm
  · cases hnext
    exact h

/-- **Mapping a file.** -/
theorem ModulesInv.mmap (h : ModulesInv pages s) {vma : VmArea} {remap : ℤ}
    (hvma : vma.WholePages pages)
    (hnext : modulesNext pages arch api s (.mmap f vma remap) = some s') :
    ModulesInv pages s' := by
  obtain ⟨file, hfile, hcalled⟩ := Option.map_eq_some_iff.mp hnext
  have hbase := h.loaded_of_file hfile
  obtain ⟨p, hring, hshow⟩ := h.loaded hbase
  obtain ⟨hsame, hmapped⟩ := hring.mmapCall hbase hvma remap file.fOp
  split at hcalled
  · rename_i s₁ m hcall
    rw [hcall] at hsame hmapped
    subst hsame hcalled
    refine h.withFiles hbase fun q hq hfiles => hfiles.update fun g hg m' hm' => ?_
    cases hg
    obtain rfl : p = q := Option.some.inj (hring.ringPtr.symm.trans hq.ringPtr)
    rcases List.mem_cons.mp hm' with rfl | hold
    · exact hmapped m' rfl
    · exact hfiles f file hfile m' hold
  · rename_i s₁ hcall
    rw [hcall] at hsame
    obtain rfl : s₁ = s := hsame
    exact hcalled ▸ h

/-- **Taking something away from a file**: a mapping, or the descriptor. -/
theorem ModulesInv.takeAway (h : ModulesInv pages s) {file file' : OpenFile}
    (hfile : s.files f = some file) (hsub : ∀ m ∈ file'.mappings, m ∈ file.mappings) :
    ModulesInv pages { s with files := Function.update s.files f file'.kept } := by
  refine h.withFiles (h.loaded_of_file hfile) fun p _ hfiles => hfiles.update fun g hg m hm => ?_
  rw [OpenFile.kept_eq hg] at hm
  exact hfiles f file hfile m (hsub m hm)

/-- **The step lemma.** -/
theorem ModulesInv.next (h : ModulesInv pages s) {a : ModulesAction} (hok : KernelAllows pages s a)
    (hnext : modulesNext pages arch api s a = some s') : ModulesInv pages s' := by
  cases a with
  | insmodTelemetry o => exact h.insmodTelemetry hok.2 hok.1 hnext
  | rmmodTelemetry => exact h.rmmodTelemetry hok hnext
  | insmodNetFilter register =>
      cases hnext
      exact h.netFilter (fun _ => hok.1) netFilterInit_registered
  | rmmodNetFilter =>
      cases hnext
      exact h.netFilter (fun hloaded => by cases hloaded) id
  | insmodBlockFilter register =>
      cases hnext
      exact h.blockFilter (fun _ => hok.1) blockFilterInit_registered
  | rmmodBlockFilter =>
      cases hnext
      exact h.blockFilter (fun hloaded => by cases hloaded) id
  | openNode f minor => exact h.openNode (h.loaded_of_held hok.1) hnext
  | mmap f vma remap => exact h.mmap hok.2 hnext
  | munmap f i =>
      obtain ⟨file, hfile, rfl⟩ := Option.map_eq_some_iff.mp hnext
      exact h.takeAway hfile fun m hm => List.mem_of_mem_eraseIdx hm
  | close f =>
      obtain ⟨file, hfile, rfl⟩ := Option.map_eq_some_iff.mp hnext
      exact h.takeAway hfile fun m hm => hm
  | read f len ppos =>
      obtain ⟨file, hfile, rfl⟩ := Option.map_eq_some_iff.mp hnext
      have hbase := h.loaded_of_file hfile
      obtain ⟨p, hring, -⟩ := h.loaded hbase
      rwa [hring.readCall hbase]
  | write f len =>
      obtain ⟨file, hfile, rfl⟩ := Option.map_eq_some_iff.mp hnext
      have hbase := h.loaded_of_file hfile
      obtain ⟨p, hring, -⟩ := h.loaded hbase
      rwa [hring.writeCall hbase]
  | ioctl f =>
      obtain ⟨file, hfile, rfl⟩ := Option.map_eq_some_iff.mp hnext
      rwa [ioctlCall_loaded (h.loaded_of_file hfile)]
  | access f i v =>
      obtain ⟨file, hfile, hnext⟩ := Option.bind_eq_some_iff.mp hnext
      obtain ⟨m, hm, rfl⟩ := Option.map_eq_some_iff.mp hnext
      obtain ⟨file', m', hfile', hm', -, hlt⟩ := hok
      obtain rfl : file = file' := Option.some.inj (hfile.symm.trans hfile')
      obtain rfl : m = m' := Option.some.inj (hm.symm.trans hm')
      obtain ⟨p, hring, hfiles⟩ := h.loaded (h.loaded_of_file hfile)
      rwa [hring.access (hfiles f file hfile m (List.mem_of_getElem? hm)) hlt]
  | packet skb =>
      have hnet := h.hook hok
      obtain ⟨p, hring, -⟩ := h.loaded (h.loaded_of_net hnet)
      simp only [modulesNext, run_loaded hnet, hring.touchRingUnlessNull, ite_self,
        Option.some.injEq] at hnext
      exact hnext ▸ h
  | bio regs =>
      have hblock := h.probe hok
      obtain ⟨p, hring, -⟩ := h.loaded (h.loaded_of_block hblock)
      simp only [modulesNext, run_loaded hblock, hring.touchRingUnlessNull, ite_self,
        Option.some.injEq] at hnext
      exact hnext ▸ h

end Steps

/-! ## The law -/

end TelemetrySubsystem
