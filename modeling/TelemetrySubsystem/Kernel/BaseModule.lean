import TelemetrySubsystem.NetFilter.Snapshot
import TelemetrySubsystem.SharedPage.Page
import Mathlib.Data.List.Nodup

/-! # `telemetry_base.c`: the page and its device

The base module allocates the shared page, registers the character device, and hands the page out to
whoever opens and maps a node.

* **`BaseModule`** is what the kernel has handed out to the module; `BaseModule.fault` records that
  it has given back something it did not hold.
* **`telemetryBaseInit`** and **`telemetryBaseExit`** are the two ends of its life. What every call
  of the kernel returns is in `BaseOutcomes`.
* **`telemetryMasterOpen`** and **`telemetryMmapIo`** are what a node does;
  **`telemetryMmapIo_mapped`** says what is mapped.
* **`telemetryBaseInit_cases`** and **`telemetryBaseExit_loaded`** say what they leave behind. -/

namespace TelemetrySubsystem

/-! ## Constants -/

/-- `-ENXIO`. -/
def negENXIO : ℤ := -6

/-- `-EAGAIN`. -/
def negEAGAIN : ℤ := -11

/-- `MINOR_TELEMETRY_MMAP`. -/
def minorTelemetryMmap : ℕ := 0

/-- `MINOR_TELEMETRY_CHAR`. -/
def minorTelemetryChar : ℕ := 1

/-- `MINOR_TELEMETRY_NET`. -/
def minorTelemetryNet : ℕ := 2

/-- `MINOR_TELEMETRY_BLOCK`. -/
def minorTelemetryBlock : ℕ := 3

/-- `MINOR_TELEMETRY_MEM`. -/
def minorTelemetryMem : ℕ := 4

/-- `MINOR_TELEMETRY_CPU`. -/
def minorTelemetryCpu : ℕ := 5

/-- The minors of the device nodes, in the order the nodes are created and destroyed. -/
def nodeMinors : List ℕ :=
  [minorTelemetryMmap, minorTelemetryChar, minorTelemetryNet, minorTelemetryBlock,
    minorTelemetryMem, minorTelemetryCpu]

/-! ## What the module holds -/

/-- What the kernel hands out to the module. -/
inductive BaseResource
  /-- A page, by its address in the kernel. -/
  | page (address : ℕ)
  /-- The device numbers. -/
  | chrdevRegion
  /-- The entry in the device map. -/
  | cdev
  /-- `telemetry_class`. -/
  | telemetryClass
  /-- A device node. -/
  | node (minor : ℕ)
  deriving DecidableEq, Repr

/-- **The base module**: its pointer to the page, and what it holds. -/
structure BaseModule where
  /-- `ring_ptr`, or `none` for a null pointer. -/
  ringPtr : Option ℕ
  held : List BaseResource
  /-- Something has been given back that was not held. -/
  fault : Bool
  deriving DecidableEq, Repr

namespace BaseModule

/-- The kernel hands something out. -/
def acquire (r : BaseResource) (m : BaseModule) : BaseModule := { m with held := r :: m.held }

/-- Give something back, which must be held. -/
def release (r : BaseResource) (m : BaseModule) : BaseModule :=
  if r ∈ m.held then { m with held := m.held.erase r } else { m with fault := true }

/-- What has been handed out last can be given back. -/
@[simp] theorem release_cons (r : BaseResource) (ringPtr : Option ℕ) (held : List BaseResource)
    (fault : Bool) : release r ⟨ringPtr, r :: held, fault⟩ = ⟨ringPtr, held, fault⟩ := by
  rw [release, if_pos List.mem_cons_self, List.erase_cons_head]

/-- `device_create`, whose result is not looked at. -/
def deviceCreate (created : ℕ → Bool) (m : BaseModule) (minor : ℕ) : BaseModule :=
  if created minor then m.acquire (.node minor) else m

/-- `device_destroy`, which does nothing where there is no node. -/
def deviceDestroy (m : BaseModule) (minor : ℕ) : BaseModule :=
  { m with held := m.held.erase (.node minor) }

end BaseModule

/-! ## The two ends of its life -/

/-- What the calls of the kernel in `telemetry_base_init` return. -/
structure BaseOutcomes where
  /-- `get_zeroed_page`. -/
  page : Option ℕ
  /-- `alloc_chrdev_region`. -/
  region : ℤ
  /-- `cdev_add`. -/
  cdev : ℤ
  /-- `PTR_ERR(telemetry_class)`, or `none` for a class. -/
  classErr : Option ℤ
  /-- Whether `device_create` has made the node. -/
  created : ℕ → Bool

/-- **`telemetry_base_init`**. -/
def telemetryBaseInit (o : BaseOutcomes) (m : BaseModule) : ℤ × BaseModule :=
  match o.page with
  | none => (negENOMEM, { m with ringPtr := none })
  | some p =>
      let m₁ := BaseModule.acquire (.page p) { m with ringPtr := some p }
      if o.region < 0 then (o.region, m₁.release (.page p))
      else
        let m₂ := m₁.acquire .chrdevRegion
        if o.cdev < 0 then (o.cdev, (m₂.release .chrdevRegion).release (.page p))
        else
          let m₃ := m₂.acquire .cdev
          match o.classErr with
          | some err =>
              (err, ((m₃.release .cdev).release .chrdevRegion).release (.page p))
          | none =>
              (0, nodeMinors.foldl (BaseModule.deviceCreate o.created)
                (m₃.acquire .telemetryClass))

/-- **`telemetry_base_exit`**. -/
def telemetryBaseExit (m : BaseModule) : BaseModule :=
  let m₁ := nodeMinors.foldl BaseModule.deviceDestroy m
  let m₂ := ((m₁.release .telemetryClass).release .cdev).release .chrdevRegion
  match m₂.ringPtr with
  | some p => m₂.release (.page p)
  | none => m₂

/-- **What a loaded module holds**: the nodes that could be made, and everything else. -/
def loadedHoldings (nodes : List ℕ) (p : ℕ) : List BaseResource :=
  nodes.map .node ++ [.telemetryClass, .cdev, .chrdevRegion, .page p]

/-- Creating the nodes. -/
theorem foldl_deviceCreate (created : ℕ → Bool) (minors : List ℕ) (m : BaseModule) :
    minors.foldl (BaseModule.deviceCreate created) m
      = { m with held := (minors.filter created).reverse.map .node ++ m.held } := by
  induction minors generalizing m with
  | nil => rfl
  | cons minor minors ih =>
      rw [List.foldl_cons, ih, List.filter_cons, BaseModule.deviceCreate]
      split
      · simp only [BaseModule.acquire, List.reverse_cons, List.map_append, List.map_cons,
          List.map_nil, List.append_assoc, List.cons_append, List.nil_append]
      · rfl

/-- Destroying the nodes. -/
theorem foldl_deviceDestroy (minors : List ℕ) (m : BaseModule) :
    minors.foldl BaseModule.deviceDestroy m
      = { m with held := m.held.diff (minors.map .node) } := by
  induction minors generalizing m with
  | nil => rfl
  | cons minor minors ih =>
      rw [List.foldl_cons, ih, BaseModule.deviceDestroy, List.map_cons, List.diff_cons]

/-- **What `telemetry_base_init` leaves behind**: everything, or what was there before. It fails
with the error of the call that failed. -/
theorem telemetryBaseInit_cases {o : BaseOutcomes} {m m' : BaseModule} {ret : ℤ}
    (h : telemetryBaseInit o m = (ret, m')) :
    (∃ p, o.page = some p ∧ ret = 0 ∧ m' = ⟨some p,
        loadedHoldings (nodeMinors.filter o.created).reverse p ++ m.held, m.fault⟩) ∨
    (m'.held = m.held ∧ m'.fault = m.fault ∧
      (o.page = none ∧ ret = negENOMEM ∨ ret < 0 ∧ (ret = o.region ∨ ret = o.cdev) ∨
        o.classErr = some ret)) := by
  unfold telemetryBaseInit at h
  split at h
  case h_1 hpage =>
    cases h
    exact .inr ⟨rfl, rfl, .inl ⟨hpage, rfl⟩⟩
  case h_2 p hpage =>
    simp only [BaseModule.acquire, BaseModule.release_cons] at h
    split at h
    case isTrue hregion =>
      cases h
      exact .inr ⟨rfl, rfl, .inr (.inl ⟨hregion, .inl rfl⟩)⟩
    case isFalse =>
      split at h
      case isTrue hcdev =>
        cases h
        exact .inr ⟨rfl, rfl, .inr (.inl ⟨hcdev, .inr rfl⟩)⟩
      case isFalse =>
        split at h
        case h_1 err hclass =>
          cases h
          exact .inr ⟨rfl, rfl, .inr (.inr hclass)⟩
        case h_2 =>
          rw [foldl_deviceCreate] at h
          cases h
          exact .inl ⟨p, hpage, rfl, by simp only [loadedHoldings, List.append_assoc,
            List.cons_append, List.nil_append]⟩

/-- **`telemetry_base_exit` gives back what a loaded module holds**, each thing once. -/
theorem telemetryBaseExit_loaded {nodes : List ℕ} {p : ℕ} (hnodup : nodes.Nodup)
    (hnodes : ∀ n ∈ nodes, n ∈ nodeMinors) (fault : Bool) :
    telemetryBaseExit ⟨some p, loadedHoldings nodes p, fault⟩ = ⟨some p, [], fault⟩ := by
  have hnone : (loadedHoldings nodes p).diff (nodeMinors.map .node)
      = [.telemetryClass, .cdev, .chrdevRegion, .page p] := by
    have hinj : Function.Injective BaseResource.node := fun a b h => BaseResource.node.inj h
    have hdup : (loadedHoldings nodes p).Nodup := by
      rw [loadedHoldings, List.nodup_append]
      refine ⟨hnodup.map hinj, by simp, ?_⟩
      rintro _ ha b hb rfl
      obtain ⟨n, -, rfl⟩ := List.mem_map.mp ha
      simp at hb
    rw [hdup.sdiff_eq_filter, loadedHoldings, List.filter_append, List.filter_eq_nil_iff.mpr]
    · rfl
    · intro r hr
      obtain ⟨n, hn, rfl⟩ := List.mem_map.mp hr
      simpa [hinj.eq_iff] using hnodes n hn
  rw [telemetryBaseExit, foldl_deviceDestroy]
  simp only [hnone, BaseModule.release_cons]

/-! ## The nodes -/

/-- The file operations of the nodes. -/
inductive FileOps
  | mmapFops
  | charFops
  | netFops
  deriving DecidableEq, Repr

/-- `telemetry_mmap_open`. -/
def telemetryMmapOpen : ℤ := 0

/-- `dev_open`. -/
def devOpen : ℤ := 0

/-- `f_op->open`, where there is one. -/
def FileOps.openOp : FileOps → Option ℤ
  | .mmapFops => some telemetryMmapOpen
  | .charFops => some devOpen
  | .netFops => none

/-- **`telemetry_master_open`**: what it returns, and the operations it gives to the file. -/
def telemetryMasterOpen (minor : ℕ) : ℤ × Option FileOps :=
  let opened (fOp : FileOps) := (fOp.openOp.getD 0, some fOp)
  if minor = minorTelemetryMmap then opened .mmapFops
  else if minor = minorTelemetryChar then opened .charFops
  else if minor = minorTelemetryNet then opened .netFops
  else ( negENXIO, none)

/-- The pages of the kernel, none of which is smaller than 4096 bytes. -/
structure KernelPages where
  /-- `PAGE_SHIFT`. -/
  pageShift : ℕ
  twelve_le : 12 ≤ pageShift
  /-- `virt_to_phys`. -/
  virtToPhys : ℕ → ℕ

/-- `struct vm_area_struct`. -/
structure VmArea where
  vmStart : ℕ
  vmEnd : ℕ
  deriving DecidableEq, Repr

/-- **Pages mapped into a process**: the area, and the frame that its first page leads to. -/
structure Mapping where
  vma : VmArea
  pfn : ℕ
  deriving DecidableEq, Repr

/-- The byte that an address of the process leads to. -/
def Mapping.phys (pages : KernelPages) (m : Mapping) (v : ℕ) : ℕ :=
  m.pfn * 2 ^ pages.pageShift + (v - m.vma.vmStart)

/-- **`telemetry_mmap_io`**, with what `remap_pfn_range` returns. -/
def telemetryMmapIo (pages : KernelPages) (ringPtr : Option ℕ) (vma : VmArea) (remap : ℤ) :
    ℤ × Option Mapping :=
  let size := vma.vmEnd - vma.vmStart
  if RingMember.telemetryPageSize < size then (negEINVAL, none)
  else
    let pfn := pages.virtToPhys (ringPtr.getD 0) >>> pages.pageShift
    if remap ≠ 0 then (negEAGAIN, none) else (0, some ⟨vma, pfn⟩)

/-- An area that is mapped is one of whole pages. -/
structure VmArea.WholePages (pages : KernelPages) (vma : VmArea) : Prop where
  start : 2 ^ pages.pageShift ∣ vma.vmStart
  stop : 2 ^ pages.pageShift ∣ vma.vmEnd
  lt : vma.vmStart < vma.vmEnd

/-- **What `telemetry_mmap_io` maps**: the page and nothing else, and only on a kernel whose pages
have 4096 bytes. -/
theorem telemetryMmapIo_mapped {pages : KernelPages} {p : ℕ} {vma : VmArea} {remap ret : ℤ}
    {m : Mapping} (hvma : vma.WholePages pages)
    (hp : 2 ^ pages.pageShift ∣ pages.virtToPhys p)
    (h : telemetryMmapIo pages (some p) vma remap = (ret, some m)) :
    pages.pageShift = 12 ∧ m.vma.vmEnd = m.vma.vmStart + RingMember.telemetryPageSize ∧
      ∀ v, m.phys pages v = pages.virtToPhys p + (v - m.vma.vmStart) := by
  simp only [telemetryMmapIo] at h
  split at h
  · cases h
  · rename_i hsize
    split at h
    · cases h
    · cases h
      obtain ⟨⟨a, ha⟩, ⟨b, hb⟩, hlt⟩ := hvma
      have hge : 2 ^ 12 ≤ 2 ^ pages.pageShift := Nat.pow_le_pow_right (by decide) pages.twelve_le
      have hpage : RingMember.telemetryPageSize = 2 ^ 12 := rfl
      rw [hpage, Nat.not_lt] at hsize
      have hab : a + 1 ≤ b := by
        rw [ha, hb] at hlt
        exact Nat.lt_of_mul_lt_mul_left hlt
      -- the area has at least one page, so a page has no more than 4096 bytes
      have hone : vma.vmStart + 2 ^ pages.pageShift ≤ vma.vmEnd := by
        rw [ha, hb, ← Nat.mul_succ]
        exact Nat.mul_le_mul_left _ hab
      have hshift : pages.pageShift = 12 := Nat.pow_right_injective le_rfl (by dsimp only; omega)
      refine ⟨hshift, by dsimp only; omega, fun v => ?_⟩
      rw [Mapping.phys, Option.getD_some, Nat.shiftRight_eq_div_pow, Nat.div_mul_cancel hp]

end TelemetrySubsystem
