import TelemetrySubsystem.Foundations.ActionSystem
import TelemetrySubsystem.Foundations.ByteMemory
import Mathlib.Data.Set.Lattice
import Mathlib.Order.CompletePartialOrder

/-! # Tenants of one memory

Several groups of threads, the tenants, share one byte-addressed memory. A step of a thread makes at
most one access to memory, and goes on with the number the access returns.

* **`MemOp`** is an access and **`MemOp.footprint`** the addresses it may touch.
* **`Tenant`** is a group of threads, with a region of memory that its accesses keep to as long as
  its invariant holds.
* **`systemNext`** interleaves the steps of all tenants.
* **`Tenant.hostileNext`** lets strangers overwrite memory at any time.
* **`isolated`**: where the regions are disjoint, what one tenant does and sees in a run of the
  whole system is what it does and sees in a run of its own. -/

namespace SharedMemory

open ActionSystem ByteMemory

/-! ## One access -/

/-- **One access to memory**, of the `n` bytes at address `a`. -/
inductive MemOp
  /-- No access. -/
  | skip
  | load (a n : ℕ)
  | store (a n v : ℕ)
  /-- Add, and return what was there before. -/
  | fetchAdd (a n v : ℕ)
  /-- Store the new number if the old one is there; return what was there before. -/
  | cmpxchg (a n old new : ℕ)
  deriving DecidableEq, Repr

/-- The memory after an access, and the number the access returns. -/
def MemOp.exec (m : Memory) : MemOp → Memory × ℕ
  | .skip => (m, 0)
  | .load a n => (m, ByteMemory.load m a n)
  | .store a n v => (ByteMemory.store m a n v, 0)
  | .fetchAdd a n v => (ByteMemory.store m a n (ByteMemory.load m a n + v), ByteMemory.load m a n)
  | .cmpxchg a n old new =>
      (if ByteMemory.load m a n = old then ByteMemory.store m a n new else m, ByteMemory.load m a n)

/-- The addresses an access may touch. -/
def MemOp.footprint : MemOp → Set ℕ
  | .skip => ∅
  | .load a n | .store a n _ | .fetchAdd a n _ | .cmpxchg a n _ _ => Set.Ico a (a + n)

variable {m m' : Memory} {op : MemOp} {A : Set ℕ}

/-- A store outside a set of addresses. -/
theorem eqOn_store_compl {a n v : ℕ} (h : Set.Ico a (a + n) ⊆ A) :
    Set.EqOn (store m a n v) m Aᶜ := fun _ hx => store_of_notMem fun hx' => hx (h hx')

/-- A store into memories that agree. -/
theorem eqOn_store {a n v : ℕ} (h : Set.EqOn m m' A) :
    Set.EqOn (store m a n v) (store m' a n v) A := by
  intro x hx
  by_cases hin : x ∈ Set.Ico a (a + n)
  · exact store_congr hin
  · rw [store_of_notMem hin, store_of_notMem hin]
    exact h hx

/-- **An access changes nothing outside its footprint.** -/
theorem exec_compl (h : op.footprint ⊆ A) : Set.EqOn (op.exec m).1 m Aᶜ := by
  cases op with
  | skip | load => exact fun _ _ => rfl
  | store | fetchAdd => exact eqOn_store_compl h
  | cmpxchg a n old new =>
      rw [MemOp.exec]
      split
      · exact eqOn_store_compl h
      · exact fun _ _ => rfl

/-- **An access depends on its footprint only**: on memories that agree there it returns the same
number and leaves memories that agree. -/
theorem exec_congr (h : op.footprint ⊆ A) (he : Set.EqOn m m' A) :
    (op.exec m).2 = (op.exec m').2 ∧ Set.EqOn (op.exec m).1 (op.exec m').1 A := by
  cases op with
  | skip => exact ⟨rfl, he⟩
  | load a n => exact ⟨load_congr (he.mono h), he⟩
  | store a n v => exact ⟨rfl, eqOn_store he⟩
  | fetchAdd a n v =>
      have hload : load m a n = load m' a n := load_congr (he.mono h)
      refine ⟨hload, ?_⟩
      simp only [MemOp.exec, hload]
      exact eqOn_store he
  | cmpxchg a n old new =>
      have hload : load m a n = load m' a n := load_congr (he.mono h)
      refine ⟨hload, ?_⟩
      simp only [MemOp.exec, hload]
      split
      · exact eqOn_store he
      · exact he

/-- Make the access of a step, if there is one to make, and go on. -/
def perform {β : Type} (m : Memory) (step : Option (MemOp × (ℕ → β))) : Option (Memory × β) :=
  step.map fun p => ((p.1.exec m).1, p.2 (p.1.exec m).2)

@[simp] theorem perform_none {β : Type} (m : Memory) :
    perform m (none : Option (MemOp × (ℕ → β))) = none := rfl

@[simp] theorem perform_some {β : Type} (m : Memory) (op : MemOp) (k : ℕ → β) :
    perform m (some (op, k)) = some ((op.exec m).1, k (op.exec m).2) := rfl

/-! ## Tenants -/

/-- **A group of threads that keeps to a region of memory.** The invariant is its own: it depends on
the region only, and its steps keep it. -/
structure Tenant where
  Local : Type
  Action : Type
  region : Set ℕ
  /-- The access of a step, and how the step goes on with the number it returns. -/
  access : Local → Action → Option (MemOp × (ℕ → Local))
  /-- The actions that are taken. -/
  ok : Action → Prop
  Inv : Memory → Local → Prop
  inv_congr : ∀ {m m' : Memory} {l : Local}, Set.EqOn m m' region → Inv m l → Inv m' l
  inv_step : ∀ {m m' : Memory} {l l' : Local} {a : Action}, Inv m l → ok a →
    perform m (access l a) = some (m', l') → Inv m' l'
  within : ∀ {m : Memory} {l : Local} {a : Action} {op : MemOp} {k : ℕ → Local}, Inv m l → ok a →
    access l a = some (op, k) → op.footprint ⊆ region

/-- One step of a tenant that has the memory to itself. -/
def Tenant.next (T : Tenant) (s : Memory × T.Local) (a : T.Action) : Option (Memory × T.Local) :=
  perform s.1 (T.access s.2 a)

namespace Tenant

variable {T : Tenant} {l l' : T.Local} {a : T.Action}

/-- **A step changes nothing outside the region.** -/
theorem next_compl (hinv : T.Inv m l) (hok : T.ok a) (h : T.next (m, l) a = some (m', l')) :
    Set.EqOn m' m T.regionᶜ := by
  obtain ⟨⟨op, k⟩, haccess, hstep⟩ := Option.map_eq_some_iff.mp h
  cases hstep
  exact exec_compl (T.within hinv hok haccess)

/-- **A step depends on the region only.** -/
theorem next_congr {m₁ : Memory} (hinv : T.Inv m l) (hok : T.ok a) (he : Set.EqOn m m₁ T.region)
    (h : T.next (m, l) a = some (m', l')) :
    ∃ m₁', T.next (m₁, l) a = some (m₁', l') ∧ Set.EqOn m' m₁' T.region := by
  obtain ⟨⟨op, k⟩, haccess, hstep⟩ := Option.map_eq_some_iff.mp h
  cases hstep
  obtain ⟨hvalue, hmem⟩ := exec_congr (T.within hinv hok haccess) he
  refine ⟨(op.exec m₁).1, ?_, hmem⟩
  rw [next, haccess, perform_some, hvalue]

/-- The invariant holds along every run of a tenant. -/
theorem inv_of_reachable {m₀ : Memory} {l₀ : T.Local} (h₀ : T.Inv m₀ l₀) {s : Memory × T.Local}
    (h : ReachableUnder T.next (fun _ a => T.ok a) (m₀, l₀) s) : T.Inv s.1 s.2 :=
  h.invariant h₀ fun _ _ _ hi hok hnext => T.inv_step hi hok hnext

/-! ### Memory that anybody may change -/

/-- **A tenant among strangers**: in between its steps, memory may be replaced by any other. -/
def hostileNext (T : Tenant) (s : Memory × T.Local) :
    T.Action ⊕ Memory → Option (Memory × T.Local)
  | .inl a => T.next s a
  | .inr m => some (m, s.2)

/-- **A tenant that keeps to its region whatever it reads** does so among strangers: where its
invariant says nothing about memory, every step changes bytes of the region only. -/
theorem hostile_next_compl (hany : ∀ {m m' : Memory} {l : T.Local}, T.Inv m l → T.Inv m' l)
    (hok : ∀ a, T.ok a) {m₀ : Memory} {l₀ : T.Local} (h₀ : T.Inv m₀ l₀) {s s' : Memory × T.Local}
    (h : Reachable T.hostileNext (m₀, l₀) s) (hnext : T.next s a = some s') :
    Set.EqOn s'.1 s.1 T.regionᶜ := by
  have hinv : T.Inv s.1 s.2 := by
    refine h.invariant (I := fun s => T.Inv s.1 s.2) h₀ fun s a s' hi _ hstep => ?_
    cases a with
    | inl a => exact T.inv_step hi (hok a) hstep
    | inr m =>
        cases hstep
        exact hany hi
  exact next_compl hinv (hok a) hnext

end Tenant

/-! ## All tenants on one memory -/

section System

variable {ι : Type} [DecidableEq ι] (T : ι → Tenant)

/-- **One step of the system**: one tenant takes a step. -/
def systemNext (s : Memory × (∀ i, (T i).Local)) (a : Σ i, (T i).Action) :
    Option (Memory × (∀ i, (T i).Local)) :=
  ((T a.1).next (s.1, s.2 a.1) a.2).map fun p => (p.1, Function.update s.2 a.1 p.2)

/-- A run of the system, every tenant taking its own kind of actions. -/
abbrev SystemReachable (m₀ : Memory) (l₀ : ∀ i, (T i).Local) :
    Memory × (∀ i, (T i).Local) → Prop :=
  ReachableUnder (systemNext T) (fun _ a => (T a.1).ok a.2) (m₀, l₀)

/-- **What a tenant sees is a run of its own**: its threads are where they are in the system, and
its region holds what it holds there. -/
def SeesOwnRun (m₀ : Memory) (l₀ : ∀ i, (T i).Local) (s : Memory × (∀ i, (T i).Local)) (i : ι) :
    Prop :=
  ∃ m, ReachableUnder (T i).next (fun _ a => (T i).ok a) (m₀, l₀ i) (m, s.2 i) ∧
    Set.EqOn m s.1 (T i).region

variable {T} {m₀ : Memory} {l₀ : ∀ i, (T i).Local} {s s' : Memory × (∀ i, (T i).Local)}

/-- **A step of one tenant** is a step of its own run, and none of anybody else's. -/
theorem SeesOwnRun.step {a : Σ i, (T i).Action}
    (hdisjoint : Pairwise fun i j => Disjoint (T i).region (T j).region)
    (hinv : ∀ i, (T i).Inv m₀ (l₀ i)) (h : ∀ i, SeesOwnRun T m₀ l₀ s i) (hok : (T a.1).ok a.2)
    (hnext : systemNext T s a = some s') (i : ι) : SeesOwnRun T m₀ l₀ s' i := by
  obtain ⟨⟨m', l'⟩, hstep, rfl⟩ := Option.map_eq_some_iff.mp hnext
  obtain ⟨j, a⟩ := a
  -- the tenant that steps is where it is in its own run, so its invariant holds
  obtain ⟨mj, hrun, hagree⟩ := h j
  have hinvj : (T j).Inv mj (s.2 j) := Tenant.inv_of_reachable (hinv j) hrun
  have hinvs : (T j).Inv s.1 (s.2 j) := (T j).inv_congr hagree hinvj
  by_cases heq : i = j
  · subst heq
    obtain ⟨mj', hnextj, hagree'⟩ := Tenant.next_congr hinvs hok hagree.symm hstep
    refine ⟨mj', ?_, hagree'.symm⟩
    simp only [Function.update_self]
    exact hrun.step hok hnextj
  · obtain ⟨mi, hruni, hagreei⟩ := h i
    have hsub : (T i).region ⊆ (T j).regionᶜ := (hdisjoint heq).subset_compl_right
    have hsame : Set.EqOn m' s.1 (T i).region := (Tenant.next_compl hinvs hok hstep).mono hsub
    refine ⟨mi, ?_, hagreei.trans hsame.symm⟩
    simp only [Function.update_of_ne heq]
    exact hruni

/-- **Tenants with disjoint regions are isolated**: in every state the system reaches, every tenant
sees a run of its own. -/
theorem isolated (hdisjoint : Pairwise fun i j => Disjoint (T i).region (T j).region)
    (hinv : ∀ i, (T i).Inv m₀ (l₀ i)) (h : SystemReachable T m₀ l₀ s) (i : ι) :
    SeesOwnRun T m₀ l₀ s i := by
  have hall : ∀ i, SeesOwnRun T m₀ l₀ s i :=
    h.invariant (I := fun s => ∀ i, SeesOwnRun T m₀ l₀ s i)
      (fun i => ⟨m₀, .start, fun _ _ => rfl⟩)
      fun _ _ _ hi hok hnext => SeesOwnRun.step hdisjoint hinv hi hok hnext
  exact hall i

/-- **Memory outside all regions is never changed.** -/
theorem eqOn_compl_of_reachable
    (hdisjoint : Pairwise fun i j => Disjoint (T i).region (T j).region)
    (hinv : ∀ i, (T i).Inv m₀ (l₀ i)) (h : SystemReachable T m₀ l₀ s) :
    Set.EqOn s.1 m₀ (⋃ i, (T i).region)ᶜ := by
  have hboth : (∀ i, SeesOwnRun T m₀ l₀ s i) ∧ Set.EqOn s.1 m₀ (⋃ i, (T i).region)ᶜ := by
    refine h.invariant
      (I := fun s => (∀ i, SeesOwnRun T m₀ l₀ s i) ∧ Set.EqOn s.1 m₀ (⋃ i, (T i).region)ᶜ)
      ⟨fun i => ⟨m₀, .start, fun _ _ => rfl⟩, fun _ _ => rfl⟩ fun s a s' hi hok hnext => ?_
    refine ⟨SeesOwnRun.step hdisjoint hinv hi.1 hok hnext, ?_⟩
    obtain ⟨⟨m', l'⟩, hstep, rfl⟩ := Option.map_eq_some_iff.mp hnext
    obtain ⟨mj, hrun, hagree⟩ := hi.1 a.1
    have hinvs := (T a.1).inv_congr hagree (Tenant.inv_of_reachable (hinv a.1) hrun)
    have hsub : (⋃ i, (T i).region)ᶜ ⊆ (T a.1).regionᶜ :=
      Set.compl_subset_compl.mpr (Set.subset_iUnion (fun i => (T i).region) a.1)
    exact ((Tenant.next_compl hinvs hok hstep).mono hsub).trans hi.2
  exact hboth.2

end System

end SharedMemory
