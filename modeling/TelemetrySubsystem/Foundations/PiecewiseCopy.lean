import Mathlib.Data.List.Basic
import Mathlib.Tactic.Common

/-! # Records copied one field at a time

A struct assignment is not one memory access: the fields are stored, or loaded, one after another,
and in between the destination holds some fields of the source and some of whatever was there
before.

* **`Fieldwise P F`** is a record type `P` whose fields are named by `F`: every field has a value,
  can be copied from one record to another, and all fields together determine the record.
* **`CopiedExcept rest src dst`** says how far a copy has come: outside the fields in `rest` the
  destination agrees with the source. `CopiedExcept.step` advances it, `CopiedExcept.eq` ends it. -/

/-- **A record type seen field by field.** -/
class Fieldwise (P : Type*) (F : outParam Type*) [DecidableEq F] where
  /-- The value of a field, as a number. -/
  value : F → P → ℕ
  /-- Store a field of the first record into the second. -/
  copy : F → P → P → P
  /-- A copy changes the copied field only. -/
  value_copy : ∀ (f g : F) (src dst : P),
    value g (copy f src dst) = if g = f then value g src else value g dst
  /-- Records that agree on every field are equal. -/
  ext : ∀ p q : P, (∀ f, value f p = value f q) → p = q

namespace Fieldwise

variable {P F : Type*} [DecidableEq F] [Fieldwise P F]

/-- Copy several fields. -/
def copyAll (fs : List F) (src dst : P) : P := fs.foldl (fun d f => copy f src d) dst

@[simp] theorem copyAll_nil (src dst : P) : copyAll [] src dst = dst := rfl

@[simp] theorem copyAll_cons (f : F) (fs : List F) (src dst : P) :
    copyAll (f :: fs) src dst = copyAll fs src (copy f src dst) := rfl

/-- Copying several fields changes those fields only. -/
theorem value_copyAll (fs : List F) (g : F) (src dst : P) :
    value g (copyAll fs src dst) = if g ∈ fs then value g src else value g dst := by
  induction fs generalizing dst with
  | nil => rfl
  | cons f fs ih =>
      rw [copyAll_cons, ih, value_copy]
      -- a field that comes up again later is copied again, from the same source
      by_cases hfs : g ∈ fs
      · rw [if_pos hfs, if_pos (List.mem_cons_of_mem f hfs)]
      · rw [if_neg hfs]
        simp only [List.mem_cons, hfs, or_false]

/-- **How far a copy has come**: outside the fields in `rest`, the destination agrees with the
source. -/
def CopiedExcept (rest : List F) (src dst : P) : Prop := ∀ f, f ∉ rest → value f dst = value f src

/-- Nothing is copied yet. -/
theorem CopiedExcept.start {rest : List F} (hall : ∀ f, f ∈ rest) (src dst : P) :
    CopiedExcept rest src dst := fun f hf => absurd (hall f) hf

/-- **One more field is copied.** -/
theorem CopiedExcept.step {f : F} {rest : List F} {src dst : P}
    (h : CopiedExcept (f :: rest) src dst) : CopiedExcept rest src (copy f src dst) := by
  intro g hg
  rw [value_copy]
  by_cases hfg : g = f
  · rw [if_pos hfg]
  · rw [if_neg hfg]
    exact h g fun hmem => (List.mem_cons.mp hmem).elim hfg hg

/-- Several more fields are copied. -/
theorem CopiedExcept.copyAll {fs rest : List F} {src dst : P}
    (h : CopiedExcept (fs ++ rest) src dst) :
    CopiedExcept rest src (Fieldwise.copyAll fs src dst) := by
  induction fs generalizing dst with
  | nil => exact h
  | cons f fs ih =>
      rw [copyAll_cons]
      exact ih (CopiedExcept.step h)

/-- **A finished copy is the source.** -/
theorem CopiedExcept.eq {src dst : P} (h : CopiedExcept [] src dst) : dst = src :=
  ext dst src fun f => h f List.not_mem_nil

/-- Copying every field yields the source. -/
theorem copyAll_eq {fs : List F} (hall : ∀ f, f ∈ fs) (src dst : P) : copyAll fs src dst = src :=
  ext _ _ fun g => by rw [value_copyAll, if_pos (hall g)]

end Fieldwise
