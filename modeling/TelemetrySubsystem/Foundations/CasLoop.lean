import Mathlib.Algebra.BigOperators.Group.Finset.Piecewise
import Mathlib.Algebra.BigOperators.Group.Finset.Sigma
import Mathlib.Algebra.Order.BigOperators.Group.Finset
import Mathlib.Algebra.Order.Ring.Nat
import Mathlib.Logic.Function.Basic
import Mathlib.Tactic.Common

/-! # Compare-and-swap loops on one word

Any number of threads want to store a value each into the same word. A thread loads the word and
then tries to swap it: the attempt succeeds if the word still is what the thread has last seen there,
and otherwise shows it the new word. What is seen says nothing about how often the word has changed:
it may have changed and changed back.

* **`Place`** is where a thread stands, **`History`** what has happened so far; `History.fail` and
  `History.succeed` record an attempt.
* **`Charged`** is the invariant that charges every failure to another thread's success;
  `Charged.load`, `Charged.fail` and `Charged.succeed` are its rules.
* **`Charged.sum_failures_le`** bounds the failures of all threads together. -/

namespace CasLoop

open Function (update)

variable {α : Type*}

/-! ## Threads and their history -/

/-- Where a thread stands in its loop. -/
inductive Place (α : Type*)
  /-- It has not loaded the word. -/
  | before
  /-- It is going to try a swap, and expects to find this. -/
  | holding (expected : α)
  /-- Its swap has succeeded. -/
  | finished
  deriving DecidableEq, Repr

/-- The thread has loaded the word and not yet swapped it. -/
def Place.isHolding : Place α → Bool
  | .holding _ => true
  | _ => false

/-- **What has happened so far.** -/
structure History (α : Type*) where
  /-- The failed attempts of each thread. -/
  failures : ℕ → ℕ
  /-- The values that each thread has stored. -/
  stored : ℕ → List α
  /-- The threads whose swap has succeeded while the thread was trying. -/
  overtaken : ℕ → List ℕ

/-- Nothing has happened. -/
def History.empty : History α := ⟨fun _ => 0, fun _ => [], fun _ => []⟩

/-- Thread `c` fails. -/
def History.fail (h : History α) (c : ℕ) : History α :=
  { h with failures := update h.failures c (h.failures c + 1) }

/-- Thread `c` stores `v`. -/
def History.succeed (h : History α) (place : ℕ → Place α) (c : ℕ) (v : α) : History α :=
  { h with
    stored := update h.stored c (h.stored c ++ [v])
    overtaken := fun d =>
      if d ≠ c ∧ (place d).isHolding then h.overtaken d ++ [c] else h.overtaken d }

variable {word v : α} {place : ℕ → Place α} {h : History α} {c d n : ℕ}

/-- A failure is counted. -/
@[simp] theorem failures_fail_self (h : History α) (c : ℕ) :
    (h.fail c).failures c = h.failures c + 1 := Function.update_self ..

/-- It is not counted for anybody else. -/
theorem failures_fail_of_ne (hd : d ≠ c) : (h.fail c).failures d = h.failures d :=
  Function.update_of_ne hd ..

/-- Whom a success overtakes. -/
theorem mem_overtaken_succeed {e : ℕ} : e ∈ (h.succeed place c v).overtaken d ↔
    e ∈ h.overtaken d ∨ e = c ∧ d ≠ c ∧ (place d).isHolding = true := by
  rw [History.succeed]
  dsimp only
  split
  · rename_i htrying
    rw [List.mem_append, List.mem_singleton]
    exact or_congr_right ⟨fun he => ⟨he, htrying⟩, fun he => he.1⟩
  · rename_i htrying
    exact ⟨.inl, fun he => he.resolve_right fun hnew => htrying hnew.2⟩

variable [DecidableEq α]

/-- One if the next attempt is going to fail. -/
def Place.stale (word : α) : Place α → ℕ
  | .holding expected => if expected = word then 0 else 1
  | _ => 0

/-- At most one attempt is going to fail next. -/
theorem Place.stale_le (word : α) (p : Place α) : p.stale word ≤ 1 := by
  cases p with
  | holding expected =>
      rw [stale]
      split <;> omega
  | before | finished => exact Nat.zero_le 1

/-- A thread that is not trying does not fail. -/
theorem Place.stale_of_not_holding {p : Place α} (hp : p.isHolding = false) : p.stale word = 0 := by
  cases p with
  | holding expected => cases hp
  | before | finished => rfl

/-! ## The invariant -/

/-- **Every failure is charged to another thread's success**: the failures of a thread, with the one
that is due, are no more than the threads that have overtaken it; these have finished, each of them
once, and no two threads overtake each other. -/
structure Charged (word : α) (place : ℕ → Place α) (h : History α) : Prop where
  charge : ∀ c, h.failures c + (place c).stale word ≤ (h.overtaken c).length
  finished : ∀ c, ∀ d ∈ h.overtaken c, place d = .finished
  nodup : ∀ c, (h.overtaken c).Nodup
  asymm : ∀ c, ∀ d ∈ h.overtaken c, c ∉ h.overtaken d

/-- Before anything has happened. -/
theorem Charged.start (hplace : ∀ c, place c = .before) : Charged word place .empty where
  charge c := by
    rw [hplace]
    exact Nat.le_refl 0
  finished _ _ hd := absurd hd List.not_mem_nil
  nodup _ := List.nodup_nil
  asymm _ _ hd := absurd hd List.not_mem_nil

/-- **Loading the word**: what has been loaded is not stale. -/
theorem Charged.load (hc : Charged word place h) (hbefore : place c ≠ .finished) :
    Charged word (update place c (.holding word)) h where
  charge d := by
    have hcharge := hc.charge d
    by_cases hd : d = c
    · subst hd
      rw [Function.update_self, Place.stale, if_pos rfl]
      omega
    · rwa [Function.update_of_ne hd]
  finished d e he := by
    have hfinished := hc.finished d e he
    have hne : e ≠ c := by
      rintro rfl
      exact hbefore hfinished
    rwa [Function.update_of_ne hne]
  nodup := hc.nodup
  asymm := hc.asymm

/-- **A failed attempt** was due, and leaves the thread with the word as it is. -/
theorem Charged.fail (hc : Charged word place h) {expected : α} (hplace : place c = .holding expected)
    (hne : expected ≠ word) : Charged word (update place c (.holding word)) (h.fail c) := by
  have hload := hc.load (c := c) (by rw [hplace]; exact nofun)
  refine ⟨fun d => ?_, hload.finished, hc.nodup, hc.asymm⟩
  by_cases hd : d = c
  · subst hd
    have hcharge := hc.charge d
    rw [hplace, Place.stale, if_neg hne] at hcharge
    rw [Function.update_self, Place.stale, if_pos rfl, failures_fail_self]
    exact hcharge
  · rw [failures_fail_of_ne hd]
    exact hload.charge d

/-- **A successful attempt** pays for the failures it may cause. -/
theorem Charged.succeed (hc : Charged word place h) (hplace : place c = .holding word) :
    Charged v (update place c .finished) (h.succeed place c v) where
  charge d := by
    have hcharge := hc.charge d
    by_cases hd : d = c
    · subst hd
      have hsame : (h.succeed place d v).overtaken d = h.overtaken d := if_neg fun hne => hne.1 rfl
      rw [Function.update_self, hsame]
      exact Nat.le_trans (Nat.le_add_right _ _) hcharge
    · rw [Function.update_of_ne hd]
      by_cases hholding : (place d).isHolding = true
      · have hmore : (h.succeed place c v).overtaken d = h.overtaken d ++ [c] :=
          if_pos ⟨hd, hholding⟩
        have hstale := (place d).stale_le v
        rw [hmore, List.length_append, List.length_singleton]
        exact Nat.add_le_add (Nat.le_trans (Nat.le_add_right _ _) hcharge) hstale
      · have hsame : (h.succeed place c v).overtaken d = h.overtaken d :=
          if_neg fun htrying => hholding htrying.2
        rw [hsame, Place.stale_of_not_holding (Bool.eq_false_iff.mpr hholding)]
        exact Nat.le_trans (Nat.le_add_right _ _) hcharge
  finished d e he := by
    by_cases hec : e = c
    · rw [hec, Function.update_self]
    · rw [Function.update_of_ne hec]
      exact hc.finished d e ((mem_overtaken_succeed.mp he).resolve_right fun hnew => hec hnew.1)
  nodup d := by
    rw [History.succeed]
    dsimp only
    split
    · -- the thread has not finished before, so it is not in the list yet
      have hnew : c ∉ h.overtaken d := fun hmem => by
        have hfinished := hc.finished d c hmem
        rw [hplace] at hfinished
        cases hfinished
      rw [← List.concat_eq_append]
      exact (hc.nodup d).concat hnew
    · exact hc.nodup d
  asymm d e he hd := by
    rcases mem_overtaken_succeed.mp he with hold | ⟨rfl, hne, hholding⟩
    · rcases mem_overtaken_succeed.mp hd with hold' | ⟨rfl, -, hholding⟩
      · exact hc.asymm d e hold hold'
      · rw [hc.finished _ _ hold] at hholding
        cases hholding
    · rcases mem_overtaken_succeed.mp hd with hold' | ⟨rfl, hne', -⟩
      · rw [hc.finished _ _ hold'] at hholding
        cases hholding
      · exact hne rfl

/-! ## All failures together -/

/-- No more threads overtake one than have finished. -/
theorem Charged.overtaken_subset (hc : Charged word place h)
    (hn : ∀ c, n ≤ c → place c ≠ .finished) (c : ℕ) :
    (h.overtaken c).toFinset ⊆ Finset.range n := by
  intro d hd
  rw [List.mem_toFinset] at hd
  rw [Finset.mem_range]
  by_contra hle
  exact hn d (Nat.le_of_not_lt hle) (hc.finished c d hd)

/-- **One thread fails at most once for each of the others.** -/
theorem Charged.failures_lt (hc : Charged word place h)
    (hn : ∀ c, n ≤ c → place c ≠ .finished) (hcn : c < n) : h.failures c < n := by
  have hself : c ∉ h.overtaken c := fun hmem => hc.asymm c c hmem hmem
  have hsub : (h.overtaken c).toFinset ⊆ (Finset.range n).erase c := by
    intro d hd
    refine Finset.mem_erase.mpr ⟨?_, hc.overtaken_subset hn c hd⟩
    rintro rfl
    exact hself (List.mem_toFinset.mp hd)
  have hcard := Finset.card_le_card hsub
  rw [List.toFinset_card_of_nodup (hc.nodup c),
    Finset.card_erase_of_mem (Finset.mem_range.mpr hcn), Finset.card_range] at hcard
  have hcharge := hc.charge c
  omega

/-- A relation in which no two of `n` elements are related both ways has at most as many pairs as
there are two-element sets. -/
theorem sum_card_le_of_asymm {n : ℕ} {r : ℕ → Finset ℕ} (hsub : ∀ c, r c ⊆ Finset.range n)
    (hasymm : ∀ c, ∀ d ∈ r c, c ∉ r d) : ∑ c ∈ Finset.range n, (r c).card ≤ n * (n - 1) / 2 := by
  let pair : ℕ → ℕ → ℕ := fun c d => if d ∈ r c then 1 else 0
  have hcard : ∀ c, (r c).card = ∑ d ∈ Finset.range n, pair c d := by
    intro c
    rw [← Finset.card_filter, Finset.filter_mem_eq_inter, Finset.inter_eq_right.mpr (hsub c)]
  -- of `c, d` and `d, c` one is a pair at most, and none is if they are the same
  have hpair : ∀ c d, pair c d + pair d c ≤ if d = c then 0 else 1 := by
    intro c d
    by_cases hcd : d ∈ r c
    · have hdc : c ∉ r d := hasymm c d hcd
      have hne : d ≠ c := by
        rintro rfl
        exact hdc hcd
      simp only [pair, if_pos hcd, if_neg hdc, if_neg hne, Nat.add_zero, Nat.le_refl]
    · by_cases hdc : c ∈ r d
      · have hne : d ≠ c := by
          rintro rfl
          exact hcd hdc
        simp only [pair, if_neg hcd, if_pos hdc, if_neg hne, Nat.zero_add, Nat.le_refl]
      · simp only [pair, if_neg hcd, if_neg hdc]
        exact Nat.zero_le _
  have hothers : ∀ c ∈ Finset.range n, ∑ d ∈ Finset.range n, (if d = c then 0 else 1) = n - 1 := by
    intro c hcn
    have hone : ∀ d ∈ (Finset.range n).erase c, (if d = c then 0 else 1) = 1 := fun d hd =>
      if_neg (Finset.ne_of_mem_erase hd)
    rw [← Finset.add_sum_erase _ _ hcn, if_pos rfl, Nat.zero_add, Finset.sum_const_nat hone,
      Nat.mul_one, Finset.card_erase_of_mem hcn, Finset.card_range]
  have hdouble : 2 * ∑ c ∈ Finset.range n, (r c).card ≤ n * (n - 1) := by
    calc 2 * ∑ c ∈ Finset.range n, (r c).card
        = ∑ c ∈ Finset.range n, ∑ d ∈ Finset.range n, (pair c d + pair d c) := by
          simp only [Finset.sum_add_distrib, hcard]
          rw [Finset.sum_comm (f := fun c d => pair d c), Nat.two_mul]
      _ ≤ ∑ c ∈ Finset.range n, ∑ d ∈ Finset.range n, (if d = c then 0 else 1) :=
          Finset.sum_le_sum fun c _ => Finset.sum_le_sum fun d _ => hpair c d
      _ = n * (n - 1) := by rw [Finset.sum_const_nat hothers, Finset.card_range]
  rw [Nat.le_div_iff_mul_le Nat.two_pos, Nat.mul_comm]
  exact hdouble

/-- **All failures of `n` threads**: of two threads, at most one fails for the other. -/
theorem Charged.sum_failures_le (hc : Charged word place h)
    (hn : ∀ c, n ≤ c → place c ≠ .finished) :
    ∑ c ∈ Finset.range n, h.failures c ≤ n * (n - 1) / 2 := by
  have hpairs := sum_card_le_of_asymm (r := fun c => (h.overtaken c).toFinset)
    (hc.overtaken_subset hn) fun c d hd hmem =>
      hc.asymm c d (List.mem_toFinset.mp hd) (List.mem_toFinset.mp hmem)
  refine Nat.le_trans (Finset.sum_le_sum fun c _ => ?_) hpairs
  have hcharge := hc.charge c
  rw [List.toFinset_card_of_nodup (hc.nodup c)]
  omega

end CasLoop
