import Mathlib.Logic.Function.Basic
import Mathlib.Tactic.Common

/-! # Systems that take one chosen action at a time

A system is a partial step function `next : σ → α → Option σ`: `next s a` is the state after the
action `a`, or `none` when `a` is not enabled in `s`. All nondeterminism (which thread moves, which
outcome the environment picks) is carried by the action, so a run is a list of actions and can be
evaluated.

* **`exec`** runs a list of actions.
* **`ReachableUnder next ok s₀`** is reachability along steps that all satisfy the guard `ok`;
  `Reachable` is the unguarded case. `ReachableUnder.invariant` packages the induction over runs.
* **`exec_labels`** is the rule for runs of which something is observed step by step.
* **`exists_prefix_of_rank`** is the rule for what is bound to happen: a rank goes down until then.
* **`Finishes step s t`** is total correctness of a deterministic loop: iterating `step` from `s`
  comes to a halt, and it halts in `t`. -/

namespace ActionSystem

variable {σ α : Type*}

/-! ## Running a list of actions -/

/-- Run the actions from the left, stopping with `none` at the first one that is not enabled. -/
def exec (next : σ → α → Option σ) : σ → List α → Option σ
  | s, [] => some s
  | s, a :: as => (next s a).bind fun s' => exec next s' as

@[simp] theorem exec_nil (next : σ → α → Option σ) (s : σ) : exec next s [] = some s := rfl

@[simp] theorem exec_cons (next : σ → α → Option σ) (s : σ) (a : α) (as : List α) :
    exec next s (a :: as) = (next s a).bind fun s' => exec next s' as := rfl

/-- **A run inside a larger system**: as long as one action does in the larger system what another
one does in the smaller, repeating the one does what repeating the other does. -/
theorem exec_replicate_embed {τ β : Type*} {next : σ → α → Option σ} {next' : τ → β → Option τ}
    {a : α} {b : β} (embed : τ → σ) (hstep : ∀ t, next (embed t) a = (next' t b).map embed)
    (n : ℕ) (t : τ) :
    exec next (embed t) (List.replicate n a) = (exec next' t (List.replicate n b)).map embed := by
  induction n generalizing t with
  | zero => rfl
  | succ n ih =>
      rw [List.replicate_succ, List.replicate_succ, exec_cons, exec_cons, hstep]
      cases next' t b with
      | none => rfl
      | some t' => exact ih t'

/-- **Runs along an exact simulation**: where the steps of one system are, seen through `f`, the
steps of another, so are its runs. -/
theorem exec_map {τ : Type*} {next : σ → α → Option σ} {next' : τ → α → Option τ} {f : τ → σ}
    {I : τ → Prop} {p : α → Prop}
    (hcomm : ∀ t a, I t → p a → next (f t) a = (next' t a).map f)
    (hinv : ∀ t a t', I t → p a → next' t a = some t' → I t') (as : List α) (hp : ∀ a ∈ as, p a)
    {t : τ} (ht : I t) : exec next (f t) as = (exec next' t as).map f := by
  induction as generalizing t with
  | nil => rfl
  | cons a as ih =>
      have ha : p a := hp a List.mem_cons_self
      rw [exec_cons, exec_cons, hcomm t a ht ha]
      cases hstep : next' t a with
      | none => rfl
      | some t' => exact ih (fun b hb => hp b (List.mem_cons_of_mem a hb)) (hinv t a t' ht ha hstep)

/-! ## Reachability along guarded steps -/

/-- **Guarded reachability**: `s` is reached from `s₀` by enabled steps, each of which satisfies the
guard `ok` in the state it is taken from. -/
inductive ReachableUnder (next : σ → α → Option σ) (ok : σ → α → Prop) (s₀ : σ) : σ → Prop
  | start : ReachableUnder next ok s₀ s₀
  | step {s s' : σ} {a : α} : ReachableUnder next ok s₀ s → ok s a → next s a = some s' →
      ReachableUnder next ok s₀ s'

/-- Unguarded reachability: every enabled step may be taken. -/
abbrev Reachable (next : σ → α → Option σ) (s₀ : σ) : σ → Prop :=
  ReachableUnder next (fun _ _ => True) s₀

variable {next : σ → α → Option σ} {ok : σ → α → Prop} {s₀ s s' : σ} {a : α}

/-- **The run rule.** A property that holds at the start and is kept by every step that satisfies
the guard holds in every state reached. -/
theorem ReachableUnder.invariant {I : σ → Prop} (h : ReachableUnder next ok s₀ s) (h₀ : I s₀)
    (hstep : ∀ s a s', I s → ok s a → next s a = some s' → I s') : I s := by
  induction h with
  | start => exact h₀
  | step _ hok hnext ih => exact hstep _ _ _ ih hok hnext

/-- **The simulation rule**: where, seen through `f` and along the invariant `I`, every step of one
system is a step of another or none at all, what the one reaches the other reaches. -/
theorem ReachableUnder.map {τ β : Type*} {next' : τ → β → Option τ} {ok' : τ → β → Prop} {t₀ : τ}
    {f : σ → τ} {I : σ → Prop} (h : ReachableUnder next ok s₀ s) (h₀ : I s₀) (hf₀ : f s₀ = t₀)
    (hinv : ∀ s a s', I s → ok s a → next s a = some s' → I s')
    (hsim : ∀ s a s', I s → ok s a → next s a = some s' →
      f s' = f s ∨ ∃ b, ok' (f s) b ∧ next' (f s) b = some (f s')) :
    ReachableUnder next' ok' t₀ (f s) := by
  have hall : I s ∧ ReachableUnder next' ok' t₀ (f s) := by
    refine h.invariant (I := fun s => I s ∧ ReachableUnder next' ok' t₀ (f s))
      ⟨h₀, hf₀ ▸ .start⟩ fun s a s' hi hok hnext => ⟨hinv s a s' hi.1 hok hnext, ?_⟩
    rcases hsim s a s' hi.1 hok hnext with hsame | ⟨b, hok', hnext'⟩
    · exact hsame ▸ hi.2
    · exact hi.2.step hok' hnext'
  exact hall.2

/-- A run whose actions all satisfy a state-independent guard reaches its last state. -/
theorem ReachableUnder.of_exec {p : α → Prop} (as : List α) (hp : ∀ a ∈ as, p a)
    (h : exec next s as = some s') (hs : ReachableUnder next (fun _ a => p a) s₀ s) :
    ReachableUnder next (fun _ a => p a) s₀ s' := by
  induction as generalizing s with
  | nil =>
      rw [exec_nil, Option.some.injEq] at h
      exact h ▸ hs
  | cons a as ih =>
      rw [exec_cons] at h
      obtain ⟨t, ht, h⟩ := Option.bind_eq_some_iff.mp h
      exact ih (fun b hb => hp b (List.mem_cons_of_mem a hb)) h
        (hs.step (hp a List.mem_cons_self) ht)

/-- The last state of a run is reachable. -/
theorem Reachable.of_exec (as : List α) (h : exec next s₀ as = some s) : Reachable next s₀ s :=
  ReachableUnder.of_exec (p := fun _ => True) as (fun _ _ => trivial) h .start

/-- The system that refuses an action unless the check `q` passes. -/
def checked (next : σ → α → Option σ) (q : σ → α → Bool) (s : σ) (a : α) : Option σ :=
  if q s a then next s a else none

/-- **A run can be checked against a guard while it is executed**: if along the invariant `J` the
check implies the guard, the last state of a checked run is reached under the guard. -/
theorem ReachableUnder.of_checked {q : σ → α → Bool} {J : σ → Prop}
    (hJ : ∀ s a s', J s → q s a = true → next s a = some s' → J s')
    (himp : ∀ s a, J s → q s a = true → ok s a) (as : List α)
    (h : exec (checked next q) s as = some s') (h₀ : J s) (hs : ReachableUnder next ok s₀ s) :
    ReachableUnder next ok s₀ s' := by
  induction as generalizing s with
  | nil =>
      rw [exec_nil, Option.some.injEq] at h
      exact h ▸ hs
  | cons a as ih =>
      rw [exec_cons] at h
      obtain ⟨t, ht, h⟩ := Option.bind_eq_some_iff.mp h
      rw [checked] at ht
      split at ht
      · rename_i hq
        exact ih h (hJ s a t h₀ hq ht) (hs.step (himp s a h₀ hq) ht)
      · cases ht

/-- The check may imply the guard in every state. -/
theorem ReachableUnder.of_check {q : σ → α → Bool} (himp : ∀ s a, q s a = true → ok s a)
    (as : List α) (h : exec (checked next q) s as = some s') (hs : ReachableUnder next ok s₀ s) :
    ReachableUnder next ok s₀ s' :=
  .of_checked (J := fun _ => True) (fun _ _ _ _ _ _ => trivial) (fun s a _ hq => himp s a hq) as h
    trivial hs

/-! ## Runs that are observed -/

/-- **What is observed along a run**, where `label s a` is what the action `a` shows in `s`. -/
def labels {β : Type*} (next : σ → α → Option σ) (label : σ → α → List β) : σ → List α → List β
  | _, [] => []
  | s, a :: as => label s a ++ (next s a).elim [] fun s' => labels next label s' as

/-- **The rule for observed runs**: what holds at the start with nothing observed, and is kept by
every step with what the step shows, holds at the end with all that was observed. -/
theorem exec_labels {β : Type*} (label : σ → α → List β) {I : σ → List β → Prop} {p : α → Prop}
    (hstep : ∀ s ls a s', I s ls → p a → next s a = some s' → I s' (ls ++ label s a))
    (as : List α) (hp : ∀ a ∈ as, p a) {ls : List β} (hs : I s ls)
    (h : exec next s as = some s') : I s' (ls ++ labels next label s as) := by
  induction as generalizing s ls with
  | nil =>
      rw [exec_nil, Option.some.injEq] at h
      rw [labels, List.append_nil]
      exact h ▸ hs
  | cons a as ih =>
      rw [exec_cons] at h
      obtain ⟨t, ht, h⟩ := Option.bind_eq_some_iff.mp h
      rw [labels, ht, Option.elim_some, ← List.append_assoc]
      exact ih (fun b hb => hp b (List.mem_cons_of_mem a hb))
        (hstep s ls a t hs (hp a List.mem_cons_self) ht) h

/-- A run in two parts. -/
theorem exec_append (next : σ → α → Option σ) (s : σ) (as bs : List α) :
    exec next s (as ++ bs) = (exec next s as).bind fun t => exec next t bs := by
  induction as generalizing s with
  | nil => rfl
  | cons a as ih =>
      rw [List.cons_append, exec_cons, exec_cons, Option.bind_assoc]
      exact congrArg _ (funext fun t => ih t)

/-! ## Progress -/

/-- **The progress rule.** Where every action of a kind is enabled and either reaches the goal or
leaves less to do, a long enough list of such actions has reached the goal on the way. -/
theorem exists_prefix_of_rank {I Q : σ → Prop} {p : α → Prop} (rank : σ → ℕ)
    (hstep : ∀ s a, I s → p a → ∃ s', next s a = some s' ∧ (Q s' ∨ I s' ∧ rank s' < rank s))
    (as : List α) (hp : ∀ a ∈ as, p a) (hs : I s) (hlen : rank s < as.length) :
    ∃ bs s', bs <+: as ∧ exec next s bs = some s' ∧ Q s' := by
  induction as generalizing s with
  | nil => exact absurd hlen (Nat.not_lt_zero _)
  | cons a as ih =>
      obtain ⟨t, ht, hgoal | ⟨hI, hlt⟩⟩ := hstep s a hs (hp a List.mem_cons_self)
      · refine ⟨[a], t, ⟨as, rfl⟩, ?_, hgoal⟩
        rw [exec_cons, ht]
        rfl
      · have hlen' : rank t < as.length := Nat.lt_of_lt_of_le hlt (Nat.le_of_lt_succ hlen)
        obtain ⟨bs, s', hprefix, hexec, hgoal⟩ :=
          ih (fun b hb => hp b (List.mem_cons_of_mem a hb)) hI hlen'
        refine ⟨a :: bs, s', List.cons_prefix_cons.mpr ⟨rfl, hprefix⟩, ?_, hgoal⟩
        rw [exec_cons, ht]
        exact hexec

/-- **The work rule.** Where every action of a kind uses up some of the work that is left, and no
other action adds to it, a run has no more actions of that kind than there was work. -/
theorem exec_countP_le {I : ℕ → σ → Prop} {own ok : α → Bool}
    (hstep : ∀ n s a s', I n s → ok a = true → next s a = some s' →
      ∃ m, I m s' ∧ m + (if own a then 1 else 0) ≤ n)
    (as : List α) (hok : ∀ a ∈ as, ok a = true) {n : ℕ} (hs : I n s)
    (hexec : exec next s as = some s') : ∃ m, I m s' ∧ m + as.countP own ≤ n := by
  induction as generalizing s n with
  | nil =>
      rw [exec_nil, Option.some.injEq] at hexec
      exact ⟨n, hexec ▸ hs, Nat.le_refl n⟩
  | cons a as ih =>
      rw [exec_cons] at hexec
      obtain ⟨t, ht, hexec⟩ := Option.bind_eq_some_iff.mp hexec
      obtain ⟨m, hm, hle⟩ := hstep n s a t hs (hok a List.mem_cons_self) ht
      obtain ⟨l, hl, hrest⟩ := ih (fun b hb => hok b (List.mem_cons_of_mem a hb)) hm hexec
      refine ⟨l, hl, ?_⟩
      rw [List.countP_cons]
      omega

/-! ## Deterministic loops that come to a halt -/

/-- **The loop halts**: iterating `step` from the first state reaches the second one, where `step`
is undefined. -/
inductive Finishes (step : σ → Option σ) : σ → σ → Prop
  | halt {s : σ} : step s = none → Finishes step s s
  | step {s s' t : σ} : step s = some s' → Finishes step s' t → Finishes step s t

/-- A deterministic loop halts in at most one state. -/
theorem Finishes.unique {step : σ → Option σ} {s t u : σ} (ht : Finishes step s t)
    (hu : Finishes step s u) : t = u := by
  induction ht with
  | halt hs =>
      cases hu with
      | halt _ => rfl
      | step hs' _ => rw [hs] at hs'; cases hs'
  | step hs _ ih =>
      cases hu with
      | halt hs' => rw [hs] at hs'; cases hs'
      | step hs' hu' =>
          rw [hs, Option.some.injEq] at hs'
          exact ih (hs' ▸ hu')

/-- **The loop rule.** A property that holds before the loop and is kept by every iteration holds
where the loop halts. -/
theorem Finishes.invariant {step : σ → Option σ} {I : σ → Prop} {s t : σ} (h : Finishes step s t)
    (h₀ : I s) (hstep : ∀ s s', I s → step s = some s' → I s') : I t ∧ step t = none := by
  induction h with
  | halt hs => exact ⟨h₀, hs⟩
  | step hs _ ih => exact ih (hstep _ _ h₀ hs)

/-- **A loop that counts down halts.** -/
theorem Finishes.exists_of_rank {step : σ → Option σ} (rank : σ → ℕ)
    (hrank : ∀ s s', step s = some s' → rank s' < rank s) (s : σ) : ∃ t, Finishes step s t := by
  induction hn : rank s using Nat.strongRecOn generalizing s with
  | ind n ih =>
      subst hn
      cases hs : step s with
      | none => exact ⟨s, .halt hs⟩
      | some s' =>
          obtain ⟨t, ht⟩ := ih _ (hrank s s' hs) s' rfl
          exact ⟨t, .step hs ht⟩

end ActionSystem
