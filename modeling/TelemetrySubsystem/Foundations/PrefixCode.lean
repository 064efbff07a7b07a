import Mathlib.Data.List.Basic
import Mathlib.Tactic.Common

/-! # Texts that can be read back

A text is put together from fixed pieces and from fields, each of which says by itself where it
ends.

* **`PrefixCode f`**: whatever follows the word of `a`, the text shows `a`, and where its word ends.
* `PrefixCode.delimited` makes one from words and a character that none of them has;
  `PrefixCode.append` and `PrefixCode.text_append` put them together.
* **`PrefixCode.flatten_prefix_iff`** and **`PrefixCode.flatten_indexed`** read back rows;
  `PrefixCode.cut_of_prefix` is for words of one length. -/

variable {α β γ ι : Type*}

/-- **A prefix code**: a text that begins with a word shows which word it is, and what follows. -/
def PrefixCode (f : α → List β) : Prop :=
  ∀ ⦃a b : α⦄ ⦃s t : List β⦄, f a ++ s = f b ++ t → a = b ∧ s = t

namespace PrefixCode

variable {f : α → List β} {g : γ → List β}

/-- One word after the other. -/
theorem append (hf : PrefixCode f) (hg : PrefixCode g) :
    PrefixCode fun p : α × γ => f p.1 ++ g p.2 := by
  rintro ⟨a, c⟩ ⟨b, d⟩ s t h
  rw [List.append_assoc, List.append_assoc] at h
  obtain ⟨rfl, hrest⟩ := hf h
  obtain ⟨rfl, rfl⟩ := hg hrest
  exact ⟨rfl, rfl⟩

/-- A fixed text before the word. -/
theorem text_append (text : List β) (hf : PrefixCode f) : PrefixCode fun a => text ++ f a := by
  intro a b s t h
  rw [List.append_assoc, List.append_assoc] at h
  exact hf (List.append_cancel_left h)

/-- Words for what determines its code. -/
theorem comp (hf : PrefixCode f) {φ : γ → α} (hφ : Function.Injective φ) :
    PrefixCode fun c => f (φ c) := fun _ _ _ _ h => (hf h).imp_left fun heq => hφ heq

/-- The first occurrence of a character splits a text in one way. -/
theorem split_unique {x y s t : List β} {c : β} (hx : c ∉ x) (hy : c ∉ y)
    (h : x ++ c :: s = y ++ c :: t) : x = y ∧ s = t := by
  induction x generalizing y with
  | nil =>
      cases y with
      | nil => exact ⟨rfl, List.tail_eq_of_cons_eq h⟩
      | cons b y =>
          rw [List.nil_append, List.cons_append] at h
          exact absurd (List.head_eq_of_cons_eq h ▸ List.mem_cons_self) hy
  | cons a x ih =>
      cases y with
      | nil =>
          rw [List.nil_append, List.cons_append] at h
          exact absurd (List.head_eq_of_cons_eq h ▸ List.mem_cons_self) hx
      | cons b y =>
          rw [List.cons_append, List.cons_append, List.cons.injEq] at h
          obtain ⟨rfl, rfl⟩ := ih (fun hc => hx (List.mem_cons_of_mem a hc))
            (fun hc => hy (List.mem_cons_of_mem b hc)) h.2
          exact ⟨by rw [h.1], rfl⟩

/-- **Words closed by a text** whose first character none of them has. -/
theorem delimited (hf : Function.Injective f) {c : β} (hc : ∀ a, c ∉ f a) (text : List β) :
    PrefixCode fun a => f a ++ c :: text := by
  intro a b s t h
  rw [List.append_assoc, List.append_assoc, List.cons_append, List.cons_append] at h
  obtain ⟨hword, hrest⟩ := split_unique (hc a) (hc b) h
  exact ⟨hf hword, List.append_cancel_left hrest⟩

/-- **A row of words can be read back**, unless one of them is empty: a row begins like another one
only if it has the same words there. -/
theorem flatten_prefix_iff (hf : PrefixCode f) (hne : ∀ a, f a ≠ []) (as bs : List α) :
    (as.map f).flatten <+: (bs.map f).flatten ↔ as <+: bs := by
  constructor
  · rintro ⟨rest, h⟩
    induction as generalizing bs with
    | nil => exact List.nil_prefix
    | cons a as ih =>
        cases bs with
        | nil =>
            simp only [List.map_nil, List.map_cons, List.flatten_nil, List.flatten_cons,
              List.append_assoc] at h
            exact absurd (List.append_eq_nil_iff.mp h).1 (hne a)
        | cons b bs =>
            simp only [List.map_cons, List.flatten_cons, List.append_assoc] at h
            obtain ⟨rfl, hrest⟩ := hf h
            exact List.cons_prefix_cons.mpr ⟨rfl, ih bs hrest⟩
  · rintro ⟨rest, rfl⟩
    rw [List.map_append, List.flatten_append]
    exact List.prefix_append _ _

/-- **A row of fields, one for each index**, can be read back. -/
theorem flatten_indexed {f : ι → α → List β} (hf : ∀ i, PrefixCode (f i)) (is : List ι)
    {x y : ι → α} {s t : List β}
    (h : (is.map fun i => f i (x i)).flatten ++ s = (is.map fun i => f i (y i)).flatten ++ t) :
    (∀ i ∈ is, x i = y i) ∧ s = t := by
  induction is with
  | nil => exact ⟨fun i hi => (List.not_mem_nil hi).elim, h⟩
  | cons i is ih =>
      simp only [List.map_cons, List.flatten_cons, List.append_assoc] at h
      obtain ⟨hi, h⟩ := hf i h
      obtain ⟨his, hst⟩ := ih h
      exact ⟨List.forall_mem_cons.mpr ⟨hi, his⟩, hst⟩

/-- **Words of one length** stand in their row at multiples of it; the last one may be shorter. -/
theorem take_drop_flatten {n : ℕ} (row : List (List β)) (hfull : ∀ w ∈ row.dropLast, w.length = n)
    (hle : ∀ w ∈ row, w.length ≤ n) (k : ℕ) :
    (row.flatten.drop (n * k)).take n = row[k]?.getD [] := by
  induction row generalizing k with
  | nil => simp
  | cons w row ih =>
      rw [List.flatten_cons]
      have hw : w.length ≤ n := hle w List.mem_cons_self
      cases row with
      | nil =>
          -- the last word is all that is left
          cases k with
          | zero => simp [List.take_of_length_le hw]
          | succ k =>
              have hpast : w.length ≤ n * (k + 1) :=
                Nat.le_trans hw (Nat.le_mul_of_pos_right n k.succ_pos)
              simp [List.drop_eq_nil_of_le hpast]
      | cons v row =>
          rw [List.dropLast_cons_cons] at hfull
          have hw : w.length = n := hfull w List.mem_cons_self
          cases k with
          | zero => simp [← hw]
          | succ k =>
              rw [Nat.mul_succ, Nat.add_comm, ← List.drop_drop, ← hw, List.drop_left, hw,
                List.getElem?_cons_succ]
              exact ih (fun u hu => hfull u (List.mem_cons_of_mem w hu))
                (fun u hu => hle u (List.mem_cons_of_mem w hu)) k

/-- **What is cut from the beginning of a row** of words of one length: each cut is the next word,
and a word of the full length. -/
theorem cut_of_prefix {n : ℕ} {row : List (List β)} (hfull : ∀ w ∈ row.dropLast, w.length = n)
    (hle : ∀ w ∈ row, w.length ≤ n) (hn : 0 < n) {out : List β} (hout : out <+: row.flatten) {k : ℕ}
    (hk : n * (k + 1) ≤ out.length) :
    row[k]? = some ((out.drop (n * k)).take n) ∧ ((out.drop (n * k)).take n).length = n := by
  have hroom : n * k + n ≤ out.length := hk
  obtain ⟨rest, hrest⟩ := hout
  have hcut := take_drop_flatten row hfull hle k
  rw [← hrest, List.drop_append_of_le_length (by omega),
    List.take_append_of_le_length (by rw [List.length_drop]; omega)] at hcut
  have hlen : ((out.drop (n * k)).take n).length = n := by
    rw [List.length_take, List.length_drop]
    omega
  refine ⟨?_, hlen⟩
  cases hget : row[k]? with
  | none =>
      rw [hcut, hget] at hlen
      exact absurd hlen (Nat.ne_of_lt hn)
  | some w => rw [hcut, hget, Option.getD_some]

end PrefixCode
