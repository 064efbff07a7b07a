import Mathlib.Data.UInt
import Mathlib.Tactic.Common

/-! # Printing into a page of bounded size

A text is printed piece by piece to a page, each piece behind the one before, by calls in the manner
of C's `snprintf`: a call is told how much room there is, stops short of the end, sets a terminating
zero and returns how long the piece would have been. The room that is left is an unsigned 64-bit
difference, so once the position has passed the end of the page it is huge.

* **`snprintf`**, **`print`** and **`printAll`** are one call, one call at the current position and
  a row of calls; **`contents`** is what the memory holds from the start of the page.
* **`written_printAll`**: the position advances by the length of the text, fitting or not.
* **`contents_printAll`** and **`printAll_outside`**: text that fits is printed completely, and
  memory behind the page is left alone. -/

namespace BoundedPrint

/-- A call of `snprintf` at position `start`, with room for `room` characters there. -/
def snprintf (memory : ℕ → Char) (start room : ℕ) (text : List Char) (i : ℕ) : Char :=
  if room = 0 ∨ i < start then memory i
  else ((text.take (room - 1) ++ [Char.ofNat 0])[i - start]?).getD (memory i)

/-- The memory from the start of the page on, and the position that has been reached. -/
structure Printed where
  memory : ℕ → Char
  written : ℕ

/-- The room that is left in a page of the given size. -/
def remaining (size written : ℕ) : ℕ := (UInt64.ofNat size - UInt64.ofNat written).toNat

/-- Print one piece at the current position. -/
def print (size : ℕ) (s : Printed) (text : List Char) : Printed where
  memory := snprintf s.memory s.written (remaining size s.written) text
  written := s.written + text.length

/-- Print a row of pieces. -/
def printAll (size : ℕ) (s : Printed) (texts : List (List Char)) : Printed :=
  texts.foldl (print size) s

/-- The first `n` characters of the memory. -/
def contents (memory : ℕ → Char) (n : ℕ) : List Char := (List.range n).map memory

variable {memory memory' : ℕ → Char} {start room size n i : ℕ} {text : List Char} {s : Printed}
  {texts : List (List Char)}

/-! ## One piece -/

/-- The room that is left, as long as the position is inside the page. -/
theorem remaining_of_le {written : ℕ} (hle : written ≤ size) (hsize : size < 2 ^ 64) :
    remaining size written = size - written := by
  rw [remaining, UInt64.toNat_sub, UInt64.toNat_ofNat', UInt64.toNat_ofNat',
    Nat.mod_eq_of_lt hsize, Nat.mod_eq_of_lt (Nat.lt_of_le_of_lt hle hsize)]
  omega

/-- What is in front of the piece stays. -/
theorem snprintf_before (hi : i < start) : snprintf memory start room text i = memory i := by
  rw [snprintf, if_pos (.inr hi)]

/-- **A piece that fits is printed completely.** -/
theorem snprintf_inside (hfit : text.length < room) (hi : i < text.length) :
    snprintf memory start room text (start + i) = text[i] := by
  rw [snprintf, if_neg (by omega), List.take_of_length_le (by omega), Nat.add_sub_cancel_left,
    List.getElem?_append_left hi, List.getElem?_eq_getElem hi, Option.getD_some]

/-- **Nothing is written behind the room**, whatever the piece. -/
theorem snprintf_outside (hi : start + room ≤ i) :
    snprintf memory start room text i = memory i := by
  rw [snprintf]
  split
  · rfl
  · rw [List.getElem?_eq_none, Option.getD_none]
    rw [List.length_append, List.length_take, List.length_singleton]
    omega

/-- Where two memories agree, they hold the same text. -/
theorem contents_congr (h : ∀ i < n, memory i = memory' i) :
    contents memory n = contents memory' n :=
  List.map_congr_left fun i hi => h i (List.mem_range.mp hi)

/-- The position advances by the length of the piece. -/
@[simp] theorem written_print (size : ℕ) (s : Printed) (text : List Char) :
    (print size s text).written = s.written + text.length := rfl

/-- **A piece that fits is appended to what is there.** -/
theorem contents_print (hsize : size < 2 ^ 64) (hfit : s.written + text.length < size) :
    contents (print size s text).memory (print size s text).written
      = contents s.memory s.written ++ text := by
  have hroom : remaining size s.written = size - s.written := remaining_of_le (by omega) hsize
  have hbefore : contents (print size s text).memory s.written
      = contents s.memory s.written := contents_congr fun i hi => snprintf_before hi
  have hpiece : (List.range text.length).map
      (fun i => (print size s text).memory (s.written + i)) = text := by
    refine List.ext_getElem (by simp) fun i hi hi' => ?_
    rw [List.getElem_map, List.getElem_range]
    exact snprintf_inside (by omega) hi'
  rw [written_print, contents, List.range_add, List.map_append, List.map_map, ← contents, hbefore]
  exact congrArg _ hpiece

/-- Memory behind the page is left alone while the position is inside. -/
theorem print_outside (hsize : size < 2 ^ 64) (hle : s.written ≤ size) (hi : size ≤ i) :
    (print size s text).memory i = s.memory i := by
  refine snprintf_outside ?_
  rw [remaining_of_le hle hsize]
  omega

/-! ## A row of pieces -/

/-- **The position after a row of pieces**, fitting or not. -/
theorem written_printAll (size : ℕ) (s : Printed) (texts : List (List Char)) :
    (printAll size s texts).written = s.written + texts.flatten.length := by
  induction texts generalizing s with
  | nil => rfl
  | cons text texts ih =>
      rw [printAll, List.foldl_cons, ← printAll, ih, written_print, List.flatten_cons,
        List.length_append, Nat.add_assoc]

/-- **A row of pieces that fits is printed completely.** -/
theorem contents_printAll (hsize : size < 2 ^ 64)
    (hfit : s.written + texts.flatten.length < size) :
    contents (printAll size s texts).memory (printAll size s texts).written
      = contents s.memory s.written ++ texts.flatten := by
  induction texts generalizing s with
  | nil => exact (List.append_nil _).symm
  | cons text texts ih =>
      rw [List.flatten_cons, List.length_append] at hfit
      rw [printAll, List.foldl_cons, ← printAll, ih (by rw [written_print]; omega),
        contents_print hsize (by omega), List.flatten_cons, List.append_assoc]

/-- **A row of pieces that fits leaves memory behind the page alone.** -/
theorem printAll_outside (hsize : size < 2 ^ 64)
    (hfit : s.written + texts.flatten.length < size) (hi : size ≤ i) :
    (printAll size s texts).memory i = s.memory i := by
  induction texts generalizing s with
  | nil => rfl
  | cons text texts ih =>
      rw [List.flatten_cons, List.length_append] at hfit
      rw [printAll, List.foldl_cons, ← printAll, ih (by rw [written_print]; omega),
        print_outside hsize (by omega) hi]

end BoundedPrint
