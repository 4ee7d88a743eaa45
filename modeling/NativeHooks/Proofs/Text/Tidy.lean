/-
# Texts in single file

A text is tidy if it neither begins nor ends with a space and every gap in it
is one space character.  Tidy texts are what collapsing and trimming leave
alone, wherever they stand, and two of them stay tidy when they are joined with
or without a space between them.
-/

import Mathlib.Data.List.Basic
import NativeHooks.Proofs.Text.Runs

namespace NativeHooks
namespace Text

/-- No space at either end, and one space character for every gap. -/
structure Tidy (w : List Char) : Prop where
  ne_nil : w ≠ []
  head : ∀ c ∈ w.head?, isSpace c = false
  last : ∀ c ∈ w.getLast?, isSpace c = false
  /-- Collapsing passes over the text, whatever comes before and after it. -/
  collapseFrom : ∀ inRun rest, collapseFrom inRun (w ++ rest) = w ++ collapseFrom false rest

/-- What contains no space is written as it is. -/
theorem collapseFrom_append {w : List Char} (hw : ∀ c ∈ w, isSpace c = false) (rest : List Char) :
    collapseFrom false (w ++ rest) = w ++ collapseFrom false rest := by
  induction w with
  | nil => rfl
  | cons c w ih =>
      rw [List.cons_append, collapseFrom, hw c List.mem_cons_self, if_neg Bool.false_ne_true,
        ih fun a ha => hw a (List.mem_cons_of_mem _ ha), List.cons_append]

/-- A text without spaces is tidy. -/
theorem tidy_of_forall {w : List Char} (hne : w ≠ []) (hw : ∀ c ∈ w, isSpace c = false) :
    Tidy w where
  ne_nil := hne
  head c hc := hw c (List.mem_of_mem_head? hc)
  last c hc := hw c (List.mem_of_getLast? hc)
  collapseFrom inRun rest := by
    cases w with
    | nil => exact absurd rfl hne
    | cons c w =>
        rw [List.cons_append, Text.collapseFrom, hw c List.mem_cons_self,
          if_neg Bool.false_ne_true, collapseFrom_append fun a ha => hw a (List.mem_cons_of_mem _ ha),
          List.cons_append]

namespace Tidy

variable {u w : List Char}

theorem append (hu : Tidy u) (hw : Tidy w) : Tidy (u ++ w) where
  ne_nil := List.append_ne_nil_of_left_ne_nil hu.ne_nil _
  head c hc := by
    rw [List.head?_append_of_ne_nil _ hu.ne_nil] at hc
    exact hu.head c hc
  last c hc := by
    rw [List.getLast?_append_of_ne_nil _ hw.ne_nil] at hc
    exact hw.last c hc
  collapseFrom inRun rest := by
    rw [List.append_assoc, hu.collapseFrom, hw.collapseFrom, List.append_assoc]

/-- Text without spaces may follow directly, also if there is none. -/
theorem append_forall (hu : Tidy u) (hw : ∀ c ∈ w, isSpace c = false) : Tidy (u ++ w) := by
  by_cases hne : w = []
  · rw [hne, List.append_nil]
    exact hu
  · exact hu.append (tidy_of_forall hne hw)

/-- One space may stand between two tidy texts. -/
theorem append_space (hu : Tidy u) (hw : Tidy w) : Tidy (u ++ ' ' :: w) where
  ne_nil := List.append_ne_nil_of_left_ne_nil hu.ne_nil _
  head c hc := by
    rw [List.head?_append_of_ne_nil _ hu.ne_nil] at hc
    exact hu.head c hc
  last c hc := by
    rw [List.getLast?_append_of_ne_nil _ (List.cons_ne_nil _ _),
      List.getLast?_cons_of_ne_nil hw.ne_nil] at hc
    exact hw.last c hc
  collapseFrom inRun rest := by
    rw [List.append_assoc, hu.collapseFrom, List.cons_append, Text.collapseFrom,
      if_pos (show isSpace ' ' = true from rfl), if_neg Bool.false_ne_true, hw.collapseFrom,
      List.append_assoc, List.cons_append]

/-- A tidy text begins with a character that is no space. -/
theorem exists_cons (hw : Tidy w) : ∃ c v, w = c :: v ∧ isSpace c = false := by
  cases w with
  | nil => exact absurd rfl hw.ne_nil
  | cons c v => exact ⟨c, v, rfl, hw.head c rfl⟩

theorem collapse (hw : Tidy w) : collapse w = w := by
  have := hw.collapseFrom false []
  rwa [List.append_nil, show Text.collapseFrom false [] = [] from rfl, List.append_nil] at this

theorem trim (hw : Tidy w) : trim w = w := trim_eq_self hw.head hw.last

/-- One space before a tidy text is trimmed off. -/
theorem trim_space (hw : Tidy w) : Text.trim (' ' :: w) = w := by
  rw [Text.trim, List.dropWhile_cons, if_pos (show isSpace ' ' = true from rfl)]
  exact hw.trim

end Tidy

end Text
end NativeHooks
