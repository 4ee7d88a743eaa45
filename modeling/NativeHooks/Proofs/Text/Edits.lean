/-
# Least numbers of edits

An edit inserts, deletes or replaces one element of a list.  The least number of edits that turn
one list into another is given by a recursion on both (`distance`, `isLeast_edits`): either the
first elements are matched with one another, or one of them is inserted or deleted.

That many edits are enough because each case of the recursion is an edit, or none.  That fewer
are not is because one edit, wherever it is made, changes the distance to any list by at most
one (`Edit.distance_le`).  What can be said of edits then holds of the distance: they can be
undone, made one after another, and made from the other end.
-/

import Mathlib.Order.Bounds.Basic

namespace NativeHooks
namespace Text

variable {α : Type} {u v w : List α} {m n : Nat}

/-! ### Edits -/

/-- One element is inserted, deleted or replaced. -/
inductive Edit : List α → List α → Prop
  | insertion (before after : List α) (x : α) : Edit (before ++ after) (before ++ x :: after)
  | deletion (before after : List α) (x : α) : Edit (before ++ x :: after) (before ++ after)
  | replacement (before after : List α) (x y : α) :
    Edit (before ++ x :: after) (before ++ y :: after)

/-- So many edits, one after another, turn the one list into the other. -/
inductive Edits : Nat → List α → List α → Prop
  | none (u : List α) : Edits 0 u u
  | step {n : Nat} {u v w : List α} : Edit u v → Edits n v w → Edits (n + 1) u w

theorem Edit.symm (h : Edit u v) : Edit v u := by
  cases h with
  | insertion before after x => exact .deletion before after x
  | deletion before after x => exact .insertion before after x
  | replacement before after x y => exact .replacement before after y x

theorem Edit.cons (h : Edit u v) (x : α) : Edit (x :: u) (x :: v) := by
  cases h with
  | insertion before after y => exact .insertion (x :: before) after y
  | deletion before after y => exact .deletion (x :: before) after y
  | replacement before after y z => exact .replacement (x :: before) after y z

theorem Edit.reverse (h : Edit u v) : Edit u.reverse v.reverse := by
  cases h with
  | insertion before after x =>
    simpa using Edit.insertion after.reverse before.reverse x
  | deletion before after x =>
    simpa using Edit.deletion after.reverse before.reverse x
  | replacement before after x y =>
    simpa using Edit.replacement after.reverse before.reverse x y

/-- Edits are made in any context that an edit may be made in. -/
theorem Edits.map {f : List α → List α} (hf : ∀ u v, Edit u v → Edit (f u) (f v))
    (h : Edits n u v) : Edits n (f u) (f v) := by
  induction h with
  | none u => exact .none (f u)
  | step hedit _ ih => exact .step (hf _ _ hedit) ih

theorem Edits.cons (h : Edits n u v) (x : α) : Edits n (x :: u) (x :: v) :=
  h.map fun _ _ hedit => hedit.cons x

theorem Edits.reverse (h : Edits n u v) : Edits n u.reverse v.reverse :=
  h.map fun _ _ hedit => hedit.reverse

theorem Edits.trans (h : Edits m u v) (h' : Edits n v w) : Edits (m + n) u w := by
  induction h with
  | none u => rwa [Nat.zero_add]
  | step hedit _ ih =>
    rw [Nat.add_right_comm]
    exact .step hedit (ih h')

theorem Edits.symm (h : Edits n u v) : Edits n v u := by
  induction h with
  | none u => exact .none u
  | step hedit _ ih => exact ih.trans (.step hedit.symm (.none _))

theorem edits_zero_iff : Edits 0 u v ↔ u = v := by
  constructor
  · intro h
    cases h with
    | none => rfl
  · rintro rfl
    exact .none u

/-- Any list is made of nothing by inserting its elements. -/
theorem edits_length (v : List α) : Edits v.length [] v := by
  induction v with
  | nil => exact .none []
  | cons y v ih => exact .step (.insertion [] [] y) (ih.cons y)

/-! ### The recursion -/

variable [DecidableEq α]

/-- The least number of edits that turn one list into another, from the front. -/
def distance : List α → List α → Nat
  | [], v => v.length
  | x :: u, [] => u.length + 1
  | x :: u, y :: v =>
    min (min (distance u (y :: v) + 1) (distance (x :: u) v + 1))
      (distance u v + if x = y then 0 else 1)
termination_by u v => u.length + v.length

@[simp] theorem distance_nil_left (v : List α) : distance [] v = v.length := by rw [distance]

@[simp] theorem distance_nil_right (u : List α) : distance u [] = u.length := by
  cases u with
  | nil => rw [distance]
  | cons x u => rw [distance, List.length_cons]

theorem distance_cons_cons (x y : α) (u v : List α) :
    distance (x :: u) (y :: v) = min (min (distance u (y :: v) + 1) (distance (x :: u) v + 1))
      (distance u v + if x = y then 0 else 1) := by
  rw [distance]

theorem distance_self (u : List α) : distance u u = 0 := by
  induction u with
  | nil => rw [distance_nil_left, List.length_nil]
  | cons x u ih => rw [distance_cons_cons, ih, if_pos rfl, Nat.add_zero, Nat.min_zero]

/-! ### Enough edits -/

/-- **So many edits are enough.** -/
theorem edits_distance (u v : List α) : Edits (distance u v) u v := by
  induction u, v using distance.induct with
  | case1 v =>
    rw [distance_nil_left]
    exact edits_length v
  | case2 x u =>
    rw [distance_nil_right]
    exact (edits_length (x :: u)).symm
  | case3 x u y v hdelete hinsert hmatch =>
    rw [distance_cons_cons]
    -- Any of the three would do, so the least one does.
    have hmin : ∀ {m n : Nat} {u v : List α}, Edits m u v → Edits n u v → Edits (min m n) u v := by
      intro m n u v hm hn
      rcases Nat.le_total m n with hle | hle
      · rwa [Nat.min_eq_left hle]
      · rwa [Nat.min_eq_right hle]
    refine hmin (hmin ?_ ?_) ?_
    · exact .step (.deletion [] u x) hdelete
    · exact .step (.insertion [] (x :: u) y) (hinsert.cons y)
    · split
      · next heq => exact heq ▸ hmatch.cons x
      · exact .step (.replacement [] u x y) (hmatch.cons y)

/-! ### No fewer edits -/

section Bounds

variable (x y : α)

/-- An element more at the front adds at most one. -/
theorem distance_cons_le (u w : List α) : distance (x :: u) w ≤ distance u w + 1 := by
  cases w with
  | nil => simp
  | cons z w =>
    rw [distance_cons_cons]
    omega

theorem distance_le_cons_right (u w : List α) : distance u (x :: w) ≤ distance u w + 1 := by
  cases u with
  | nil => simp
  | cons z u =>
    rw [distance_cons_cons]
    omega

/-- An element less at the front adds at most one. -/
theorem distance_le_cons (u w : List α) : distance u w ≤ distance (x :: u) w + 1 := by
  induction w with
  | nil => simp; omega
  | cons z w ih =>
    have hmore := distance_le_cons_right z u w
    rw [distance_cons_cons]
    omega

/-- Another element at the front adds at most one. -/
theorem distance_replace_le (u w : List α) : distance (x :: u) w ≤ distance (y :: u) w + 1 := by
  induction w with
  | nil => simp
  | cons z w ih =>
    rw [distance_cons_cons, distance_cons_cons]
    split <;> split <;> omega

variable {x y}

/-- What holds of two lists holds of them behind an element. -/
theorem distance_cons_congr (h : ∀ w, distance u w ≤ distance v w + 1) (x : α) (w : List α) :
    distance (x :: u) w ≤ distance (x :: v) w + 1 := by
  induction w with
  | nil => simpa using h []
  | cons z w ih =>
    have hbehind := h (z :: w)
    have hmatched := h w
    rw [distance_cons_cons, distance_cons_cons]
    omega

theorem distance_append_congr (h : ∀ w, distance u w ≤ distance v w + 1) (before w : List α) :
    distance (before ++ u) w ≤ distance (before ++ v) w + 1 := by
  induction before generalizing w with
  | nil => exact h w
  | cons x before ih => exact distance_cons_congr (fun w => ih w) x w

end Bounds

/-- **One edit changes the distance by at most one,** whichever list it is to. -/
theorem Edit.distance_le (h : Edit u v) (w : List α) : distance u w ≤ distance v w + 1 := by
  cases h with
  | insertion before after x => exact distance_append_congr (distance_le_cons x after) before w
  | deletion before after x => exact distance_append_congr (distance_cons_le x after) before w
  | replacement before after x y =>
    exact distance_append_congr (distance_replace_le x y after) before w

theorem Edits.distance_le (h : Edits n u v) : distance u v ≤ n := by
  induction h with
  | none u => exact Nat.le_of_eq (distance_self u)
  | step hedit _ ih => exact (hedit.distance_le _).trans (Nat.add_le_add_right ih 1)

/-- **The recursion gives the least number of edits.** -/
theorem isLeast_edits (u v : List α) : IsLeast {n | Edits n u v} (distance u v) :=
  ⟨edits_distance u v, fun _ h => h.distance_le⟩

/-! ### What holds of edits -/

theorem distance_comm (u v : List α) : distance u v = distance v u :=
  Nat.le_antisymm (edits_distance v u).symm.distance_le (edits_distance u v).symm.distance_le

theorem distance_triangle (u v w : List α) : distance u w ≤ distance u v + distance v w :=
  ((edits_distance u v).trans (edits_distance v w)).distance_le

theorem distance_eq_zero_iff : distance u v = 0 ↔ u = v := by
  constructor
  · intro h
    exact edits_zero_iff.1 (h ▸ edits_distance u v)
  · rintro rfl
    exact distance_self u

/-- From the back it is the same as from the front. -/
theorem distance_reverse (u v : List α) : distance u.reverse v.reverse = distance u v := by
  have hle : ∀ u v : List α, distance u.reverse v.reverse ≤ distance u v :=
    fun u v => (edits_distance u v).reverse.distance_le
  refine Nat.le_antisymm (hle u v) ?_
  simpa only [List.reverse_reverse] using hle u.reverse v.reverse

end Text
end NativeHooks
