/-
# Openings

Every body in a header starts with a brace, so a header is read from its
braces: an *opening* is one brace with the text before and after it.  The text
before is kept nearest character first, which makes reading backwards from the
brace the same kind of recursion as reading forwards.
-/

namespace NativeHooks
namespace Header

/-- A brace in a text. -/
structure Opening where
  /-- What stands before the brace, nearest character first. -/
  before : List Char
  /-- What stands after the brace. -/
  after : List Char
  deriving DecidableEq, Repr, Inhabited

/-- The openings of a text that comes after `before`, nearest character first. -/
def openingsAfter (before : List Char) : List Char → List Opening
  | [] => []
  | c :: cs =>
    if c = '{' then ⟨before, cs⟩ :: openingsAfter (c :: before) cs
    else openingsAfter (c :: before) cs

/-- The openings of a text, in the order of the text. -/
def openings (cs : List Char) : List Opening := openingsAfter [] cs

/-- The openings of two texts, one after the other. -/
theorem openingsAfter_append (before w v : List Char) :
    openingsAfter before (w ++ v)
      = (openingsAfter before w).map (fun o => ⟨o.before, o.after ++ v⟩)
        ++ openingsAfter (w.reverse ++ before) v := by
  induction w generalizing before with
  | nil => rfl
  | cons c w ih =>
      rw [List.cons_append, openingsAfter, openingsAfter, ih, List.reverse_cons, List.append_assoc]
      split <;> rfl

/-- A text without braces has no opening. -/
theorem openingsAfter_eq_nil {w : List Char} (hw : '{' ∉ w) (before : List Char) :
    openingsAfter before w = [] := by
  induction w generalizing before with
  | nil => rfl
  | cons c w ih =>
      rw [List.mem_cons, not_or] at hw
      rw [openingsAfter, if_neg (Ne.symm hw.1), ih hw.2]

/-- A text without braces is passed over. -/
theorem openingsAfter_pass {w : List Char} (hw : '{' ∉ w) (before v : List Char) :
    openingsAfter before (w ++ v) = openingsAfter (w.reverse ++ before) v := by
  rw [openingsAfter_append, openingsAfter_eq_nil hw]
  rfl

/-- Text further off stands before every opening. -/
theorem openingsAfter_further (before far w : List Char) :
    openingsAfter (before ++ far) w
      = (openingsAfter before w).map fun o => ⟨o.before ++ far, o.after⟩ := by
  induction w generalizing before with
  | nil => rfl
  | cons c w ih =>
      rw [openingsAfter, openingsAfter, ← List.cons_append, ih]
      split <;> rfl

/-- An opening is a brace of the text. -/
theorem eq_of_mem_openingsAfter {before w : List Char} {o : Opening}
    (h : o ∈ openingsAfter before w) : before.reverse ++ w = o.before.reverse ++ '{' :: o.after := by
  induction w generalizing before with
  | nil => exact absurd h List.not_mem_nil
  | cons c w ih =>
      rw [openingsAfter] at h
      have hrest (h : o ∈ openingsAfter (c :: before) w) :
          before.reverse ++ c :: w = o.before.reverse ++ '{' :: o.after := by
        rw [← ih h, List.reverse_cons, List.append_assoc, List.singleton_append]
      split at h
      · next hc =>
          rcases List.mem_cons.1 h with rfl | h
          · rw [hc]
          · exact hrest h
      · exact hrest h

theorem length_le_of_mem_openingsAfter {before w : List Char} {o : Opening}
    (h : o ∈ openingsAfter before w) : before.length ≤ o.before.length := by
  induction w generalizing before with
  | nil => exact absurd h List.not_mem_nil
  | cons c w ih =>
      rw [openingsAfter] at h
      split at h
      · rcases List.mem_cons.1 h with rfl | h
        · exact Nat.le_refl _
        · exact Nat.le_of_succ_le (ih h)
      · exact Nat.le_of_succ_le (ih h)

/-- Openings are in the order of the text. -/
theorem pairwise_openingsAfter (before w : List Char) :
    (openingsAfter before w).Pairwise fun a b => a.before.length < b.before.length := by
  induction w generalizing before with
  | nil => exact List.Pairwise.nil
  | cons c w ih =>
      rw [openingsAfter]
      split
      · exact List.pairwise_cons.2 ⟨fun o ho => length_le_of_mem_openingsAfter ho, ih _⟩
      · exact ih _

/-- What stands between `rest` and the end of `before`, in reading order; both
are nearest character first, and `rest` is a part of `before`. -/
def between (before rest : List Char) : List Char :=
  (before.take (before.length - rest.length)).reverse

end Header
end NativeHooks
