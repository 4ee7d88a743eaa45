/-
# What splitting at the top level leaves together

A separator inside brackets separates nothing.  `Guarded sep d w` says that no
`sep` of `w` stands at the top level when `w` begins at depth `d`; such a text
is passed over whole by splitting (`splitFrom_append`), by cutting at a stop
(`untilTopLevel_eq_self`) and by looking for the last space
(`splitLastSpace_append`).  The list that results from joining texts of depth
zero with commas is split into them again (`splitTopLevel_intercalate`), also if
a space is written after each comma (`splitTopLevel_joined`).
-/

import Mathlib.Data.List.Basic
import NativeHooks.Text.Nesting
import NativeHooks.Proofs.Text.Runs

namespace NativeHooks
namespace Text

/-! ### Depth -/

@[simp] theorem depth_nil : depth [] = 0 := rfl

@[simp] theorem depth_cons (c : Char) (cs : List Char) : depth (c :: cs) = nesting c + depth cs :=
  rfl

@[simp] theorem depth_append : ∀ u v : List Char, depth (u ++ v) = depth u + depth v
  | [], v => by rw [List.nil_append, depth_nil, Int.zero_add]
  | c :: u, v => by rw [List.cons_append, depth_cons, depth_cons, depth_append u v, Int.add_assoc]

/-- A text without brackets has depth zero. -/
theorem depth_eq_zero {w : List Char} (h : ∀ c ∈ w, nesting c = 0) : depth w = 0 := by
  induction w with
  | nil => rfl
  | cons c w ih =>
      rw [depth_cons, h c List.mem_cons_self, ih fun a ha => h a (List.mem_cons_of_mem _ ha),
        Int.add_zero]

/-- An identifier character is no bracket. -/
theorem nesting_eq_zero_of_isIdent {c : Char} (h : isIdent c = true) : nesting c = 0 := by
  rw [nesting, if_neg, if_neg]
  · exact not_or.2 ⟨ne_of_class h rfl, ne_of_class h rfl⟩
  · exact not_or.2 ⟨ne_of_class h rfl, ne_of_class h rfl⟩

/-- A space is no bracket. -/
theorem nesting_eq_zero_of_isSpace {c : Char} (h : isSpace c = true) : nesting c = 0 := by
  rw [nesting, if_neg, if_neg]
  · exact not_or.2 ⟨ne_of_class h rfl, ne_of_class h rfl⟩
  · exact not_or.2 ⟨ne_of_class h rfl, ne_of_class h rfl⟩

/-! ### Guarded separators -/

/-- No `sep` of the text stands at the top level when the text begins at depth `d`. -/
def Guarded (sep : Char) : Int → List Char → Prop
  | _, [] => True
  | d, c :: cs => (c = sep → d ≠ 0) ∧ Guarded sep (d + nesting c) cs

instance Guarded.decidable (sep : Char) : ∀ (d : Int) (w : List Char), Decidable (Guarded sep d w)
  | _, [] => inferInstanceAs (Decidable True)
  | d, c :: cs =>
    have := Guarded.decidable sep (d + nesting c) cs
    inferInstanceAs (Decidable ((c = sep → d ≠ 0) ∧ Guarded sep (d + nesting c) cs))

theorem guarded_append {sep : Char} {u v : List Char} {d : Int} :
    Guarded sep d (u ++ v) ↔ Guarded sep d u ∧ Guarded sep (d + depth u) v := by
  induction u generalizing d with
  | nil => rw [List.nil_append, depth_nil, Int.add_zero, Guarded, true_and]
  | cons c u ih => rw [List.cons_append, Guarded, Guarded, ih, depth_cons, Int.add_assoc, and_assoc]

/-- What does not occur is guarded. -/
theorem guarded_of_not_mem {sep : Char} {w : List Char} (h : sep ∉ w) (d : Int) :
    Guarded sep d w := by
  induction w generalizing d with
  | nil => trivial
  | cons c w ih =>
      rw [List.mem_cons, not_or] at h
      exact ⟨fun hc => absurd hc.symm h.1, ih h.2 _⟩

/-- A guarded separator is one that has brackets around it: the text before it
is not at the top level. -/
theorem guarded_iff {sep : Char} {w : List Char} {d : Int} :
    Guarded sep d w ↔ ∀ u v, w = u ++ sep :: v → d + depth u ≠ 0 := by
  induction w generalizing d with
  | nil => exact ⟨fun _ u v h => absurd h.symm (by simp), fun _ => trivial⟩
  | cons c w ih =>
      rw [Guarded, ih]
      constructor
      · rintro ⟨hc, hw⟩ u v h
        cases u with
        | nil =>
            obtain ⟨rfl, -⟩ := List.cons.inj h
            rw [depth_nil, Int.add_zero]
            exact hc rfl
        | cons a u =>
            rw [List.cons_append, List.cons.injEq] at h
            rw [depth_cons, ← Int.add_assoc, ← h.1]
            exact hw u v h.2
      · refine fun h => ⟨fun hc => ?_, fun u v hw => ?_⟩
        · have := h [] w (by rw [hc, List.nil_append])
          rwa [depth_nil, Int.add_zero] at this
        · have := h (c :: u) v (by rw [hw, List.cons_append])
          rwa [depth_cons, ← Int.add_assoc] at this

/-! ### Splitting -/

/-- A text whose separators are guarded belongs to one piece. -/
theorem splitFrom_append {sep : Char} {u v : List Char} {d : Int} (h : Guarded sep d u) :
    splitFrom sep d (u ++ v) =
      (u ++ (splitFrom sep (d + depth u) v).1, (splitFrom sep (d + depth u) v).2) := by
  induction u generalizing d with
  | nil => rw [depth_nil, Int.add_zero, List.nil_append, List.nil_append]
  | cons c u ih =>
      rw [List.cons_append, splitFrom, if_neg fun hc => h.1 hc.1 hc.2.2, ih h.2, depth_cons,
        Int.add_assoc]
      rfl

/-- The last piece is what no separator follows at the top level. -/
theorem splitFrom_eq_self {sep : Char} {w : List Char} {d : Int} (h : Guarded sep d w) :
    splitFrom sep d w = (w, []) := by
  have := splitFrom_append (v := []) h
  rwa [List.append_nil, splitFrom, List.append_nil] at this

/-- A separator at the top level begins a new piece. -/
theorem splitFrom_sep {sep : Char} (hsep : nesting sep = 0) (v : List Char) :
    splitFrom sep 0 (sep :: v) = ([], (splitFrom sep 0 v).1 :: (splitFrom sep 0 v).2) := by
  rw [splitFrom, if_pos ⟨rfl, hsep, rfl⟩]

/-- The texts joined by `, `, as lists of a declaration are written. -/
def joined (texts : List (List Char)) : List Char := [',', ' '].intercalate texts

@[simp] theorem joined_nil : joined [] = [] := rfl

@[simp] theorem joined_singleton (t : List Char) : joined [t] = t := List.intercalate_singleton

theorem joined_cons_cons (t u : List Char) (more : List (List Char)) :
    joined (t :: u :: more) = t ++ ',' :: ' ' :: joined (u :: more) := by
  rw [joined, List.intercalate_cons_cons, List.append_assoc]
  rfl

/-- A character of a joined list belongs to one of its texts, or stands between two. -/
theorem mem_joined {texts : List (List Char)} {c : Char} (h : c ∈ joined texts) :
    c = ',' ∨ c = ' ' ∨ ∃ t ∈ texts, c ∈ t := by
  induction texts with
  | nil => exact absurd h List.not_mem_nil
  | cons t texts ih =>
      cases texts with
      | nil =>
          rw [joined_singleton] at h
          exact .inr (.inr ⟨t, List.mem_cons_self, h⟩)
      | cons u more =>
          rw [joined_cons_cons] at h
          simp only [List.mem_append, List.mem_cons] at h
          rcases h with h | h | h | h
          · exact .inr (.inr ⟨t, List.mem_cons_self, h⟩)
          · exact .inl h
          · exact .inr (.inl h)
          · rcases ih h with h | h | ⟨v, hv, h⟩
            · exact .inl h
            · exact .inr (.inl h)
            · exact .inr (.inr ⟨v, List.mem_cons_of_mem _ hv, h⟩)

/-- Joining adds commas and spaces only. -/
theorem count_joined {c : Char} (hcomma : c ≠ ',') (hspace : c ≠ ' ') (texts : List (List Char)) :
    (joined texts).count c = texts.flatten.count c := by
  induction texts with
  | nil => rfl
  | cons t texts ih =>
      cases texts with
      | nil => rw [joined_singleton, List.flatten_singleton]
      | cons u more =>
          rw [joined_cons_cons, List.flatten_cons, List.count_append, List.count_append,
            List.count_cons_of_ne hcomma.symm, List.count_cons_of_ne hspace.symm, ih]

/-- Every text stands as one type of a list does: its commas are guarded, and
every text but the last one closes the brackets that it opens. -/
def Separable : List (List Char) → Prop
  | [] => True
  | [t] => Guarded ',' 0 t
  | t :: u :: more => Guarded ',' 0 t ∧ depth t = 0 ∧ Separable (u :: more)

theorem separable_cons {t : List Char} {more : List (List Char)} :
    Separable (t :: more) ↔ Guarded ',' 0 t ∧ (more ≠ [] → depth t = 0) ∧ Separable more := by
  cases more with
  | nil => exact ⟨fun h => ⟨h, fun hne => absurd rfl hne, trivial⟩, fun h => h.1⟩
  | cons u more =>
      exact ⟨fun h => ⟨h.1, fun _ => h.2.1, h.2.2⟩, fun h => ⟨h.1, h.2.1 (List.cons_ne_nil _ _), h.2.2⟩⟩

/-- Texts of depth zero with guarded commas are separable. -/
theorem separable_of_forall {texts : List (List Char)}
    (h : ∀ t ∈ texts, Guarded ',' 0 t ∧ depth t = 0) : Separable texts := by
  induction texts with
  | nil => trivial
  | cons t texts ih =>
      have ht := h t List.mem_cons_self
      exact separable_cons.2 ⟨ht.1, fun _ => ht.2, ih fun u hu => h u (List.mem_cons_of_mem _ hu)⟩

/-- Separable texts with commas between them are split at these commas and nowhere else; what
stands after a comma belongs to the text that follows. -/
theorem splitFrom_intercalate {gap : List Char} (hgap : Guarded ',' 0 gap) (hclosed : depth gap = 0)
    {t : List Char} {more : List (List Char)} (h : Separable (t :: more)) :
    splitFrom ',' 0 ((',' :: gap).intercalate (t :: more)) = (t, more.map (gap ++ ·)) := by
  induction more generalizing t with
  | nil => rw [List.intercalate_singleton, splitFrom_eq_self h, List.map_nil]
  | cons u more ih =>
      obtain ⟨ht, hd, hmore⟩ := h
      have hrest : splitFrom ',' 0 (gap ++ (',' :: gap).intercalate (u :: more))
          = (gap ++ u, more.map (gap ++ ·)) := by
        rw [splitFrom_append hgap, hclosed, Int.add_zero, ih hmore]
      rw [List.intercalate_cons_cons, List.append_assoc, splitFrom_append ht, hd, Int.add_zero,
        List.cons_append, splitFrom_sep rfl, hrest, List.append_nil, List.map_cons]

/-- Nothing is dropped where no piece is empty. -/
theorem dropEmptyLast_eq_self {pieces : List (List Char)} (h : ∀ p ∈ pieces, p ≠ []) :
    dropEmptyLast pieces = pieces := by
  induction pieces with
  | nil => rfl
  | cons p pieces ih =>
      cases pieces with
      | nil => rw [dropEmptyLast, if_neg (by simpa using h p List.mem_cons_self)]
      | cons q more => rw [dropEmptyLast, ih fun r hr => h r (List.mem_cons_of_mem _ hr)]

/-- **A joined list is split into its texts.**  The texts after the first one
keep the space before them. -/
theorem splitTopLevel_joined {t : List Char} {more : List (List Char)}
    (h : Separable (t :: more)) (ht : t ≠ []) :
    splitTopLevel ',' (joined (t :: more)) = t :: more.map (' ' :: ·) := by
  rw [splitTopLevel, joined, splitFrom_intercalate (by decide) rfl h]
  refine dropEmptyLast_eq_self fun p hp => ?_
  rcases List.mem_cons.1 hp with rfl | hp
  · exact ht
  · obtain ⟨u, -, rfl⟩ := List.mem_map.1 hp
    exact List.cons_ne_nil _ _

/-- Texts with nothing but a comma between them are split again if none is empty. -/
theorem splitTopLevel_intercalate {texts : List (List Char)} (h : Separable texts)
    (hne : ∀ t ∈ texts, t ≠ []) : splitTopLevel ',' ([','].intercalate texts) = texts := by
  rcases texts with _ | ⟨t, more⟩
  · rfl
  have hgap : Guarded ',' 0 [] := trivial
  have hmore : more.map (([] : List Char) ++ ·) = more := List.map_id more
  rw [splitTopLevel, splitFrom_intercalate hgap rfl h, hmore]
  exact dropEmptyLast_eq_self hne

/-! ### Stops and spaces -/

/-- Nothing is cut off where every stop is guarded. -/
theorem untilTopLevel_eq_self {stop : Char} {w : List Char} {d : Int} (h : Guarded stop d w) :
    untilTopLevel stop d w = w := by
  induction w generalizing d with
  | nil => rfl
  | cons c w ih => rw [untilTopLevel, if_neg fun hc => h.1 hc.1 hc.2, ih h.2]

/-- A stop at the top level cuts off what follows. -/
theorem untilTopLevel_append {stop : Char} {u : List Char} {d : Int} (h : Guarded stop d u)
    (hd : d + depth u = 0) (v : List Char) : untilTopLevel stop d (u ++ stop :: v) = u := by
  induction u generalizing d with
  | nil =>
      rw [depth_nil, Int.add_zero] at hd
      rw [List.nil_append, untilTopLevel, if_pos ⟨rfl, hd⟩]
  | cons c u ih =>
      rw [depth_cons, ← Int.add_assoc] at hd
      rw [List.cons_append, untilTopLevel, if_neg fun hc => h.1 hc.1 hc.2, ih h.2 hd]

/-- There is no last space where every space is guarded. -/
theorem splitLastSpace_eq_none {w : List Char} {d : Int} (h : Guarded ' ' d w) :
    splitLastSpace d w = none := by
  induction w generalizing d with
  | nil => rfl
  | cons c w ih => rw [splitLastSpace, ih h.2]; exact if_neg fun hc => h.1 hc.1 hc.2

/-- The last space at the top level parts what stands before it from what
stands after it. -/
theorem splitLastSpace_append {u v : List Char} {d : Int} (hu : d + depth u = 0)
    (hv : Guarded ' ' 0 v) : splitLastSpace d (u ++ ' ' :: v) = some (u, v) := by
  induction u generalizing d with
  | nil =>
      rw [depth_nil, Int.add_zero] at hu
      rw [List.nil_append, splitLastSpace, hu, show (0 : Int) + nesting ' ' = 0 from rfl,
        splitLastSpace_eq_none hv]
      exact if_pos ⟨rfl, rfl⟩
  | cons c u ih =>
      rw [depth_cons, ← Int.add_assoc] at hu
      rw [List.cons_append, splitLastSpace, ih hu]

end Text
end NativeHooks
