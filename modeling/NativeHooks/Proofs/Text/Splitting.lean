/-
# Splitting loses nothing and is complete

A text without a separator at its top level is one piece, and what stands before the
first such separator of a text is a piece of its own, whatever follows it: depth begins
anew there, also after brackets that close more than they open (`splitTopLevel_cut`).
Every text is gone through in these two steps (`split_induction`).

`Pieces sep w pieces` says what splitting is for: the pieces joined with separators are
the text again, but for a separator at the top level that it ends with; the brackets of
every piece that a separator follows cancel out; and no piece can be split further.  The
pieces that a text is split into are these and no others (`splitTopLevel_eq_iff`).
-/

import NativeHooks.Proofs.Text.Nesting

namespace NativeHooks
namespace Text

variable {sep : Char} {u v w p : List Char} {pieces : List (List Char)}

/-! ### Piece by piece -/

/-- A text has no separator at the top level, or a first one. -/
theorem guarded_or_exists (sep : Char) (d : Int) (w : List Char) :
    Guarded sep d w ∨ ∃ u v, w = u ++ sep :: v ∧ Guarded sep d u ∧ d + depth u = 0 := by
  induction w generalizing d with
  | nil => exact .inl trivial
  | cons c w ih =>
      by_cases hc : c = sep ∧ d = 0
      · obtain ⟨rfl, rfl⟩ := hc
        exact .inr ⟨[], w, rfl, trivial, rfl⟩
      · have hfirst : c = sep → d ≠ 0 := fun hsep hd => hc ⟨hsep, hd⟩
        rcases ih (d + nesting c) with hw | ⟨u, v, rfl, hu, hdepth⟩
        · exact .inl ⟨hfirst, hw⟩
        · refine .inr ⟨c :: u, v, rfl, ⟨hfirst, hu⟩, ?_⟩
          rw [depth_cons, ← Int.add_assoc, hdepth]

/-- A text is gone through piece by piece: a piece reaches to the next separator at the
top level or to the end. -/
theorem split_induction (sep : Char) {P : List Char → Prop} (nil : P [])
    (last : ∀ w, Guarded sep 0 w → w ≠ [] → P w)
    (cut : ∀ u v, Guarded sep 0 u → depth u = 0 → P v → P (u ++ sep :: v)) (w : List Char) :
    P w := by
  induction hlength : w.length using Nat.strong_induction_on generalizing w with
  | _ length ih =>
      rcases guarded_or_exists sep 0 w with hw | ⟨u, v, rfl, hu, hdepth⟩
      · by_cases hne : w = []
        · rwa [hne]
        · exact last w hw hne
      · rw [Int.zero_add] at hdepth
        refine cut u v hu hdepth (ih v.length ?_ v rfl)
        rw [← hlength, List.length_append, List.length_cons]
        omega

@[simp] theorem splitTopLevel_nil (sep : Char) : splitTopLevel sep [] = [] := rfl

/-- A text without a separator at the top level is one piece. -/
theorem splitTopLevel_last (hw : Guarded sep 0 w) (hne : w ≠ []) : splitTopLevel sep w = [w] := by
  rw [splitTopLevel, splitFrom_eq_self hw]
  exact dropEmptyLast_eq_self fun p hp => List.mem_singleton.1 hp ▸ hne

/-- **What stands before the first separator at the top level is a piece,** and what
follows it is split on its own. -/
theorem splitTopLevel_cut (hsep : nesting sep = 0) (hu : Guarded sep 0 u) (hdepth : depth u = 0)
    (v : List Char) : splitTopLevel sep (u ++ sep :: v) = u :: splitTopLevel sep v := by
  have hsplit : splitFrom sep 0 (u ++ sep :: v)
      = (u, (splitFrom sep 0 v).1 :: (splitFrom sep 0 v).2) := by
    rw [splitFrom_append hu, hdepth, Int.add_zero, splitFrom_sep hsep, List.append_nil]
  rw [splitTopLevel, hsplit]
  rfl

/-- Only the empty text has no pieces. -/
theorem splitTopLevel_eq_nil_iff (hsep : nesting sep = 0) : splitTopLevel sep w = [] ↔ w = [] := by
  induction w using split_induction sep with
  | nil => exact iff_of_true rfl rfl
  | last w hw hne =>
      rw [splitTopLevel_last hw hne]
      exact iff_of_false (List.cons_ne_nil _ _) hne
  | cut u v hu hdepth _ =>
      rw [splitTopLevel_cut hsep hu hdepth]
      exact iff_of_false (List.cons_ne_nil _ _) (by simp)

/-- No piece has a separator at its top level. -/
theorem guarded_of_mem_splitTopLevel (hsep : nesting sep = 0)
    (hp : p ∈ splitTopLevel sep w) : Guarded sep 0 p := by
  induction w using split_induction sep with
  | nil => exact absurd hp List.not_mem_nil
  | last w hw hne =>
      rw [splitTopLevel_last hw hne] at hp
      rwa [List.mem_singleton.1 hp]
  | cut u v hu hdepth ih =>
      rw [splitTopLevel_cut hsep hu hdepth] at hp
      rcases List.mem_cons.1 hp with rfl | hp
      · exact hu
      · exact ih hp

/-- Splitting loses separators only. -/
theorem flatten_splitTopLevel_sublist (hsep : nesting sep = 0) (w : List Char) :
    (splitTopLevel sep w).flatten.Sublist w := by
  induction w using split_induction sep with
  | nil => exact List.Sublist.refl _
  | last w hw hne =>
      rw [splitTopLevel_last hw hne, List.flatten_singleton]
  | cut u v hu hdepth ih =>
      rw [splitTopLevel_cut hsep hu hdepth, List.flatten_cons]
      exact (List.Sublist.refl u).append (ih.cons sep)

/-! ### Joining the pieces again -/

/-- The text ends with a separator at the top level: the piece after it is empty. -/
def SplitAtEnd (sep : Char) (w : List Char) : Prop := ∃ u, w = u ++ [sep] ∧ depth u = 0

theorem not_splitAtEnd_of_guarded (hw : Guarded sep 0 w) : ¬SplitAtEnd sep w := by
  rintro ⟨u, rfl, hdepth⟩
  exact guarded_iff.1 hw u [] rfl (by rw [Int.zero_add, hdepth])

/-- What follows a separator decides whether a text is split at its end. -/
theorem splitAtEnd_cut_iff (hsep : nesting sep = 0) (hdepth : depth u = 0) (hv : v ≠ []) :
    SplitAtEnd sep (u ++ sep :: v) ↔ SplitAtEnd sep v := by
  have hcut : ∀ t, depth (u ++ sep :: t) = depth t := by
    intro t
    rw [depth_append, depth_cons, hdepth, hsep, Int.zero_add, Int.zero_add]
  constructor
  · rintro ⟨t, ht, hzero⟩
    obtain ⟨v, c, rfl⟩ := (List.eq_nil_or_concat' v).resolve_left hv
    have hends : (u ++ sep :: v) ++ [c] = t ++ [sep] := by rw [← ht]; simp
    obtain ⟨rfl, hc⟩ := List.append_inj' hends rfl
    exact ⟨v, congrArg (v ++ ·) hc, hcut v ▸ hzero⟩
  · rintro ⟨t, rfl, hzero⟩
    exact ⟨u ++ sep :: t, by simp, (hcut t).trans hzero⟩

theorem intercalate_cons (hne : pieces ≠ []) :
    [sep].intercalate (p :: pieces) = p ++ sep :: [sep].intercalate pieces := by
  rw [List.intercalate_cons_of_ne_nil hne, List.append_assoc]
  rfl

/-- **Joined with separators the pieces are the text again,** but for a separator at the
top level that it ends with. -/
theorem intercalate_splitTopLevel (hsep : nesting sep = 0) (w : List Char) :
    (¬SplitAtEnd sep w → [sep].intercalate (splitTopLevel sep w) = w) ∧
      (SplitAtEnd sep w → [sep].intercalate (splitTopLevel sep w) ++ [sep] = w) := by
  induction w using split_induction sep with
  | nil => exact ⟨fun _ => rfl, fun hend => absurd hend (not_splitAtEnd_of_guarded trivial)⟩
  | last w hw hne =>
      refine ⟨fun _ => ?_, fun hend => absurd hend (not_splitAtEnd_of_guarded hw)⟩
      rw [splitTopLevel_last hw hne, List.intercalate_singleton]
  | cut u v hu hdepth ih =>
      rw [splitTopLevel_cut hsep hu hdepth]
      by_cases hv : v = []
      · subst hv
        refine ⟨fun hnot => absurd ⟨u, rfl, hdepth⟩ hnot, fun _ => ?_⟩
        rw [splitTopLevel_nil, List.intercalate_singleton]
      · have hne : splitTopLevel sep v ≠ [] := fun h => hv ((splitTopLevel_eq_nil_iff hsep).1 h)
        rw [splitAtEnd_cut_iff hsep hdepth hv, intercalate_cons hne]
        refine ⟨fun hnot => by rw [ih.1 hnot], fun hend => ?_⟩
        rw [List.append_assoc, List.cons_append, ih.2 hend]

/-! ### The depth of the pieces -/

/-- Every piece but the last one closes what it opens and opens what it closes. -/
theorem depth_of_mem_dropLast (hsep : nesting sep = 0) (hp : p ∈ (splitTopLevel sep w).dropLast) :
    depth p = 0 := by
  induction w using split_induction sep with
  | nil => exact absurd hp List.not_mem_nil
  | last w hw hne =>
      rw [splitTopLevel_last hw hne] at hp
      exact absurd hp List.not_mem_nil
  | cut u v hu hdepth ih =>
      rw [splitTopLevel_cut hsep hu hdepth] at hp
      rcases hmore : splitTopLevel sep v with _ | ⟨q, more⟩
      · rw [hmore] at hp
        exact absurd hp List.not_mem_nil
      · rw [hmore, List.dropLast_cons_cons] at hp
        rcases List.mem_cons.1 hp with rfl | hp
        · exact hdepth
        · exact ih (hmore ▸ hp)

/-- The last piece has the depth of the text. -/
theorem depth_getLast?_splitTopLevel (hsep : nesting sep = 0)
    (hp : p ∈ (splitTopLevel sep w).getLast?) : depth p = depth w := by
  induction w using split_induction sep with
  | nil => exact absurd hp.symm (Option.some_ne_none p)
  | last w hw hne =>
      rw [splitTopLevel_last hw hne] at hp
      obtain rfl : w = p := Option.some.inj hp
      rfl
  | cut u v hu hdepth ih =>
      rw [depth_append, depth_cons, hdepth, hsep, Int.zero_add, Int.zero_add]
      rw [splitTopLevel_cut hsep hu hdepth] at hp
      rcases hmore : splitTopLevel sep v with _ | ⟨q, more⟩
      · rw [hmore] at hp
        obtain rfl : u = p := Option.some.inj hp
        rw [hdepth, (splitTopLevel_eq_nil_iff hsep).1 hmore, depth_nil]
      · rw [hmore, List.getLast?_cons_cons, ← hmore] at hp
        exact ih hp

/-- If the text is split at its end, a separator follows every piece. -/
theorem depth_of_mem_of_splitAtEnd (hsep : nesting sep = 0) (hw : SplitAtEnd sep w)
    (hp : p ∈ splitTopLevel sep w) : depth p = 0 := by
  obtain ⟨u, rfl, hdepth⟩ := hw
  have hclosed : depth (u ++ [sep]) = 0 := by
    rw [depth_append, depth_cons, hdepth, hsep]
    rfl
  obtain ⟨front, last, hpieces⟩ : ∃ front last, splitTopLevel sep (u ++ [sep]) = front ++ [last] :=
    (List.eq_nil_or_concat' _).resolve_left (List.ne_nil_of_mem hp)
  rw [hpieces] at hp
  rcases List.mem_append.1 hp with hp | hp
  · exact depth_of_mem_dropLast hsep (by rwa [hpieces, List.dropLast_concat])
  · obtain rfl := List.mem_singleton.1 hp
    rw [depth_getLast?_splitTopLevel hsep (by rw [hpieces, List.getLast?_concat]; rfl), hclosed]

/-! ### What splitting is -/

/-- What splitting is for. -/
structure Pieces (sep : Char) (w : List Char) (pieces : List (List Char)) : Prop where
  /-- Only the empty text has no pieces. -/
  eq_nil_iff : pieces = [] ↔ w = []
  /-- Joined with separators the pieces are the text again, without the separator that it is
  split at if that is its end. -/
  joined : ¬SplitAtEnd sep w → [sep].intercalate pieces = w
  joined_atEnd : SplitAtEnd sep w → [sep].intercalate pieces ++ [sep] = w
  /-- The brackets of every piece cancel out, unless it is what follows the last split. -/
  depth_eq_zero : ∀ p ∈ pieces.dropLast, depth p = 0
  depth_atEnd : SplitAtEnd sep w → ∀ p ∈ pieces, depth p = 0
  /-- No piece can be split further. -/
  whole : ∀ p ∈ pieces, p ≠ [] → splitTopLevel sep p = [p]

theorem pieces_splitTopLevel (hsep : nesting sep = 0) (w : List Char) :
    Pieces sep w (splitTopLevel sep w) where
  eq_nil_iff := splitTopLevel_eq_nil_iff hsep
  joined := (intercalate_splitTopLevel hsep w).1
  joined_atEnd := (intercalate_splitTopLevel hsep w).2
  depth_eq_zero _ hp := depth_of_mem_dropLast hsep hp
  depth_atEnd hend _ hp := depth_of_mem_of_splitAtEnd hsep hend hp
  whole _ hp hne := splitTopLevel_last (guarded_of_mem_splitTopLevel hsep hp) hne

/-- Pieces with their brackets closed are split again, and the text after them is split
on its own. -/
theorem splitTopLevel_intercalate_concat (hsep : nesting sep = 0)
    (h : ∀ p ∈ pieces, Guarded sep 0 p ∧ depth p = 0) (w : List Char) :
    splitTopLevel sep ([sep].intercalate (pieces ++ [w])) = pieces ++ splitTopLevel sep w := by
  induction pieces with
  | nil => rw [List.nil_append, List.intercalate_singleton, List.nil_append]
  | cons p pieces ih =>
      obtain ⟨hp, hdepth⟩ := h p List.mem_cons_self
      rw [List.cons_append, intercalate_cons (List.append_ne_nil_of_right_ne_nil _
        (List.cons_ne_nil _ _)), splitTopLevel_cut hsep hp hdepth,
        ih fun q hq => h q (List.mem_cons_of_mem _ hq), List.cons_append]

/-- An empty last piece leaves a separator at the end. -/
theorem intercalate_concat_nil (hne : pieces ≠ []) :
    [sep].intercalate (pieces ++ [[]]) = [sep].intercalate pieces ++ [sep] := by
  induction pieces with
  | nil => exact absurd rfl hne
  | cons p pieces ih =>
      have hmore : pieces ++ [[]] ≠ [] := List.append_ne_nil_of_right_ne_nil _ (List.cons_ne_nil _ _)
      rw [List.cons_append, intercalate_cons hmore]
      by_cases hpieces : pieces = []
      · subst hpieces
        rw [List.nil_append, List.intercalate_singleton, List.intercalate_singleton]
      · rw [ih hpieces, intercalate_cons hpieces, List.append_assoc, List.cons_append]

theorem depth_intercalate (hsep : nesting sep = 0) (h : ∀ p ∈ pieces, depth p = 0) :
    depth ([sep].intercalate pieces) = 0 := by
  induction pieces with
  | nil => rfl
  | cons p pieces ih =>
      have hp := h p List.mem_cons_self
      have hmore := ih fun q hq => h q (List.mem_cons_of_mem _ hq)
      cases pieces with
      | nil => rwa [List.intercalate_singleton]
      | cons q more =>
          rw [intercalate_cons (List.cons_ne_nil _ _), depth_append, depth_cons, hp, hsep, hmore]
          rfl

/-- A text has only one row of pieces. -/
theorem Pieces.eq_splitTopLevel (hsep : nesting sep = 0) (h : Pieces sep w pieces) :
    splitTopLevel sep w = pieces := by
  have hguarded : ∀ p ∈ pieces, Guarded sep 0 p := by
    intro p hp
    by_cases hne : p = []
    · subst hne
      trivial
    · exact guarded_of_mem_splitTopLevel hsep (h.whole p hp hne ▸ List.mem_singleton_self p)
  rcases List.eq_nil_or_concat' pieces with rfl | ⟨front, last, rfl⟩
  · rw [h.eq_nil_iff.1 rfl, splitTopLevel_nil]
  by_cases hend : SplitAtEnd sep w
  · -- an empty piece follows the last separator
    have hclosed := fun p hp => And.intro (hguarded p hp) (h.depth_atEnd hend p hp)
    rw [← h.joined_atEnd hend, ← intercalate_concat_nil (by simp),
      splitTopLevel_intercalate_concat hsep hclosed, splitTopLevel_nil, List.append_nil]
  · have hfront : ∀ p ∈ front, depth p = 0 := fun p hp =>
      h.depth_eq_zero p (by rwa [List.dropLast_concat])
    have hclosed : ∀ p ∈ front, Guarded sep 0 p ∧ depth p = 0 := fun p hp =>
      ⟨hguarded p (List.mem_append_left _ hp), hfront p hp⟩
    have hlast : last ≠ [] := by
      rintro rfl
      by_cases hne : front = []
      · have hnil : w = [] := by rw [← h.joined hend, hne]; rfl
        exact absurd (h.eq_nil_iff.2 hnil) (by simp)
      · refine hend ⟨[sep].intercalate front, ?_, depth_intercalate hsep hfront⟩
        rw [← h.joined hend, intercalate_concat_nil hne]
    have hwhole := splitTopLevel_last (hguarded last (by simp)) hlast
    rw [← h.joined hend, splitTopLevel_intercalate_concat hsep hclosed, hwhole]

/-- Brackets alone nest. -/
theorem nesting_eq_zero_iff {c : Char} : nesting c = 0 ↔ c ∉ ['<', '>', '(', ')'] := by
  rw [nesting]
  split_ifs with hopen hclose
  · refine iff_of_false (by decide) (not_not_intro ?_)
    rcases hopen with rfl | rfl <;> decide
  · refine iff_of_false (by decide) (not_not_intro ?_)
    rcases hclose with rfl | rfl <;> decide
  · simp_all

/-- **Splitting loses nothing and is complete,** for every text, however its brackets are
nested, and every separator that is no bracket; and only one row of pieces is what it says. -/
theorem splitTopLevel_eq_iff (hsep : sep ∉ ['<', '>', '(', ')']) (w : List Char)
    (pieces : List (List Char)) : splitTopLevel sep w = pieces ↔ Pieces sep w pieces := by
  have hnesting := nesting_eq_zero_iff.2 hsep
  constructor
  · rintro rfl
    exact pieces_splitTopLevel hnesting w
  · exact Pieces.eq_splitTopLevel hnesting

/-- Brackets that close before they open, an empty piece and one that is left open. -/
theorem splitTopLevel_eq_iff_unbalanced :
    let text := "a>,b<,,c<d,e>,f(,".toList
    let pieces := ["a>,b<".toList, [], "c<d,e>".toList, "f(,".toList]
    ',' ∉ ['<', '>', '(', ')'] ∧ splitTopLevel ',' text = pieces ∧ Pieces ',' text pieces := by
  intro text pieces
  have hsep : ',' ∉ ['<', '>', '(', ')'] := by decide
  have hsplit : splitTopLevel ',' text = pieces := by decide +kernel
  exact ⟨hsep, hsplit, (splitTopLevel_eq_iff hsep text pieces).1 hsplit⟩

end Text
end NativeHooks
