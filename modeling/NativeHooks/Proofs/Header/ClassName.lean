/-
# The class of a header, whatever its gaps

The class is found by looking for words, and a gap does nothing but to part one word from
the next.  So a gap may be exchanged for another one if both part words or neither does:
if both have spaces, if both have none, or if no word stands on one of their two sides
(`className_gap`).  Texts that may be exchanged wherever they stand are *alike* (`Alike`),
and texts of alike parts are alike again.
-/

import Mathlib.Data.List.Basic
import NativeHooks.Header.Reading
import NativeHooks.Proofs.Text.Runs

namespace NativeHooks
namespace Header

open Text

/-! ### Gaps between words -/

/-- The text `w` ends in a word; `inWord` says so of the text before it. -/
def endsInWord (inWord : Bool) : List Char → Bool
  | [] => inWord
  | c :: w => endsInWord (isWord c) w

theorem endsInWord_append (inWord : Bool) (u v : List Char) :
    endsInWord inWord (u ++ v) = endsInWord (endsInWord inWord u) v := by
  induction u generalizing inWord with
  | nil => rfl
  | cons c u ih => exact ih (isWord c)

theorem endsInWord_concat (inWord : Bool) (w : List Char) (c : Char) :
    endsInWord inWord (w ++ [c]) = isWord c := by
  rw [endsInWord_append]
  rfl

/-- No word goes on over the gap. -/
def Loose (gap rest : List Char) : Prop := gap ≠ [] ∨ ∀ c ∈ rest.head?, isWord c = false

/-- Two gaps between a text and `rest` do the same; `inWord` says that the text ends in a
word. -/
def Exchangeable (inWord : Bool) (gap gap' rest : List Char) : Prop :=
  (gap = [] ∧ gap' = []) ∨ inWord = false ∨ (Loose gap rest ∧ Loose gap' rest)

/-- The name at the start of a text. -/
def nameAt (cs : List Char) : Option (List Char) :=
  if (cs.takeWhile isWord).isEmpty then none else some (cs.takeWhile isWord)

theorem structName_eq (cs : List Char) : structName cs
    = ("struct".toList.isPrefixOf? cs).bind fun left => (afterSome isSpace left).bind nameAt := by
  simp only [structName, afterShape, Part.after, Option.bind_eq_bind, Option.bind_assoc,
    Option.bind_some]
  rfl

section Gaps

variable {gap gap' rest : List Char} {c : Char}

theorem isWord_eq_false_of_isSpace (h : isSpace c = true) : isWord c = false := by
  by_contra hword
  exact absurd ((isSpace_eq_false_of_isWord (by simpa using hword)).symm.trans h) (by decide)

theorem takeWhile_isWord_eq_nil {cs : List Char} (h : ∀ c ∈ cs.head?, isWord c = false) :
    cs.takeWhile isWord = [] := by
  cases cs with
  | nil => rfl
  | cons c cs => rw [List.takeWhile_cons, h c rfl, if_neg Bool.false_ne_true]

theorem nameAt_eq_none {cs : List Char} (h : ∀ c ∈ cs.head?, isWord c = false) :
    nameAt cs = none := by
  rw [nameAt, takeWhile_isWord_eq_nil h]
  rfl

theorem isPrefixOf?_eq_none {s cs : List Char} (hc : isWord c = true)
    (h : ∀ a ∈ cs.head?, isWord a = false) : (c :: s).isPrefixOf? cs = none := by
  cases cs with
  | nil => rfl
  | cons a cs =>
      have hne : (c == a) = false := beq_eq_false_iff_ne.2 (ne_of_class hc (h a rfl))
      simp [List.isPrefixOf?, hne]

theorem structName_eq_none {cs : List Char} (h : ∀ a ∈ cs.head?, isWord a = false) :
    structName cs = none := by
  rw [structName_eq, show "struct".toList = 's' :: "truct".toList from rfl,
    isPrefixOf?_eq_none (by decide) h, Option.bind_none]

variable (hgap : ∀ c ∈ gap, isSpace c = true) (hgap' : ∀ c ∈ gap', isSpace c = true)

include hgap in
/-- No word stands after a gap that no word goes on over. -/
theorem Loose.head (h : Loose gap rest) : ∀ c ∈ (gap ++ rest).head?, isWord c = false := by
  rcases h with hne | hrest
  · intro c hc
    rw [List.head?_append_of_ne_nil _ hne] at hc
    exact isWord_eq_false_of_isSpace (hgap c (List.mem_of_mem_head? hc))
  · cases gap with
    | nil => exact hrest
    | cons a gap =>
        rintro c ⟨⟩
        exact isWord_eq_false_of_isSpace (hgap _ List.mem_cons_self)

include hgap in
/-- Behind `struct`, such a gap is passed over. -/
theorem Loose.name (h : Loose gap rest) :
    (afterSome isSpace (gap ++ rest)).bind nameAt = nameAt (rest.dropWhile isSpace) := by
  rcases gap with _ | ⟨a, gap⟩
  · have hrest := h.head hgap
    rw [List.nil_append] at hrest ⊢
    cases rest with
    | nil => rfl
    | cons c rest =>
        by_cases hc : isSpace c = true
        · rw [List.dropWhile_cons, if_pos hc]
          show (if isSpace c = true then some _ else none).bind nameAt = _
          rw [if_pos hc, Option.bind_some]
        · rw [List.dropWhile_cons, if_neg hc, nameAt_eq_none hrest]
          show (if isSpace c = true then some _ else none).bind nameAt = _
          rw [if_neg hc, Option.bind_none]
  · show (if isSpace a = true then some ((gap ++ rest).dropWhile isSpace) else none).bind nameAt = _
    rw [if_pos (hgap a List.mem_cons_self), Option.bind_some,
      List.dropWhile_append_of_pos fun c hc => hgap c (List.mem_cons_of_mem _ hc)]

include hgap in
/-- Looking for a word goes on behind the gap. -/
theorem Loose.atFirstWord (h : Loose gap rest) (inWord : Bool) :
    atFirstWord structName inWord (gap ++ rest) = atFirstWord structName false rest := by
  have hstep : ∀ (inWord : Bool) (c : Char) (cs : List Char), isWord c = false →
      Text.atFirstWord structName inWord (c :: cs) = Text.atFirstWord structName false cs := by
    intro inWord c cs hc
    have hnone : structName (c :: cs) = none := structName_eq_none (by rintro a ⟨⟩; exact hc)
    rw [Text.atFirstWord, hnone, ite_self, hc]
  have hhead := h.head hgap
  clear h
  induction gap generalizing inWord with
  | nil =>
      cases rest with
      | nil => rfl
      | cons c rest =>
          rw [List.nil_append, hstep _ c rest (hhead c rfl), hstep _ c rest (hhead c rfl)]
  | cons a gap ih =>
      have hrest := fun c hc => hgap c (List.mem_cons_of_mem a hc)
      rw [List.cons_append, hstep _ _ _ (isWord_eq_false_of_isSpace (hgap a List.mem_cons_self))]
      cases gap with
      | nil => rfl
      | cons b gap =>
          refine ih hrest false fun c hc => ?_
          obtain rfl : b = c := Option.some.inj hc
          exact isWord_eq_false_of_isSpace (hrest b List.mem_cons_self)

include hgap hgap'

/-- The name behind a text that a gap follows. -/
theorem takeWhile_isWord_gap {w : List Char}
    (h : Exchangeable (endsInWord true w) gap gap' rest) :
    (w ++ (gap ++ rest)).takeWhile isWord = (w ++ (gap' ++ rest)).takeWhile isWord := by
  induction w with
  | nil =>
      rcases h with ⟨rfl, rfl⟩ | h | ⟨h, h'⟩
      · rfl
      · exact absurd h Bool.false_ne_true.symm
      · rw [List.nil_append, List.nil_append, takeWhile_isWord_eq_nil (h.head hgap),
          takeWhile_isWord_eq_nil (h'.head hgap')]
  | cons c w ih =>
      rw [List.cons_append, List.cons_append, List.takeWhile_cons, List.takeWhile_cons]
      split
      · next hc =>
          rw [ih]
          rwa [endsInWord, hc] at h
      · rfl

theorem nameAt_dropWhile_gap {inWord : Bool} {w : List Char}
    (h : Exchangeable (endsInWord inWord w) gap gap' rest) :
    nameAt ((w ++ (gap ++ rest)).dropWhile isSpace)
      = nameAt ((w ++ (gap' ++ rest)).dropWhile isSpace) := by
  induction w generalizing inWord with
  | nil =>
      rw [List.nil_append, List.nil_append, List.dropWhile_append_of_pos hgap,
        List.dropWhile_append_of_pos hgap']
  | cons c w ih =>
      rw [List.cons_append, List.cons_append, List.dropWhile_cons, List.dropWhile_cons]
      split
      · exact ih h
      · rw [nameAt, nameAt, List.takeWhile_cons, List.takeWhile_cons]
        by_cases hc : isWord c = true
        · rw [endsInWord, hc] at h
          rw [if_pos hc, if_pos hc, takeWhile_isWord_gap hgap hgap' h]
        · rw [if_neg hc, if_neg hc]

/-- A text that begins a class declaration still does so with the other gap. -/
theorem isPrefixOf?_gap {s w : List Char} (hs : ∀ c ∈ s, isWord c = true)
    (h : Exchangeable (endsInWord true w) gap gap' rest) :
    (s.isPrefixOf? (w ++ (gap ++ rest))).bind (fun left => (afterSome isSpace left).bind nameAt)
      = (s.isPrefixOf? (w ++ (gap' ++ rest))).bind fun left =>
        (afterSome isSpace left).bind nameAt := by
  induction s generalizing w with
  | nil =>
      show (afterSome isSpace _).bind nameAt = (afterSome isSpace _).bind nameAt
      cases w with
      | nil =>
          rcases h with ⟨rfl, rfl⟩ | h | ⟨h, h'⟩
          · rfl
          · exact absurd h Bool.false_ne_true.symm
          · rw [List.nil_append, List.nil_append, h.name hgap, h'.name hgap']
      | cons c w =>
          show (if isSpace c = true then some _ else none).bind nameAt
            = (if isSpace c = true then some _ else none).bind nameAt
          split
          · exact nameAt_dropWhile_gap hgap hgap' h
          · rfl
  | cons a s ih =>
      have ha : isWord a = true := hs a List.mem_cons_self
      cases w with
      | nil =>
          rcases h with ⟨rfl, rfl⟩ | h | ⟨h, h'⟩
          · rfl
          · exact absurd h Bool.false_ne_true.symm
          · rw [List.nil_append, List.nil_append, isPrefixOf?_eq_none ha (h.head hgap),
              isPrefixOf?_eq_none ha (h'.head hgap')]
      | cons c w =>
          show ((if a == c then s.isPrefixOf? (w ++ _) else none).bind _ : Option (List Char))
            = (if a == c then s.isPrefixOf? (w ++ _) else none).bind _
          split
          · next hac =>
              rw [endsInWord, ← eq_of_beq hac, ha] at h
              exact ih (fun b hb => hs b (List.mem_cons_of_mem _ hb)) h
          · rfl

theorem atFirstWord_gap {inWord : Bool} {w : List Char}
    (h : Exchangeable (endsInWord inWord w) gap gap' rest) :
    atFirstWord structName inWord (w ++ (gap ++ rest))
      = atFirstWord structName inWord (w ++ (gap' ++ rest)) := by
  induction w generalizing inWord with
  | nil =>
      have hfalse : ∀ {gap}, (∀ c ∈ gap, isSpace c = true) →
          atFirstWord structName false (gap ++ rest) = atFirstWord structName false rest := by
        intro gap hgap
        rcases gap with _ | ⟨c, gap⟩
        · rfl
        · exact Loose.atFirstWord hgap (.inl (List.cons_ne_nil _ _)) false
      rcases h with ⟨rfl, rfl⟩ | h | ⟨h, h'⟩
      · rfl
      · obtain rfl : inWord = false := h
        rw [List.nil_append, List.nil_append, hfalse hgap, hfalse hgap']
      · rw [List.nil_append, List.nil_append, h.atFirstWord hgap, h'.atFirstWord hgap']
  | cons c w ih =>
      have hword : structName (c :: (w ++ (gap ++ rest)))
          = structName (c :: (w ++ (gap' ++ rest))) := by
        rw [structName_eq, structName_eq]
        by_cases hc : 's' = c
        · subst hc
          exact isPrefixOf?_gap hgap hgap' (s := "struct".toList) (w := 's' :: w)
            (List.all_eq_true.1 rfl) h
        · have hnone : ∀ cs, "struct".toList.isPrefixOf? (c :: cs) = none := fun cs => by
            show (if ('s' == c) = true then _ else none) = none
            rw [if_neg (by simpa using hc)]
          rw [hnone, hnone]
      rw [List.cons_append, List.cons_append, atFirstWord, atFirstWord, hword]
      split
      · rfl
      · exact ih h

/-- **A gap may be exchanged** for one that parts the same words: the class of the header
is the same. -/
theorem className_gap {w : List Char} (h : Exchangeable (endsInWord false w) gap gap' rest) :
    className (w ++ gap ++ rest) = className (w ++ gap' ++ rest) := by
  rw [List.append_assoc, List.append_assoc, className, className, atFirstWord_gap hgap hgap' h]

end Gaps

/-! ### Alike texts -/

/-- Two texts that may be exchanged in any header, as far as its class goes. -/
def Alike (w w' : List Char) : Prop :=
  ∀ before after, className (before ++ w ++ after) = className (before ++ w' ++ after)

theorem Alike.refl (w : List Char) : Alike w w := fun _ _ => rfl

theorem Alike.trans {u v w : List Char} (h : Alike u v) (h' : Alike v w) : Alike u w :=
  fun before after => (h before after).trans (h' before after)

theorem Alike.append {u u' v v' : List Char} (hu : Alike u u') (hv : Alike v v') :
    Alike (u ++ v) (u' ++ v') := by
  intro before after
  have hfirst := hu before (v ++ after)
  have hsecond := hv (before ++ u') after
  simp only [List.append_assoc] at hfirst hsecond ⊢
  exact hfirst.trans hsecond

section Alike

variable {gap gap' : List Char} (hgap : ∀ c ∈ gap, isSpace c = true)
  (hgap' : ∀ c ∈ gap', isSpace c = true)

include hgap hgap'

/-- Gaps part words, or they do not. -/
theorem alike_gap (h : gap = [] ↔ gap' = []) : Alike gap gap' := by
  refine fun before after => className_gap hgap hgap' ?_
  by_cases hnil : gap = []
  · exact .inl ⟨hnil, h.1 hnil⟩
  · exact .inr (.inr ⟨.inl hnil, .inl fun hnil' => hnil (h.2 hnil')⟩)

/-- Before what is no word, gaps are alike. -/
theorem alike_gap_append {w : List Char} (hne : w ≠ []) (h : ∀ c ∈ w.head?, isWord c = false) :
    Alike (gap ++ w) (gap' ++ w) := by
  intro before after
  have hrest : ∀ c ∈ (w ++ after).head?, isWord c = false := by
    rwa [List.head?_append_of_ne_nil _ hne]
  rw [← List.append_assoc, ← List.append_assoc, List.append_assoc _ w, List.append_assoc _ w]
  exact className_gap hgap hgap' (.inr (.inr ⟨.inr hrest, .inr hrest⟩))

/-- After what is no word, gaps are alike. -/
theorem alike_append_gap {w : List Char} (hne : w ≠ []) (h : ∀ c ∈ w.getLast?, isWord c = false) :
    Alike (w ++ gap) (w ++ gap') := by
  intro before after
  obtain ⟨first, c, rfl⟩ := (List.eq_nil_or_concat w).resolve_left hne
  rw [← List.append_assoc, ← List.append_assoc]
  refine className_gap hgap hgap' (.inr (.inl ?_))
  rw [List.concat_eq_append, ← List.append_assoc, endsInWord_concat]
  exact h c (by simp)

end Alike

/-- What is no word may have any gaps around it. -/
theorem alike_between {w : List Char} (hne : w ≠ []) (hhead : ∀ c ∈ w.head?, isWord c = false)
    (hlast : ∀ c ∈ w.getLast?, isWord c = false) {first first' last last' : List Char}
    (hfirst : ∀ c ∈ first, isSpace c = true) (hfirst' : ∀ c ∈ first', isSpace c = true)
    (hlastGap : ∀ c ∈ last, isSpace c = true) (hlastGap' : ∀ c ∈ last', isSpace c = true) :
    Alike (first ++ w ++ last) (first' ++ w ++ last') := by
  have hbefore : Alike (first ++ w ++ last) (first' ++ w ++ last) :=
    (alike_gap_append hfirst hfirst' hne hhead).append (.refl last)
  have hafter : Alike (first' ++ (w ++ last)) (first' ++ (w ++ last')) :=
    (Alike.refl first').append (alike_append_gap hlastGap hlastGap' hne hlast)
  rw [← List.append_assoc, ← List.append_assoc] at hafter
  exact hbefore.trans hafter

end Header
end NativeHooks
