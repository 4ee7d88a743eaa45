/-
# Words

A text is made up of words with spaces between them, before them and after them.  Words can be
gone through from the start (`words_induction`), and that is how collapsing goes: of a text
that neither begins nor ends with a space it leaves the words with one space character between
them (`collapse_eq_spaced`), and such a text is tidy (`tidy_words`).
-/

import NativeHooks.Proofs.Text.Tidy

namespace NativeHooks
namespace Text

/-- Texts with one space character between them. -/
def spaced (texts : List (List Char)) : List Char := [' '].intercalate texts

/-- The text is one word: it is not empty and has no space. -/
def Solid (t : List Char) : Prop := t ≠ [] ∧ ∀ c ∈ t, isSpace c = false

variable {a c : Char} {t w : List Char} {texts : List (List Char)}

theorem spaced_cons (t : List Char) (h : texts ≠ []) :
    spaced (t :: texts) = t ++ ' ' :: spaced texts := by
  rw [spaced, List.intercalate_cons_of_ne_nil h, List.append_assoc]
  rfl

/-- A text is gone through word by word: a word reaches to the next space or to the end. -/
theorem words_induction {P : List Char → Prop} (nil : P [])
    (space : ∀ c w, isSpace c = true → P w → P (c :: w)) (word : ∀ t, Solid t → P t)
    (next : ∀ t c w, Solid t → isSpace c = true → P w → P (t ++ c :: w)) (w : List Char) : P w := by
  induction hlength : w.length using Nat.strong_induction_on generalizing w with
  | _ length ih =>
      rcases w with _ | ⟨c, w⟩
      · exact nil
      rcases hc : isSpace c with _ | _
      case true => exact space c w hc (ih w.length (by rw [← hlength]; exact Nat.lt_succ_self _) w rfl)
      case false =>
        have hw : c :: w = c :: w.takeWhile (! isSpace ·) ++ w.dropWhile (! isSpace ·) := by
          rw [List.cons_append, List.takeWhile_append_dropWhile]
        have hword : Solid (c :: w.takeWhile (! isSpace ·)) := by
          refine ⟨List.cons_ne_nil _ _, fun a ha => ?_⟩
          rcases List.mem_cons.1 ha with rfl | ha
          · exact hc
          · simpa using List.mem_takeWhile_imp ha
        rcases hrest : w.dropWhile (! isSpace ·) with _ | ⟨d, v⟩
        · rw [hrest, List.append_nil] at hw
          rw [hw]
          exact word _ hword
        · have hd : isSpace d = true := by
            have := List.head?_dropWhile_not (! isSpace ·) w
            rw [hrest] at this
            simpa using this
          have hshorter : v.length < length := by
            have := congrArg List.length hw
            rw [hrest] at this
            simp only [List.length_cons, List.length_append] at this hlength
            omega
          rw [hw, hrest]
          exact next _ d v hword hd (ih _ hshorter v rfl)

/-! ### Splitting into words -/

theorem words_append_space (hc : isSpace c = true) (u v : List Char) :
    words (u ++ c :: v) = words u ++ words v := by
  rw [words, List.splitOnP_append_cons u v hc, List.filter_append]
  rfl

theorem words_cons_space (hc : isSpace c = true) (w : List Char) : words (c :: w) = words w :=
  words_append_space hc [] w

theorem words_spaces_append {v : List Char} (hv : ∀ c ∈ v, isSpace c = true) (w : List Char) :
    words (v ++ w) = words w := by
  induction v with
  | nil => rfl
  | cons c v ih =>
      rw [List.cons_append, words_cons_space (hv c List.mem_cons_self)]
      exact ih fun d hd => hv d (List.mem_cons_of_mem c hd)

theorem words_append_spaces {v : List Char} (hv : ∀ c ∈ v, isSpace c = true) (w : List Char) :
    words (w ++ v) = words w := by
  rcases v with _ | ⟨c, v⟩
  · rw [List.append_nil]
  · have hnone := words_spaces_append (fun d hd => hv d (List.mem_cons_of_mem c hd)) []
    rw [List.append_nil] at hnone
    rw [words_append_space (hv c List.mem_cons_self), hnone]
    exact List.append_nil _

theorem words_trim (w : List Char) : words (trim w) = words w := by
  obtain ⟨u, v, hw, hu, hv⟩ := exists_trim w
  conv_rhs => rw [hw, words_append_spaces hv, words_spaces_append hu]

theorem words_of_solid (ht : Solid t) : words t = [t] := by
  rw [words, List.splitOnP_eq_singleton ht.2]
  exact List.filter_cons_of_pos (by simpa using ht.1)

theorem words_of_solid_append (ht : Solid t) (hc : isSpace c = true) (w : List Char) :
    words (t ++ c :: w) = t :: words w := by
  rw [words_append_space hc, words_of_solid ht, List.singleton_append]

theorem solid_of_mem_words (ht : t ∈ words w) : Solid t := by
  induction w using words_induction with
  | nil => exact absurd ht List.not_mem_nil
  | space c w hc ih =>
      rw [words_cons_space hc] at ht
      exact ih ht
  | word u hu =>
      rw [words_of_solid hu] at ht
      exact List.mem_singleton.1 ht ▸ hu
  | next u c w hu hc ih =>
      rw [words_of_solid_append hu hc] at ht
      rcases List.mem_cons.1 ht with rfl | ht
      · exact hu
      · exact ih ht

theorem words_ne_nil (ha : a ∈ w) (hspace : isSpace a = false) : words w ≠ [] := by
  induction w using words_induction with
  | nil => exact absurd ha List.not_mem_nil
  | space c w hc ih =>
      rw [words_cons_space hc]
      refine ih ((List.mem_cons.1 ha).resolve_left ?_)
      rintro rfl
      exact Bool.false_ne_true (hspace.symm.trans hc)
  | word u hu =>
      rw [words_of_solid hu]
      exact List.cons_ne_nil u []
  | next u c w hu hc ih =>
      rw [words_of_solid_append hu hc]
      exact List.cons_ne_nil u _

/-! ### Collapsing -/

theorem Solid.tidy (ht : Solid t) : Tidy t := tidy_of_forall ht.1 ht.2

/-- A word is left as it is, also after a space that has been written. -/
theorem collapseFrom_of_solid (ht : Solid t) (inRun : Bool) : collapseFrom inRun t = t := by
  have happend := ht.tidy.collapseFrom inRun []
  rwa [List.append_nil, show collapseFrom false [] = [] from rfl, List.append_nil] at happend

theorem tidy_spaced (hne : texts ≠ []) (h : ∀ t ∈ texts, Tidy t) : Tidy (spaced texts) := by
  induction texts with
  | nil => exact absurd rfl hne
  | cons t texts ih =>
      have ht := h t List.mem_cons_self
      rcases texts with _ | ⟨u, more⟩
      · rwa [spaced, List.intercalate_singleton]
      · have hmore := ih (List.cons_ne_nil u more) fun v hv => h v (List.mem_cons_of_mem t hv)
        rw [spaced_cons t (List.cons_ne_nil u more)]
        exact ht.append_space hmore

/-- The words of a text with one space between them are tidy. -/
theorem tidy_words (ha : a ∈ w) (hspace : isSpace a = false) : Tidy (spaced (words w)) :=
  tidy_spaced (words_ne_nil ha hspace) fun _ ht => (solid_of_mem_words ht).tidy

theorem collapseFrom_space (hc : isSpace c = true) (w : List Char) :
    collapseFrom false (c :: w) = ' ' :: collapseFrom true w := by
  rw [collapseFrom, if_pos hc, if_neg Bool.false_ne_true]

theorem collapseFrom_spaces {v : List Char} (hv : ∀ c ∈ v, isSpace c = true) (w : List Char) :
    collapseFrom true (v ++ w) = collapseFrom true w := by
  induction v with
  | nil => rfl
  | cons c v ih =>
      rw [List.cons_append, collapseFrom, if_pos (hv c List.mem_cons_self), if_pos rfl]
      exact ih fun d hd => hv d (List.mem_cons_of_mem c hd)

/-- What follows a text that does not end with a space is collapsed on its own. -/
theorem collapseFrom_append_of_last (hne : w ≠ []) (hlast : ∀ c ∈ w.getLast?, isSpace c = false)
    (inRun : Bool) (rest : List Char) :
    collapseFrom inRun (w ++ rest) = collapseFrom inRun w ++ collapseFrom false rest := by
  induction w generalizing inRun with
  | nil => exact absurd rfl hne
  | cons c w ih =>
      rcases w with _ | ⟨d, w⟩
      · have hc : Solid [c] :=
          ⟨List.cons_ne_nil c [], fun b hb => List.mem_singleton.1 hb ▸ hlast c rfl⟩
        rw [hc.tidy.collapseFrom, collapseFrom_of_solid hc]
      · rw [List.getLast?_cons_of_ne_nil (List.cons_ne_nil d w)] at hlast
        have hmore := fun inRun => ih (List.cons_ne_nil d w) hlast inRun
        rw [List.cons_append, collapseFrom, collapseFrom]
        split
        · split
          · exact hmore true
          · rw [hmore true, List.cons_append]
        · rw [hmore false, List.cons_append]

/-- Collapsing parts the words by one space each.  A run of spaces at the start is left out if
one has been written already. -/
theorem collapseFrom_eq_spaced (hlast : ∀ c ∈ w.getLast?, isSpace c = false) :
    collapseFrom true w = spaced (words w) ∧
      ((∀ c ∈ w.head?, isSpace c = false) → collapseFrom false w = spaced (words w)) := by
  induction w using words_induction with
  | nil => exact ⟨rfl, fun _ => rfl⟩
  | space c w hc ih =>
      have hne : w ≠ [] := by
        rintro rfl
        exact absurd (hlast c rfl) (by simp [hc])
      rw [List.getLast?_cons_of_ne_nil hne] at hlast
      rw [words_cons_space hc, ← List.singleton_append,
        collapseFrom_spaces fun d hd => List.mem_singleton.1 hd ▸ hc]
      exact ⟨(ih hlast).1, fun hhead => absurd (hhead c rfl) (by simp [hc])⟩
  | word t ht =>
      have hword : ∀ inRun, collapseFrom inRun t = spaced (words t) := by
        intro inRun
        rw [collapseFrom_of_solid ht, words_of_solid ht, spaced, List.intercalate_singleton]
      exact ⟨hword true, fun _ => hword false⟩
  | next t c w ht hc ih =>
      have hne : w ≠ [] := by
        rintro rfl
        exact absurd (hlast c List.getLast?_concat) (by simp [hc])
      rw [List.getLast?_append_of_ne_nil _ (List.cons_ne_nil c w),
        List.getLast?_cons_of_ne_nil hne] at hlast
      have hwords : words w ≠ [] :=
        words_ne_nil (List.getLast_mem hne) (hlast _ (List.getLast?_eq_some_getLast hne))
      have hword : ∀ inRun, collapseFrom inRun (t ++ c :: w) = spaced (words (t ++ c :: w)) := by
        intro inRun
        rw [ht.tidy.collapseFrom, collapseFrom_space hc, (ih hlast).1,
          words_of_solid_append ht hc, spaced_cons t hwords]
      exact ⟨hword true, fun _ => hword false⟩

theorem collapse_eq_spaced (hhead : ∀ c ∈ w.head?, isSpace c = false)
    (hlast : ∀ c ∈ w.getLast?, isSpace c = false) : collapse w = spaced (words w) :=
  (collapseFrom_eq_spaced hlast).2 hhead

end Text
end NativeHooks
