/-
# Lower case, word by word

A capital sigma looks at its neighbours to find its small form, but no further than to the next
space: casing looks through no space, and no space is cased.  So what stands before a space and
what stands after it are lowered on their own (`lower_append_space`).  No letter becomes a space
or disappears, and the words of a lower-case text are the lower-case words of the text
(`words_lower`).

Where only the letters A to Z are lowered, every character stands for itself but these, and
lowering twice is lowering once (`asciiLower_asciiLower`).
-/

import NativeHooks.Proofs.Text.Utf8
import NativeHooks.Proofs.Text.Words
import NativeHooks.Text.Lowercase

namespace NativeHooks
namespace Text

variable {c d : Char} {t w : List Char}

/-! ### Spaces -/

theorem not_caseIgnorable_of_isSpace :
    isSpace c = true → caseIgnorableRanges.contains c.toNat = false :=
  forall_of_spacePoints (P := fun c => caseIgnorableRanges.contains c.toNat = false)
    (by decide +kernel)

theorem not_cased_of_isSpace : isSpace c = true → casedRanges.contains c.toNat = false :=
  forall_of_spacePoints (P := fun c => casedRanges.contains c.toNat = false) (by decide +kernel)

theorem lowerChar_of_isSpace : isSpace c = true → lowerChar c = [c] :=
  forall_of_spacePoints (P := fun c => lowerChar c = [c]) (by decide +kernel)

theorem ne_sigma_of_isSpace (hc : isSpace c = true) : c ≠ '\u03a3' := ne_of_class hc rfl

/-- Nothing behind a space is seen. -/
theorem casedFollows_append_space (hc : isSpace c = true) (u v : List Char) :
    casedFollows (u ++ c :: v) = casedFollows u := by
  have hstop := not_caseIgnorable_of_isSpace hc
  induction u with
  | nil => simp only [casedFollows, List.nil_append, List.dropWhile_cons, List.dropWhile_nil, hstop,
      Bool.false_eq_true, if_false, not_cased_of_isSpace hc]
  | cons d u ih =>
      rcases hd : caseIgnorableRanges.contains d.toNat with _ | _
      · simp only [casedFollows, List.cons_append, List.dropWhile_cons, hd, Bool.false_eq_true,
          if_false]
      · simpa only [casedFollows, List.cons_append, List.dropWhile_cons, hd, if_true] using ih

/-- After a space a text is lowered as at its start. -/
theorem lowerAfter_append_space (hc : isSpace c = true) (u before v : List Char) :
    lowerAfter (u ++ c :: before) v = lowerAfter u v := by
  induction v generalizing u with
  | nil => rfl
  | cons d v ih => rw [lowerAfter, lowerAfter, casedFollows_append_space hc, ← List.cons_append, ih]

theorem lowerAfter_space_append (hc : isSpace c = true) (before u v : List Char) :
    lowerAfter before (u ++ c :: v) = lowerAfter before u ++ c :: lower v := by
  induction u generalizing before with
  | nil =>
      have hv : lowerAfter (c :: before) v = lower v := lowerAfter_append_space hc [] before v
      show lowerAfter before (c :: v) = c :: lower v
      rw [lowerAfter, if_neg (ne_sigma_of_isSpace hc), lowerChar_of_isSpace hc, hv,
        List.singleton_append]
  | cons d u ih =>
      rw [List.cons_append, lowerAfter, lowerAfter, casedFollows_append_space hc, ih,
        List.append_assoc]

/-- **A space parts what is lowered on its own.** -/
theorem lower_append_space (hc : isSpace c = true) (u v : List Char) :
    lower (u ++ c :: v) = lower u ++ c :: lower v :=
  lowerAfter_space_append hc [] u v

theorem lower_cons_space (hc : isSpace c = true) (v : List Char) :
    lower (c :: v) = c :: lower v := lower_append_space hc [] v

/-! ### Letters -/

/-- A small letter is the letter itself or one of the images in the table. -/
theorem smallLetter_cases (runs : List CaseRun) (n : Nat) :
    smallLetter runs n = n ∨
      ∃ r ∈ runs, r.first ≤ n ∧ n ≤ r.last ∧ smallLetter runs n = (n + r.shift).toNat := by
  induction runs with
  | nil => exact .inl rfl
  | cons r runs ih =>
      rw [smallLetter]
      split
      · exact .inl rfl
      split
      · split
        · exact .inr ⟨r, List.mem_cons_self, by omega, by omega, rfl⟩
        · exact .inl rfl
      · rcases ih with h | ⟨s, hs, hfirst, hlast, h⟩
        · exact .inl h
        · exact .inr ⟨s, List.mem_cons_of_mem _ hs, hfirst, hlast, h⟩

/-- No run of the table leads to a space. -/
theorem smallLetter_not_mem_spacePoints {n : Nat} (hn : n ∉ spacePoints) :
    smallLetter caseRuns n ∉ spacePoints := by
  have hall : ∀ r ∈ caseRuns, ∀ p ∈ spacePoints, p < r.first + r.shift ∨ r.last + r.shift < p := by
    decide +kernel
  rcases smallLetter_cases caseRuns n with h | ⟨r, hr, hfirst, hlast, h⟩
  · rwa [h]
  · intro hmem
    rw [h] at hmem
    have := hall r hr _ hmem
    have hpos : ∀ p ∈ spacePoints, 0 < p := by decide
    have := hpos _ hmem
    omega

/-- A letter does not become a space. -/
theorem isSpace_of_mem_lowerChar (hc : isSpace c = false) : ∀ d ∈ lowerChar c, isSpace d = false := by
  intro d hd
  rw [lowerChar] at hd
  split at hd
  · next hascii =>
    obtain rfl := List.mem_singleton.1 hd
    have hall : ∀ n < 0x80, isSpace (Char.ofNat n) = false →
        isSpace (Char.ofNat n).toLower = false := by decide +kernel
    have h := hall c.toNat hascii
    rw [Char.ofNat_toNat] at h
    exact h hc
  split at hd
  · rcases List.mem_pair.1 hd with rfl | rfl <;> decide
  · obtain rfl := List.mem_singleton.1 hd
    by_contra hspace
    have hmem := mem_spacePoints (Bool.not_eq_false _ ▸ hspace)
    rcases toNat_ofNat (smallLetter caseRuns c.toNat) with h | h
    · rw [h] at hmem
      refine smallLetter_not_mem_spacePoints (fun hpoint => ?_) hmem
      have hall : ∀ n ∈ spacePoints, isSpace (Char.ofNat n) = true := by decide +kernel
      have hspace := hall _ hpoint
      rw [Char.ofNat_toNat] at hspace
      exact Bool.false_ne_true (hc.symm.trans hspace)
    · rw [h] at hmem
      exact absurd hmem (by decide)

theorem lowerChar_ne_nil (c : Char) : lowerChar c ≠ [] := by
  rw [lowerChar]
  split
  · exact List.cons_ne_nil _ _
  split <;> exact List.cons_ne_nil _ _

/-- What is lowered to a word is a word. -/
theorem Solid.lower (ht : Solid t) : Solid (lower t) := by
  have hletters : ∀ before w, (∀ c ∈ w, isSpace c = false) →
      ∀ d ∈ lowerAfter before w, isSpace d = false := by
    intro before w hw
    induction w generalizing before with
    | nil => exact fun d hd => absurd hd List.not_mem_nil
    | cons c w ih =>
        intro d hd
        rw [lowerAfter] at hd
        rcases List.mem_append.1 hd with hd | hd
        · split at hd
          · split at hd <;> (obtain rfl := List.mem_singleton.1 hd; decide)
          · exact isSpace_of_mem_lowerChar (hw c List.mem_cons_self) d hd
        · exact ih (c :: before) (fun a ha => hw a (List.mem_cons_of_mem c ha)) d hd
  refine ⟨?_, hletters [] t ht.2⟩
  rcases t with _ | ⟨c, w⟩
  · exact absurd rfl ht.1
  · rw [Text.lower, lowerAfter]
    refine List.append_ne_nil_of_left_ne_nil ?_ _
    split
    · exact List.cons_ne_nil _ _
    · exact lowerChar_ne_nil c

/-- **The words of a lower-case text are the words of the text in lower case.** -/
theorem words_lower (w : List Char) : words (lower w) = (words w).map lower := by
  induction w using words_induction with
  | nil => rfl
  | space c w hc ih => rw [lower_cons_space hc, words_cons_space hc, words_cons_space hc, ih]
  | word t ht => rw [words_of_solid ht, words_of_solid ht.lower, List.map_singleton]
  | next t c w ht hc ih =>
      rw [lower_append_space hc, words_of_solid_append ht hc, words_of_solid_append ht.lower hc, ih,
        List.map_cons]

/-! ### Texts without a final sigma -/

/-- The text is lowered character by character. -/
def LowersByChar (t : List Char) : Prop := lower t = t.flatMap lowerChar

/-- The texts have the same letters, small or capital. -/
def SameLetters (t u : List Char) : Prop := t.map lowerChar = u.map lowerChar

theorem lowersByChar_of_not_mem (h : '\u03a3' ∉ t) : LowersByChar t := by
  have hall : ∀ before, lowerAfter before t = t.flatMap lowerChar := by
    induction t with
    | nil => exact fun _ => rfl
    | cons c t ih =>
        intro before
        have hc : c ≠ '\u03a3' := fun heq => h (heq ▸ List.mem_cons_self)
        rw [lowerAfter, if_neg hc, List.flatMap_cons, ih fun hmem => h (List.mem_cons_of_mem c hmem)]
  exact hall []

theorem SameLetters.lower_eq {u : List Char} (h : SameLetters t u) (ht : LowersByChar t)
    (hu : LowersByChar u) : lower t = lower u := by
  rw [ht, hu, List.flatMap_def, List.flatMap_def, h]

/-! ### The letters A to Z -/

/-- The letters A to Z become other letters, and all other characters stay. -/
theorem toLower_cases (c : Char) :
    c.isUpper = true ∧ c.toLower.isUpper = false ∧ c.toLower.isAlpha = true ∨
      c.isUpper = false ∧ c.toLower = c := by
  rcases hupper : c.isUpper with _ | _
  · exact .inr ⟨rfl, dif_neg (of_decide_eq_false hupper)⟩
  · have hall : ∀ n < 26, (Char.ofNat (n + 65)).toLower.isUpper = false ∧
        (Char.ofNat (n + 65)).toLower.isAlpha = true := by decide +kernel
    obtain ⟨hfirst, hlast⟩ := of_decide_eq_true hupper
    have hfirst : 65 ≤ c.toNat := UInt32.le_iff_toNat_le.1 hfirst
    have hlast : c.toNat ≤ 90 := UInt32.le_iff_toNat_le.1 hlast
    have h := hall (c.toNat - 65) (by omega)
    rw [Nat.sub_add_cancel hfirst, Char.ofNat_toNat] at h
    exact .inl ⟨rfl, h⟩

theorem isUpper_of_mem_asciiLower (hc : c ∈ asciiLower w) : c.isUpper = false := by
  obtain ⟨d, -, rfl⟩ := List.mem_map.1 hc
  rcases toLower_cases d with ⟨-, hupper, -⟩ | ⟨hupper, hsame⟩
  · exact hupper
  · rwa [hsame]

/-- A text without capital letters stays as it is. -/
theorem asciiLower_eq_self (h : ∀ c ∈ w, c.isUpper = false) : asciiLower w = w := by
  refine (List.map_congr_left fun c hc => ?_).trans (List.map_id w)
  rcases toLower_cases c with ⟨hupper, -⟩ | ⟨-, hsame⟩
  · exact absurd ((h c hc).symm.trans hupper) Bool.false_ne_true
  · exact hsame

theorem asciiLower_asciiLower (w : List Char) : asciiLower (asciiLower w) = asciiLower w :=
  asciiLower_eq_self fun _ hc => isUpper_of_mem_asciiLower hc

/-- No letter becomes a character of another kind. -/
theorem toLower_eq_iff (hd : d.isAlpha = false) : c.toLower = d ↔ c = d := by
  have hupper : d.isUpper = false := (Bool.or_eq_false_iff.1 hd).1
  rcases toLower_cases c with ⟨hc, -, halpha⟩ | ⟨-, hsame⟩
  · constructor
    · rintro rfl
      exact absurd (hd.symm.trans halpha) Bool.false_ne_true
    · rintro rfl
      exact absurd (hupper.symm.trans hc) Bool.false_ne_true
  · rw [hsame]

end Text
end NativeHooks
