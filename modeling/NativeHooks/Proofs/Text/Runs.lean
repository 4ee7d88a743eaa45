/-
# Runs of characters

Every reader takes the longest run of characters of one kind and goes on from
the first character of another.  `takeWhile_run` and `dropWhile_run` say where
such a run ends, and the classes of characters are told apart here once: an
identifier character is a word character, a word character is no space
(`isSpace_eq_false_of_isWord`), and a blank is a space.  What neither begins
nor ends with a space is left alone by trimming (`trim_eq_self`).  Texts that are
read from their end are parted at the last separator (`afterLast_cases`).
-/

import Mathlib.Data.List.TakeWhile
import NativeHooks.Text.Blank
import NativeHooks.Text.Word

namespace NativeHooks
namespace Text

section Runs

variable {α : Type} {p : α → Bool} {w rest : List α} {c : α}

/-- A run is taken up to the first element that is not of its kind. -/
theorem takeWhile_run (hw : ∀ a ∈ w, p a = true) (hc : p c = false) :
    (w ++ c :: rest).takeWhile p = w := by
  rw [List.takeWhile_append_of_pos hw, List.takeWhile_cons, hc, if_neg Bool.false_ne_true,
    List.append_nil]

/-- What follows a run starts with the first element that is not of its kind. -/
theorem dropWhile_run (hw : ∀ a ∈ w, p a = true) (hc : p c = false) :
    (w ++ c :: rest).dropWhile p = c :: rest := by
  rw [List.dropWhile_append_of_pos hw, List.dropWhile_cons, hc, if_neg Bool.false_ne_true]

/-- Where a run ends is told by the element after it. -/
theorem run_inj {u v x y : List α} (hu : ∀ a ∈ u, p a = true) (hv : ∀ a ∈ v, p a = true)
    (hc : p c = false) (h : u ++ c :: x = v ++ c :: y) : u = v ∧ x = y := by
  have htake := congrArg (List.takeWhile p) h
  have hdrop := congrArg (List.dropWhile p) h
  rw [takeWhile_run hu hc, takeWhile_run hv hc] at htake
  rw [dropWhile_run hu hc, dropWhile_run hv hc] at hdrop
  exact ⟨htake, (List.cons.inj hdrop).2⟩

/-- Nothing is dropped where no run starts. -/
theorem dropWhile_eq_self (h : ∀ a ∈ w.head?, p a = false) : w.dropWhile p = w := by
  cases w with
  | nil => rfl
  | cons a w => rw [List.dropWhile_cons, h a rfl, if_neg Bool.false_ne_true]

/-- Nothing is dropped at the end where no run ends. -/
theorem dropEndWhile_eq_self (h : ∀ a ∈ w.getLast?, p a = false) : dropEndWhile p w = w := by
  rw [dropEndWhile, dropWhile_eq_self, List.reverse_reverse]
  intro a ha
  rw [List.head?_reverse] at ha
  exact h a ha

end Runs

/-! ### The last separator -/

section Last

variable {α : Type} [BEq α] [LawfulBEq α] {c : α} {w : List α}

theorem bne_of_mem (h : c ∉ w) : ∀ a ∈ w, (a != c) = true := by
  intro a ha
  rw [bne_iff_ne]
  rintro rfl
  exact h ha

/-- Behind the last separator no other stands. -/
theorem not_mem_afterLast (c : α) (w : List α) : c ∉ afterLast c w := by
  intro hmem
  have hne := List.mem_takeWhile_imp (List.mem_reverse.1 hmem)
  exact absurd rfl (bne_iff_ne.1 hne)

/-- A text is parted at its last separator. -/
theorem afterLast_append (u : List α) (h : c ∉ w) :
    afterLast c (u ++ c :: w) = w ∧ beforeLast? c (u ++ c :: w) = some u := by
  have hreverse : (u ++ c :: w).reverse = w.reverse ++ c :: u.reverse := by
    rw [List.reverse_append, List.reverse_cons, List.append_assoc, List.singleton_append]
  have hw := bne_of_mem (mt List.mem_reverse.1 h)
  have hc : (c != c) = false := bne_self_eq_false c
  rw [afterLast, beforeLast?, hreverse, takeWhile_run hw hc, dropWhile_run hw hc]
  exact ⟨List.reverse_reverse w, congrArg some (List.reverse_reverse u)⟩

/-- A text without separators is not parted. -/
theorem afterLast_of_not_mem (h : c ∉ w) : afterLast c w = w ∧ beforeLast? c w = none := by
  have hw := bne_of_mem (mt List.mem_reverse.1 h)
  constructor
  · rw [afterLast, List.takeWhile_eq_self_iff.2 hw, List.reverse_reverse]
  · rw [beforeLast?, List.dropWhile_eq_nil_iff.2 hw]

/-- The two parts of a text and the separator between them, if it has any. -/
theorem afterLast_cases (c : α) (w : List α) :
    (c ∉ w ∧ beforeLast? c w = none ∧ afterLast c w = w) ∨
      ∃ before, beforeLast? c w = some before ∧ w = before ++ c :: afterLast c w := by
  by_cases h : c ∈ w
  · obtain ⟨after, before, hreverse, hafter⟩ := List.eq_append_cons_of_mem (List.mem_reverse.2 h)
    have hw : w = before.reverse ++ c :: after.reverse := by
      rw [← List.reverse_reverse w, hreverse, List.reverse_append, List.reverse_cons,
        List.append_assoc, List.singleton_append]
    have hparts := afterLast_append before.reverse (mt List.mem_reverse.1 hafter)
    rw [← hw] at hparts
    exact .inr ⟨before.reverse, hparts.2, by rw [hparts.1, ← hw]⟩
  · exact .inl ⟨h, (afterLast_of_not_mem h).2, (afterLast_of_not_mem h).1⟩

end Last

/-! ### Classes of characters -/

/-- A character of a class is none of the characters outside it. -/
theorem ne_of_class {p : Char → Bool} {c d : Char} (hc : p c = true) (hd : p d = false) :
    c ≠ d := by
  rintro rfl
  exact Bool.false_ne_true (hd.symm.trans hc)

/-- No character outside a class stands in a text of the class. -/
theorem not_mem_of_class {p : Char → Bool} {w : List Char} {d : Char}
    (hw : ∀ c ∈ w, p c = true) (hd : p d = false) : d ∉ w :=
  fun hmem => ne_of_class (hw d hmem) hd rfl

/-- No character of a class stands in a text outside the class. -/
theorem not_mem_of_outside {p : Char → Bool} {w : List Char} {d : Char}
    (hw : ∀ c ∈ w, p c = false) (hd : p d = true) : d ∉ w :=
  fun hmem => ne_of_class hd (hw d hmem) rfl

/-- What a list of ranges contains lies in one of them. -/
theorem Ranges.exists_of_contains {n : Nat} :
    ∀ {ranges : Ranges}, ranges.contains n = true → ∃ r ∈ ranges, r.1 ≤ n ∧ n ≤ r.2
  | [], h => absurd h Bool.false_ne_true
  | (lo, hi) :: rest, h => by
      rw [Ranges.contains] at h
      split at h
      · exact absurd h Bool.false_ne_true
      · rw [Bool.or_eq_true, decide_eq_true_eq] at h
        rcases h with h | h
        · exact ⟨(lo, hi), List.mem_cons_self, by omega, h⟩
        · obtain ⟨r, hr, hn⟩ := Ranges.exists_of_contains h
          exact ⟨r, List.mem_cons_of_mem _ hr, hn⟩

/-- The code points of the spaces. -/
def spacePoints : List Nat :=
  [0x09, 0x0A, 0x0B, 0x0C, 0x0D, 0x20, 0x85, 0xA0, 0x1680, 0x2000, 0x2001, 0x2002, 0x2003, 0x2004,
   0x2005, 0x2006, 0x2007, 0x2008, 0x2009, 0x200A, 0x2028, 0x2029, 0x202F, 0x205F, 0x3000]

/-- Spaces are few enough to be listed. -/
theorem mem_spacePoints {c : Char} (h : isSpace c = true) : c.toNat ∈ spacePoints := by
  obtain ⟨r, hr, hlo, hhi⟩ := Ranges.exists_of_contains h
  simp only [spacePoints, List.mem_cons, List.not_mem_nil, or_false]
  simp only [spaceRanges, List.mem_cons, List.not_mem_nil, or_false] at hr
  rcases hr with rfl | rfl | rfl | rfl | rfl | rfl | rfl | rfl | rfl | rfl <;> omega

/-- What holds of the listed characters holds of all spaces. -/
theorem forall_of_spacePoints {P : Char → Prop} (h : ∀ n ∈ spacePoints, P (Char.ofNat n)) {c : Char}
    (hc : isSpace c = true) : P c :=
  Char.ofNat_toNat c ▸ h _ (mem_spacePoints hc)

/-- A word character is no space. -/
theorem isSpace_eq_false_of_isWord {c : Char} (h : isWord c = true) : isSpace c = false := by
  by_contra hs
  have hword : isWord c = false :=
    forall_of_spacePoints (P := fun c => isWord c = false) (by decide +kernel)
      (Bool.not_eq_false _ ▸ hs)
  exact Bool.false_ne_true (hword.symm.trans h)

/-- Identifier characters are ASCII. -/
theorem toNat_lt_of_isIdent {c : Char} (h : isIdent c = true) : c.toNat < 0x80 := by
  have hrange : ∀ hi : UInt32, c.val ≤ hi → hi.toNat < 0x80 → c.toNat < 0x80 :=
    fun hi hle hhi => Nat.lt_of_le_of_lt (UInt32.le_iff_toNat_le.1 hle) hhi
  rcases Bool.or_eq_true_iff.1 h with h | h
  · rcases Bool.or_eq_true_iff.1 h with h | h
    · rcases Bool.or_eq_true_iff.1 h with h | h
      · have hupper : c.val ≥ 'A'.val ∧ c.val ≤ 'Z'.val := of_decide_eq_true h
        exact hrange _ hupper.2 (by decide)
      · have hlower : (decide (c.val ≥ 'a'.val) && decide (c.val ≤ 'z'.val)) = true := h
        exact hrange _ (of_decide_eq_true (Bool.and_eq_true_iff.1 hlower).2) (by decide)
    · have hdigit : (decide (c.val ≥ '0'.val) && decide (c.val ≤ '9'.val)) = true := h
      exact hrange _ (of_decide_eq_true (Bool.and_eq_true_iff.1 hdigit).2) (by decide)
  · rw [beq_iff_eq.1 h]
    decide

/-- An identifier character is a word character. -/
theorem isWord_of_isIdent {c : Char} (h : isIdent c = true) : isWord c = true := by
  rw [isWord, if_pos (toNat_lt_of_isIdent h), h]

/-- An identifier character is no space. -/
theorem isSpace_eq_false_of_isIdent {c : Char} (h : isIdent c = true) : isSpace c = false :=
  isSpace_eq_false_of_isWord (isWord_of_isIdent h)

/-- What is no space is no blank. -/
theorem isBlank_eq_false_of_isSpace {c : Char} (h : isSpace c = false) : isBlank c = false := by
  by_contra hb
  exact Bool.false_ne_true (h.symm.trans (isSpace_of_isBlank (Bool.not_eq_false _ ▸ hb)))

/-- An identifier character is no blank. -/
theorem isBlank_eq_false_of_isIdent {c : Char} (h : isIdent c = true) : isBlank c = false :=
  isBlank_eq_false_of_isSpace (isSpace_eq_false_of_isIdent h)

/-- The spaces of a text are found by looking for them. -/
theorem isSpace_eq_false_of_any {w : List Char} (h : w.any isSpace = false) :
    ∀ c ∈ w, isSpace c = false := by
  simpa using h

/-! ### Trimming -/

/-- Trimming leaves alone what neither begins nor ends with a space. -/
theorem trim_eq_self {w : List Char} (hfirst : ∀ a ∈ w.head?, isSpace a = false)
    (hlast : ∀ a ∈ w.getLast?, isSpace a = false) : trim w = w := by
  rw [trim, dropWhile_eq_self hfirst, dropEndWhile_eq_self hlast]

/-- Trimming leaves alone what has no space. -/
theorem trim_of_forall {w : List Char} (h : ∀ c ∈ w, isSpace c = false) : trim w = w :=
  trim_eq_self (fun c hc => h c (List.mem_of_mem_head? hc)) fun c hc =>
    h c (List.mem_of_getLast? hc)

/-- Spaces at the start of a text are trimmed off. -/
theorem trim_spaces_append {v : List Char} (hv : ∀ c ∈ v, isSpace c = true) (w : List Char) :
    trim (v ++ w) = trim w := by
  rw [trim, trim, List.dropWhile_append_of_pos hv]

/-- Spaces at the end of a text are trimmed off. -/
theorem trim_append_spaces {v : List Char} (hv : ∀ c ∈ v, isSpace c = true) (w : List Char) :
    trim (w ++ v) = trim w := by
  have hdrop : v.dropWhile isSpace = [] := List.dropWhile_eq_nil_iff.2 hv
  have hend : ∀ u, dropEndWhile isSpace (u ++ v) = dropEndWhile isSpace u := by
    intro u
    have hrev : ∀ c ∈ v.reverse, isSpace c = true := fun c hc => hv c (List.mem_reverse.1 hc)
    rw [dropEndWhile, dropEndWhile, List.reverse_append, List.dropWhile_append_of_pos hrev]
  rw [trim, trim, List.dropWhile_append]
  split
  · next hempty => rw [hdrop, List.isEmpty_iff.1 hempty]
  · exact hend _

/-- A text is its trimmed text with spaces around it. -/
theorem exists_trim (w : List Char) :
    ∃ u v, w = u ++ trim w ++ v ∧ (∀ c ∈ u, isSpace c = true) ∧ ∀ c ∈ v, isSpace c = true := by
  refine ⟨w.takeWhile isSpace, ((w.dropWhile isSpace).reverse.takeWhile isSpace).reverse, ?_, ?_, ?_⟩
  · have hend : trim w ++ ((w.dropWhile isSpace).reverse.takeWhile isSpace).reverse
        = w.dropWhile isSpace := by
      rw [trim, dropEndWhile, ← List.reverse_append, List.takeWhile_append_dropWhile,
        List.reverse_reverse]
    rw [List.append_assoc, hend, List.takeWhile_append_dropWhile]
  · exact fun c hc => List.mem_takeWhile_imp hc
  · exact fun c hc => List.mem_takeWhile_imp (List.mem_reverse.1 hc)

/-- Trimming leaves nothing of spaces only. -/
theorem isSpace_of_trim_eq_nil {w : List Char} (h : trim w = []) : ∀ c ∈ w, isSpace c = true := by
  obtain ⟨u, v, hw, hu, hv⟩ := exists_trim w
  rw [h, List.append_nil] at hw
  intro c hc
  rw [hw] at hc
  exact (List.mem_append.1 hc).elim (hu c) (hv c)

theorem trim_sublist (w : List Char) : (trim w).Sublist w := by
  have hend : (dropEndWhile isSpace (w.dropWhile isSpace)).Sublist (w.dropWhile isSpace) := by
    rw [dropEndWhile, ← List.reverse_sublist, List.reverse_reverse]
    exact List.dropWhile_sublist _
  exact hend.trans (List.dropWhile_sublist _)

/-- A text without the spaces at its start does not start with a space. -/
theorem isSpace_head?_dropWhile (w : List Char) :
    ∀ c ∈ (w.dropWhile isSpace).head?, isSpace c = false := by
  intro c hc
  have h := List.head?_dropWhile_not isSpace w
  rw [hc] at h
  exact h

/-- What is trimmed neither begins nor ends with a space. -/
theorem isSpace_ends_trim (w : List Char) :
    (∀ c ∈ (trim w).head?, isSpace c = false) ∧ ∀ c ∈ (trim w).getLast?, isSpace c = false := by
  constructor
  · intro c hc
    obtain ⟨more, hmore⟩ := List.head?_eq_some_iff.1 hc
    have hinitial : trim w <+: w.dropWhile isSpace := by
      rw [trim, dropEndWhile, ← List.reverse_suffix, List.reverse_reverse]
      exact List.dropWhile_suffix _
    obtain ⟨rest, hrest⟩ := hinitial
    refine isSpace_head?_dropWhile w c ?_
    rw [← hrest, hmore]
    rfl
  · intro c hc
    rw [trim, dropEndWhile, List.getLast?_reverse] at hc
    exact isSpace_head?_dropWhile _ c hc

theorem trim_trim (w : List Char) : trim (trim w) = trim w :=
  trim_eq_self (isSpace_ends_trim w).1 (isSpace_ends_trim w).2

end Text
end NativeHooks
