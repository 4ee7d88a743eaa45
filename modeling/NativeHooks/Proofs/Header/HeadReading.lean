/-
# Written heads are read back

The head of a declaration is read from its body towards the start of its line:
the specifier, the list of parameters, the name, the type and the keywords.
No reader goes beyond the line feed before the line: `keywordsBefore_written`
stops there, and `unqualified_keywordText` says that the type has stopped
before the keywords.
-/

import Mathlib.Data.Option.Basic
import NativeHooks.Proofs.Header.ParameterReading

namespace NativeHooks
namespace Header

open Text

/-! ### Keywords -/

/-- A blank stands at the start of a line. -/
theorem AtLineStart.exists_blank {before : List Char} (h : AtLineStart before) :
    ∃ c rest, before = c :: rest ∧ isBlank c = true := by
  obtain ⟨blanks, rest, rfl, hblanks⟩ := h
  cases blanks with
  | nil => exact ⟨'\n', rest, rfl, rfl⟩
  | cons c blanks =>
      refine ⟨c, blanks ++ '\n' :: rest, rfl, ?_⟩
      rcases hblanks c List.mem_cons_self with rfl | rfl <;> rfl

theorem keywordsBefore_static (found : Keywords) {before rest : List Char}
    (h : wordOnLine before = some ("static".toList, rest)) (hfound : found.isStatic = false) :
    keywordsBefore found before = keywordsBefore { found with isStatic := true } rest := by
  rw [keywordsBefore_of_word h, if_pos ⟨String.ofList_toList, hfound⟩]

theorem keywordsBefore_virtual (found : Keywords) {before rest : List Char}
    (h : wordOnLine before = some ("virtual".toList, rest)) (hfound : found.isVirtual = false) :
    keywordsBefore found before = keywordsBefore { found with isVirtual := true } rest := by
  have hne : ¬(String.ofList "virtual".toList = "static" ∧ found.isStatic = false) := by
    rw [String.ofList_toList]
    exact fun h => absurd h.1 (by decide)
  rw [keywordsBefore_of_word h, if_neg hne, if_pos ⟨String.ofList_toList, hfound⟩]

/-- The word that a keyword is, with its space, before a blank. -/
theorem wordOnLine_keyword {w before : List Char} (hne : w ≠ []) (hw : ∀ a ∈ w, isIdent a = true)
    (h : ∃ c rest, before = c :: rest ∧ isBlank c = true) :
    wordOnLine ((w ++ [' ']).reverse ++ before) = some (w, before) := by
  obtain ⟨c, rest, rfl, hc⟩ := h
  rw [List.reverse_append]
  exact wordOnLine_space hne hw (isIdent_eq_false_of_isBlank hc)

theorem wordOnLine_virtual {before : List Char}
    (h : ∃ c rest, before = c :: rest ∧ isBlank c = true) :
    wordOnLine ("virtual ".toList.reverse ++ before) = some ("virtual".toList, before) :=
  wordOnLine_keyword (w := "virtual".toList) (by decide) (List.all_eq_true.1 rfl) h

theorem wordOnLine_static {before : List Char}
    (h : ∃ c rest, before = c :: rest ∧ isBlank c = true) :
    wordOnLine ("static ".toList.reverse ++ before) = some ("static".toList, before) :=
  wordOnLine_keyword (w := "static".toList) (by decide) (List.all_eq_true.1 rfl) h

/-- A blank stands before a type, after its keywords or before them. -/
theorem exists_blank_keywordText (isStatic isVirtual : Bool) {before : List Char}
    (h : ∃ c rest, before = c :: rest ∧ isBlank c = true) :
    ∃ c rest, (keywordText isStatic isVirtual).reverse ++ before = c :: rest ∧ isBlank c = true := by
  cases isVirtual with
  | true => cases isStatic <;> exact ⟨' ', _, rfl, rfl⟩
  | false =>
      cases isStatic with
      | true => exact ⟨' ', _, rfl, rfl⟩
      | false => exact h

/-- **The keywords of a line are read back**, and reading stops where the line starts. -/
theorem keywordsBefore_written (isStatic isVirtual : Bool) {before : List Char}
    (h : AtLineStart before) :
    keywordsBefore {} ((keywordText isStatic isVirtual).reverse ++ before)
      = (⟨isStatic, isVirtual⟩, before) := by
  have hblank := h.exists_blank
  have hnone := h.wordOnLine
  have hstatic : ∀ found : Keywords, found.isStatic = false →
      keywordsBefore found ("static ".toList.reverse ++ before)
        = ({ found with isStatic := true }, before) := fun found hfound => by
    rw [keywordsBefore_static found (wordOnLine_static hblank) hfound, keywordsBefore_of_none hnone]
  cases isVirtual with
  | false =>
      cases isStatic with
      | false => exact keywordsBefore_of_none hnone
      | true => exact hstatic {} rfl
  | true =>
      cases isStatic with
      | false =>
          have := keywordsBefore_virtual {} (wordOnLine_virtual hblank) rfl
          rw [keywordsBefore_of_none hnone] at this
          exact this
      | true =>
          have := keywordsBefore_virtual {}
            (wordOnLine_virtual (exists_blank_keywordText true false hblank)) rfl
          exact this.trans (hstatic { isVirtual := true } rfl)

/-- No keyword is a qualifier: a type ends where its keywords are. -/
theorem unqualified_keywordText (isStatic isVirtual : Bool) {before : List Char}
    (h : AtLineStart before) : Unqualified ((keywordText isStatic isVirtual).reverse ++ before) where
  blank := exists_blank_keywordText isStatic isVirtual h.exists_blank
  word word rest hword := by
    have hblank := h.exists_blank
    cases isVirtual with
    | true =>
        have hvirtual : wordOnLine ((keywordText isStatic true).reverse ++ before)
            = some ("virtual".toList, (keywordText isStatic false).reverse ++ before) := by
          have := wordOnLine_virtual (exists_blank_keywordText isStatic false hblank)
          cases isStatic <;> exact this
        rw [hvirtual] at hword
        obtain ⟨rfl, -⟩ := Prod.mk.inj (Option.some.inj hword)
        decide
    | false =>
        cases isStatic with
        | true =>
            have hstatic : wordOnLine ((keywordText true false).reverse ++ before)
                = some ("static".toList, before) := wordOnLine_static hblank
            rw [hstatic] at hword
            obtain ⟨rfl, -⟩ := Prod.mk.inj (Option.some.inj hword)
            decide
        | false =>
            have hnone : wordOnLine ((keywordText false false).reverse ++ before) = none :=
              h.wordOnLine
            rw [hnone] at hword
            exact absurd hword.symm (Option.some_ne_none _)

/-! ### Lists in parentheses -/

/-- A character that may stand for itself inside parentheses. -/
def isListChar (c : Char) : Bool := !(['(', ')', ';', '{', '}'].contains c)

theorem isListChar_iff {c : Char} :
    isListChar c = true ↔ c ≠ '(' ∧ c ≠ ')' ∧ c ≠ ';' ∧ c ≠ '{' ∧ c ≠ '}' := by
  simp [isListChar]

/-- Text without parentheses is part of the list that it is read in. -/
theorem listInside_append {w : List Char} (hw : ∀ c ∈ w, isListChar c = true) (d : Nat)
    (before : List Char) : listInside d (w ++ before) = extendBy w (listInside d before) := by
  induction w with
  | nil => exact (extendBy_nil _).symm
  | cons c w ih =>
      obtain ⟨hopen, hclose, hstatement⟩ := isListChar_iff.1 (hw c List.mem_cons_self)
      rw [List.cons_append, listInside.eq_def]
      simp only [if_neg hopen, if_neg hclose]
      rw [if_neg, ih fun a ha => hw a (List.mem_cons_of_mem _ ha), extend_extendBy]
      rintro (rfl | rfl | rfl)
      · exact hstatement.1 rfl
      · exact hstatement.2.1 rfl
      · exact hstatement.2.2 rfl

/-- **A list without parentheses of its own is read back.** -/
theorem listBefore_written {w : List Char} (hw : ∀ c ∈ w, isListChar c = true)
    (before : List Char) : listBefore (')' :: (w.reverse ++ '(' :: before)) = some (w, before) := by
  have hrev : ∀ c ∈ w.reverse, isListChar c = true := fun c hc => hw c (List.mem_reverse.1 hc)
  have hopen : listInside 0 ('(' :: before) = some ([], before) := rfl
  rw [listBefore, listInside_append hrev, hopen]
  simp only [extendBy, Option.map_some, List.append_nil, List.reverse_reverse]

/-- A parameter list holds no parenthesis, brace or semicolon. -/
theorem isListChar_parameterList (m : WrittenMethod) :
    ∀ c ∈ m.parameterList, isListChar c = true := by
  have hparameter : ∀ w ∈ m.parameters.map parameterText, ∀ c ∈ w, isTypeTextChar c = true := by
    intro w hw c hc
    obtain ⟨p, -, rfl⟩ := List.mem_map.1 hw
    by_contra hnot
    rw [Bool.not_eq_true] at hnot
    exact not_mem_parameterText p hnot hc
  intro c hc
  have h := isTypeTextChar_joined hparameter c hc
  exact isListChar_iff.2 ⟨ne_of_class h rfl, ne_of_class h rfl, ne_of_class h rfl,
    ne_of_class h rfl, ne_of_class h rfl⟩

/-- A specifier is dropped, and so is the space after the list without one. -/
theorem dropSpecifier_written (specifier : Option Specifier) (before : List Char) :
    dropSpecifier (' ' :: (((specifier.map Specifier.text).getD []).reverse ++ ')' :: before))
      = ')' :: before := by
  cases specifier with
  | none => rfl
  | some s => cases s <;> rfl

/-! ### Heads of accessors -/

/-- **The head of an accessor is read back,** with the type that `written` is read as. -/
theorem accessorHead_written {written type before rest : List Char} (name : Ident)
    (htype : typeBefore (' ' :: (written.reverse ++ before)) = some (type, rest)) :
    accessorHead (' ' :: ((written ++ ' ' :: name.chars ++ "()".toList).reverse ++ before))
      = some ⟨type, name.chars, rest⟩ := by
  have htext : (' ' :: ((written ++ ' ' :: name.chars ++ "()".toList).reverse ++ before)).dropWhile
      isBlank = ')' :: '(' :: (name.chars.reverse ++ ' ' :: (written.reverse ++ before)) := by
    rw [List.reverse_append, List.reverse_append, List.reverse_cons, List.append_assoc,
      List.append_assoc, List.append_assoc, List.singleton_append]
    rfl
  have hlist : listBefore (')' :: '(' :: (name.chars.reverse ++ ' ' :: (written.reverse ++ before)))
      = some ([], name.chars.reverse ++ ' ' :: (written.reverse ++ before)) := rfl
  have hname : identBefore (name.chars.reverse ++ ' ' :: (written.reverse ++ before))
      = some (name.chars, ' ' :: (written.reverse ++ before)) :=
    identBefore_run name.ne_nil name.isIdent_of_mem rfl
  rw [accessorHead, htext, hlist]
  simp only [Option.bind_eq_bind, Option.bind_some, List.all_nil, guard_true, hname, htype]
  rfl

end Header
end NativeHooks
