/-
# Written types are read back

A type is read backwards from the name that follows it: first its core, a
nested text that ends at the space or line feed before it, and then its
qualifiers, as long as they stand on the same line.  `typeBefore_typeName`
says that what is read is the type as it was written, and that what stands
before it is left.
-/

import NativeHooks.Proofs.Header.Written

namespace NativeHooks
namespace Header

open Text

/-! ### The shape of a written type -/

theorem Mark.isTypeChar_char (m : Mark) (inner : Bool) : isTypeChar inner m.char = true := by
  cases m <;> cases inner <;> rfl

theorem Mark.isSpace_char (m : Mark) : isSpace m.char = false := by
  cases m <;> rfl

/-- Every text of a joined list is nested inside angle brackets, and so is the list. -/
theorem nested_joined {texts : List (List Char)} (h : ∀ w ∈ texts, Nested true w) :
    Nested true (joined texts) := by
  induction texts with
  | nil => exact .nil
  | cons w texts ih =>
      have hw := h w List.mem_cons_self
      have hmore := ih fun v hv => h v (List.mem_cons_of_mem _ hv)
      cases texts with
      | nil => rwa [joined_singleton]
      | cons v more =>
          rw [joined_cons_cons]
          exact hw.append (.char rfl (.char rfl hmore))

theorem Qualifier.chars_ne_nil (q : Qualifier) : q.val.toList ≠ [] := by
  have hall : ∀ word ∈ typeQualifiers, word.toList ≠ [] := by decide
  exact hall _ q.2

theorem Qualifier.isIdent_of_mem (q : Qualifier) : ∀ c ∈ q.val.toList, isIdent c = true := by
  have hall : typeQualifiers.all (fun word => word.toList.all isIdent) = true := by decide
  exact List.all_eq_true.1 (List.all_eq_true.1 hall _ q.2)

theorem nested_qualifierText (qualifiers : List Qualifier) :
    Nested true (qualifierText qualifiers) := by
  refine Nested.of_chars fun c hc => ?_
  obtain ⟨q, -, hc⟩ := List.mem_flatMap.1 hc
  rcases List.mem_append.1 hc with hc | hc
  · exact isTypeChar_of_isIdent (q.isIdent_of_mem c hc)
  · obtain rfl := List.mem_singleton.1 hc
    rfl

theorem nested_scopedText (scopes : List Ident) (name : Ident) (inner : Bool) :
    Nested inner (scopedText scopes name) := by
  refine Nested.of_chars fun c hc => ?_
  rcases List.mem_append.1 hc with hc | hc
  · obtain ⟨scope, -, hc⟩ := List.mem_flatMap.1 hc
    rcases List.mem_append.1 hc with hc | hc
    · exact isTypeChar_of_isIdent (scope.isIdent_of_mem c hc)
    · rw [show c = ':' by simpa using hc]
      cases inner <;> rfl
  · exact isTypeChar_of_isIdent (name.isIdent_of_mem c hc)

theorem nested_angledText {texts : List (List Char)} (h : ∀ w ∈ texts, Nested true w) :
    Nested false (angledText texts) := by
  cases texts with
  | nil => exact .nil
  | cons w more => exact .group (nested_joined h) .nil

mutual

/-- **The core of a type is a type token.** -/
theorem TypeName.nested_core : ∀ type : TypeName, Nested false type.core
  | .mk _ scopes name arguments marks => by
      rw [TypeName.core]
      refine ((nested_scopedText scopes name false).append
        (nested_angledText (TypeName.nested_texts arguments))).append (Nested.of_chars fun c hc => ?_)
      obtain ⟨m, -, rfl⟩ := List.mem_map.1 hc
      exact m.isTypeChar_char false

theorem TypeName.nested_texts :
    ∀ types : List TypeName, ∀ w ∈ TypeName.texts types, Nested true w
  | [], w, hw => absurd hw List.not_mem_nil
  | type :: more, w, hw => by
      rw [TypeName.texts] at hw
      rcases List.mem_cons.1 hw with rfl | hw
      · exact (nested_qualifierText _).append (TypeName.nested_core type).inside
      · exact TypeName.nested_texts more w hw

end

theorem TypeName.nested_text (type : TypeName) : Nested true type.text :=
  (nested_qualifierText _).append type.nested_core.inside

/-! ### Types are tidy -/

theorem Ident.tidy (i : Ident) : Tidy i.chars :=
  tidy_of_forall i.ne_nil fun c hc => isSpace_eq_false_of_isIdent (i.isIdent_of_mem c hc)

theorem tidy_joined {texts : List (List Char)} (hne : texts ≠ []) (h : ∀ w ∈ texts, Tidy w) :
    Tidy (joined texts) := by
  induction texts with
  | nil => exact absurd rfl hne
  | cons w texts ih =>
      have hw := h w List.mem_cons_self
      cases texts with
      | nil => rwa [joined_singleton]
      | cons v more =>
          have hmore := ih (List.cons_ne_nil _ _) fun v hv => h v (List.mem_cons_of_mem _ hv)
          rw [joined_cons_cons, ← List.singleton_append, ← List.append_assoc]
          exact (hw.append_forall (isSpace_eq_false_of_any rfl)).append_space hmore

theorem tidy_scopedText (scopes : List Ident) (name : Ident) : Tidy (scopedText scopes name) := by
  refine tidy_of_forall (List.append_ne_nil_of_right_ne_nil _ name.ne_nil) fun c hc => ?_
  rcases List.mem_append.1 hc with hc | hc
  · obtain ⟨scope, -, hc⟩ := List.mem_flatMap.1 hc
    rcases List.mem_append.1 hc with hc | hc
    · exact isSpace_eq_false_of_isIdent (scope.isIdent_of_mem c hc)
    · rw [show c = ':' by simpa using hc]
      rfl
  · exact isSpace_eq_false_of_isIdent (name.isIdent_of_mem c hc)

theorem tidy_append_angledText {u : List Char} (hu : Tidy u) {texts : List (List Char)}
    (h : ∀ w ∈ texts, Tidy w) : Tidy (u ++ angledText texts) := by
  cases texts with
  | nil =>
      rw [angledText, List.append_nil]
      exact hu
  | cons w more =>
      have hopen : Tidy ['<'] :=
        tidy_of_forall (List.cons_ne_nil _ _) (isSpace_eq_false_of_any rfl)
      have hclose : ∀ c ∈ ['>'], isSpace c = false := isSpace_eq_false_of_any rfl
      exact hu.append ((hopen.append (tidy_joined (List.cons_ne_nil _ _) h)).append_forall hclose)

/-- Qualifiers before a tidy text leave it tidy. -/
theorem tidy_qualified {w : List Char} (hw : Tidy w) (qualifiers : List Qualifier) :
    Tidy (qualifierText qualifiers ++ w) := by
  induction qualifiers with
  | nil => exact hw
  | cons q qualifiers ih =>
      have hq : Tidy q.val.toList :=
        tidy_of_forall q.chars_ne_nil fun c hc => isSpace_eq_false_of_isIdent (q.isIdent_of_mem c hc)
      have := hq.append_space ih
      rw [qualifierText, List.flatMap_cons, List.append_assoc, List.append_assoc]
      exact this

mutual

theorem TypeName.tidy_core : ∀ type : TypeName, Tidy type.core
  | .mk _ scopes name arguments marks => by
      rw [TypeName.core]
      refine (tidy_append_angledText (tidy_scopedText scopes name)
        (TypeName.tidy_texts arguments)).append_forall fun c hc => ?_
      obtain ⟨m, -, rfl⟩ := List.mem_map.1 hc
      exact m.isSpace_char

theorem TypeName.tidy_texts : ∀ types : List TypeName, ∀ w ∈ TypeName.texts types, Tidy w
  | [], w, hw => absurd hw List.not_mem_nil
  | type :: more, w, hw => by
      rw [TypeName.texts] at hw
      rcases List.mem_cons.1 hw with rfl | hw
      · exact tidy_qualified (TypeName.tidy_core type) _
      · exact TypeName.tidy_texts more w hw

end

/-- A type is written in single file. -/
theorem TypeName.tidy_text (type : TypeName) : Tidy type.text :=
  tidy_qualified type.tidy_core _

/-! ### The characters of a type -/

/-- A character that a written type may contain. -/
def isTypeTextChar (c : Char) : Bool :=
  isIdent c || [':', '<', '>', ',', ' ', '*', '&'].contains c

theorem isTypeTextChar_of_isIdent {c : Char} (h : isIdent c = true) : isTypeTextChar c = true := by
  rw [isTypeTextChar, h, Bool.true_or]

theorem isTypeTextChar_joined {texts : List (List Char)}
    (h : ∀ w ∈ texts, ∀ c ∈ w, isTypeTextChar c = true) :
    ∀ c ∈ joined texts, isTypeTextChar c = true := by
  intro c hc
  rcases mem_joined hc with rfl | rfl | ⟨w, hw, hc⟩
  · rfl
  · rfl
  · exact h w hw c hc

theorem isTypeTextChar_qualifierText (qualifiers : List Qualifier) :
    ∀ c ∈ qualifierText qualifiers, isTypeTextChar c = true := by
  intro c hc
  obtain ⟨q, -, hc⟩ := List.mem_flatMap.1 hc
  rcases List.mem_append.1 hc with hc | hc
  · exact isTypeTextChar_of_isIdent (q.isIdent_of_mem c hc)
  · obtain rfl := List.mem_singleton.1 hc
    rfl

mutual

theorem TypeName.isTypeTextChar_core :
    ∀ type : TypeName, ∀ c ∈ type.core, isTypeTextChar c = true
  | .mk _ scopes name arguments marks, c, hc => by
      rw [TypeName.core] at hc
      have hmore := isTypeTextChar_joined (TypeName.isTypeTextChar_texts arguments)
      generalize TypeName.texts arguments = texts at hc hmore
      simp only [scopedText, List.mem_append, List.mem_flatMap, List.mem_map] at hc
      rcases hc with ((⟨scope, -, hc | hc⟩ | hc) | hc) | ⟨m, -, rfl⟩
      · exact isTypeTextChar_of_isIdent (scope.isIdent_of_mem c hc)
      · rw [show c = ':' by simpa using hc]
        rfl
      · exact isTypeTextChar_of_isIdent (name.isIdent_of_mem c hc)
      · cases texts with
        | nil => exact absurd hc List.not_mem_nil
        | cons w more =>
            simp only [angledText, List.cons_append, List.mem_cons, List.mem_append,
              List.not_mem_nil, or_false] at hc
            rcases hc with rfl | hc | rfl
            · rfl
            · exact hmore c hc
            · rfl
      · cases m <;> rfl

theorem TypeName.isTypeTextChar_texts :
    ∀ types : List TypeName, ∀ w ∈ TypeName.texts types, ∀ c ∈ w, isTypeTextChar c = true
  | [], w, hw => absurd hw List.not_mem_nil
  | type :: more, w, hw => by
      rw [TypeName.texts] at hw
      rcases List.mem_cons.1 hw with rfl | hw
      · intro c hc
        rcases List.mem_append.1 hc with hc | hc
        · exact isTypeTextChar_qualifierText _ c hc
        · exact TypeName.isTypeTextChar_core type c hc
      · exact TypeName.isTypeTextChar_texts more w hw

end

/-- **A type contains nothing but identifiers, scopes, brackets, commas, spaces
and marks.** -/
theorem TypeName.isTypeTextChar_text (type : TypeName) :
    ∀ c ∈ type.text, isTypeTextChar c = true := by
  intro c hc
  rcases List.mem_append.1 hc with hc | hc
  · exact isTypeTextChar_qualifierText _ c hc
  · exact type.isTypeTextChar_core c hc

/-- What is no character of a type does not occur in one. -/
theorem TypeName.not_mem_text (type : TypeName) {c : Char} (hc : isTypeTextChar c = false) :
    c ∉ type.text :=
  not_mem_of_class type.isTypeTextChar_text hc

/-! ### Words before a type -/

/-- The identifier that a text ends with, if something else stands before it. -/
theorem identBefore_run {w before : List Char} {c : Char} (hne : w ≠ [])
    (hw : ∀ a ∈ w, isIdent a = true) (hc : isIdent c = false) :
    identBefore (w.reverse ++ c :: before) = some (w, c :: before) := by
  have hrev : ∀ a ∈ w.reverse, isIdent a = true := fun a ha => hw a (List.mem_reverse.1 ha)
  have hblank : (w.reverse ++ c :: before).dropWhile isBlank = w.reverse ++ c :: before := by
    refine dropWhile_eq_self fun a ha => isBlank_eq_false_of_isIdent (hrev a ?_)
    rw [List.head?_append_of_ne_nil _ (List.reverse_ne_nil_iff.2 hne)] at ha
    exact List.mem_of_mem_head? ha
  rw [identBefore]
  simp only [hblank, takeWhile_run hrev hc, dropWhile_run hrev hc, List.isEmpty_reverse,
    List.reverse_reverse]
  rw [if_neg (by simpa using hne)]

/-- The same with one space after the identifier. -/
theorem identBefore_space {w before : List Char} {c : Char} (hne : w ≠ [])
    (hw : ∀ a ∈ w, isIdent a = true) (hc : isIdent c = false) :
    identBefore (' ' :: (w.reverse ++ c :: before)) = some (w, c :: before) := by
  rw [← identBefore_run hne hw hc]
  rfl

/-- A word on the line, with one space after it. -/
theorem wordOnLine_space {w before : List Char} {c : Char} (hne : w ≠ [])
    (hw : ∀ a ∈ w, isIdent a = true) (hc : isIdent c = false) :
    wordOnLine (' ' :: (w.reverse ++ c :: before)) = some (w, c :: before) := by
  have hrun : (' ' :: (w.reverse ++ c :: before)).takeWhile isBlank = [' '] := by
    have hhead : (w.reverse ++ c :: before).takeWhile isBlank = [] := by
      rw [← List.reverse_ne_nil_iff] at hne
      have hrev : ∀ a ∈ w.reverse, isIdent a = true := fun a ha => hw a (List.mem_reverse.1 ha)
      cases hw' : w.reverse with
      | nil => exact absurd hw' hne
      | cons a v =>
          rw [List.cons_append, List.takeWhile_cons,
            isBlank_eq_false_of_isIdent (hrev a (hw' ▸ List.mem_cons_self)),
            if_neg Bool.false_ne_true]
    rw [List.takeWhile_cons, hhead]
    rfl
  rw [wordOnLine, hrun, identBefore_space hne hw hc]
  rfl

/-- What stands at the start of a line: blanks without a line feed among them,
after the line feed. -/
def AtLineStart (before : List Char) : Prop :=
  ∃ blanks rest, before = blanks ++ '\n' :: rest ∧ ∀ c ∈ blanks, c = ' ' ∨ c = '\t'

/-- No word stands before the start of a line. -/
theorem AtLineStart.wordOnLine {before : List Char} (h : AtLineStart before) :
    wordOnLine before = none := by
  obtain ⟨blanks, rest, rfl, hblanks⟩ := h
  have hall : ∀ c ∈ blanks, isBlank c = true := by
    intro c hc
    rcases hblanks c hc with rfl | rfl <;> rfl
  rw [Header.wordOnLine, List.takeWhile_append_of_pos hall, List.takeWhile_cons,
    if_pos (show isBlank '\n' = true from rfl), if_pos]
  simp

/-! ### Qualifiers and types -/

/-- Where the qualifiers of a type begin: a blank or the start of the text
stands there, and no further qualifier before it. -/
structure Unqualified (before : List Char) : Prop where
  blank : ∃ c rest, before = c :: rest ∧ isBlank c = true
  word : ∀ word rest, wordOnLine before = some (word, rest) →
    typeQualifiers.contains (String.ofList word) = false

/-- Nothing is added to a type that no qualifier stands before. -/
theorem qualified_of_unqualified {type before : List Char} (h : Unqualified before) :
    qualified type before = (type, before) := by
  rcases hword : wordOnLine before with _ | ⟨word, rest⟩
  · exact qualified_of_none hword
  · rw [qualified_of_word hword, h.word word rest hword, if_neg Bool.false_ne_true]

theorem qualifierText_concat (qualifiers : List Qualifier) (q : Qualifier) :
    qualifierText (qualifiers ++ [q]) = qualifierText qualifiers ++ (q.val.toList ++ [' ']) := by
  rw [qualifierText, List.flatMap_append, List.flatMap_singleton]
  rfl

/-- A blank stands before a type, after its qualifiers or before them. -/
theorem exists_blank_qualifierText (qualifiers : List Qualifier) {before : List Char}
    (h : Unqualified before) :
    ∃ c rest, (qualifierText qualifiers).reverse ++ before = c :: rest ∧ isBlank c = true := by
  cases qualifiers using List.reverseRecOn with
  | nil => exact h.blank
  | append_singleton qualifiers q =>
      rw [qualifierText_concat, List.reverse_append, List.reverse_append]
      exact ⟨' ', _, rfl, rfl⟩

/-- A blank is no identifier character. -/
theorem isIdent_eq_false_of_isBlank {c : Char} (h : isBlank c = true) : isIdent c = false := by
  by_contra hi
  rw [Bool.not_eq_false] at hi
  exact Bool.false_ne_true ((isBlank_eq_false_of_isIdent hi).symm.trans h)

/-- Qualifiers are read one after another, the nearest one first. -/
theorem qualified_qualifierText (qualifiers : List Qualifier) {type before : List Char}
    (h : Unqualified before) :
    qualified type ((qualifierText qualifiers).reverse ++ before)
      = (qualifierText qualifiers ++ type, before) := by
  induction qualifiers using List.reverseRecOn generalizing type with
  | nil => exact qualified_of_unqualified h
  | append_singleton qualifiers q ih =>
      obtain ⟨c, rest, hrest, hc⟩ := exists_blank_qualifierText qualifiers h
      have hword : wordOnLine ((qualifierText (qualifiers ++ [q])).reverse ++ before)
          = some (q.val.toList, (qualifierText qualifiers).reverse ++ before) := by
        rw [qualifierText_concat, List.reverse_append, List.reverse_append, List.append_assoc,
          List.append_assoc, hrest]
        exact wordOnLine_space q.chars_ne_nil q.isIdent_of_mem (isIdent_eq_false_of_isBlank hc)
      have hcontains : typeQualifiers.contains (String.ofList q.val.toList) = true := by
        rw [String.ofList_toList, List.contains_iff_mem]
        exact q.2
      rw [qualified_of_word hword, if_pos hcontains, ih, qualifierText_concat, List.append_assoc,
        List.append_assoc]
      rfl

/-- A nested text before a blank is read as a type token. -/
theorem tokenBefore_nested {w before : List Char} {c : Char} (h : Nested false w) (hne : w ≠ [])
    (hc : isBlank c = true) :
    tokenBefore (' ' :: (w.reverse ++ c :: before)) = some (w, c :: before) := by
  have hspace : ∀ a ∈ [' '], isBlank a = true := List.all_eq_true.1 rfl
  have hend : tokenInside 0 (c :: before) = some ([], c :: before) := by
    simp only [isBlank, Bool.or_eq_true, beq_iff_eq] at hc
    rcases hc with (((rfl | rfl) | rfl) | rfl) | rfl <;> rfl
  exact h.opens.tokenBefore hne hspace hend

/-- The core of a type has a name in it: it is not made of marks alone. -/
theorem TypeName.core_not_marks (type : TypeName) :
    (type.core.all fun c => c == '&' || c == '*') = false := by
  cases type with
  | mk qualifiers scopes name arguments marks =>
      rw [TypeName.core, List.all_append, List.all_append, scopedText, List.all_append]
      have hname : (name.chars.all fun c => c == '&' || c == '*') = false := by
        cases hchars : name.chars with
        | nil => exact absurd hchars name.ne_nil
        | cons c w =>
            have hc : isIdent c = true := name.isIdent_of_mem c (hchars ▸ List.mem_cons_self)
            have h1 : (c == '&') = false := beq_eq_false_iff_ne.2 (ne_of_class hc rfl)
            have h2 : (c == '*') = false := beq_eq_false_iff_ne.2 (ne_of_class hc rfl)
            rw [List.all_cons, h1, h2]
            rfl
      rw [hname, Bool.and_false, Bool.false_and, Bool.false_and]

/-- A token with something but marks in it is a type, with the qualifiers before it. -/
theorem typeBefore_of_token {text w before : List Char} (h : tokenBefore text = some (w, before))
    (hmarks : (w.all fun c => c == '&' || c == '*') = false) :
    typeBefore text = some (qualified w before) := by
  rw [typeBefore, h]
  simp only [Option.bind_eq_bind, Option.bind_some, hmarks, Bool.false_eq_true, if_false]
  rfl

/-- Marks alone are put back to the token before them. -/
theorem typeBefore_of_marks {text marks between w before : List Char}
    (h : tokenBefore text = some (marks, between))
    (hmarks : (marks.all fun c => c == '&' || c == '*') = true)
    (hbefore : tokenBefore between = some (w, before)) :
    typeBefore text = some (qualified (w ++ marks) before) := by
  rw [typeBefore, h]
  simp only [Option.bind_eq_bind, Option.bind_some, hmarks, if_true, hbefore]
  rfl

/-- A token that no qualifier stands before is a type. -/
theorem typeBefore_token {w before : List Char} (h : Nested false w) (hne : w ≠ [])
    (hmarks : (w.all fun c => c == '&' || c == '*') = false) (hbefore : Unqualified before) :
    typeBefore (' ' :: (w.reverse ++ before)) = some (w, before) := by
  obtain ⟨c, rest, rfl, hc⟩ := hbefore.blank
  rw [typeBefore_of_token (tokenBefore_nested h hne hc) hmarks, qualified_of_unqualified hbefore]

/-- **A written type is read back.**  The space after it is passed over, and
what stands before its qualifiers is left. -/
theorem typeBefore_typeName (type : TypeName) {before : List Char} (h : Unqualified before) :
    typeBefore (' ' :: (type.text.reverse ++ before)) = some (type.text, before) := by
  obtain ⟨c, rest, hrest, hc⟩ := exists_blank_qualifierText type.qualifiers h
  have htoken : tokenBefore (' ' :: (type.text.reverse ++ before))
      = some (type.core, (qualifierText type.qualifiers).reverse ++ before) := by
    rw [TypeName.text, List.reverse_append, List.append_assoc, hrest]
    exact tokenBefore_nested type.nested_core type.tidy_core.ne_nil hc
  rw [typeBefore_of_token htoken type.core_not_marks, qualified_qualifierText _ h]
  rfl

end Header
end NativeHooks
