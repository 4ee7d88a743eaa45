/-
# Methods with any gaps

A method is its parts and the gaps between them: blanks, which are also line feeds
everywhere but between keywords, qualifiers and type.  Whatever the gaps are, every
reader ends where its part does, so the method is read with the parts that were written
(`methodAt_laidOut`).

Every part may be followed by none of the gaps but keywords, qualifiers and `return`; and
a type that ends like an identifier is parted from the name after it, by marks or a gap.
What the parts hold is what the readers rely on: brackets are balanced, and outside of
strings no semicolon and no brace stands where one ends the reading.
-/

import NativeHooks.Proofs.Declaration.Layout
import NativeHooks.Proofs.Header.OwnText

namespace NativeHooks
namespace Header

open Text

/-! ### What is written -/

/-- Blanks, also none. -/
structure Blanks where
  chars : List Char
  isBlank_of_mem : ∀ c ∈ chars, isBlank c = true

/-- Blanks on one line, at least one. -/
structure LineBlanks extends Blanks where
  ne_nil : chars ≠ []
  noLineFeed : '\n' ∉ chars

/-- A text whose brackets are balanced. -/
inductive Balanced (opens closes : Char) : List Char → Prop
  | nil : Balanced opens closes []
  | char {c : Char} {w : List Char} :
      c ≠ opens → c ≠ closes → Balanced opens closes w → Balanced opens closes (c :: w)
  | group {v w : List Char} :
      Balanced opens closes v → Balanced opens closes w →
        Balanced opens closes (opens :: v ++ closes :: w)

/-- A text without brackets. -/
theorem balanced_of_not_mem {opens closes : Char} {w : List Char} (hopen : opens ∉ w)
    (hclose : closes ∉ w) : Balanced opens closes w := by
  induction w with
  | nil => exact .nil
  | cons c w ih =>
      rw [List.mem_cons, not_or] at hopen hclose
      exact .char (Ne.symm hopen.1) (Ne.symm hclose.1) (ih hopen.2 hclose.2)

/-- A word that may stand before the type of a method and its qualifiers. -/
inductive Keyword where
  | static
  | virtual
  deriving DecidableEq, Repr

/-- The keyword as it is written. -/
def Keyword.text : Keyword → String
  | .static => "static"
  | .virtual => "virtual"

/-- The specifier as it is written. -/
def Specifier.word : Specifier → String
  | .const => "const"
  | .override => "override"

/-- The parts of a method, up to the quote that closes the key of its native call. -/
structure MethodParts where
  keywords : List Keyword
  nodup : keywords.Nodup
  qualifiers : List Qualifier
  type : List Char
  nested : Nested false type
  not_marks : (type.all fun c => c == '&' || c == '*') = false
  /-- Marks that may stand apart from the type. -/
  marks : List Mark
  name : Ident
  isMethodName : isAccessorName name.chars = false
  parameters : List Char
  balanced : Balanced '(' ')' parameters
  unended : ∀ c ∈ parameters, c ≠ ';' ∧ c ≠ '{' ∧ c ≠ '}'
  specifier : Option Specifier
  /-- The result of the native call is returned. -/
  returns : Bool
  /-- The types the native call is made with. -/
  types : List Char
  types_balanced : Balanced '<' '>' types
  types_unended : ∀ c ∈ types, ¬(c = ';' ∨ c = '{' ∨ c = '}' ∨ c = '"')
  receiver : Ident
  key : List Char
  key_noQuote : '"' ∉ key
  key_noLineFeed : '\n' ∉ key

/-- The places between the parts of a method from its type on. -/
inductive Place where
  /-- Between the type and its marks. -/
  | type
  /-- Between the marks and the name. -/
  | marks
  /-- Between the name and the parenthesis of the parameters. -/
  | name
  /-- Before the parameters, inside their parentheses. -/
  | beforeParameters
  /-- After the parameters, inside their parentheses. -/
  | afterParameters
  /-- Between the parentheses and the specifier. -/
  | list
  /-- Between the specifier and the brace of the body. -/
  | specifier
  /-- Before `return` or the native call. -/
  | body
  /-- Between `return` and the native call. -/
  | returned
  /-- Between `NativeCall` and its angle bracket. -/
  | call
  /-- Before the types, inside their angle brackets. -/
  | beforeTypes
  /-- After the types, inside their angle brackets. -/
  | afterTypes
  /-- Between the angle brackets and the parenthesis of the arguments. -/
  | arguments
  /-- Between that parenthesis and the receiver. -/
  | beforeReceiver
  /-- Between the receiver and its comma. -/
  | afterReceiver
  /-- Between the comma and the quote that opens the key. -/
  | beforeKey
  deriving DecidableEq, Repr

/-- The gaps of a method. -/
structure Layout (m : MethodParts) where
  /-- The gap after each keyword. -/
  keyword : Nat → LineBlanks
  /-- The gap after each qualifier. -/
  qualifier : Nat → LineBlanks
  gap : Place → Blanks
  returned_ne_nil : (gap .returned).chars ≠ []
  /-- Type and name do not run into each other. -/
  parted : m.marks = [] → (∃ c ∈ m.type.getLast?, isIdent c = true) →
    (gap .type).chars ++ (gap .marks).chars ≠ []

/-- Words with the gaps after them. -/
def wordText (gap : Nat → LineBlanks) (words : List (List Char)) : List Char :=
  words.zipIdx.flatMap fun w => w.1 ++ (gap w.2).chars

namespace MethodParts

variable (m : MethodParts) (l : Layout m)

/-- The keywords and the gaps after them. -/
def keywordText : List Char := wordText l.keyword (m.keywords.map fun k => k.text.toList)

/-- The qualifiers and the gaps after them. -/
def qualifiersText : List Char := wordText l.qualifier (m.qualifiers.map fun q => q.val.toList)

/-- The type with its marks, and the gaps after both. -/
def typeText : List Char :=
  m.type ++ (l.gap .type).chars ++ m.marks.map Mark.char ++ (l.gap .marks).chars

/-- The parameters in their parentheses. -/
def listText : List Char :=
  '(' :: (l.gap .beforeParameters).chars ++ m.parameters ++ (l.gap .afterParameters).chars ++ [')']

/-- What follows the parameters up to the brace of the body. -/
def specifierText : List Char :=
  (l.gap .list).chars ++ (m.specifier.elim [] fun s => s.word.toList) ++ (l.gap .specifier).chars

/-- The head of the method. -/
def head : List Char :=
  m.keywordText l ++ m.qualifiersText l ++ m.typeText l ++ m.name.chars ++ (l.gap .name).chars
    ++ m.listText l ++ m.specifierText l

/-- What stands in the body before the native call. -/
def returnText : List Char :=
  (l.gap .body).chars ++ if m.returns then "return".toList ++ (l.gap .returned).chars else []

/-- The types of the native call and the angle bracket that closes them. -/
def callTypes : List Char :=
  (l.gap .beforeTypes).chars ++ m.types ++ (l.gap .afterTypes).chars ++ ['>']

/-- The arguments of the native call up to the quote that opens the key. -/
def callReceiver : List Char :=
  (l.gap .arguments).chars ++ '(' :: (l.gap .beforeReceiver).chars ++ m.receiver.chars
    ++ (l.gap .afterReceiver).chars ++ ',' :: (l.gap .beforeKey).chars ++ ['"']

/-- The body up to the quote that closes the key. -/
def body : List Char :=
  m.returnText l ++ "NativeCall".toList ++ (l.gap .call).chars ++ '<' :: m.callTypes l
    ++ m.callReceiver l ++ m.key ++ ['"']

/-- The method up to the quote that closes the key. -/
def text : List Char := m.head l ++ '{' :: m.body l

/-- The type as it is read, with its qualifiers. -/
def readType : List Char := qualifierText m.qualifiers ++ (m.type ++ m.marks.map Mark.char)

/-- The method that is declared. -/
def declared (className fullText : String) : Method where
  className := className
  returnType := String.ofList m.readType
  name := String.ofList m.name.chars
  parameters := Parameter.readList m.parameters
  isStatic := m.keywords.contains .static
  isVirtual := m.keywords.contains .virtual
  nativeSignature := String.ofList (trim m.key)
  fullText := fullText
  sourceLabel := ""

end MethodParts

/-! ### Where readers stop -/

/-- Neither a word nor a type goes on before a place. -/
def Stops (before : List Char) : Prop := ∀ c ∈ before.head?, isBlank c = true ∨ endsType c = true

theorem Stops.not_isIdent {before : List Char} (h : Stops before) :
    ∀ c ∈ before.head?, isIdent c = false := by
  intro c hc
  rcases h c hc with hblank | hends
  · exact isIdent_eq_false_of_isBlank hblank
  · by_contra hident
    have htype : isTypeChar true c = true := isTypeChar_of_isIdent (by simpa using hident)
    exact absurd ((isTypeChar_iff.1 htype).1.1.symm.trans hends) Bool.false_ne_true

theorem Stops.tokenInside {before : List Char} (h : Stops before) :
    tokenInside 0 before = some ([], before) := by
  cases before with
  | nil => rfl
  | cons c before =>
      rcases h c rfl with hblank | hends
      · simp only [isBlank, Bool.or_eq_true, beq_iff_eq] at hblank
        rcases hblank with (((rfl | rfl) | rfl) | rfl) | rfl <;> rfl
      · rcases tokenInside_step 0 c with ⟨-, hread⟩ | ⟨hlt, -⟩ | ⟨e, hnot, -⟩
        · exact hread before
        · exact absurd hlt (Nat.lt_irrefl 0)
        · exact absurd (hnot.symm.trans hends) Bool.false_ne_true

theorem stops_of_isBlank {blanks : List Char} (hblanks : ∀ c ∈ blanks, isBlank c = true)
    (hne : blanks ≠ []) (before : List Char) : Stops (blanks ++ before) := by
  intro c hc
  rw [List.head?_append_of_ne_nil _ hne] at hc
  exact .inl (hblanks c (List.mem_of_mem_head? hc))

/-- Where a declaration may begin: at the start of the text, or after a line feed, a
semicolon or a brace, blanks aside. -/
def Fresh (before : List Char) : Prop :=
  ∃ blanks rest, before = blanks ++ rest ∧ (∀ c ∈ blanks, isBlank c = true) ∧
    ∀ c ∈ rest.head?, c = '\n' ∨ c = ';' ∨ c = '{' ∨ c = '}'

theorem Fresh.stops {before : List Char} (h : Fresh before) : Stops before := by
  obtain ⟨blanks, rest, rfl, hblanks, hrest⟩ := h
  cases blanks with
  | nil =>
      intro c hc
      rcases hrest c hc with rfl | rfl | rfl | rfl
      · exact .inl rfl
      all_goals exact .inr rfl
  | cons a blanks => exact stops_of_isBlank hblanks (List.cons_ne_nil _ _) rest

/-- No word stands before a place that blanks and something else stand before. -/
theorem identBefore_eq_none {blanks rest : List Char} (hblanks : ∀ c ∈ blanks, isBlank c = true)
    (hrest : ∀ c ∈ rest.head?, isBlank c = false ∧ isIdent c = false) :
    identBefore (blanks ++ rest) = none := by
  have hdrop : (blanks ++ rest).dropWhile isBlank = rest := by
    rw [List.dropWhile_append_of_pos hblanks]
    exact dropWhile_eq_self fun c hc => (hrest c hc).1
  have hnone : rest.takeWhile isIdent = [] := by
    cases rest with
    | nil => rfl
    | cons c rest => rw [List.takeWhile_cons, (hrest c rfl).2, if_neg Bool.false_ne_true]
  rw [identBefore, hdrop, hnone]
  rfl

/-- No word stands before the place on its line. -/
theorem Fresh.wordOnLine {before : List Char} (h : Fresh before) : wordOnLine before = none := by
  obtain ⟨blanks, rest, rfl, hblanks, hrest⟩ := h
  rw [Header.wordOnLine, List.takeWhile_append_of_pos hblanks]
  by_cases hline : rest.head? = some '\n'
  · obtain ⟨rest, rfl⟩ : ∃ more, rest = '\n' :: more := List.head?_eq_some_iff.1 hline
    rw [if_pos]
    simp [isBlank]
  · rw [identBefore_eq_none hblanks fun c hc => ?_]
    · exact ite_self none
    · rcases hrest c hc with rfl | rfl | rfl | rfl
      · exact absurd hc hline
      all_goals exact ⟨rfl, rfl⟩

/-! ### Words and gaps -/

section Words

variable (gap : Nat → LineBlanks) {before : List Char}

theorem wordText_concat (words : List (List Char)) (w : List Char) :
    wordText gap (words ++ [w]) = wordText gap words ++ (w ++ (gap words.length).chars) := by
  simp [wordText, List.zipIdx_append]

/-- A blank stands after a word, and where there is none the text stops already. -/
theorem stops_wordText (words : List (List Char)) (h : Stops before) :
    Stops ((wordText gap words).reverse ++ before) := by
  cases words using List.reverseRecOn with
  | nil => exact h
  | append_singleton words w =>
      rw [wordText_concat, List.reverse_append, List.reverse_append, List.append_assoc,
        List.append_assoc]
      exact stops_of_isBlank
        (fun c hc => (gap words.length).isBlank_of_mem c (List.mem_reverse.1 hc))
        (List.reverse_ne_nil_iff.2 (gap words.length).ne_nil) _

/-- The last word is the one that is read. -/
theorem wordOnLine_wordText (words : List (List Char)) {w : List Char} (hne : w ≠ [])
    (hw : ∀ c ∈ w, isIdent c = true) (h : Stops before) :
    wordOnLine ((wordText gap (words ++ [w])).reverse ++ before)
      = some (w, (wordText gap words).reverse ++ before) := by
  refine wordOnLine_eq_some_iff.2 ⟨(gap words.length).chars.reverse, ?_,
    fun c hc => (gap words.length).isBlank_of_mem c (List.mem_reverse.1 hc),
    fun hmem => (gap words.length).noLineFeed (List.mem_reverse.1 hmem), hne, hw,
    (stops_wordText gap words h).not_isIdent⟩
  rw [wordText_concat, List.reverse_append, List.reverse_append, List.append_assoc,
    List.append_assoc]

/-- **Qualifiers are read whatever the gaps are,** and stand one space apart then. -/
theorem qualified_wordText (qualifiers : List Qualifier) {type : List Char} (hstops : Stops before)
    (h : ∀ word rest, wordOnLine before = some (word, rest) →
      typeQualifiers.contains (String.ofList word) = false) :
    qualified type ((wordText gap (qualifiers.map fun q => q.val.toList)).reverse ++ before)
      = (qualifierText qualifiers ++ type, before) := by
  induction qualifiers using List.reverseRecOn generalizing type with
  | nil =>
      rcases hword : wordOnLine before with _ | ⟨word, rest⟩
      · exact qualified_of_none hword
      · show qualified type before = (type, before)
        rw [qualified_of_word hword, h word rest hword, if_neg Bool.false_ne_true]
  | append_singleton qualifiers q ih =>
      have hcontains : typeQualifiers.contains (String.ofList q.val.toList) = true := by
        rw [String.ofList_toList, List.contains_iff_mem]
        exact q.2
      rw [List.map_append, List.map_singleton,
        qualified_of_word (wordOnLine_wordText gap _ q.chars_ne_nil q.isIdent_of_mem hstops),
        if_pos hcontains, ih, qualifierText_concat, List.append_assoc, List.append_assoc]
      rfl

theorem Keyword.ne_nil (k : Keyword) : k.text.toList ≠ [] := by
  cases k <;> decide

theorem Keyword.isIdent_of_mem (k : Keyword) : ∀ c ∈ k.text.toList, isIdent c = true := by
  cases k <;> exact List.all_eq_true.1 rfl

/-- The keyword is one of those found. -/
def Keywords.has (found : Keywords) : Keyword → Bool
  | .static => found.isStatic
  | .virtual => found.isVirtual

/-- **Keywords are read whatever the gaps are.** -/
theorem keywordsBefore_wordText (keywords : List Keyword) {found : Keywords}
    (hnodup : keywords.Nodup) (hfound : ∀ k ∈ keywords, found.has k = false) (h : Fresh before) :
    keywordsBefore found ((wordText gap (keywords.map fun k => k.text.toList)).reverse ++ before)
      = (⟨found.isStatic || keywords.contains .static,
          found.isVirtual || keywords.contains .virtual⟩, before) := by
  induction keywords using List.reverseRecOn generalizing found with
  | nil =>
      rw [show wordText gap (List.map _ []) = [] from rfl, List.reverse_nil, List.nil_append,
        keywordsBefore_of_none h.wordOnLine]
      simp
  | append_singleton keywords k ih =>
      have hword := wordOnLine_wordText gap (keywords.map fun k => k.text.toList) k.ne_nil
        k.isIdent_of_mem h.stops
      obtain ⟨hnodup', -, hnot⟩ := List.nodup_append.1 hnodup
      have hne : ∀ k' ∈ keywords, k' ≠ k := fun k' hk' => hnot k' hk' k (List.mem_singleton.2 rfl)
      have hk : found.has k = false := hfound k (by simp)
      have hrest : ∀ k' ∈ keywords, found.has k' = false := fun k' hk' => hfound k' (by simp [hk'])
      rw [List.map_append, List.map_singleton]
      cases k with
      | static =>
          rw [keywordsBefore_static found hword hk, ih hnodup' fun k' hk' => ?_]
          · simp
          · cases k' with
            | static => exact absurd rfl (hne _ hk')
            | virtual => exact hrest _ hk'
      | virtual =>
          rw [keywordsBefore_virtual found hword hk, ih hnodup' fun k' hk' => ?_]
          · simp
          · cases k' with
            | static => exact hrest _ hk'
            | virtual => exact absurd rfl (hne _ hk')

/-- No keyword is a qualifier. -/
theorem unqualified_wordText (keywords : List Keyword) (h : Fresh before) (word rest : List Char)
    (hword : wordOnLine ((wordText gap (keywords.map fun k => k.text.toList)).reverse ++ before)
      = some (word, rest)) : typeQualifiers.contains (String.ofList word) = false := by
  cases keywords using List.reverseRecOn with
  | nil => exact absurd (h.wordOnLine.symm.trans hword) (Option.some_ne_none _).symm
  | append_singleton keywords k =>
      rw [List.map_append, List.map_singleton,
        wordOnLine_wordText gap _ k.ne_nil k.isIdent_of_mem h.stops] at hword
      obtain ⟨rfl, -⟩ := Prod.mk.inj (Option.some.inj hword)
      cases k <;> decide

end Words

/-! ### Types -/

/-- Marks may stand in a type, and are nothing but marks. -/
theorem nested_marks (marks : List Mark) : Nested false (marks.map Mark.char) := by
  refine .of_chars fun c hc => ?_
  obtain ⟨mark, -, rfl⟩ := List.mem_map.1 hc
  exact mark.isTypeChar_char false

theorem all_marks (marks : List Mark) :
    ((marks.map Mark.char).all fun c => c == '&' || c == '*') = true := by
  rw [List.all_map, List.all_eq_true]
  rintro (_ | _) - <;> rfl

namespace MethodParts

variable (m : MethodParts) (l : Layout m) {before : List Char}

theorem type_ne_nil : m.type ≠ [] := by
  intro hnil
  have hmarks := m.not_marks
  rw [hnil] at hmarks
  exact absurd hmarks Bool.false_ne_true.symm

theorem isBlank_gap (place : Place) : ∀ c ∈ (l.gap place).chars.reverse, isBlank c = true :=
  fun c hc => (l.gap place).isBlank_of_mem c (List.mem_reverse.1 hc)

/-- **A type is read whatever the gaps are:** marks apart from it belong to it. -/
theorem typeBefore_typeText {far : List Char} (hstops : Stops before)
    (hqualified : ∀ token, qualified token before = (qualifierText m.qualifiers ++ token, far)) :
    typeBefore ((m.typeText l).reverse ++ before) = some (m.readType, far) := by
  have htype := m.nested.opens.tokenBefore m.type_ne_nil (m.isBlank_gap l .type)
    hstops.tokenInside
  have hboth : ((m.type ++ m.marks.map Mark.char).all fun c => c == '&' || c == '*') = false := by
    rw [List.all_append, m.not_marks, Bool.false_and]
  have htext : (m.typeText l).reverse ++ before = (l.gap .marks).chars.reverse
      ++ ((m.marks.map Mark.char).reverse ++ ((l.gap .type).chars.reverse
        ++ (m.type.reverse ++ before))) := by
    simp only [typeText, List.reverse_append, List.append_assoc]
  rw [htext, readType]
  by_cases hjoined : m.marks = [] ∨ (l.gap .type).chars = []
  · -- the marks are read with the type, or there are none
    have htoken : tokenBefore ((l.gap .marks).chars.reverse ++ ((m.marks.map Mark.char).reverse
        ++ ((l.gap .type).chars.reverse ++ (m.type.reverse ++ before))))
          = some (m.type ++ m.marks.map Mark.char, before) := by
      rcases hjoined with hmarks | hgap
      · rw [hmarks, List.map_nil, List.reverse_nil, List.nil_append, ← List.append_assoc,
          List.append_nil]
        refine m.nested.opens.tokenBefore m.type_ne_nil (fun c hc => ?_) hstops.tokenInside
        exact (List.mem_append.1 hc).elim (m.isBlank_gap l .marks c) (m.isBlank_gap l .type c)
      · have hne : m.type ++ m.marks.map Mark.char ≠ [] :=
          List.append_ne_nil_of_left_ne_nil m.type_ne_nil _
        rw [hgap, List.reverse_nil, List.nil_append, ← List.append_assoc _ m.type.reverse,
          ← List.reverse_append]
        exact (m.nested.append (nested_marks _)).opens.tokenBefore hne (m.isBlank_gap l .marks)
          hstops.tokenInside
    rw [typeBefore_of_token htoken hboth, hqualified]
  · -- the marks are a token of their own
    rw [not_or] at hjoined
    have hne : m.marks.map Mark.char ≠ [] := by
      rw [Ne, List.map_eq_nil_iff]
      exact hjoined.1
    have hends := stops_of_isBlank (m.isBlank_gap l .type) (List.reverse_ne_nil_iff.2 hjoined.2)
      (m.type.reverse ++ before)
    have htoken := (nested_marks m.marks).opens.tokenBefore hne (m.isBlank_gap l .marks)
      hends.tokenInside
    rw [typeBefore_of_marks htoken (all_marks _) htype, hqualified]

/-- No identifier goes on before the name. -/
theorem isIdent_head?_typeText :
    ∀ c ∈ ((m.typeText l).reverse ++ before).head?, isIdent c = false := by
  intro c hc
  have hne : (m.typeText l).reverse ≠ [] := by
    rw [List.reverse_ne_nil_iff, typeText]
    simp [m.type_ne_nil]
  rw [List.head?_append_of_ne_nil _ hne, List.head?_reverse, typeText] at hc
  rcases hgap : (l.gap .marks).chars with _ | ⟨a, rest⟩
  · rw [hgap, List.append_nil] at hc
    rcases hmarks : m.marks with _ | ⟨mark, marks⟩
    · rw [hmarks, List.map_nil, List.append_nil] at hc
      rcases htype : (l.gap .type).chars with _ | ⟨a, rest⟩
      · rw [htype, List.append_nil] at hc
        by_contra hident
        refine l.parted hmarks ⟨c, hc, by simpa using hident⟩ ?_
        rw [htype, hgap, List.append_nil]
      · rw [htype, List.getLast?_append_of_ne_nil _ (List.cons_ne_nil _ _), ← htype] at hc
        exact isIdent_eq_false_of_isBlank ((l.gap .type).isBlank_of_mem c (List.mem_of_getLast? hc))
    · have hmarks' : m.marks.map Mark.char ≠ [] := by simp [hmarks]
      rw [List.getLast?_append_of_ne_nil _ hmarks'] at hc
      obtain ⟨mark, -, rfl⟩ := List.mem_map.1 (List.mem_of_getLast? hc)
      cases mark <;> rfl
  · rw [hgap, List.getLast?_append_of_ne_nil _ (List.cons_ne_nil _ _), ← hgap] at hc
    exact isIdent_eq_false_of_isBlank ((l.gap .marks).isBlank_of_mem c (List.mem_of_getLast? hc))

end MethodParts

/-! ### Lists in parentheses -/

/-- A list whose parentheses are balanced is part of the list that it is read in. -/
theorem Balanced.listInside {w : List Char} (h : Balanced '(' ')' w)
    (hends : ∀ c ∈ w, c ≠ ';' ∧ c ≠ '{' ∧ c ≠ '}') : ∀ (d : Nat) (before : List Char),
      listInside d (w.reverse ++ before) = extendBy w.reverse (listInside d before) := by
  induction h with
  | nil => exact fun d before => (extendBy_nil _).symm
  | @char c w hopen hclose _ ih =>
      intro d before
      have hc : ¬(c = ';' ∨ c = '{' ∨ c = '}') := by
        simpa [not_or] using hends c List.mem_cons_self
      have hone : Header.listInside d (c :: before) = extend c (Header.listInside d before) := by
        rw [Header.listInside.eq_def]
        simp only [if_neg hopen, if_neg hclose, if_neg hc]
      rw [List.reverse_cons, List.append_assoc, List.singleton_append,
        ih fun a ha => hends a (List.mem_cons_of_mem _ ha), hone, extendBy_extend]
  | @group v w _ _ ihv ihw =>
      intro d before
      have hv : ∀ c ∈ v, c ≠ ';' ∧ c ≠ '{' ∧ c ≠ '}' := fun c hc => hends c (by simp [hc])
      have hw : ∀ c ∈ w, c ≠ ';' ∧ c ≠ '{' ∧ c ≠ '}' := fun c hc => hends c (by simp [hc])
      have hopen : Header.listInside (d + 1) ('(' :: before)
          = extend '(' (Header.listInside d before) := rfl
      have hclose : ∀ before, Header.listInside d (')' :: before)
          = extend ')' (Header.listInside (d + 1) before) := fun before => by cases d <;> rfl
      have hrev : ('(' :: v ++ ')' :: w).reverse = w.reverse ++ (')' :: v.reverse ++ ['(']) := by
        simp
      rw [hrev, List.append_assoc, List.append_assoc, List.cons_append, List.singleton_append,
        ihw hw, hclose, ihv hv, hopen, extend_extendBy, extendBy_extend, extendBy_extendBy]

namespace MethodParts

variable (m : MethodParts) (l : Layout m) (before : List Char)

/-- **The list is read with its gaps.** -/
theorem listBefore_listText :
    listBefore ((m.listText l).reverse ++ before)
      = some ((l.gap .beforeParameters).chars ++ m.parameters ++ (l.gap .afterParameters).chars,
        before) := by
  have hblanks : ∀ place, ∀ c ∈ (l.gap place).chars.reverse, isListChar c = true := by
    intro place c hc
    have hblank := m.isBlank_gap l place c hc
    exact isListChar_iff.2 ⟨ne_of_class hblank rfl, ne_of_class hblank rfl, ne_of_class hblank rfl,
      ne_of_class hblank rfl, ne_of_class hblank rfl⟩
  have htext : (m.listText l).reverse ++ before = ')' :: ((l.gap .afterParameters).chars.reverse
      ++ (m.parameters.reverse ++ ((l.gap .beforeParameters).chars.reverse ++ '(' :: before))) := by
    simp [listText]
  have hopen : listInside 0 ('(' :: before) = some ([], before) := rfl
  rw [htext, listBefore, listInside_append (hblanks _), m.balanced.listInside m.unended,
    listInside_append (hblanks _), hopen]
  simp [extendBy]

/-- The specifier is dropped whatever the gaps are. -/
theorem dropSpecifier_specifierText {before : List Char} :
    dropSpecifier ((m.specifierText l).reverse ++ ')' :: before) = ')' :: before := by
  have hmark : ∀ c ∈ (')' :: before).head?, isBlank c = false ∧ isIdent c = false := by
    rintro c ⟨⟩
    exact ⟨rfl, rfl⟩
  have hdrop : ∀ blanks : List Char, (∀ c ∈ blanks, isBlank c = true) →
      (blanks ++ ')' :: before).dropWhile isBlank = ')' :: before :=
    fun blanks hblanks => dropWhile_run hblanks rfl
  rw [dropSpecifier]
  cases hspecifier : m.specifier with
  | none =>
      have hblanks : ∀ c ∈ (m.specifierText l).reverse, isBlank c = true := by
        intro c hc
        rw [specifierText, hspecifier, Option.elim_none, List.append_nil, List.reverse_append] at hc
        exact (List.mem_append.1 hc).elim (m.isBlank_gap l .specifier c) (m.isBlank_gap l .list c)
      rw [identBefore_eq_none hblanks hmark]
      exact hdrop _ hblanks
  | some specifier =>
      have hident : ∀ c ∈ specifier.word.toList, isIdent c = true := by
        cases specifier <;> exact List.all_eq_true.1 rfl
      have hne : specifier.word.toList ≠ [] := by
        cases specifier <;> decide
      have hleft : ∀ c ∈ ((l.gap .list).chars.reverse ++ ')' :: before).head?,
          isIdent c = false := by
        intro c hc
        rcases hgap : (l.gap .list).chars.reverse with _ | ⟨a, rest⟩
        · rw [hgap] at hc
          exact (hmark c hc).2
        · refine isIdent_eq_false_of_isBlank (m.isBlank_gap l .list c ?_)
          rw [hgap] at hc ⊢
          exact List.mem_of_mem_head? hc
      have hword : identBefore ((m.specifierText l).reverse ++ ')' :: before)
          = some (specifier.word.toList, (l.gap .list).chars.reverse ++ ')' :: before) := by
        refine identBefore_eq_some_iff.2 ⟨(l.gap .specifier).chars.reverse, ?_,
          m.isBlank_gap l .specifier, hne, hident, hleft⟩
        simp [specifierText, hspecifier]
      have hdropped : String.ofList specifier.word.toList = "const" ∨
          String.ofList specifier.word.toList = "override" := by
        cases specifier <;> decide
      rw [hword]
      simp only [if_pos hdropped]
      exact hdrop _ (m.isBlank_gap l .list)

/-- **The head of a method is read whatever its gaps are.** -/
theorem methodHead_head {before : List Char} (h : Fresh before) :
    methodHead ((m.head l).reverse ++ before) = some
      { parameters := (l.gap .beforeParameters).chars ++ m.parameters
          ++ (l.gap .afterParameters).chars
        name := m.name.chars
        type := m.readType
        keywords := ⟨m.keywords.contains .static, m.keywords.contains .virtual⟩
        before } := by
  have hfound : ∀ k ∈ m.keywords, ({} : Keywords).has k = false := fun k _ => by cases k <;> rfl
  have hkeywords : keywordsBefore {} ((m.keywordText l).reverse ++ before)
      = (⟨m.keywords.contains .static, m.keywords.contains .virtual⟩, before) :=
    keywordsBefore_wordText l.keyword m.keywords m.nodup hfound h
  have hstops : Stops ((m.keywordText l).reverse ++ before) := stops_wordText l.keyword _ h.stops
  have hqualified : ∀ token, qualified token ((m.qualifiersText l).reverse
      ++ ((m.keywordText l).reverse ++ before))
        = (qualifierText m.qualifiers ++ token, (m.keywordText l).reverse ++ before) := fun token =>
    qualified_wordText l.qualifier m.qualifiers hstops (unqualified_wordText l.keyword m.keywords h)
  have htype : typeBefore ((m.typeText l).reverse ++ ((m.qualifiersText l).reverse
      ++ ((m.keywordText l).reverse ++ before)))
        = some (m.readType, (m.keywordText l).reverse ++ before) :=
    m.typeBefore_typeText l (stops_wordText l.qualifier _ hstops) hqualified
  have hname : identBefore ((l.gap .name).chars.reverse ++ (m.name.chars.reverse
      ++ ((m.typeText l).reverse ++ ((m.qualifiersText l).reverse
        ++ ((m.keywordText l).reverse ++ before)))))
          = some (m.name.chars, (m.typeText l).reverse ++ ((m.qualifiersText l).reverse
            ++ ((m.keywordText l).reverse ++ before))) :=
    identBefore_eq_some_iff.2 ⟨_, rfl, m.isBlank_gap l .name, m.name.ne_nil, m.name.isIdent_of_mem,
      m.isIdent_head?_typeText l⟩
  obtain ⟨inner, hinner⟩ : ∃ inner, (m.listText l).reverse = ')' :: inner := ⟨_, by
    rw [listText, List.reverse_append]
    rfl⟩
  have hlist := fun rest => m.listBefore_listText l rest
  simp only [hinner, List.cons_append] at hlist
  rw [methodHead, head]
  simp only [List.reverse_append, List.append_assoc, hinner, List.cons_append,
    dropSpecifier_specifierText, hlist, Option.bind_eq_bind, Option.bind_some, hname, htype,
    hkeywords]
  rfl

end MethodParts

/-! ### Native calls -/

/-- A text whose angle brackets are balanced is passed over on the way to the end of a list
of types. -/
theorem Balanced.afterTypes {w : List Char} (h : Balanced '<' '>' w)
    (hends : ∀ c ∈ w, ¬(c = ';' ∨ c = '{' ∨ c = '}' ∨ c = '"')) :
    ∀ (d : Nat) (rest : List Char), afterTypes d (w ++ rest) = afterTypes d rest := by
  induction h with
  | nil => exact fun d rest => rfl
  | @char c w hopen hclose _ ih =>
      intro d rest
      rw [List.cons_append, Header.afterTypes.eq_def]
      simp only [if_neg hopen, if_neg hclose, if_neg (hends c List.mem_cons_self)]
      exact ih (fun a ha => hends a (List.mem_cons_of_mem _ ha)) d rest
  | @group v w _ _ ihv ihw =>
      intro d rest
      rw [List.append_assoc, List.cons_append, List.cons_append, afterTypes_open,
        ihv fun c hc => hends c (by simp [hc]), afterTypes_close,
        ihw fun c hc => hends c (by simp [hc])]

theorem balanced_of_isBlank {w : List Char} (hw : ∀ c ∈ w, isBlank c = true) :
    Balanced '<' '>' w ∧ ∀ c ∈ w, ¬(c = ';' ∨ c = '{' ∨ c = '}' ∨ c = '"') := by
  refine ⟨balanced_of_not_mem (not_mem_of_class hw rfl) (not_mem_of_class hw rfl), ?_⟩
  rintro c hc (rfl | rfl | rfl | rfl) <;> exact absurd (hw _ hc) (by decide)

/-- Blanks and identifiers are part of the receiver. -/
theorem afterReceiver_append {w : List Char}
    (hw : ∀ c ∈ w, isBlank c = true ∨ isIdent c = true) (rest : List Char) :
    afterReceiver 0 (w ++ rest) = afterReceiver 0 rest := by
  induction w with
  | nil => rfl
  | cons c w ih =>
      have hne : ∀ d, isBlank d = false → isIdent d = false → c ≠ d := by
        rintro d hblank hident rfl
        exact (hw c List.mem_cons_self).elim (fun h => absurd (hblank.symm.trans h) (by decide))
          fun h => absurd (hident.symm.trans h) (by decide)
      rw [List.cons_append, afterReceiver]
      simp only [hne '(' rfl rfl, hne '<' rfl rfl, hne ')' rfl rfl, hne '>' rfl rfl,
        hne ';' rfl rfl, hne '{' rfl rfl, hne '}' rfl rfl, hne '"' rfl rfl, hne ',' rfl rfl,
        or_self, false_and, if_false]
      exact ih fun a ha => hw a (List.mem_cons_of_mem _ ha)

theorem afterMark_append {c : Char} (hc : isBlank c = false) {blanks : List Char}
    (hblanks : ∀ a ∈ blanks, isBlank a = true) (rest : List Char) :
    afterMark c (blanks ++ c :: rest) = some rest := by
  rw [afterMark, dropWhile_run hblanks hc]
  exact if_pos rfl

namespace MethodParts

variable (m : MethodParts) (l : Layout m)

theorem isSpace_gap (place : Place) : ∀ c ∈ (l.gap place).chars, isSpace c = true :=
  fun c hc => isSpace_of_isBlank ((l.gap place).isBlank_of_mem c hc)

/-- The native call is found in the body whatever the gaps are. -/
theorem afterCall_returnText (rest : List Char) :
    afterCall (m.returnText l ++ "NativeCall".toList ++ (l.gap .call).chars ++ '<' :: rest)
      = some rest := by
  have hcall : ∀ blanks : List Char, (∀ c ∈ blanks, isSpace c = true) →
      (blanks ++ ("NativeCall".toList ++ (l.gap .call).chars ++ '<' :: rest)).dropWhile isSpace
        = "NativeCall".toList ++ (l.gap .call).chars ++ '<' :: rest :=
    fun blanks hblanks => dropWhile_run hblanks rfl
  have hshape : afterShape callShape ("NativeCall".toList ++ (l.gap .call).chars ++ '<' :: rest)
      = some rest := by
    show afterShape [.text "<"] (((l.gap .call).chars ++ '<' :: rest).dropWhile isSpace) = some rest
    rw [dropWhile_run (m.isSpace_gap l .call) rfl]
    rfl
  have hplain : ∀ blanks : List Char, (∀ c ∈ blanks, isSpace c = true) →
      afterShape (.spaces :: callShape)
        (blanks ++ ("NativeCall".toList ++ (l.gap .call).chars ++ '<' :: rest)) = some rest := by
    intro blanks hblanks
    show afterShape callShape (List.dropWhile isSpace _) = some rest
    rw [hcall blanks hblanks, hshape]
  rw [afterCall, returnText]
  cases m.returns with
  | false =>
      have hread := hplain _ (m.isSpace_gap l .body)
      simp only [Bool.false_eq_true, if_false, List.append_nil, List.append_assoc] at hread ⊢
      rw [afterShape_return_eq_none hread, hread]
  | true =>
      obtain ⟨c, gap, hgap⟩ := List.exists_cons_of_ne_nil l.returned_ne_nil
      have hspaces : ∀ a ∈ c :: gap, isSpace a = true := hgap ▸ m.isSpace_gap l .returned
      have hdrop : ((l.gap .body).chars ++ ("return".toList ++ (c :: gap
          ++ ("NativeCall".toList ++ (l.gap .call).chars ++ '<' :: rest)))).dropWhile isSpace
            = "return".toList ++ (c :: gap
              ++ ("NativeCall".toList ++ (l.gap .call).chars ++ '<' :: rest)) :=
        dropWhile_run (m.isSpace_gap l .body) rfl
      have hread : afterShape ([.spaces, .text "return", .gap] ++ callShape)
          ((l.gap .body).chars ++ ("return".toList ++ (c :: gap
            ++ ("NativeCall".toList ++ (l.gap .call).chars ++ '<' :: rest)))) = some rest := by
        show ("return".toList.isPrefixOf? (List.dropWhile isSpace _)).bind
          (afterShape (.gap :: callShape)) = some rest
        rw [hdrop]
        show (if isSpace c = true then some (List.dropWhile isSpace (gap ++ _)) else none).bind
          (afterShape callShape) = some rest
        rw [if_pos (hspaces c List.mem_cons_self), Option.bind_some,
          hcall gap fun a ha => hspaces a (List.mem_cons_of_mem _ ha), hshape]
      simp only [if_true, hgap, List.append_assoc] at hread ⊢
      rw [hread]

/-- The key is found in the native call whatever the gaps are. -/
theorem afterKeyQuote_call (rest : List Char) :
    afterKeyQuote (m.callTypes l ++ m.callReceiver l ++ rest) = some rest := by
  have hblanks := fun place => balanced_of_isBlank (l.gap place).isBlank_of_mem
  have htypes : ∀ after, afterTypes 0 (m.callTypes l ++ after) = some after := by
    intro after
    rw [callTypes, List.append_assoc, List.append_assoc, List.append_assoc,
      (hblanks _).1.afterTypes (hblanks _).2, m.types_balanced.afterTypes m.types_unended,
      (hblanks _).1.afterTypes (hblanks _).2]
    rfl
  have hreceiver : ∀ after, afterReceiver 0 ((l.gap .beforeReceiver).chars ++ (m.receiver.chars
      ++ ((l.gap .afterReceiver).chars ++ ',' :: after))) = some after := by
    intro after
    rw [afterReceiver_append fun c hc => .inl ((l.gap .beforeReceiver).isBlank_of_mem c hc),
      afterReceiver_append fun c hc => .inr (m.receiver.isIdent_of_mem c hc),
      afterReceiver_append fun c hc => .inl ((l.gap .afterReceiver).isBlank_of_mem c hc)]
    rfl
  have hopen := fun after => afterMark_append (c := '(') rfl (l.gap .arguments).isBlank_of_mem after
  have hquote := fun after =>
    afterMark_append (c := '"') rfl (l.gap .beforeKey).isBlank_of_mem after
  rw [afterKeyQuote, List.append_assoc, htypes, callReceiver]
  simp only [List.append_assoc, List.cons_append, List.nil_append, Option.bind_some, hopen,
    hreceiver, hquote]

theorem quoted_key (rest : List Char) : quoted (m.key ++ '"' :: rest) = m.key := by
  have hall : ∀ c ∈ m.key, (c != '"' && c != '\n') = true := by
    intro c hc
    rw [Bool.and_eq_true, bne_iff_ne, bne_iff_ne]
    exact ⟨fun h => m.key_noQuote (h ▸ hc), fun h => m.key_noLineFeed (h ▸ hc)⟩
  rw [quoted, takeWhile_run hall rfl, dropWhile_run hall rfl]
  rfl

/-- **A method is read whatever its gaps are,** where a declaration may begin. -/
theorem methodAt_laidOut (className : String) {before : List Char} (h : Fresh before)
    (after : List Char) :
    methodAt className ⟨(m.head l).reverse ++ before, m.body l ++ after⟩
      = some (m.declared className
          (declaration ⟨(m.head l).reverse ++ before, m.body l ++ after⟩ before)) := by
  have hbody : m.body l ++ after = m.returnText l ++ "NativeCall".toList ++ (l.gap .call).chars
      ++ '<' :: (m.callTypes l ++ m.callReceiver l ++ (m.key ++ '"' :: after)) := by
    simp only [body, List.append_assoc, List.cons_append, List.nil_append]
  have hkey : (afterCall (m.body l ++ after)).bind afterKeyQuote
      = some (m.key ++ '"' :: after) := by
    rw [hbody, afterCall_returnText, Option.bind_some, afterKeyQuote_call]
  have hparameters := readList_spaces (m.isSpace_gap l .beforeParameters)
    (m.isSpace_gap l .afterParameters) m.parameters
  rw [methodAt_eq, m.methodHead_head l h, Option.bind_some, m.isMethodName,
    if_neg Bool.false_ne_true, hkey, Option.map_some, quoted_key, hparameters]
  rfl

end MethodParts

end Header
end NativeHooks
