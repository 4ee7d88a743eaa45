/-
# The types that headers have

A type is read from its end: angle brackets are counted from where they close, and a
token may end at a blank, a comma, a bracket, any character that no type contains or the
start of the text.  However it ends, what was read is nested from its start as well
(`tokenInside_spec`), and neither a mark that is put back to the token before it nor the
qualifiers found further on change that (`typeBefore_shape`).

`IsTypeText` states the shape by counting angle brackets in reading order.  The types of
methods and of plain fields have it, in whatever header, and every text that has it is the
type of a method and of a field (`types_ofHeader`): nothing more can be said of types.
-/

import NativeHooks.Proofs.Header.LaidOut

namespace NativeHooks
namespace Header

open Text

/-! ### The shape of a type -/

/-- What a type is without its qualifiers. -/
structure IsCore (core : List Char) : Prop where
  ne_nil : core ≠ []
  /-- A mark that stands alone belongs to the token before it. -/
  not_mark : core ∉ [['&'], ['*']]
  endsType_eq_false : ∀ c ∈ core, endsType c = false
  /-- Nowhere have more angle brackets been closed than opened, -/
  count_le : ∀ u, u <+: core → u.count '>' ≤ u.count '<'
  /-- and at the end as many. -/
  count_eq : core.count '>' = core.count '<'
  /-- Commas and blanks stand inside of angle brackets. -/
  inside : ∀ u c v, core = u ++ c :: v → c = ',' ∨ isBlank c = true → u.count '>' < u.count '<'

/-- A type: qualifiers, each with one space after it, and a core. -/
def IsTypeText (text : List Char) : Prop :=
  ∃ qualifiers core, text = qualifierText qualifiers ++ core ∧ IsCore core

/-- In a type only angle brackets nest. -/
theorem depth_eq_count {w : List Char} (h : ∀ c ∈ w, endsType c = false) :
    depth w = (w.count '<' : Int) - w.count '>' := by
  induction w with
  | nil => rfl
  | cons c w ih =>
      rw [depth_cons, ih fun a ha => h a (List.mem_cons_of_mem _ ha)]
      by_cases hopen : c = '<'
      · subst hopen
        rw [List.count_cons_self, List.count_cons_of_ne (by decide), show nesting '<' = 1 from rfl]
        omega
      by_cases hclose : c = '>'
      · subst hclose
        rw [List.count_cons_self, List.count_cons_of_ne (by decide), show nesting '>' = -1 from rfl]
        omega
      · rw [List.count_cons_of_ne hopen, List.count_cons_of_ne hclose,
          nesting_eq_zero_of_endsType (h c List.mem_cons_self) hopen hclose, Int.zero_add]

/-- A core opens the angle brackets that it closes. -/
theorem isCore_iff {core : List Char} :
    IsCore core ↔ core ≠ [] ∧ core ∉ [['&'], ['*']] ∧ Opens 0 core := by
  have hcount : ∀ {u v : List Char}, (∀ c ∈ u ++ v, endsType c = false) →
      depth u = (u.count '<' : Int) - u.count '>' := fun h =>
    depth_eq_count fun c hc => h c (List.mem_append_left _ hc)
  constructor
  · intro h
    refine ⟨h.ne_nil, h.not_mark, h.endsType_eq_false, ?_, fun u c v hcore => ?_⟩
    · rw [depth_eq_count h.endsType_eq_false, h.count_eq, Int.sub_self]
      rfl
    · have hle := h.count_le u ⟨c :: v, hcore.symm⟩
      have hlt := h.inside u c v hcore
      rw [hcount (hcore ▸ h.endsType_eq_false)]
      exact ⟨by omega, fun hc => by have := hlt hc; omega⟩
  · rintro ⟨hne, hmark, h⟩
    refine ⟨hne, hmark, h.endsType_eq_false, ?_, ?_, fun u c v hcore hc => ?_⟩
    · rintro u ⟨v, rfl⟩
      have hdepth := hcount h.endsType_eq_false
      cases v with
      | nil =>
          rw [List.append_nil] at h
          rw [h.depth_eq] at hdepth
          omega
      | cons c v =>
          have hnonneg := (h.opened u c v rfl).1
          omega
    · have hdepth := depth_eq_count h.endsType_eq_false
      rw [h.depth_eq] at hdepth
      omega
    · have hinside := (h.opened u c v hcore).2 hc
      rw [hcount (hcore ▸ h.endsType_eq_false)] at hinside
      omega

theorem isTypeText_of_typeBefore {before type rest : List Char}
    (h : typeBefore before = some (type, rest)) : IsTypeText type := by
  obtain ⟨qualifiers, core, rfl, hne, hopens, hmark⟩ := typeBefore_shape h
  exact ⟨qualifiers, core, rfl, isCore_iff.2 ⟨hne, hmark, hopens⟩⟩

/-- The type of a method is read before its name. -/
theorem exists_typeBefore_of_mem_methods {text : String} {m : Method}
    (h : m ∈ (Declarations.ofHeader text).methods) :
    ∃ before rest, typeBefore before = some (m.returnType.toList, rest) := by
  obtain ⟨o, -, hm⟩ := List.mem_filterMap.1 h
  simp only [methodAt, Option.bind_eq_bind, Option.bind_eq_some_iff] at hm
  obtain ⟨_, -, _, -, ⟨name, before⟩, -, -, -, ⟨type, rest⟩, htype, _, -, hm⟩ := hm
  obtain rfl := Option.some.inj hm
  exact ⟨before, rest, htype.trans (by rw [String.toList_ofList])⟩

/-- The type of a field is read before the name of its accessor. -/
theorem exists_typeBefore_of_mem_fields {text : String} {a : Accessor}
    (h : a ∈ (Declarations.ofHeader text).fields) :
    ∃ before rest, typeBefore before = some (a.type.toList, rest) := by
  obtain ⟨o, -, ha⟩ := List.mem_filterMap.1 h
  simp only [fieldAt, accessorHead, Option.bind_eq_bind, Option.bind_eq_some_iff] at ha
  obtain ⟨_, -, head, ⟨_, -, -, -, ⟨name, before⟩, -, ⟨type, rest⟩, htype, hhead⟩, -, -, ha⟩ := ha
  obtain rfl := Option.some.inj hhead
  obtain rfl := Option.some.inj ha
  exact ⟨before, rest, htype.trans (by rw [String.toList_ofList])⟩

/-! ### Every such text is a type -/

/-- A core as it may be written: of marks alone the first one stands apart, since the
others are put back to it. -/
def spelled : List Char → List Char
  | [] => []
  | c :: w => if (c :: w).all (fun a => a == '&' || a == '*') then c :: ' ' :: w else c :: w

/-- Marks are nested. -/
theorem opens_marks {w : List Char} (h : (w.all fun c => c == '&' || c == '*') = true) :
    Opens 0 w := by
  refine (Nested.of_chars fun c hc => ?_).opens
  have hmark := List.all_eq_true.1 h c hc
  rw [Bool.or_eq_true, beq_iff_eq, beq_iff_eq] at hmark
  rcases hmark with rfl | rfl <;> rfl

/-- A core is read as it was spelled, in one token or in two. -/
theorem typeBefore_spelled {core before : List Char} (hcore : IsCore core) (h : Stops before) :
    typeBefore (' ' :: ((spelled core).reverse ++ before)) = some (qualified core before) := by
  obtain ⟨hne, hsingle, hopens⟩ := isCore_iff.1 hcore
  have hspace : ∀ c ∈ [' '], isBlank c = true := List.all_eq_true.1 rfl
  have htoken : ∀ {w before}, Opens 0 w → w ≠ [] → Stops before →
      tokenBefore (' ' :: (w.reverse ++ before)) = some (w, before) := fun hw hne hstops =>
    hw.tokenBefore hne hspace hstops.tokenInside
  cases core with
  | nil => exact absurd rfl hne
  | cons a w =>
      rcases hmarks : (a :: w).all fun c => c == '&' || c == '*' with _ | _
      · rw [spelled, hmarks, if_neg Bool.false_ne_true]
        exact typeBefore_of_token (htoken hopens hne h) hmarks
      · have hall := hmarks
        rw [List.all_cons, Bool.and_eq_true] at hall
        have hw : w ≠ [] := by
          rintro rfl
          rw [Bool.or_eq_true, beq_iff_eq, beq_iff_eq] at hall
          rcases hall.1 with rfl | rfl <;> exact hsingle (by decide)
        have hfirst : Opens 0 [a] := opens_marks (by rw [List.all_cons, hall.1]; rfl)
        have hbase := htoken hfirst (List.cons_ne_nil _ _) h
        have hrest := htoken (opens_marks hall.2) hw
          (stops_of_isBlank hspace (List.cons_ne_nil _ _) ([a].reverse ++ before))
        have htext : (a :: ' ' :: w).reverse ++ before
            = w.reverse ++ ([' '] ++ ([a].reverse ++ before)) := by
          simp
        rw [spelled, if_pos hmarks, htext]
        exact typeBefore_of_marks hrest hall.2 hbase

/-- A type is read with its qualifiers, each one space apart. -/
theorem typeBefore_qualified (qualifiers : List Qualifier) {core before : List Char}
    (hcore : IsCore core) (h : Unqualified before) :
    typeBefore (' ' :: ((qualifierText qualifiers ++ spelled core).reverse ++ before))
      = some (qualifierText qualifiers ++ core, before) := by
  obtain ⟨b, rest, hrest, hb⟩ := exists_blank_qualifierText qualifiers h
  have hstops : Stops ((qualifierText qualifiers).reverse ++ before) := by
    intro c hc
    rw [hrest] at hc
    obtain rfl : b = c := Option.some.inj hc
    exact .inl hb
  rw [List.reverse_append, List.append_assoc, typeBefore_spelled hcore hstops,
    qualified_qualifierText qualifiers h]

/-- No keyword or qualifier stands before the line feed that a header begins with. -/
theorem atLineStart_first : AtLineStart ['\n'] :=
  ⟨[], [], rfl, fun _ hc => absurd hc List.not_mem_nil⟩

/-- A text that is read as a type before the name of a method is the type of one. -/
theorem exists_method {written type : List Char}
    (h : typeBefore (' ' :: (written.reverse ++ ['\n'])) = some (type, ['\n'])) :
    ∃ text, ∃ m ∈ (Declarations.ofHeader text).methods, m.returnType.toList = type := by
  let head := '\n' :: written ++ " F() ".toList
  let after := "NativeCall<A>(a, \"\"".toList
  have hhead : methodHead head.reverse = some ⟨[], ['F'], type, {}, ['\n']⟩ := by
    have hreverse : head.reverse
        = ' ' :: ')' :: '(' :: 'F' :: ' ' :: (written.reverse ++ ['\n']) := by
      simp [head]
    have hlist : listBefore (dropSpecifier head.reverse)
        = some ([], 'F' :: ' ' :: (written.reverse ++ ['\n'])) := by
      rw [hreverse]
      rfl
    have hname : identBefore ('F' :: ' ' :: (written.reverse ++ ['\n']))
        = some (['F'], ' ' :: (written.reverse ++ ['\n'])) := rfl
    have hkeywords : keywordsBefore {} ['\n'] = ({}, ['\n']) :=
      keywordsBefore_of_none atLineStart_first.wordOnLine
    rw [methodHead, hlist]
    simp only [Option.bind_eq_bind, Option.bind_some, hname, h, hkeywords]
    rfl
  have hcall : (afterCall after).bind afterKeyQuote = some ['"'] := by decide +kernel
  let text := String.ofList (head ++ '{' :: after)
  have hread := methodAt_eq (Declarations.ofHeader text).className ⟨head.reverse, after⟩
  rw [hhead, hcall] at hread
  refine ⟨text, _, List.mem_filterMap.2 ⟨_, ?_, hread⟩, String.toList_ofList⟩
  rw [String.toList_ofList]
  exact mem_openings head after

/-- The same before the name of an accessor. -/
theorem exists_field {written type : List Char}
    (h : typeBefore (' ' :: (written.reverse ++ ['\n'])) = some (type, ['\n'])) :
    ∃ text, ∃ a ∈ (Declarations.ofHeader text).fields, a.type.toList = type := by
  let name : Ident := ⟨accessorSuffix.toList, by decide, List.all_eq_true.1 rfl⟩
  let head := '\n' :: (written ++ ' ' :: name.chars ++ "()".toList) ++ [' ']
  let after := "return *A<".toList
  have hhead : accessorHead head.reverse = some ⟨type, name.chars, ['\n']⟩ := by
    have hreverse : head.reverse
        = ' ' :: ((written ++ ' ' :: name.chars ++ "()".toList).reverse ++ ['\n']) := by
      simp [head]
    rw [hreverse, accessorHead_written name h]
  have hbody : afterShape fieldShape after = some [] := by decide +kernel
  let text := String.ofList (head ++ '{' :: after)
  have hread : fieldAt (Declarations.ofHeader text).className ⟨head.reverse, after⟩ = some
      { className := (Declarations.ofHeader text).className, type := String.ofList type,
        name := accessorSuffix, fullText := declaration ⟨head.reverse, after⟩ ['\n'],
        kind := .plain } := by
    simp only [fieldAt, hbody, hhead, Option.bind_eq_bind, Option.bind_some]
    rfl
  refine ⟨text, _, List.mem_filterMap.2 ⟨_, ?_, hread⟩, String.toList_ofList⟩
  rw [String.toList_ofList]
  exact mem_openings head after

/-- **The types of methods and of plain fields are well nested,** in whatever text: they are
qualifiers, each followed by one space, and a core whose angle brackets close what they
open and enclose all its commas and blanks.  Every such text is the type of a method in some
header, and the type of a field in another. -/
theorem types_ofHeader :
    (∀ text, (∀ m ∈ (Declarations.ofHeader text).methods, IsTypeText m.returnType.toList) ∧
        ∀ a ∈ (Declarations.ofHeader text).fields, IsTypeText a.type.toList) ∧
      ∀ type, IsTypeText type →
        (∃ text, ∃ m ∈ (Declarations.ofHeader text).methods, m.returnType.toList = type) ∧
          ∃ text, ∃ a ∈ (Declarations.ofHeader text).fields, a.type.toList = type := by
  refine ⟨fun text => ⟨fun m hm => ?_, fun a ha => ?_⟩, ?_⟩
  · obtain ⟨before, rest, htype⟩ := exists_typeBefore_of_mem_methods hm
    exact isTypeText_of_typeBefore htype
  · obtain ⟨before, rest, htype⟩ := exists_typeBefore_of_mem_fields ha
    exact isTypeText_of_typeBefore htype
  · rintro type ⟨qualifiers, core, rfl, hcore⟩
    have hread := typeBefore_qualified qualifiers hcore atLineStart_first.unqualified
    exact ⟨exists_method hread, exists_field hread⟩

end Header
end NativeHooks
