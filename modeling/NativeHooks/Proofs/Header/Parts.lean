/-
# What the parts of a declaration are made of

Whatever a header is, its class is a run of word characters and the name of a method
a run of identifier characters.  A return type is qualifiers and a core that was read
as one token or as two (`typeBefore_shape`).  It holds no parenthesis, brace, quote or
semicolon, and every comma in it stands inside brackets (`typeBefore_spec`).
Nothing of the kind holds of its spaces: inside angle brackets every character but
these is kept, line breaks too.
-/

import Mathlib.Data.Option.Basic
import NativeHooks.Header.Reading
import NativeHooks.Proofs.Header.TypeReading

namespace NativeHooks
namespace Header

open Text

/-! ### Names -/

theorem identBefore_spec {before name rest : List Char} (h : identBefore before = some (name, rest)) :
    name ≠ [] ∧ ∀ c ∈ name, isIdent c = true := by
  simp only [identBefore] at h
  split at h
  · exact absurd h.symm (Option.some_ne_none _)
  · next hne =>
      obtain ⟨rfl, -⟩ := Prod.mk.inj (Option.some.inj h)
      constructor
      · intro hnil
        rw [List.reverse_eq_nil_iff] at hnil
        exact hne (List.isEmpty_iff.2 hnil)
      · exact fun c hc => List.mem_takeWhile_imp (List.mem_reverse.1 hc)

theorem wordOnLine_spec {before word rest : List Char} (h : wordOnLine before = some (word, rest)) :
    word ≠ [] ∧ ∀ c ∈ word, isIdent c = true := by
  rw [wordOnLine] at h
  split at h
  · exact absurd h.symm (Option.some_ne_none _)
  · exact identBefore_spec h

theorem structName_spec {cs name : List Char} (h : structName cs = some name) :
    name ≠ [] ∧ ∀ c ∈ name, isWord c = true := by
  simp only [structName, Option.bind_eq_bind, Option.bind_eq_some_iff] at h
  obtain ⟨rest, -, h⟩ := h
  split at h
  · exact absurd h.symm (Option.some_ne_none _)
  · next hne =>
      obtain rfl := Option.some.inj h
      exact ⟨fun hnil => hne (List.isEmpty_iff.2 hnil), fun c hc => List.mem_takeWhile_imp hc⟩

/-- What is found at the first place is found at some place of the text. -/
theorem exists_of_atFirstWord {α : Type} {read : List Char → Option α} {inWord : Bool}
    {cs : List Char} {found : α} (h : atFirstWord read inWord cs = some found) :
    ∃ place, place <:+ cs ∧ read place = some found := by
  induction cs generalizing inWord with
  | nil => exact absurd h.symm (Option.some_ne_none _)
  | cons c cs ih =>
      rw [atFirstWord] at h
      split at h
      · next other hother =>
          obtain rfl := Option.some.inj h
          split at hother
          · exact absurd hother.symm (Option.some_ne_none _)
          · exact ⟨_, List.suffix_refl _, hother⟩
      · obtain ⟨place, hsuffix, hplace⟩ := ih h
        exact ⟨place, hsuffix.trans (List.suffix_cons c cs), hplace⟩

theorem isWord_of_mem_className {cs : List Char} {c : Char} (h : c ∈ className cs) :
    isWord c = true := by
  rw [className] at h
  rcases hname : atFirstWord structName false cs with _ | name
  · rw [hname] at h
    exact absurd h List.not_mem_nil
  · obtain ⟨place, -, hplace⟩ := exists_of_atFirstWord hname
    rw [hname] at h
    exact (structName_spec hplace).2 c h

/-! ### Types -/

/-- A text that closes the angle brackets it opens and holds no character that no
type contains; its commas are inside brackets. -/
structure TypeLike (w : List Char) : Prop where
  endsType_eq_false : ∀ c ∈ w, endsType c = false
  depth_eq_zero : depth w = 0
  guarded : Guarded ',' 0 w

theorem Opens.typeLike {w : List Char} (h : Opens 0 w) : TypeLike w where
  endsType_eq_false := h.endsType_eq_false
  depth_eq_zero := h.depth_eq
  guarded := guarded_iff.2 fun u v hw => by
    have := (h.opened u ',' v hw).2 (.inl rfl)
    omega

theorem tokenBefore_spec {before token rest : List Char}
    (h : tokenBefore before = some (token, rest)) : token ≠ [] ∧ Opens 0 token := by
  rw [tokenBefore] at h
  split at h
  · next token rest hread =>
      split at h
      · exact absurd h.symm (Option.some_ne_none _)
      · next hne =>
          obtain ⟨rfl, rfl⟩ := Prod.mk.inj (Option.some.inj h)
          refine ⟨fun hnil => hne ?_, tokenInside_spec hread⟩
          rw [List.reverse_eq_nil_iff.1 hnil]
          rfl
  · exact absurd h.symm (Option.some_ne_none _)

theorem TypeLike.append {u v : List Char} (hu : TypeLike u) (hv : TypeLike v) :
    TypeLike (u ++ v) where
  endsType_eq_false c hc := by
    rcases List.mem_append.1 hc with hc | hc
    · exact hu.endsType_eq_false c hc
    · exact hv.endsType_eq_false c hc
  depth_eq_zero := by rw [depth_append, hu.depth_eq_zero, hv.depth_eq_zero, Int.add_zero]
  guarded := by
    rw [guarded_append, hu.depth_eq_zero, Int.add_zero]
    exact ⟨hu.guarded, hv.guarded⟩

/-- A word may stand in a type. -/
theorem typeLike_of_isIdent {word : List Char} (h : ∀ c ∈ word, isIdent c = true) :
    TypeLike word where
  endsType_eq_false c hc := (isTypeChar_iff.1 (@isTypeChar_of_isIdent false c (h c hc))).1.1
  depth_eq_zero := depth_eq_zero fun c hc => nesting_eq_zero_of_isIdent (h c hc)
  guarded := guarded_of_not_mem (not_mem_of_class h rfl) 0

theorem typeLike_space : TypeLike [' '] where
  endsType_eq_false c hc := by
    obtain rfl := List.mem_singleton.1 hc
    rfl
  depth_eq_zero := rfl
  guarded := by decide

theorem typeLike_qualifierText (qualifiers : List Qualifier) :
    TypeLike (qualifierText qualifiers) := by
  induction qualifiers with
  | nil => exact opens_nil.typeLike
  | cons q qualifiers ih =>
      rw [qualifierText, List.flatMap_cons]
      exact ((typeLike_of_isIdent q.isIdent_of_mem).append typeLike_space).append ih

/-- What is found before a type are qualifiers. -/
theorem exists_qualified (type before : List Char) :
    ∃ qualifiers, (qualified type before).1 = qualifierText qualifiers ++ type := by
  induction type, before using qualified.induct with
  | case1 type before word rest hword hqualifier ih =>
      obtain ⟨qualifiers, hread⟩ := ih
      let q : Qualifier := ⟨String.ofList word, List.contains_iff_mem.1 hqualifier⟩
      have hq : q.val.toList = word := String.toList_ofList
      refine ⟨qualifiers ++ [q], ?_⟩
      rw [qualified_of_word hword, if_pos hqualifier, hread, qualifierText_concat, hq,
        List.append_assoc, List.append_assoc]
      rfl
  | case2 type before word rest hword hqualifier =>
      rw [qualified_of_word hword, if_neg hqualifier]
      exact ⟨[], rfl⟩
  | case3 type before hword =>
      rw [qualified_of_none hword]
      exact ⟨[], rfl⟩

/-- **A type is qualifiers and a core,** and the core opens the angle brackets that it closes.
A mark that stands alone is not a core, but belongs to the one before it. -/
theorem typeBefore_shape {before type rest : List Char}
    (h : typeBefore before = some (type, rest)) :
    ∃ qualifiers core, type = qualifierText qualifiers ++ core ∧ core ≠ [] ∧ Opens 0 core ∧
      core ∉ [['&'], ['*']] := by
  simp only [typeBefore, Option.bind_eq_bind, Option.bind_eq_some_iff] at h
  obtain ⟨⟨token, left⟩, htoken, h⟩ := h
  obtain ⟨hne, hopens⟩ := tokenBefore_spec htoken
  split at h
  · obtain ⟨⟨base, further⟩, hbase, h⟩ := Option.bind_eq_some_iff.1 h
    obtain ⟨rfl, rfl⟩ := Prod.mk.inj (Option.some.inj h)
    obtain ⟨hbase_ne, hbase_opens⟩ := tokenBefore_spec hbase
    obtain ⟨qualifiers, hread⟩ := exists_qualified (base ++ token) further
    refine ⟨qualifiers, base ++ token, hread, List.append_ne_nil_of_left_ne_nil hbase_ne _,
      hbase_opens.append hopens, fun hmem => ?_⟩
    have hlength : (base ++ token).length = 1 := by
      rcases List.mem_pair.1 hmem with h | h <;> rw [h] <;> rfl
    have := List.length_pos_iff.2 hbase_ne
    have := List.length_pos_iff.2 hne
    rw [List.length_append] at hlength
    omega
  · next hmarks =>
    obtain ⟨rfl, rfl⟩ := Prod.mk.inj (Option.some.inj h)
    obtain ⟨qualifiers, hread⟩ := exists_qualified token left
    refine ⟨qualifiers, token, hread, hne, hopens, fun hmem => hmarks ?_⟩
    rcases List.mem_pair.1 hmem with h | h <;> rw [h] <;> rfl

/-- **A type holds none of the characters that end one, and all its commas are inside
angle brackets.** -/
theorem typeBefore_spec {before type rest : List Char} (h : typeBefore before = some (type, rest)) :
    TypeLike type := by
  obtain ⟨qualifiers, core, rfl, -, hcore, -⟩ := typeBefore_shape h
  exact (typeLike_qualifierText qualifiers).append hcore.typeLike

/-! ### Methods -/

/-- What is known of a method that was read from some header. -/
structure ReadMethod (m : Method) : Prop where
  className : ∀ c ∈ m.className.toList, isWord c = true
  name_ne_nil : m.name.toList ≠ []
  name : ∀ c ∈ m.name.toList, isIdent c = true
  returnType : TypeLike m.returnType.toList
  parameters : ∃ cs, m.parameters = Parameter.readList cs

theorem isWord_className_ofHeader (text : String) :
    ∀ c ∈ (Declarations.ofHeader text).className.toList, isWord c = true := by
  intro c hc
  rw [Declarations.ofHeader, read, String.toList_ofList] at hc
  exact isWord_of_mem_className hc

theorem readMethod_of_mem {text : String} {m : Method}
    (h : m ∈ (Declarations.ofHeader text).methods) : ReadMethod m := by
  obtain ⟨o, -, hm⟩ := List.mem_filterMap.1 h
  simp only [methodAt, Option.bind_eq_bind, Option.bind_eq_some_iff] at hm
  obtain ⟨call, -, ⟨parameters, r₁⟩, -, ⟨name, r₂⟩, hname, -, -, ⟨returnType, r₃⟩, htype,
    signature, -, hm⟩ := hm
  obtain rfl := Option.some.inj hm
  obtain ⟨hne, hident⟩ := identBefore_spec hname
  refine ⟨isWord_className_ofHeader text, ?_, ?_, ?_, parameters, rfl⟩
  · rwa [String.toList_ofList]
  · rwa [String.toList_ofList]
  · rw [String.toList_ofList]
    exact typeBefore_spec htype

/-- All methods of a header belong to its class. -/
theorem className_eq_of_mem {text : String} {m : Method}
    (h : m ∈ (Declarations.ofHeader text).methods) :
    m.className = (Declarations.ofHeader text).className := by
  obtain ⟨o, -, hm⟩ := List.mem_filterMap.1 h
  simp only [methodAt, Option.bind_eq_bind, Option.bind_eq_some_iff] at hm
  obtain ⟨_, -, _, -, _, -, _, -, _, -, _, -, hm⟩ := hm
  obtain rfl := Option.some.inj hm
  rfl

end Header
end NativeHooks
