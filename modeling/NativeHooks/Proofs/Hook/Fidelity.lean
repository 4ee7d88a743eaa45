/-
# From a header to the declaration of a hook and back

Hook code written for a method of a header begins with a declaration that should give
back the class, the name and the parameter types of the method.  It does so for most
methods, but not for all, and what decides it is how types are read from a header:

* A parameter list is read with every gap written as one space.  A return type is not,
  and keeps the line breaks inside its angle brackets.  The declaration then is no
  single line, and nothing is read from it.
* Parameters are told apart by counting parentheses and angle brackets together, so the
  `>` of an arrow closes a parenthesis and a type may be cut off inside one.  The
  declaration is read by its parentheses alone, and then ends too early or not at all.

`read?_hookCode_iff` says that there is no other reason.
-/

import NativeHooks.Proofs.Declaration.Parameters
import NativeHooks.Proofs.Header.Parts
import NativeHooks.Proofs.Hook.RoundTrip

namespace NativeHooks

open Text

/-- The type `void` is written on one line. -/
theorem not_mem_of_isVoid {type : String} (h : isVoid type = true) : '\n' ∉ type.toList := by
  intro hmem
  rw [isVoid, beq_iff_eq, asciiLower] at h
  have hlower : Char.toLower '\n' ∈ "void".toList := h ▸ List.mem_map_of_mem hmem
  exact absurd hlower (by decide)

namespace DeclaredHook

/-- The parameter types of a hook are the last arguments of its declaration. -/
theorem parameterTypes_suffix {arguments : List (List Char)} {hook : DeclaredHook}
    (h : ofArguments arguments = some hook) :
    hook.parameterTypes.map String.toList <:+ arguments := by
  have hid : ∀ types : List (List Char), (types.map String.ofList).map String.toList = types := by
    intro types
    rw [List.map_map]
    exact (List.map_congr_left fun _ _ => String.toList_ofList).trans (List.map_id _)
  match arguments, h with
  | hookName :: returnType :: types, h =>
      rw [ofArguments] at h
      split at h
      · exact absurd h.symm (Option.some_ne_none _)
      · have hall : types <:+ hookName :: returnType :: types := ⟨[hookName, returnType], rfl⟩
        rcases types with _ | ⟨first, more⟩
        · obtain rfl := Option.some.inj h
          exact hall
        · simp only at h
          split at h
          · obtain rfl := Option.some.inj h
            rw [hid]
            exact (List.suffix_cons first more).trans hall
          · obtain rfl := Option.some.inj h
            rw [hid]
            exact hall

/-- No character is read more often than it is written. -/
theorem count_parameterTypes_le {w : List Char} {hook : DeclaredHook}
    (h : ofArguments ((splitTopLevel ',' w).map trim) = some hook) (c : Char) :
    (hook.parameterTypes.map String.toList).flatten.count c ≤ w.count c := by
  have htrim : ∀ pieces : List (List Char), (pieces.map trim).flatten.Sublist pieces.flatten := by
    intro pieces
    induction pieces with
    | nil => exact List.Sublist.refl _
    | cons p pieces ih => exact (trim_sublist p).append ih
  obtain ⟨before, hbefore⟩ := parameterTypes_suffix h
  have htypes : (hook.parameterTypes.map String.toList).flatten.Sublist
      ((splitTopLevel ',' w).map trim).flatten := by
    rw [← hbefore, List.flatten_append]
    exact List.sublist_append_right _ _
  exact ((htypes.trans (htrim _)).trans (flatten_splitTopLevel_sublist rfl w)).count_le c

end DeclaredHook

namespace Header.ReadMethod

variable {m : Method}

theorem trim_className (h : ReadMethod m) : trim m.className.toList = m.className.toList :=
  trim_of_forall fun c hc => isSpace_eq_false_of_isWord (h.className c hc)

/-- The types of the parameters are trimmed already. -/
theorem map_trim_types (h : ReadMethod m) :
    ((m.parameters.map (·.type)).map String.toList).map trim
      = (m.parameters.map (·.type)).map String.toList := by
  obtain ⟨cs, hcs⟩ := h.parameters
  have htrim : ∀ w ∈ (m.parameters.map (·.type)).map String.toList, trim w = w := by
    intro w hw
    rw [hcs, List.map_map] at hw
    obtain ⟨p, hp, rfl⟩ := List.mem_map.1 hw
    exact (Parameter.spaces_of_mem_readList hp).1
  exact (List.map_congr_left htrim).trans (List.map_id _)

/-- A character that is no part of a word stands in no name of a declaration and in no
receiver. -/
theorem not_mem_names (h : ReadMethod m) {c : Char} (hword : isWord c = false) (hstar : c ≠ '*') :
    c ∉ m.hookName.toList ∧ c ∉ (m.className ++ "*").toList := by
  refine ⟨not_mem_of_class (Method.isWord_hookName h.className h.name) hword, fun hc => ?_⟩
  rw [String.toList_append, List.mem_append] at hc
  rcases hc with hc | hc
  · exact not_mem_of_class h.className hword hc
  · exact hstar (List.mem_singleton.1 hc)

/-- The return type as a declaration has it is a type as well. -/
theorem typeLike_returnType (h : ReadMethod m) :
    TypeLike (if isVoid m.returnType then "void" else m.returnType).toList := by
  split
  · exact typeLike_of_isIdent (List.all_eq_true.1 rfl)
  · exact h.returnType

/-- The arguments of a declaration have parentheses only in the types of parameters. -/
theorem no_parens (h : ReadMethod m) :
    ∀ t ∈ [m.hookName.toList, (if isVoid m.returnType then "void" else m.returnType).toList,
      (m.className ++ "*").toList], '(' ∉ t ∧ ')' ∉ t := by
  have htype : ∀ {c : Char}, endsType c = true →
      c ∉ (if isVoid m.returnType then "void" else m.returnType).toList :=
    not_mem_of_outside h.typeLike_returnType.endsType_eq_false
  have hopen := h.not_mem_names (c := '(') rfl (by decide)
  have hclose := h.not_mem_names (c := ')') rfl (by decide)
  intro t ht
  simp only [List.mem_cons, List.not_mem_nil, or_false] at ht
  rcases ht with rfl | rfl | rfl
  · exact ⟨hopen.1, hclose.1⟩
  · exact ⟨htype rfl, htype rfl⟩
  · exact ⟨hopen.2, hclose.2⟩

end Header.ReadMethod

namespace Method

/-- The types of the parameters, as they are joined in a declaration. -/
def parameterText (m : Method) : List Char := joined (m.parameters.map (·.type.toList))

section Object

variable {m : Method} (h : Header.ReadMethod m) (hobject : m.isStatic = false)

include h hobject

/-- All parentheses of a declaration are in the types of its parameters. -/
theorem openParens_hookArguments :
    openParens 0 (joined m.hookArguments) = openParens 0 m.parameterText := by
  rw [hookArguments_object hobject, List.map_map]
  exact openParens_joined_append h.no_parens _

theorem count_hookArguments :
    (joined m.hookArguments).count ')'
      = ((m.parameters.map (·.type)).map String.toList).flatten.count ')' := by
  have hzero : ∀ t ∈ [m.hookName.toList,
      (if isVoid m.returnType then "void" else m.returnType).toList,
      (m.className ++ "*").toList], t.count ')' = 0 := fun t ht =>
    List.count_eq_zero.2 (h.no_parens t ht).2
  rw [count_joined (by decide) (by decide), hookArguments_object hobject]
  simp only [List.flatten_cons, List.count_append]
  rw [hzero _ (by simp), hzero _ (by simp), hzero _ (by simp)]
  simp

/-- A declaration is a single line if its return type is. -/
theorem not_mem_hookArguments (hline : '\n' ∉ m.returnType.toList) :
    '\n' ∉ joined m.hookArguments := by
  intro hmem
  have hnames := h.not_mem_names (c := '\n') rfl (by decide)
  rcases mem_joined hmem with hc | hc | ⟨t, ht, hc⟩
  · exact absurd hc (by decide)
  · exact absurd hc (by decide)
  · rw [hookArguments_object hobject] at ht
    simp only [List.mem_cons] at ht
    rcases ht with rfl | rfl | rfl | ht
    · exact hnames.1 hc
    · split at hc
      · exact absurd hc (by decide)
      · exact hline hc
    · exact hnames.2 hc
    · obtain ⟨cs, hcs⟩ := h.parameters
      rw [hcs, List.map_map] at ht
      obtain ⟨p, hp, rfl⟩ := List.mem_map.1 ht
      have hspace := (Parameter.spaces_of_mem_readList hp).2 '\n' hc rfl
      exact absurd hspace (by decide)

/-- The types of a declaration stay apart. -/
theorem separable_hookArguments : Separable m.hookArguments := by
  have hname := argumentText_hookName h.className h.name
  have hreceiver := argumentText_receiver h.className
  have htypes : Separable ((m.parameters.map (·.type)).map String.toList) := by
    obtain ⟨cs, hcs⟩ := h.parameters
    rw [hcs, List.map_map]
    exact Parameter.separable_readList cs
  have htype := h.typeLike_returnType
  rw [hookArguments_object hobject]
  exact separable_cons.2 ⟨hname.guarded, fun _ => hname.depth_eq_zero,
    separable_cons.2 ⟨htype.guarded, fun _ => htype.depth_eq_zero,
      separable_cons.2 ⟨hreceiver.guarded, fun _ => hreceiver.depth_eq_zero, htypes⟩⟩⟩

/-- A line break in the return type ends the reading before the parameters. -/
theorem argumentsInside_returnType (hbreak : '\n' ∈ m.returnType.toList) (rest : List Char) :
    DeclaredHook.argumentsInside 0 (joined m.hookArguments ++ rest) = none := by
  have hvoid : isVoid m.returnType = false := by
    rw [Bool.eq_false_iff]
    exact fun hvoid => not_mem_of_isVoid hvoid hbreak
  obtain ⟨u, v, huv, hu⟩ := List.eq_append_cons_of_mem hbreak
  have htype : ∀ {c : Char}, Header.endsType c = true → c ∉ u :=
    not_mem_of_outside fun c hc =>
      h.returnType.endsType_eq_false c (huv ▸ List.mem_append_left _ hc)
  have hnot : ∀ {c : Char}, c ∉ m.hookName.toList → c ≠ ',' → c ≠ ' ' → c ∉ u →
      c ∉ m.hookName.toList ++ ',' :: ' ' :: u := by
    intro c hname hcomma hspace hu
    simp only [List.mem_append, List.mem_cons, not_or]
    exact ⟨hname, hcomma, hspace, hu⟩
  have hline : '\n' ∉ m.hookName.toList ++ ',' :: ' ' :: u :=
    hnot (h.not_mem_names rfl (by decide)).1 (by decide) (by decide) hu
  have hparens : openParens 0 (m.hookName.toList ++ ',' :: ' ' :: u) = some 0 := by
    refine openParens_of_not_mem ?_ ?_ 0
    · exact hnot (h.not_mem_names rfl (by decide)).1 (by decide) (by decide) (htype rfl)
    · exact hnot (h.not_mem_names rfl (by decide)).1 (by decide) (by decide) (htype rfl)
  have hsplit : ∃ more, joined m.hookArguments ++ rest
      = (m.hookName.toList ++ ',' :: ' ' :: u) ++ '\n' :: more := by
    rw [hookArguments_object hobject, hvoid, joined_cons_cons, joined_cons_cons,
      if_neg Bool.false_ne_true, huv]
    simp only [List.append_assoc, List.cons_append]
    exact ⟨_, rfl⟩
  obtain ⟨more, hmore⟩ := hsplit
  rw [hmore, DeclaredHook.argumentsInside_lineBreak hline hparens]

theorem legible (hline : '\n' ∉ m.returnType.toList) (hclosed : openParens 0 m.parameterText = some 0) :
    m.Legible where
  oneLine := not_mem_hookArguments h hobject hline
  closed := (openParens_hookArguments h hobject).trans hclosed
  separable := separable_hookArguments h hobject

end Object

/-- **Which methods of a header are read back from their hook code:** of the methods
that belong to an object, those whose return type is on one line and whose parameter
types, all together, close the parentheses that they open. -/
theorem read?_hookCode_iff {text : String} {m : Method}
    (hm : m ∈ (Declarations.ofHeader text).methods) (hobject : m.isStatic = false) :
    (∃ hook, DeclaredHook.read? (m.hookCode true) = some hook ∧ hook.className = m.className ∧
        hook.methodName = m.name ∧ hook.parameterTypes = m.parameters.map (·.type)) ↔
      '\n' ∉ m.returnType.toList ∧ openParens 0 m.parameterText = some 0 := by
  have h := Header.readMethod_of_mem hm
  constructor
  · rintro ⟨hook, hhook, -, -, htypes⟩
    obtain ⟨rest, hrest⟩ := m.toList_hookCode
    rw [DeclaredHook.read?_of_toList hrest] at hhook
    have hline : '\n' ∉ m.returnType.toList := by
      intro hbreak
      rw [argumentsInside_returnType h hobject hbreak] at hhook
      exact absurd hhook.symm (Option.some_ne_none _)
    refine ⟨hline, ?_⟩
    have honeLine := not_mem_hookArguments h hobject hline
    rw [← openParens_hookArguments h hobject]
    rcases hparens : openParens 0 (joined m.hookArguments) with _ | _ | e
    · -- The list ends early: a parenthesis of the types is not read.
      exfalso
      obtain ⟨u, v, huv, hu⟩ := exists_of_openParens_eq_none hparens
      have hlineu : '\n' ∉ u := fun hc => honeLine (huv ▸ List.mem_append_left _ hc)
      rw [huv, List.append_assoc, List.cons_append, DeclaredHook.argumentsInside_closed hlineu hu,
        Option.bind_some] at hhook
      have hcount := count_hookArguments h hobject
      rw [huv, List.count_append, List.count_cons_self, ← htypes] at hcount
      have hfewer := DeclaredHook.count_parameterTypes_le hhook ')'
      omega
    · rfl
    · rw [DeclaredHook.argumentsInside_open honeLine hparens] at hhook
      exact absurd hhook.symm (Option.some_ne_none _)
  · rintro ⟨hline, hclosed⟩
    have hread := (legible h hobject hline hclosed).read?.2
    have hargs : m.hookArguments.map trim = m.hookName.toList
        :: trim (if isVoid m.returnType then "void" else m.returnType).toList
        :: (m.className ++ "*").toList :: (m.parameters.map (·.type)).map String.toList := by
      have hname := argumentText_hookName h.className h.name
      have hreceiver := argumentText_receiver h.className
      rw [hookArguments_object hobject, List.map_cons, List.map_cons, List.map_cons,
        hname.trimmed, hreceiver.trimmed, h.map_trim_types]
    rw [hargs, DeclaredHook.ofArguments_receiver m.hookName_ne_nil
      (receiver?_hookName h.trim_className), map_toList_types] at hread
    exact ⟨_, hread, String.ofList_toList, String.ofList_toList, rfl⟩

/-- The two reasons, at their smallest: a return type on two lines, and an arrow inside
the parentheses of a type. -/
theorem read?_hookCode_unreadable :
    let broken : Method :=
      { className := "A", returnType := "TMap<int,\nfloat>", name := "F", parameters := [],
        isStatic := false, isVirtual := false, nativeSignature := "A.F",
        fullText := "TMap<int,\nfloat> F() \x7b NativeCall<int>(this, \"A.F\"); \x7d",
        sourceLabel := "" }
    let cut : Method :=
      { className := "A", returnType := "int", name := "G",
        parameters := [⟨"decltype(a->b +", "c) x"⟩], isStatic := false, isVirtual := false,
        nativeSignature := "A.G",
        fullText := "int G(decltype(a->b + c) x) \x7b NativeCall<int>(this, \"A.G\"); \x7d",
        sourceLabel := "" }
    ∀ m ∈ [broken, cut], ¬∃ hook, DeclaredHook.read? (m.hookCode true) = some hook ∧
      hook.className = m.className ∧ hook.methodName = m.name ∧
      hook.parameterTypes = m.parameters.map (·.type) := by
  intro broken cut m hm
  have hread : m ∈ (Declarations.ofHeader ("struct A\n\x7b\n" ++ m.fullText)).methods := by
    rcases List.mem_pair.1 hm with rfl | rfl <;> decide +kernel
  have hobject : m.isStatic = false := by
    rcases List.mem_pair.1 hm with rfl | rfl <;> rfl
  rw [read?_hookCode_iff hread hobject]
  rcases List.mem_pair.1 hm with rfl | rfl <;> decide

end Method

end NativeHooks
