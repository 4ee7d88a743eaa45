/-
# Registration keys are unambiguous

A hook is registered under a key made of the class, the name and the parameter types of its
method, so two methods that have a key in common would be taken for one another.  No two
methods of headers do, however malformed their parameter lists are, unless class, name and
types are the same (`key_eq_key_iff`).

Class and name are told apart by the characters that follow them, which neither contains.
The types are what stands between the first opening and the last closing parenthesis of the
key (`keyTypes`): they are separable, so the list that they are joined to is split into them
again.  No type is empty, so the list of no types is not the list of one.
-/

import NativeHooks.Proofs.Hook.Fidelity

namespace NativeHooks

open Text

namespace Method

/-- What stands in a key between its first opening and its last closing parenthesis. -/
def keyList (key : List Char) : List Char :=
  (beforeLast? ')' (key.dropWhile (· != '(')).tail).getD []

/-- The parameter types that a key names. -/
def keyTypes (key : String) : List String :=
  ((splitTopLevel ',' (keyList key.toList)).map trim).map String.ofList

/-! ### The parts of a key -/

/-- A key is the class up to a dot, the name up to a parenthesis, and the types up to the
parenthesis that it ends with. -/
theorem toList_key (m : Method) :
    m.key.toList
      = m.className.toList ++ '.' :: (m.name.toList ++ '(' :: (m.parameterText ++ [')'])) := by
  have htypes : (", ".intercalate (m.parameters.map (·.type))).toList = m.parameterText := by
    rw [String.toList_intercalate, List.map_map]
    rfl
  simp only [key, String.toList_append, htypes, List.append_assoc]
  rfl

section Read

variable {m n : Method} (h : Header.ReadMethod m)

include h

/-- The first parenthesis of a key opens the list of types, and the last one closes it. -/
theorem keyList_key : keyList m.key.toList = m.parameterText := by
  have hbefore : ∀ c ∈ m.className.toList ++ '.' :: m.name.toList, (c != '(') = true := by
    intro c hc
    rw [bne_iff_ne]
    rintro rfl
    rcases List.mem_append.1 hc with hc | hc
    · exact not_mem_of_class h.className rfl hc
    · rcases List.mem_cons.1 hc with hc | hc
      · exact absurd hc (by decide)
      · exact not_mem_of_class h.name rfl hc
  have hkey : m.key.toList
      = (m.className.toList ++ '.' :: m.name.toList) ++ '(' :: (m.parameterText ++ [')']) := by
    rw [toList_key, List.append_assoc, List.cons_append]
  rw [keyList, hkey, dropWhile_run hbefore rfl, List.tail_cons,
    (afterLast_append m.parameterText List.not_mem_nil).2, Option.getD_some]

/-- **The joined types of a method are split into its types.** -/
theorem map_trim_parameterText :
    (splitTopLevel ',' m.parameterText).map trim = m.parameters.map (·.type.toList) := by
  obtain ⟨cs, hcs⟩ := h.parameters
  have hseparable := Parameter.separable_readList cs
  have htrim : (m.parameters.map (·.type.toList)).map trim = m.parameters.map (·.type.toList) := by
    simpa only [List.map_map, Function.comp_def] using h.map_trim_types
  rw [← hcs] at hseparable
  rw [parameterText]
  rcases hparameters : m.parameters with _ | ⟨p, more⟩
  · rfl
  · have hne : p.type.toList ≠ [] :=
      Parameter.type_ne_nil_of_mem_readList (hcs ▸ hparameters ▸ List.mem_cons_self)
    rw [hparameters] at hseparable htrim
    exact (DeclaredHook.map_trim_splitTopLevel hseparable hne).trans htrim

theorem keyTypes_key : keyTypes m.key = m.parameters.map (·.type) := by
  rw [keyTypes, keyList_key h, map_trim_parameterText h, List.map_map]
  exact List.map_congr_left fun p _ => String.ofList_toList

/-- Equal keys are equal part by part. -/
theorem parts_eq_of_key_eq (hn : Header.ReadMethod n) (heq : m.key = n.key) :
    m.className = n.className ∧ m.name = n.name := by
  have hchars : m.key.toList = n.key.toList := congrArg String.toList heq
  rw [toList_key, toList_key] at hchars
  obtain ⟨hclass, hrest⟩ := run_inj h.className hn.className rfl hchars
  obtain ⟨hname, -⟩ := run_inj h.name hn.name rfl hrest
  exact ⟨String.toList_injective hclass, String.toList_injective hname⟩

end Read

/-- **Methods of headers have the same key exactly if class, name and parameter types are the
same,** and the key gives the types back. -/
theorem key_eq_key_iff {text other : String} {m n : Method}
    (hm : m ∈ (Declarations.ofHeader text).methods)
    (hn : n ∈ (Declarations.ofHeader other).methods) :
    (m.key = n.key ↔ m.className = n.className ∧ m.name = n.name ∧
      m.parameters.map (·.type) = n.parameters.map (·.type)) ∧
    keyTypes m.key = m.parameters.map (·.type) := by
  have hread := Header.readMethod_of_mem hm
  have hother := Header.readMethod_of_mem hn
  refine ⟨⟨fun heq => ?_, fun ⟨hclass, hname, htypes⟩ => ?_⟩, keyTypes_key hread⟩
  · obtain ⟨hclass, hname⟩ := parts_eq_of_key_eq hread hother heq
    have htypes : keyTypes m.key = keyTypes n.key := congrArg keyTypes heq
    rw [keyTypes_key hread, keyTypes_key hother] at htypes
    exact ⟨hclass, hname, htypes⟩
  · rw [key, key, hclass, hname, htypes]

/-- Two parameter lists that leave a bracket open, in different layouts and under different
names, and their common key. -/
theorem key_eq_key_iff_malformed :
    let list (parameters : String) : String :=
      "struct A\n\x7b\nint F(" ++ parameters ++ ") \x7b NativeCall<int>(this, \"A.F\"); \x7d"
    let method (parameters : String) (read : List Parameter) : Method :=
      { className := "A", returnType := "int", name := "F", parameters := read,
        isStatic := false, isVirtual := false, nativeSignature := "A.F",
        fullText := "int F(" ++ parameters ++ ") \x7b NativeCall<int>(this, \"A.F\"); \x7d",
        sourceLabel := "" }
    let m := method "B<C, D> e, F<G, int h" [⟨"B<C, D>", "e"⟩, ⟨"F<G, int h", "arg1"⟩]
    let n := method "B<C,\n  D> = 0, F<G, int  h" [⟨"B<C, D>", "arg0"⟩, ⟨"F<G, int h", "arg1"⟩]
    m ∈ (Declarations.ofHeader (list "B<C, D> e, F<G, int h")).methods ∧
      n ∈ (Declarations.ofHeader (list "B<C,\n  D> = 0, F<G, int  h")).methods ∧
      m.key = n.key ∧ keyTypes m.key = ["B<C, D>", "F<G, int h"] := by
  intro list method m n
  have hm : m ∈ (Declarations.ofHeader (list "B<C, D> e, F<G, int h")).methods := by
    decide +kernel
  have hn : n ∈ (Declarations.ofHeader (list "B<C,\n  D> = 0, F<G, int  h")).methods := by
    decide +kernel
  obtain ⟨hiff, htypes⟩ := key_eq_key_iff hm hn
  exact ⟨hm, hn, hiff.2 ⟨rfl, rfl, rfl⟩, htypes⟩

end Method

end NativeHooks
