/-
# Reading back the declaration of a hook

The declaration of a hook says less than the method that it is written for: class
and method name are joined by `_`, which both may contain, and the receiver is a
type like any other.  Reading guesses them.  The guess is right for every method
that belongs to an object, because the receiver says what the class is.  It is right
for a static method if the name of the class has no `_` and the first parameter is
no pointer that passes for a receiver, and wrong for all others
(`read?_declareMacro_iff`).
-/

import Mathlib.Data.List.TakeWhile
import Mathlib.Data.Option.Basic
import NativeHooks.Proofs.Hook.Arguments

namespace NativeHooks

open Text

/-! ### Class and method name -/

namespace DeclaredHook

/-- A pointer whose class begins the name of a hook is its receiver. -/
theorem receiver?_eq_some_iff {hookName type className methodName : List Char} :
    receiver? hookName type = some (className, methodName) ↔
      ∃ pointee, type = pointee ++ ['*'] ∧ className = trim pointee ∧
        hookName = trim pointee ++ '_' :: methodName := by
  constructor
  · intro h
    rw [receiver?] at h
    by_cases hlast : type.getLast? = some '*'
    · obtain ⟨pointee, rfl⟩ := List.getLast?_eq_some_iff.1 hlast
      simp only [hlast, guard_true, List.dropLast_concat, Option.pure_def, Option.bind_eq_bind,
        Option.bind_some, Option.bind_eq_some_iff, List.isPrefixOf?_eq_some_iff_append_eq] at h
      obtain ⟨rest, hrest, method, hmethod, h⟩ := h
      obtain ⟨rfl, rfl⟩ := Prod.mk.inj (Option.some.inj h)
      exact ⟨pointee, rfl, rfl, hrest ▸ hmethod ▸ rfl⟩
    · have hguard : guard (type.getLast? = some '*') = (none : Option Unit) := if_neg hlast
      rw [hguard] at h
      exact absurd h.symm (Option.some_ne_none _)
  · rintro ⟨pointee, rfl, rfl, rfl⟩
    have hlast : (pointee ++ ['*']).getLast? = some '*' := List.getLast?_concat
    have hclass : (trim pointee).isPrefixOf? (trim pointee ++ '_' :: methodName)
        = some ('_' :: methodName) := List.isPrefixOf?_eq_some_iff_append_eq.2 rfl
    rw [receiver?, hlast, List.dropLast_concat]
    simp only [hclass]
    rfl

/-- A class without `_` is split off. -/
theorem splitName_append {className : List Char} (h : '_' ∉ className) (methodName : List Char) :
    splitName (className ++ '_' :: methodName) = (className, methodName) := by
  have hall : ∀ c ∈ className, (c != '_') = true := by
    intro c hc
    rw [bne_iff_ne]
    rintro rfl
    exact h hc
  rw [splitName, dropWhile_run hall rfl, takeWhile_run hall rfl]

/-- No class with `_` is split off. -/
theorem not_mem_splitName (hookName : List Char) : '_' ∉ (splitName hookName).1 := by
  rw [splitName]
  split
  · exact List.not_mem_nil
  · intro h
    simpa using List.mem_takeWhile_imp h

/-- The first type is the receiver if it passes for it. -/
theorem ofArguments_receiver {hookName first : List Char} {names : List Char × List Char}
    (hne : hookName ≠ []) (h : receiver? hookName first = some names) (returnType : List Char)
    (more : List (List Char)) :
    ofArguments (hookName :: returnType :: first :: more) =
      some { hookName := String.ofList hookName, className := String.ofList names.1,
             methodName := String.ofList names.2, returnType := String.ofList returnType,
             parameterTypes := more.map String.ofList, hasReceiver := true } := by
  rw [ofArguments, if_neg (by simpa using hne)]
  simp only [h]

/-- There is no receiver if the first type does not pass for one. -/
theorem ofArguments_plain {hookName : List Char} {types : List (List Char)} (hne : hookName ≠ [])
    (h : ∀ first ∈ types.head?, receiver? hookName first = none) (returnType : List Char) :
    ofArguments (hookName :: returnType :: types) =
      some { hookName := String.ofList hookName, className := String.ofList (splitName hookName).1,
             methodName := String.ofList (splitName hookName).2,
             returnType := String.ofList returnType,
             parameterTypes := types.map String.ofList, hasReceiver := false } := by
  rw [ofArguments, if_neg (by simpa using hne)]
  cases types with
  | nil => rfl
  | cons first more => simp only [h first rfl]

end DeclaredHook

/-! ### Methods -/

namespace Method

/-- What the declaration of a hook says of its method. -/
def declared (m : Method) : DeclaredHook where
  hookName := m.hookName
  className := m.className
  methodName := m.name
  returnType := if isVoid m.returnType then "void" else m.returnType
  parameterTypes := m.parameters.map (·.type)
  hasReceiver := !m.isStatic

/-- The first parameter is a pointer that passes for a receiver. -/
def HasFalseReceiver (m : Method) : Prop :=
  ∃ first more pointee, m.parameters = first :: more ∧ first.type.toList = pointee ++ ['*'] ∧
    trim pointee ++ ['_'] <+: m.hookName.toList

theorem toList_hookName (m : Method) :
    m.hookName.toList = m.className.toList ++ '_' :: m.name.toList := by
  rw [hookName, String.toList_append, String.toList_append, List.append_assoc]
  rfl

theorem map_toList_types (m : Method) :
    ((m.parameters.map (·.type)).map String.toList).map String.ofList
      = m.parameters.map (·.type) := by
  rw [List.map_map, List.map_map]
  refine List.map_congr_left fun p _ => ?_
  exact String.ofList_toList

/-- The arguments of a method that belongs to an object: the receiver stands before
the parameters. -/
theorem hookArguments_object {m : Method} (hobject : m.isStatic = false) :
    m.hookArguments = m.hookName.toList
      :: (if isVoid m.returnType then "void" else m.returnType).toList
      :: (m.className ++ "*").toList :: (m.parameters.map (·.type)).map String.toList := by
  rw [hookArguments, receiverType?, hobject]
  rfl

/-- The receiver of a method says what its class is. -/
theorem receiver?_hookName {m : Method} (hclass : trim m.className.toList = m.className.toList) :
    DeclaredHook.receiver? m.hookName.toList (m.className ++ "*").toList
      = some (m.className.toList, m.name.toList) := by
  refine DeclaredHook.receiver?_eq_some_iff.2 ⟨m.className.toList, ?_, hclass.symm, ?_⟩
  · rw [String.toList_append]
    rfl
  · rw [hclass, toList_hookName]

theorem ofArguments_object {m : Method} (hobject : m.isStatic = false)
    (hclass : trim m.className.toList = m.className.toList) :
    DeclaredHook.ofArguments m.hookArguments = some m.declared := by
  rw [hookArguments_object hobject,
    DeclaredHook.ofArguments_receiver m.hookName_ne_nil (receiver?_hookName hclass),
    map_toList_types, declared, hobject]
  simp only [String.ofList_toList]
  rfl

/-- The arguments of a static method: the parameters follow the return type. -/
theorem hookArguments_static {m : Method} (hstatic : m.isStatic = true) :
    m.hookArguments = m.hookName.toList
      :: (if isVoid m.returnType then "void" else m.returnType).toList
      :: (m.parameters.map (·.type)).map String.toList := by
  rw [hookArguments, receiverType?, hstatic]
  rfl

/-- A first parameter that passes for a receiver is read as one. -/
theorem HasFalseReceiver.exists_receiver? {m : Method} (h : m.HasFalseReceiver) :
    ∃ first more names, (m.parameters.map (·.type)).map String.toList = first :: more ∧
      DeclaredHook.receiver? m.hookName.toList first = some names := by
  obtain ⟨first, more, pointee, hparameters, hfirst, methodName, hname⟩ := h
  refine ⟨first.type.toList, (more.map (·.type)).map String.toList, (trim pointee, methodName),
    ?_, ?_⟩
  · rw [hparameters]
    rfl
  · refine DeclaredHook.receiver?_eq_some_iff.2 ⟨pointee, hfirst, rfl, ?_⟩
    rw [← hname, List.append_assoc]
    rfl

/-- No other first parameter is. -/
theorem receiver?_eq_none {m : Method} (h : ¬m.HasFalseReceiver) :
    ∀ first ∈ ((m.parameters.map (·.type)).map String.toList).head?,
      DeclaredHook.receiver? m.hookName.toList first = none := by
  intro type htype
  rw [Option.eq_none_iff_forall_ne_some]
  rintro ⟨className, methodName⟩ hsome
  obtain ⟨pointee, hpointee, -, hname⟩ := DeclaredHook.receiver?_eq_some_iff.1 hsome
  refine h ?_
  rcases hparameters : m.parameters with _ | ⟨first, more⟩
  · simp [hparameters] at htype
  · have hfirst : first.type.toList = type := by simpa [hparameters] using htype
    refine ⟨first, more, pointee, hparameters, hfirst.trans hpointee, methodName, ?_⟩
    rw [hname, List.append_assoc]
    rfl

/-- The name of a hook is split at the right place exactly if the class has no `_`. -/
theorem splitName_hookName_iff {m : Method} :
    DeclaredHook.splitName m.hookName.toList = (m.className.toList, m.name.toList) ↔
      '_' ∉ m.className.toList := by
  constructor
  · intro h
    have hsplit := DeclaredHook.not_mem_splitName m.hookName.toList
    rwa [h] at hsplit
  · intro h
    rw [toList_hookName, DeclaredHook.splitName_append h]

/-- Without a receiver the declaration is read back exactly if the name of the class
has no `_` and the first parameter does not pass for a receiver. -/
theorem ofArguments_static {m : Method} (hstatic : m.isStatic = true) :
    DeclaredHook.ofArguments m.hookArguments = some m.declared ↔
      '_' ∉ m.className.toList ∧ ¬m.HasFalseReceiver := by
  rw [hookArguments_static hstatic]
  by_cases hfalse : m.HasFalseReceiver
  · -- Read back with a receiver, and declared without one.
    refine iff_of_false (fun h => ?_) fun h => h.2 hfalse
    obtain ⟨first, more, names, htypes, hreceiver⟩ := hfalse.exists_receiver?
    rw [htypes, DeclaredHook.ofArguments_receiver m.hookName_ne_nil hreceiver] at h
    have hhas : true = !m.isStatic := congrArg DeclaredHook.hasReceiver (Option.some.inj h)
    rw [hstatic] at hhas
    exact absurd hhas (by decide)
  · rw [DeclaredHook.ofArguments_plain m.hookName_ne_nil (receiver?_eq_none hfalse),
      map_toList_types, ← splitName_hookName_iff]
    constructor
    · intro h
      have hclass := congrArg DeclaredHook.className (Option.some.inj h)
      have hname := congrArg DeclaredHook.methodName (Option.some.inj h)
      refine ⟨Prod.ext ?_ ?_, hfalse⟩
      · exact String.ofList_injective (hclass.trans String.ofList_toList.symm)
      · exact String.ofList_injective (hname.trans String.ofList_toList.symm)
    · rintro ⟨hsplit, -⟩
      rw [hsplit, declared, hstatic]
      simp only [String.ofList_toList]
      rfl

end Method

/-! ### Declarations on one line -/

/-- A type that a declaration can be written with: trimmed text on one line whose
parentheses match, which closes what it opens and has commas inside brackets only. -/
structure ArgumentText (w : List Char) : Prop where
  ne_nil : w ≠ []
  trimmed : trim w = w
  oneLine : '\n' ∉ w
  closed : openParens 0 w = some 0
  depth_eq_zero : depth w = 0
  guarded : Guarded ',' 0 w

instance ArgumentText.decidable (w : List Char) : Decidable (ArgumentText w) :=
  decidable_of_iff (w ≠ [] ∧ trim w = w ∧ '\n' ∉ w ∧ openParens 0 w = some 0 ∧ depth w = 0 ∧
      Guarded ',' 0 w)
    ⟨fun ⟨hne, htrim, hline, hclosed, hdepth, hguarded⟩ =>
      ⟨hne, htrim, hline, hclosed, hdepth, hguarded⟩,
     fun h => ⟨h.ne_nil, h.trimmed, h.oneLine, h.closed, h.depth_eq_zero, h.guarded⟩⟩

/-- A name, or a pointer to what it names. -/
theorem argumentText_of_isWord {w : List Char} (hne : w ≠ [])
    (h : ∀ c ∈ w, isWord c = true ∨ c = '*') : ArgumentText w := by
  have hnot : ∀ {d : Char}, isWord d = false → d ≠ '*' → d ∉ w := by
    intro d hword hstar hmem
    rcases h d hmem with hd | hd
    · exact Bool.false_ne_true (hword.symm.trans hd)
    · exact hstar hd
  have hspace : ∀ c ∈ w, isSpace c = false := by
    intro c hc
    rcases h c hc with hword | rfl
    · exact isSpace_eq_false_of_isWord hword
    · rfl
  have hnesting : ∀ c ∈ w, nesting c = 0 := by
    intro c hc
    rw [nesting, if_neg, if_neg]
    · rintro (rfl | rfl)
      · exact hnot rfl (by decide) hc
      · exact hnot rfl (by decide) hc
    · rintro (rfl | rfl)
      · exact hnot rfl (by decide) hc
      · exact hnot rfl (by decide) hc
  refine ⟨hne, trim_of_forall hspace, ?_, ?_, depth_eq_zero hnesting, ?_⟩
  · exact hnot rfl (by decide)
  · exact openParens_of_not_mem (hnot rfl (by decide)) (hnot rfl (by decide)) 0
  · exact guarded_of_not_mem (hnot rfl (by decide)) 0

namespace Method

/-- The declaration of the hook is one line, and each of its types stands by itself. -/
structure Declarable (m : Method) : Prop where
  className : ∀ c ∈ m.className.toList, isWord c = true
  name_ne_nil : m.name.toList ≠ []
  name : ∀ c ∈ m.name.toList, isIdent c = true
  returnType : ArgumentText m.returnType.toList
  parameters : ∀ p ∈ m.parameters, ArgumentText p.type.toList

instance Declarable.decidable (m : Method) : Decidable m.Declarable :=
  decidable_of_iff (m.className.toList.all isWord = true ∧ m.name.toList ≠ [] ∧
      m.name.toList.all isIdent = true ∧ ArgumentText m.returnType.toList ∧
      ∀ p ∈ m.parameters, ArgumentText p.type.toList)
    ⟨fun ⟨hclass, hne, hname, hreturn, hparameters⟩ =>
      ⟨List.all_eq_true.1 hclass, hne, List.all_eq_true.1 hname, hreturn, hparameters⟩,
     fun h => ⟨List.all_eq_true.2 h.className, h.name_ne_nil, List.all_eq_true.2 h.name,
      h.returnType, h.parameters⟩⟩

theorem isWord_hookName {m : Method} (hclass : ∀ c ∈ m.className.toList, isWord c = true)
    (hname : ∀ c ∈ m.name.toList, isIdent c = true) : ∀ c ∈ m.hookName.toList, isWord c = true := by
  intro c hc
  rw [toList_hookName, List.mem_append, List.mem_cons] at hc
  rcases hc with hc | rfl | hc
  · exact hclass c hc
  · rfl
  · exact isWord_of_isIdent (hname c hc)

/-- The name of a hook may stand among the arguments of its declaration. -/
theorem argumentText_hookName {m : Method} (hclass : ∀ c ∈ m.className.toList, isWord c = true)
    (hname : ∀ c ∈ m.name.toList, isIdent c = true) : ArgumentText m.hookName.toList :=
  argumentText_of_isWord m.hookName_ne_nil fun c hc => .inl (isWord_hookName hclass hname c hc)

/-- So may the receiver. -/
theorem argumentText_receiver {m : Method} (hclass : ∀ c ∈ m.className.toList, isWord c = true) :
    ArgumentText (m.className ++ "*").toList := by
  refine argumentText_of_isWord (by simp) fun c hc => ?_
  rw [String.toList_append, List.mem_append] at hc
  rcases hc with hc | hc
  · exact .inl (hclass c hc)
  · exact .inr (List.mem_singleton.1 hc)

theorem Declarable.argumentText {m : Method} (h : m.Declarable) :
    ∀ t ∈ m.hookArguments, ArgumentText t := by
  intro t ht
  rw [hookArguments, List.mem_cons, List.mem_cons, List.map_append, List.mem_append] at ht
  rcases ht with rfl | rfl | ht | ht
  · exact argumentText_hookName h.className h.name
  · split
    · exact argumentText_of_isWord (by decide) fun c hc =>
        .inl (List.all_eq_true.1 (rfl : "void".toList.all isWord = true) c hc)
    · exact h.returnType
  · rw [receiverType?] at ht
    split at ht
    · exact absurd ht List.not_mem_nil
    · obtain rfl := List.mem_singleton.1 ht
      exact argumentText_receiver h.className
  · rw [List.map_map] at ht
    obtain ⟨p, hp, rfl⟩ := List.mem_map.1 ht
    exact h.parameters p hp

theorem Declarable.legible {m : Method} (h : m.Declarable) : m.Legible where
  oneLine := by
    intro hmem
    rcases mem_joined hmem with hc | hc | ⟨t, ht, hc⟩
    · exact absurd hc (by decide)
    · exact absurd hc (by decide)
    · exact (h.argumentText t ht).oneLine hc
  closed := openParens_joined fun t ht => (h.argumentText t ht).closed
  separable := separable_of_forall fun t ht =>
    ⟨(h.argumentText t ht).guarded, (h.argumentText t ht).depth_eq_zero⟩

/-- **Which methods are read back from the declaration of their hook:** those that
belong to an object, and those static methods whose class has no `_` in its name and
whose first parameter does not pass for a receiver.  It is the same for hook code that
begins with the declaration. -/
theorem read?_declareMacro_iff {m : Method} (h : m.Declarable) :
    (DeclaredHook.read? m.declareMacro = some m.declared ↔
      m.isStatic = false ∨ '_' ∉ m.className.toList ∧ ¬m.HasFalseReceiver) ∧
    (DeclaredHook.read? (m.hookCode true) = some m.declared ↔
      m.isStatic = false ∨ '_' ∉ m.className.toList ∧ ¬m.HasFalseReceiver) := by
  have htrim : m.hookArguments.map trim = m.hookArguments :=
    (List.map_congr_left fun t ht => (h.argumentText t ht).trimmed).trans (List.map_id _)
  obtain ⟨hdeclaration, hcode⟩ := h.legible.read?
  rw [htrim] at hdeclaration hcode
  have hiff : DeclaredHook.ofArguments m.hookArguments = some m.declared ↔
      m.isStatic = false ∨ '_' ∉ m.className.toList ∧ ¬m.HasFalseReceiver := by
    cases hstatic : m.isStatic with
    | false =>
        have hclass : trim m.className.toList = m.className.toList :=
          trim_of_forall fun c hc => isSpace_eq_false_of_isWord (h.className c hc)
        exact iff_of_true (ofArguments_object hstatic hclass) (.inl rfl)
    | true =>
        rw [ofArguments_static hstatic]
        simp
  rw [hdeclaration, hcode]
  exact ⟨hiff, hiff⟩

/-- A static method that takes a pointer to its own class is misread, while one with
the same parameters that belongs to an object is not. -/
theorem read?_declareMacro_ownPointer :
    let spawn : Method :=
      { className := "AActor", returnType := "void", name := "Spawn",
        parameters := [⟨"AActor *", "owner"⟩, ⟨"TMap<int, FString>", "tags"⟩], isStatic := true,
        isVirtual := false, nativeSignature := "AActor.Spawn", fullText := "", sourceLabel := "" }
    DeclaredHook.read? spawn.declareMacro ≠ some spawn.declared ∧
      DeclaredHook.read? { spawn with isStatic := false }.declareMacro
        = some { spawn with isStatic := false }.declared := by
  intro spawn
  have hfalse : spawn.HasFalseReceiver :=
    ⟨⟨"AActor *", "owner"⟩, _, "AActor ".toList, rfl, rfl, by decide⟩
  constructor
  · intro h
    rcases (read?_declareMacro_iff (m := spawn) (by decide)).1.1 h with hobject | ⟨-, hnot⟩
    · exact absurd hobject (by decide)
    · exact hnot hfalse
  · exact (read?_declareMacro_iff (by decide)).1.2 (.inl rfl)

end Method

end NativeHooks
