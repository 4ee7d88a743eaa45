/-
# Overloads share a hook

The key that a hook is registered under names the parameter types of the method.  The hook is
named after class and method alone, and so is its slot.  All methods of a header belong to its
class, hence two of them have one hook exactly if they have one name; if they have keys of their
own as well, they are overloads.

The bundle shows it.  It declares, defines and registers one hook for every method
(`hooksByName_ofHeader`), so overloads are registered under two keys with one hook and one slot,
and what is declared and defined is a list of names without repetition only if the methods have
different names.

A bundle is read line by line.  Declarations and registrations are told by how their lines begin.
A definition is a line before an opening brace, and its hook is the last word before the first
parenthesis, since the return type before it has no parentheses.  That type may have line feeds,
so the first line of a stub need not be the one that names the hook.
-/

import NativeHooks.Proofs.Hook.Bundle

namespace NativeHooks

open Text

/-! ### Reading the hooks of a bundle -/

/-- How the line that declares a hook begins. -/
def declaredHead : String := "DECLARE_HOOK("

/-- The hook that a line declares. -/
def declaredHook? (line : String) : Option String := do
  let rest ← declaredHead.toList.isPrefixOf? line.toList
  return String.ofList (rest.takeWhile (· != ','))

/-- The hooks that a text declares, in the order of its lines. -/
def declaredHooks (code : String) : List String := (readLines code).filterMap declaredHook?

/-- The hook that a line with a list of parameters names: the last word before the list, without
the `Hook_` that it begins with. -/
def definedHook? (line : String) : Option String := do
  guard ('(' ∈ line.toList)
  let hook ← "Hook_".toList.isPrefixOf? (afterLast ' ' (line.toList.takeWhile (· != '(')))
  return String.ofList hook

/-- The hooks that lines before an opening brace name. -/
def definedIn : List String → List String
  | head :: next :: more =>
    (if next = "\x7b" then (definedHook? head).toList else []) ++ definedIn (next :: more)
  | _ => []

/-- The hooks that a text defines, in the order of its lines. -/
def definedHooks (code : String) : List String := definedIn (readLines code)

/-- Key, hook and slot of the call that three lines make. -/
def registrationAt? (keyLine hookLine slotLine : String) : Option (String × String × String) := do
  let (key, hook) ← callAt? "SetHook" "," keyLine hookLine
  let slot ← between? "        &" ");" slotLine
  return (key, hook, slot)

/-- Keys, hooks and slots of all calls that register a hook. -/
def registrationsIn : List String → List (String × String × String)
  | keyLine :: hookLine :: slotLine :: more =>
    (registrationAt? keyLine hookLine slotLine).toList
      ++ registrationsIn (hookLine :: slotLine :: more)
  | _ => []

/-- What a bundle registers: keys, each with its hook and its slot. -/
def registrations (bundle : String) : List (String × String × String) :=
  registrationsIn ((functionLines? "SetupHooks" bundle).getD [])

/-! ### Names of hooks -/

/-- The methods have the same name and different types of parameters. -/
def Method.Overloads (m n : Method) : Prop :=
  m.name = n.name ∧ m.parameters.map (·.type) ≠ n.parameters.map (·.type)

instance (m n : Method) : Decidable (m.Overloads n) :=
  inferInstanceAs (Decidable (m.name = n.name ∧ _ ≠ _))

namespace Method

variable {m n : Method}

/-- Hooks of one class are as distinct as the names of the methods. -/
theorem hookName_eq_iff (hclass : m.className = n.className) :
    m.hookName = n.hookName ↔ m.name = n.name := by
  constructor
  · intro heq
    have hchars := congrArg String.toList heq
    rw [toList_hookName, toList_hookName, hclass] at hchars
    exact String.toList_injective (List.cons.inj (List.append_cancel_left hchars)).2
  · intro hname
    rw [hookName, hookName, hclass, hname]

/-- **Methods of one class with keys of their own share a hook exactly if they are overloads.** -/
theorem shares_hook_iff_overloads (hm : Header.ReadMethod m) (hn : Header.ReadMethod n)
    (hclass : m.className = n.className) :
    m.key ≠ n.key ∧ m.hookName = n.hookName ↔ m.Overloads n := by
  rw [hookName_eq_iff hclass]
  constructor
  · rintro ⟨hkey, hname⟩
    refine ⟨hname, fun htypes => hkey ?_⟩
    rw [key, key, hclass, hname, htypes]
  · rintro ⟨hname, htypes⟩
    refine ⟨fun hkey => htypes ?_, hname⟩
    rw [← keyTypes_key hm, ← keyTypes_key hn, hkey]

end Method

/-! ### Declarations -/

/-- A line that begins otherwise declares no hook. -/
theorem declaredHook?_of_forall_ne {line : String}
    (h : ∀ rest, declaredHead.toList ++ rest ≠ line.toList) : declaredHook? line = none := by
  have hrest : declaredHead.toList.isPrefixOf? line.toList = none := by
    rw [Option.eq_none_iff_forall_ne_some]
    exact fun rest hrest => h rest (List.isPrefixOf?_eq_some_iff_append_eq.1 hrest)
  rw [declaredHook?, hrest]
  rfl

theorem declaredHook?_eq_none {line : String} (h : line.toList.head? ≠ some 'D') :
    declaredHook? line = none := by
  refine declaredHook?_of_forall_ne fun rest hrest => ?_
  rw [← hrest] at h
  exact h rfl

/-- A line declares no hook if, before its first parenthesis, it has a character that the
beginning of a declaration has not. -/
theorem declaredHook?_append_eq_none {first rest : String} (hfirst : '(' ∉ first.toList)
    (hrest : ∀ c ∈ rest.toList.head?, c ∉ declaredHead.toList) :
    declaredHook? (first ++ rest) = none := by
  refine declaredHook?_of_forall_ne fun after hafter => ?_
  rw [String.toList_append, List.append_eq_append_iff] at hafter
  have hparen : '(' ∈ declaredHead.toList := by decide
  rcases hafter with ⟨u, hu, -⟩ | ⟨u, hu, hlast⟩
  · exact hfirst (hu ▸ List.mem_append_left u hparen)
  · rcases u with _ | ⟨c, u⟩
    · rw [List.append_nil] at hu
      exact hfirst (hu ▸ hparen)
    · refine hrest c (by rw [hlast]; rfl) ?_
      rw [hu]
      exact List.mem_append_right _ List.mem_cons_self

/-- A line without parentheses declares no hook. -/
theorem declaredHook?_of_not_mem {line : String} (h : '(' ∉ line.toList) :
    declaredHook? line = none := by
  have hline : ∀ c ∈ "".toList.head?, c ∉ declaredHead.toList := fun c hc => by simp at hc
  have hnone := declaredHook?_append_eq_none h hline
  rwa [String.append_empty] at hnone

/-- A declaration names its hook up to the first comma. -/
theorem declaredHook?_declaration {hook : String} (h : ',' ∉ hook.toList) (rest : String) :
    declaredHook? (declaredHead ++ hook ++ "," ++ rest) = some hook := by
  have hprefix : declaredHead.toList.isPrefixOf? (declaredHead ++ hook ++ "," ++ rest).toList
      = some (hook ++ "," ++ rest).toList := by
    rw [List.isPrefixOf?_eq_some_iff_append_eq, ← String.toList_append]
    simp only [String.append_assoc]
  have hname : (hook ++ "," ++ rest).toList.takeWhile (· != ',') = hook.toList := by
    rw [String.toList_append, String.toList_append, List.append_assoc]
    exact takeWhile_run (bne_of_mem h) (bne_self_eq_false _)
  rw [declaredHook?, hprefix]
  simp only [Option.bind_eq_bind, Option.bind_some, hname, String.ofList_toList]
  rfl

/-- **A declaration declares one hook,** on whatever number of lines its return type stands. -/
theorem filterMap_declaredHook?_declaration {hook type rest : String}
    (hhook : ∀ c ∈ hook.toList, isWord c = true) (htype : '(' ∉ type.toList) (hline : OneLine rest)
    (hrest : ∀ c ∈ rest.toList.head?, c ∉ declaredHead.toList) :
    (readLines (declaredHead ++ hook ++ ", " ++ type ++ rest ++ "\n")).filterMap declaredHook?
      = [hook] := by
  have hstart : OneLine (declaredHead ++ hook ++ ", ") :=
    (OneLine.append (by decide) (not_mem_of_class hhook rfl)).append (by decide)
  have hdeclares : ∀ more : String,
      declaredHook? (declaredHead ++ hook ++ ", " ++ more) = some hook := by
    intro more
    have hread := declaredHook?_declaration (not_mem_of_class hhook rfl) (" " ++ more)
    have hsep : ", " = "," ++ " " := rfl
    simpa only [hsep, String.append_assoc] using hread
  induction type using lines_induction with
  | oneLine type htypeLine =>
      rw [readLines_oneLine ((hstart.append htypeLine).append hline), String.append_assoc,
        List.filterMap_cons_some (hdeclares _), List.filterMap_nil]
  | line first more hfirst _ =>
      obtain ⟨front, last, hlines, hchars⟩ := readLines_append_oneLine more hline
      have hmore : '(' ∉ more.toList := by
        rw [String.toList_append, List.mem_append, not_or] at htype
        exact htype.2
      have hnone : ∀ l ∈ front ++ [last ++ rest], declaredHook? l = none := by
        rw [List.forall_mem_append] at hchars ⊢
        refine ⟨fun l hl => ?_, fun l hl => ?_⟩
        · exact declaredHook?_of_not_mem fun hc => hmore (hchars.1 l hl _ hc)
        · rw [List.mem_singleton.1 hl]
          have hparen : '(' ∉ last.toList :=
            fun hc => hmore (hchars.2 last List.mem_cons_self _ hc)
          exact declaredHook?_append_eq_none hparen hrest
      have htext : declaredHead ++ hook ++ ", " ++ (first ++ "\n" ++ more) ++ rest ++ "\n"
          = declaredHead ++ hook ++ ", " ++ first ++ "\n" ++ (more ++ rest ++ "\n") := by
        simp only [String.append_assoc]
      rw [htext, (ended_append_lineFeed _).readLines_append,
        readLines_oneLine (hstart.append hfirst), hlines, List.cons_append, List.nil_append,
        List.filterMap_cons_some (hdeclares _), List.filterMap_eq_nil_iff.2 hnone]

/-! ### Definitions -/

/-- An empty line parts what is defined before it from what is defined after it. -/
theorem definedIn_append_blank (lines more : List String) :
    definedIn (lines ++ "" :: more) = definedIn lines ++ definedIn more := by
  have hblank : definedIn ("" :: more) = definedIn more := by
    rcases more with _ | ⟨next, more⟩
    · rfl
    · rw [definedIn, show definedHook? "" = none by decide, Option.toList_none, ite_self,
        List.nil_append]
  induction lines with
  | nil => exact hblank
  | cons l lines ih =>
      rcases lines with _ | ⟨next, lines⟩
      · rw [List.singleton_append, definedIn, if_neg (by decide), List.nil_append, hblank]
        rfl
      · rw [List.cons_append, List.cons_append, definedIn, ← List.cons_append, ih, definedIn,
          List.append_assoc]

/-- Lines up to the next head define nothing if no brace is among them. -/
theorem definedIn_append_cons {lines : List String} {head : String}
    (h : "\x7b" ∉ lines ++ [head]) (more : List String) :
    definedIn (lines ++ head :: more) = definedIn (head :: more) := by
  induction lines with
  | nil => rfl
  | cons l lines ih =>
      rw [List.cons_append, List.mem_cons, not_or] at h
      rw [← ih h.2, List.cons_append]
      rcases lines with _ | ⟨next, lines⟩
      · rw [List.nil_append, definedIn, if_neg (Ne.symm (List.ne_of_not_mem_cons h.2)),
          List.nil_append]
      · rw [List.cons_append, definedIn, if_neg (Ne.symm (List.ne_of_not_mem_cons h.2)),
          List.nil_append]

/-- No brace is among lines that begin otherwise. -/
theorem brace_not_mem {lines : List String} (h : ∀ l ∈ lines, l.toList.head? ≠ some '\x7b') :
    "\x7b" ∉ lines := fun hmem => h _ hmem rfl

/-- Without a brace after the first line nothing is defined. -/
theorem definedIn_eq_nil {head : String} {lines : List String} (h : "\x7b" ∉ lines) :
    definedIn (head :: lines) = [] := by
  induction lines generalizing head with
  | nil => rfl
  | cons next lines ih =>
      rw [List.mem_cons, not_or] at h
      rw [definedIn, if_neg (Ne.symm h.1), List.nil_append, ih h.2]

/-- The head of a stub names its hook, whatever the parameters are. -/
theorem definedHook?_head {type hook : String} (htype : '(' ∉ type.toList)
    (hhook : ∀ c ∈ hook.toList, isWord c = true) (parameters : String) :
    definedHook? (type ++ (" Hook_" ++ hook ++ "(" ++ parameters ++ ")")) = some hook := by
  have hsplit : (type ++ (" Hook_" ++ hook ++ "(" ++ parameters ++ ")")).toList
      = (type.toList ++ ' ' :: ("Hook_".toList ++ hook.toList))
        ++ '(' :: (parameters.toList ++ [')']) := by
    simp
  have hbefore : '(' ∉ type.toList ++ ' ' :: ("Hook_".toList ++ hook.toList) := by
    have hparen : '(' ∉ hook.toList := not_mem_of_class hhook rfl
    simpa using ⟨htype, hparen⟩
  have hspace : ' ' ∉ "Hook_".toList ++ hook.toList := by
    have hspace : ' ' ∉ hook.toList := not_mem_of_class hhook rfl
    simpa using hspace
  have hprefix : "Hook_".toList.isPrefixOf? ("Hook_".toList ++ hook.toList) = some hook.toList :=
    List.isPrefixOf?_eq_some_iff_append_eq.2 rfl
  have hparen : '(' ∈ (type ++ (" Hook_" ++ hook ++ "(" ++ parameters ++ ")")).toList := by
    rw [hsplit]
    exact List.mem_append_right _ List.mem_cons_self
  rw [definedHook?, hsplit, takeWhile_run (bne_of_mem hbefore) (bne_self_eq_false _),
    (afterLast_append _ hspace).1, ← hsplit]
  simp only [hparen, guard_true, hprefix, Option.bind_eq_bind, Option.bind_some,
    String.ofList_toList, Option.pure_def]

/-- A function of a bundle defines no hook. -/
theorem definedIn_functionLines {heading name : String} {content : List String}
    (hname : definedHook? ("void " ++ name ++ "()") = none)
    (hcontent : "\x7b" ∉ content) : definedIn (functionLines heading name content) = [] := by
  have hbefore : "\x7b" ∉ [bundleRule, "// " ++ heading, bundleRule]
      ++ ["void " ++ name ++ "()"] := brace_not_mem (by simp [bundleRule])
  have hinside : definedIn ("\x7b" :: (content ++ ["\x7d"])) = [] :=
    definedIn_eq_nil (by simpa using hcontent)
  have hlines : functionLines heading name content
      = [bundleRule, "// " ++ heading, bundleRule]
        ++ ("void " ++ name ++ "()") :: "\x7b" :: (content ++ ["\x7d"]) := by
    simp only [functionLines, List.cons_append, List.nil_append]
  rw [hlines, definedIn_append_cons hbefore, definedIn, hname, hinside, Option.toList_none,
    ite_self, List.nil_append]

/-! ### The code of one method -/

/-- Lines of a text without braces are no braces, whatever else the last of them has. -/
theorem brace_not_mem_readLines {text rest : String} (htext : '\x7b' ∉ text.toList)
    (hline : OneLine rest) (hrest : ∃ c ∈ rest.toList, c ≠ '\x7b') :
    "\x7b" ∉ readLines (text ++ rest ++ "\n") := by
  obtain ⟨front, last, hlines, hchars⟩ := readLines_append_oneLine text hline
  obtain ⟨c, hc, hbrace⟩ := hrest
  rw [List.forall_mem_append] at hchars
  rw [hlines, List.mem_append, not_or]
  constructor
  · exact fun hmem => htext (hchars.1 _ hmem _ List.mem_cons_self)
  · intro hmem
    have hchars := congrArg String.toList (List.mem_singleton.1 hmem)
    rw [String.toList_append] at hchars
    have hmem : c ∈ "\x7b".toList := hchars ▸ List.mem_append_right _ hc
    exact hbrace (List.mem_singleton.1 hmem)

namespace Method

variable {m : Method} (h : Header.ReadMethod m)

include h

/-- A declaration up to its return type, and the rest of it. -/
theorem exists_declareMacro :
    ∃ rest, m.declareMacro = declaredHead ++ m.hookName ++ ", "
        ++ (if isVoid m.returnType then "void" else m.returnType) ++ rest ∧ OneLine rest ∧
      ∃ c ∈ rest.toList.head?, c ∉ declaredHead.toList ∧ c ≠ '\x7b' := by
  have hdeclared : m.declareMacro = declaredHead ++ ", ".intercalate (m.hookName
      :: (if isVoid m.returnType then "void" else m.returnType)
      :: (m.receiverType?.toList ++ m.parameters.map (·.type))) ++ ");" := by
    simp only [declareMacro, declaredHead, List.cons_append, List.nil_append]
  rw [hdeclared]
  rcases hlist : m.receiverType?.toList ++ m.parameters.map (·.type) with _ | ⟨t, more⟩
  · refine ⟨");", ?_, by decide, ')', rfl, by decide, by decide⟩
    simp only [String.intercalate_cons_cons, String.intercalate_singleton, String.append_assoc]
  · have htypes := oneLine_types h
    rw [hlist] at htypes
    have hmore : OneLine (", ".intercalate (t :: more)) := OneLine.intercalate (by decide) htypes
    have hline : OneLine (", " ++ ", ".intercalate (t :: more) ++ ");") :=
      (OneLine.append (by decide) hmore).append (by decide)
    have hhead : (", " ++ ", ".intercalate (t :: more) ++ ");").toList.head? = some ',' := by
      rw [String.toList_append, String.toList_append]
      rfl
    refine ⟨_, ?_, hline, ',', hhead, by decide, by decide⟩
    simp only [String.intercalate_cons_cons, String.append_assoc]

/-- The lines of a stub: its head may begin with lines of the return type. -/
theorem readLines_stub :
    ∃ front last call, readLines (m.stub ++ "\n") = front
        ++ (last ++ (" Hook_" ++ m.hookName ++ "(" ++ m.parameterList ++ ")"))
          :: ["\x7b", "    " ++ call, "\x7d"] ∧
      ∀ l ∈ front ++ [last], ∀ c ∈ l.toList, c ∈ m.returnType.toList := by
  have hcall : OneLine (m.hookName ++ ".original(" ++ m.argumentList ++ ");") :=
    (((oneLine_hookName h).append (by decide)).append (oneLine_argumentList h)).append (by decide)
  obtain ⟨call, hstub, hline⟩ : ∃ call, m.stub ++ "\n" = m.returnType
      ++ (" Hook_" ++ m.hookName ++ "(" ++ m.parameterList ++ ")") ++ "\n"
        ++ unlines ["\x7b", "    " ++ call, "\x7d"] ∧ OneLine call := by
    have hunlines : ∀ head call : String, "\n".intercalate [head, "\x7b", call, "\x7d"] ++ "\n"
        = head ++ "\n" ++ unlines ["\x7b", call, "\x7d"] := fun head call =>
      (unlines_eq_intercalate (List.cons_ne_nil _ _)).symm.trans (unlines_cons _ _)
    rw [stub, hunlines]
    split
    · exact ⟨_, by simp only [String.append_assoc], hcall⟩
    · refine ⟨"return " ++ (m.hookName ++ ".original(" ++ m.argumentList ++ ");"), ?_,
        OneLine.append (by decide) hcall⟩
      simp only [show "    return " = "    " ++ "return " from rfl, String.append_assoc]
  have hhead : OneLine (" Hook_" ++ m.hookName ++ "(" ++ m.parameterList ++ ")") :=
    (((OneLine.append (by decide) (oneLine_hookName h)).append (by decide)).append
      (oneLine_parameterList h)).append (by decide)
  obtain ⟨front, last, hlines, hchars⟩ := readLines_append_oneLine m.returnType hhead
  refine ⟨front, last, call, ?_, hchars⟩
  rw [hstub, (ended_append_lineFeed _).readLines_append, hlines, readLines_unlines,
    List.append_assoc, List.singleton_append]
  simp only [List.forall_mem_cons]
  exact ⟨by decide, OneLine.append (by decide) hline, by decide,
    fun l hl => absurd hl List.not_mem_nil⟩

/-- The lines of the code for a method: declaration, stub and registration, with empty lines
between them and two after them. -/
theorem readLines_hookCode (declares : Bool) :
    readLines (m.hookCode declares ++ "\n\n")
      = (if declares then readLines (m.declareMacro ++ "\n") ++ [""] else [])
        ++ (readLines (m.stub ++ "\n") ++ "" :: (m.registrationLines ++ [""])) ++ [""] := by
  have hblank : readLines "\n\n" = ["", ""] := rfl
  have hempty : ∀ s rest : String, readLines (s ++ "\n\n" ++ rest)
      = readLines (s ++ "\n") ++ "" :: readLines rest := by
    intro s rest
    have htext : s ++ "\n\n" ++ rest = s ++ "\n" ++ ("" ++ "\n" ++ rest) := by
      simp only [show "\n\n" = "\n" ++ "" ++ "\n" from rfl, String.append_assoc]
    rw [htext, (ended_append_lineFeed s).readLines_append,
      (ended_append_lineFeed "").readLines_append]
    rfl
  have hregistration : readLines (m.registration ++ "\n") = m.registrationLines := by
    have hne : m.registrationLines ≠ [] := List.cons_ne_nil _ _
    rw [registration_eq, ← unlines_eq_intercalate hne]
    exact readLines_unlines (oneLine_registrationLines h)
  have hrest : readLines (m.stub ++ "\n\n" ++ m.registration ++ "\n" ++ "\n\n")
      = readLines (m.stub ++ "\n") ++ "" :: (m.registrationLines ++ ["", ""]) := by
    rw [String.append_assoc, String.append_assoc, hempty, ← String.append_assoc,
      (ended_append_lineFeed _).readLines_append, hregistration, hblank]
  cases declares with
  | false => simpa [hookCode] using hrest
  | true =>
      have hcode : m.hookCode true ++ "\n\n" = m.declareMacro ++ "\n\n"
          ++ (m.stub ++ "\n\n" ++ m.registration ++ "\n" ++ "\n\n") := by
        simp only [hookCode, if_true, String.append_assoc]
      rw [hcode, hempty, hrest]
      simp

theorem filterMap_declaredHook?_declareMacro :
    (readLines (m.declareMacro ++ "\n")).filterMap declaredHook? = [m.hookName] := by
  obtain ⟨rest, hdeclared, hline, c, hhead, hc, -⟩ := exists_declareMacro h
  rw [hdeclared]
  refine filterMap_declaredHook?_declaration (isWord_hookName h.className h.name)
    (not_mem_of_outside h.typeLike_returnType.endsType_eq_false rfl) hline fun d hd => ?_
  rwa [← Option.some.inj (hhead.symm.trans hd)]

theorem filterMap_declaredHook?_stub :
    (readLines (m.stub ++ "\n")).filterMap declaredHook? = [] := by
  obtain ⟨front, last, call, hlines, hchars⟩ := readLines_stub h
  have hparen : ∀ l ∈ front ++ [last], '(' ∉ l.toList := fun l hl hc =>
    not_mem_of_outside h.returnType.endsType_eq_false rfl (hchars l hl _ hc)
  rw [hlines, List.filterMap_eq_nil_iff, List.forall_mem_append]
  simp only [List.forall_mem_cons]
  refine ⟨fun l hl => declaredHook?_of_not_mem (hparen l (List.mem_append_left _ hl)), ?_,
    declaredHook?_eq_none (by decide), declaredHook?_eq_none (by simp),
    declaredHook?_eq_none (by decide), fun l hl => absurd hl List.not_mem_nil⟩
  refine declaredHook?_append_eq_none (hparen last (List.mem_append_right _ List.mem_cons_self))
    fun c hc => ?_
  have hspace : ' ' = c := by simpa using hc
  rw [← hspace]
  decide

omit h in
theorem filterMap_declaredHook?_registrationLines :
    m.registrationLines.filterMap declaredHook? = [] := by
  rw [List.filterMap_eq_nil_iff]
  simp only [registrationLines, List.forall_mem_cons]
  exact ⟨declaredHook?_eq_none (by simp [hookManager]), declaredHook?_eq_none (by simp),
    declaredHook?_eq_none (by simp), fun l hl => absurd hl List.not_mem_nil⟩

/-- The code for a method declares its hook if it declares anything. -/
theorem filterMap_declaredHook?_hookCode (declares : Bool) :
    (readLines (m.hookCode declares ++ "\n\n")).filterMap declaredHook?
      = if declares then [m.hookName] else [] := by
  have hblank : declaredHook? "" = none := rfl
  rw [readLines_hookCode h]
  cases declares <;>
    simp [List.filterMap_append, filterMap_declaredHook?_declareMacro h,
      filterMap_declaredHook?_stub h, filterMap_declaredHook?_registrationLines, hblank]

theorem definedIn_declareMacro : definedIn (readLines (m.declareMacro ++ "\n")) = [] := by
  obtain ⟨rest, hdeclared, hline, c, hhead, -, hc⟩ := exists_declareMacro h
  have hname : '\x7b' ∉ m.hookName.toList :=
    not_mem_of_class (isWord_hookName h.className h.name) rfl
  have htype : '\x7b' ∉ (if isVoid m.returnType then "void" else m.returnType).toList :=
    not_mem_of_outside h.typeLike_returnType.endsType_eq_false rfl
  have hbrace : "\x7b" ∉ readLines (m.declareMacro ++ "\n") := by
    rw [hdeclared]
    refine brace_not_mem_readLines ?_ hline ⟨c, List.mem_of_mem_head? hhead, hc⟩
    simp only [String.toList_append, List.mem_append, not_or]
    exact ⟨⟨⟨by decide, hname⟩, by decide⟩, htype⟩
  rcases hlines : readLines (m.declareMacro ++ "\n") with _ | ⟨l, more⟩
  · rfl
  · rw [hlines, List.mem_cons, not_or] at hbrace
    exact definedIn_eq_nil hbrace.2

theorem definedIn_stub : definedIn (readLines (m.stub ++ "\n")) = [m.hookName] := by
  obtain ⟨front, last, call, hlines, hchars⟩ := readLines_stub h
  have hlast : '(' ∉ last.toList := fun hc =>
    not_mem_of_outside h.returnType.endsType_eq_false rfl
      (hchars last (List.mem_append_right _ List.mem_cons_self) _ hc)
  have hread := definedHook?_head hlast (isWord_hookName h.className h.name) m.parameterList
  have hbrace : "\x7b" ∉ front
      ++ [last ++ (" Hook_" ++ m.hookName ++ "(" ++ m.parameterList ++ ")")] := by
    rw [List.mem_append, List.mem_singleton, not_or]
    refine ⟨fun hmem => ?_, fun heq => ?_⟩
    · exact not_mem_of_outside h.returnType.endsType_eq_false (d := '\x7b') rfl
        (hchars _ (List.mem_append_left _ hmem) _ List.mem_cons_self)
    · rw [← heq] at hread
      exact absurd hread (by simp [definedHook?])
  have hbody : definedIn ["\x7b", "    " ++ call, "\x7d"] = [] :=
    definedIn_eq_nil (brace_not_mem (by simp))
  rw [hlines, definedIn_append_cons hbrace, definedIn, if_pos rfl, hread, hbody,
    Option.toList_some, List.append_nil]

omit h in
theorem definedIn_registrationLines : definedIn (m.registrationLines ++ [""]) = [] := by
  rw [registrationLines, List.cons_append]
  exact definedIn_eq_nil (brace_not_mem (by simp))

/-- **The code for a method defines its hook.** -/
theorem definedIn_hookCode (declares : Bool) :
    ∃ lines, readLines (m.hookCode declares ++ "\n\n") = lines ++ [""] ∧
      definedIn lines = [m.hookName] := by
  refine ⟨_, readLines_hookCode h declares, ?_⟩
  have hrest : definedIn (readLines (m.stub ++ "\n") ++ "" :: (m.registrationLines ++ [""]))
      = [m.hookName] := by
    rw [definedIn_append_blank, definedIn_stub h, definedIn_registrationLines, List.append_nil]
  cases declares with
  | false => rwa [if_neg Bool.false_ne_true, List.nil_append]
  | true =>
      rw [if_pos rfl, List.append_assoc, List.singleton_append, definedIn_append_blank,
        definedIn_declareMacro h, hrest, List.nil_append]

end Method

/-! ### Registrations -/

/-- A line that holds no key begins no call. -/
theorem registrationsIn_cons {line : String}
    (h : between? (callHead "SetHook") "\"," line = none) (more : List String) :
    registrationsIn (line :: more) = registrationsIn more := by
  rcases more with _ | ⟨hookLine, _ | ⟨slotLine, more⟩⟩
  · rfl
  · rfl
  · simp only [registrationsIn, registrationAt?, callAt?, h, Option.bind_eq_bind,
      Option.bind_none, Option.toList_none, List.nil_append]

/-- **Every call that registers a hook is read with its key, hook and slot.** -/
theorem registrationsIn_bodyLines (methods : List Method) :
    registrationsIn (bodyLines Method.registrationLines methods)
      = methods.map fun m => (m.key, m.hookName, m.hookName) := by
  have hnone : ∀ {line : String}, (∀ rest, line.toList ≠ "    A".toList ++ rest) →
      between? (callHead "SetHook") "\"," line = none := between?_callHead_eq_none
  induction methods with
  | nil => rfl
  | cons m methods ih =>
      have hblock : bodyLines Method.registrationLines (m :: methods)
          = ("    " ++ (hookManager ++ ".SetHook(\"" ++ m.key ++ "\","))
            :: ("    " ++ ("    &Hook_" ++ m.hookName ++ ","))
            :: ("    " ++ ("    &" ++ m.hookName ++ ");"))
            :: "" :: bodyLines Method.registrationLines methods := rfl
      have hcall := callAt?_call "SetHook" "," m.key m.hookName
      have hslot : between? "        &" ");" ("    " ++ ("    &" ++ m.hookName ++ ");"))
          = some m.hookName := by
        have hread := between?_append "        &" m.hookName ");"
        simpa only [show "        &" = "    " ++ "    &" from rfl, String.append_assoc] using hread
      have hread : registrationAt? ("    " ++ (hookManager ++ ".SetHook(\"" ++ m.key ++ "\","))
          ("    " ++ ("    &Hook_" ++ m.hookName ++ ","))
          ("    " ++ ("    &" ++ m.hookName ++ ");")) = some (m.key, m.hookName, m.hookName) := by
        simp only [registrationAt?]
        rw [show ".SetHook(\"" = "." ++ "SetHook" ++ "(\"" from rfl, hcall, hslot]
        rfl
      rw [hblock, registrationsIn, hread, registrationsIn_cons (hnone fun rest => by simp),
        registrationsIn_cons (hnone fun rest => by simp),
        registrationsIn_cons (hnone fun rest => by simp), ih]
      rfl

/-! ### The whole bundle -/

/-- Lines of a body are empty or begin with a space. -/
theorem head?_ne_of_mem_bodyLines {call : Method → List String} {methods : List Method} {c : Char}
    (hc : c ≠ ' ') : ∀ l ∈ bodyLines call methods, l.toList.head? ≠ some c :=
  fun _ hl hhead => not_mem_bodyLines ⟨c, hhead, hc⟩ hl

/-- The two functions declare no hooks. -/
theorem filterMap_declaredHook?_bundleFunctions (methods : List Method) :
    (bundleFunctions methods).filterMap declaredHook? = [] := by
  have hfunction : ∀ {heading name : String} {content : List String},
      (∀ l ∈ content, l.toList.head? ≠ some 'D') →
        ∀ l ∈ functionLines heading name content, l.toList.head? ≠ some 'D' := by
    intro heading name content hcontent
    rw [functionLines, List.forall_mem_append, List.forall_mem_append]
    exact ⟨⟨by simp [bundleRule], hcontent⟩, by simp⟩
  rw [List.filterMap_eq_nil_iff, bundleFunctions, List.forall_mem_append, List.forall_mem_append]
  refine ⟨⟨fun l hl => declaredHook?_eq_none (hfunction ?_ l hl), by simp [declaredHook?_eq_none]⟩,
    fun l hl => declaredHook?_eq_none (hfunction ?_ l hl)⟩
  · exact head?_ne_of_mem_bodyLines (by decide)
  · exact head?_ne_of_mem_bodyLines (by decide)

/-- The two functions define no hooks. -/
theorem definedIn_bundleFunctions (methods : List Method) :
    definedIn (bundleFunctions methods) = [] := by
  have hcontent : ∀ call : Method → List String, "\x7b" ∉ bodyLines call methods := fun call =>
    brace_not_mem (head?_ne_of_mem_bodyLines (by decide))
  rw [bundleFunctions, List.append_assoc, List.singleton_append, definedIn_append_blank,
    definedIn_functionLines (by decide) (hcontent _),
    definedIn_functionLines (by decide) (hcontent _), List.append_nil]

section Bundle

variable {className : String} {methods : List Method} (options : CodeOptions)
  (hclass : ∀ c ∈ className.toList, isWord c = true) (h : ∀ m ∈ methods, Header.ReadMethod m)

include hclass h

theorem declaredHooks_classBundle :
    declaredHooks (classBundle className methods options)
      = if options.declares then methods.map Method.hookName else [] := by
  have hbanner : (bundleBanner className).filterMap declaredHook? = [] := by
    rw [List.filterMap_eq_nil_iff]
    intro l hl
    refine declaredHook?_eq_none ?_
    revert l
    simp [bundleBanner, bundleRule]
  have hcodes : ∀ m ∈ methods, (readLines (m.hookCode options.declares ++ "\n\n")).filterMap
      declaredHook? = if options.declares then [m.hookName] else [] := fun m hm =>
    Method.filterMap_declaredHook?_hookCode (h m hm) options.declares
  rw [declaredHooks, readLines_classBundle options hclass h, codeLines, List.filterMap_append,
    List.filterMap_append, hbanner, filterMap_declaredHook?_bundleFunctions, List.nil_append,
    List.append_nil, List.filterMap_flatMap, List.flatMap_congr hcodes]
  split
  · exact (List.map_eq_flatMap ..).symm
  · simp

theorem definedHooks_classBundle :
    definedHooks (classBundle className methods options) = methods.map Method.hookName := by
  have hbanner : ∃ lines, bundleBanner className = lines ++ [""] ∧ definedIn lines = [] := by
    refine ⟨_, (List.dropLast_append_getLast (List.cons_ne_nil _ _)).symm, ?_⟩
    exact definedIn_eq_nil (brace_not_mem (by simp [bundleRule]))
  obtain ⟨banner, hlines, hnone⟩ := hbanner
  have hcodes : ∀ more, definedIn
      (methods.flatMap (fun m => readLines (m.hookCode options.declares ++ "\n\n")) ++ more)
      = methods.map Method.hookName ++ definedIn more := by
    intro more
    clear hlines hnone hclass
    induction methods with
    | nil => rfl
    | cons m methods ih =>
        obtain ⟨lines, hcode, hdefined⟩ :=
          Method.definedIn_hookCode (h m List.mem_cons_self) options.declares
        rw [List.flatMap_cons, hcode, List.append_assoc, List.append_assoc, List.singleton_append,
          definedIn_append_blank, hdefined, ih fun n hn => h n (List.mem_cons_of_mem _ hn)]
        rfl
  rw [definedHooks, readLines_classBundle options hclass h, codeLines, hlines, List.append_assoc,
    List.append_assoc, List.singleton_append, definedIn_append_blank, hnone, hcodes,
    definedIn_bundleFunctions, List.nil_append, List.append_nil]

theorem registrations_classBundle :
    registrations (classBundle className methods options)
      = methods.map fun m => (m.key, m.hookName, m.hookName) := by
  rw [registrations, functionLines?_setup options hclass h]
  exact registrationsIn_bodyLines methods

end Bundle

/-! ### Which methods share a hook -/

/-- How the hooks of methods, and of the bundle that is written for them, are shared. -/
structure HooksByName (methods : List Method) (options : CodeOptions) (bundle : String) :
    Prop where
  /-- A hook belongs to a name. -/
  hookName_eq_iff : ∀ m ∈ methods, ∀ n ∈ methods, m.hookName = n.hookName ↔ m.name = n.name
  /-- Of methods that are told apart by their keys, only overloads share a hook. -/
  shares_iff : ∀ m ∈ methods, ∀ n ∈ methods,
    m.key ≠ n.key ∧ m.hookName = n.hookName ↔ m.Overloads n
  /-- Every method is registered under its key, with its hook and the slot of the same name. -/
  registers : registrations bundle = methods.map fun m => (m.key, m.hookName, m.hookName)
  /-- Two keys are registered with one hook and one slot exactly if methods are overloads. -/
  registers_twice_iff :
    (∃ key other hook slot, key ≠ other ∧ (key, hook, slot) ∈ registrations bundle ∧
        (other, hook, slot) ∈ registrations bundle) ↔
      ∃ m ∈ methods, ∃ n ∈ methods, m.Overloads n
  /-- Every method has its hook defined. -/
  defines : definedHooks bundle = methods.map Method.hookName
  defines_once_iff : (definedHooks bundle).Nodup ↔ (methods.map (·.name)).Nodup
  /-- Every method has its hook declared, unless declarations are left out. -/
  declares : declaredHooks bundle = if options.declares then methods.map Method.hookName else []
  declares_once_iff : (declaredHooks bundle).Nodup ↔
    options.declares = true → (methods.map (·.name)).Nodup

/-- Texts that agree where others do are without repetition where those are. -/
theorem nodup_map_iff_of_eq_iff {methods : List Method} {f g : Method → String}
    (h : ∀ m ∈ methods, ∀ n ∈ methods, f m = f n ↔ g m = g n) :
    (methods.map f).Nodup ↔ (methods.map g).Nodup := by
  induction methods with
  | nil => exact Iff.rfl
  | cons m methods ih =>
      rw [List.map_cons, List.map_cons, List.nodup_cons, List.nodup_cons,
        ih fun n hn k hk => h n (List.mem_cons_of_mem _ hn) k (List.mem_cons_of_mem _ hk)]
      refine and_congr_left' (not_congr ?_)
      rw [List.mem_map, List.mem_map]
      refine exists_congr fun n => and_congr_right fun hn => ?_
      exact h n (List.mem_cons_of_mem _ hn) m List.mem_cons_self

/-- **Hooks are shared by the methods of one name,** whatever the header is, and by no others. -/
theorem hooksByName_ofHeader (text : String) (options : CodeOptions) :
    let d := Declarations.ofHeader text
    HooksByName d.methods options (classBundle d.className d.methods options) := by
  intro d
  have hread : ∀ m ∈ d.methods, Header.ReadMethod m := fun m => Header.readMethod_of_mem
  have hclass : ∀ m ∈ d.methods, ∀ n ∈ d.methods, m.className = n.className := fun m hm n hn =>
    (Header.className_eq_of_mem hm).trans (Header.className_eq_of_mem hn).symm
  have hword : ∀ c ∈ d.className.toList, isWord c = true := Header.isWord_className_ofHeader text
  have hname : ∀ m ∈ d.methods, ∀ n ∈ d.methods, m.hookName = n.hookName ↔ m.name = n.name :=
    fun m hm n hn => Method.hookName_eq_iff (hclass m hm n hn)
  have hshared : ∀ m ∈ d.methods, ∀ n ∈ d.methods,
      m.key ≠ n.key ∧ m.hookName = n.hookName ↔ m.Overloads n := fun m hm n hn =>
    Method.shares_hook_iff_overloads (hread m hm) (hread n hn) (hclass m hm n hn)
  have hregistrations := registrations_classBundle options hword hread
  have hdefined := definedHooks_classBundle options hword hread
  have hdeclared := declaredHooks_classBundle options hword hread
  refine ⟨hname, hshared, hregistrations, ?_, hdefined, ?_, hdeclared, ?_⟩
  · rw [hregistrations]
    constructor
    · rintro ⟨key, other, hook, slot, hne, hkey, hother⟩
      obtain ⟨m, hm, hcall⟩ := List.mem_map.1 hkey
      obtain ⟨rfl, hrest⟩ := Prod.mk.inj hcall
      obtain ⟨rfl, -⟩ := Prod.mk.inj hrest
      obtain ⟨n, hn, hcall⟩ := List.mem_map.1 hother
      obtain ⟨rfl, hrest⟩ := Prod.mk.inj hcall
      exact ⟨m, hm, n, hn, (hshared m hm n hn).1 ⟨hne, (Prod.mk.inj hrest).1.symm⟩⟩
    · rintro ⟨m, hm, n, hn, hoverloads⟩
      obtain ⟨hkey, hhook⟩ := (hshared m hm n hn).2 hoverloads
      refine ⟨m.key, n.key, m.hookName, m.hookName, hkey, List.mem_map_of_mem hm, ?_⟩
      rw [hhook]
      exact List.mem_map_of_mem hn
  · rw [hdefined]
    exact nodup_map_iff_of_eq_iff hname
  · rw [hdeclared]
    split
    · next hdeclares => simp [hdeclares, nodup_map_iff_of_eq_iff hname]
    · next hdeclares => simp [hdeclares]

/-- Two overloads are told apart by their keys, and their hook is there twice. -/
theorem keys_do_not_tell_hooks :
    let d := Declarations.ofHeader
      ("struct A\n\x7b\nint F() \x7b NativeCall<int>(this, \"A.F()\"); \x7d\n"
        ++ "int F(int a) \x7b NativeCall<int, int>(this, \"A.F(int)\", a); \x7d\n\x7d;")
    let bundle := classBundle d.className d.methods {}
    (¬∀ m ∈ d.methods, ∀ n ∈ d.methods, m.key ≠ n.key → m.hookName ≠ n.hookName) ∧
      registrations bundle = [("A.F()", "A_F", "A_F"), ("A.F(int)", "A_F", "A_F")] ∧
      definedHooks bundle = ["A_F", "A_F"] ∧ declaredHooks bundle = ["A_F", "A_F"] := by
  intro d bundle
  have hread : ∀ m ∈ d.methods, Header.ReadMethod m := fun m => Header.readMethod_of_mem
  have hword : ∀ c ∈ d.className.toList, isWord c = true := Header.isWord_className_ofHeader _
  have hcalls : (d.methods.map fun m => (m.key, m.hookName, m.hookName))
      = [("A.F()", "A_F", "A_F"), ("A.F(int)", "A_F", "A_F")] := by decide +kernel
  obtain ⟨m, rest, hmethods, hcall, hrest⟩ := List.map_eq_cons_iff.1 hcalls
  obtain ⟨n, more, rfl, hother, hmore⟩ := List.map_eq_cons_iff.1 hrest
  obtain rfl := List.map_eq_nil_iff.1 hmore
  rw [Prod.mk.injEq, Prod.mk.injEq] at hcall hother
  have hhooks : d.methods.map Method.hookName = ["A_F", "A_F"] := by
    rw [hmethods, List.map_cons, List.map_singleton, hcall.2.1, hother.2.1]
  refine ⟨fun hdiffer => ?_, (registrations_classBundle {} hword hread).trans hcalls,
    (definedHooks_classBundle {} hword hread).trans hhooks,
    (declaredHooks_classBundle {} hword hread).trans hhooks⟩
  have hm : m ∈ d.methods := hmethods ▸ List.mem_cons_self
  have hn : n ∈ d.methods := hmethods ▸ List.mem_cons_of_mem m List.mem_cons_self
  refine hdiffer m hm n hn ?_ (hcall.2.1.trans hother.2.1.symm)
  rw [hcall.1, hother.1]
  decide

end NativeHooks
