/-
# The bundle of a class agrees with the code of its methods

A bundle writes the calls that register and remove hooks a second time, with indentation of its
own, where the code of a single method has each as one text.  Both say the same for every header
(`bundles_ofHeader`): the bodies of the two functions are the calls of all methods in their
order, every line four spaces further in and an empty line after each call, so each hook is
removed under the key that it was registered under.

The two texts of a call are compared line by line (`setupCall_eq_indented`,
`removeCall_eq_indented`), and two things could go wrong.  A call could have more lines than it
was written with: keys, names and arguments are taken from any text, but no line feed gets into
them, since gaps in a parameter list become single spaces (`oneLine_key`,
`oneLine_parameterList`).  And a function could be found too early, in the code of a method:
return types are the only parts that keep their line feeds, and they have no parentheses.
Whatever line of that code opens one has an underscore, a comma or a colon before it, which the
heads of the two functions have not (`opensMarked`).
-/

import Mathlib.Data.List.Infix
import NativeHooks.Hook.Bundle
import NativeHooks.Proofs.Hook.Keys
import NativeHooks.Proofs.Text.Lines

namespace NativeHooks

open Text

/-! ### Reading a bundle -/

/-- The lines, each four spaces further in. -/
def indent (lines : List String) : List String := lines.map ("    " ++ ·)

/-- The text with every line four spaces further in. -/
def indented (text : String) : String := "\n".intercalate (indent (readLines text))

/-- The lines between the braces of the first function without parameters that has this name;
the head of the function and both braces are lines of their own. -/
def functionLines? (name code : String) : Option (List String) :=
  match (readLines code).dropWhile (· != "void " ++ name ++ "()") with
  | _ :: opening :: content =>
    if opening = "\x7b" ∧ "\x7d" ∈ content then some (content.takeWhile (· != "\x7d")) else none
  | _ => none

/-- The text between the braces of that function. -/
def functionBody? (name code : String) : Option String := (functionLines? name code).map unlines

/-- What a line has between the texts that it begins and ends with. -/
def between? (first last line : String) : Option String := do
  let rest ← first.toList.isPrefixOf? line.toList
  let inner ← last.toList.isSuffixOf? rest
  return String.ofList inner

/-- How a call of a command begins in the body of a function, up to its key. -/
def callHead (command : String) : String := "    " ++ hookManager ++ "." ++ command ++ "(\""

/-- Key and hook of the call that two lines begin; `ending` follows the hook. -/
def callAt? (command ending keyLine hookLine : String) : Option (String × String) := do
  let key ← between? (callHead command) "\"," keyLine
  let hook ← between? "        &Hook_" ending hookLine
  return (key, hook)

/-- Keys and hooks of all calls of a command, in the order of the lines. -/
def callsIn (command ending : String) : List String → List (String × String)
  | keyLine :: hookLine :: more =>
    (callAt? command ending keyLine hookLine).toList ++ callsIn command ending (hookLine :: more)
  | _ => []

/-- The hooks that a bundle registers, each with its key. -/
def registered (bundle : String) : List (String × String) :=
  callsIn "SetHook" "," ((functionLines? "SetupHooks" bundle).getD [])

/-- The hooks that a bundle removes, each with its key. -/
def removed (bundle : String) : List (String × String) :=
  callsIn "DisableHook" ");" ((functionLines? "RemoveHooks" bundle).getD [])

/-- What a bundle has to do with the code of the single methods. -/
structure Bundles (className : String) (methods : List Method) (options : CodeOptions)
    (bundle : String) : Prop where
  /-- The code of every method, with two line feeds after it. -/
  code : ∃ after, bundle = unlines (bundleBanner className)
    ++ String.join (methods.map fun m => m.hookCode options.declares ++ "\n\n") ++ after
  setup : functionBody? "SetupHooks" bundle
    = some (String.join (methods.map fun m => indented m.registration ++ "\n\n"))
  removal : functionBody? "RemoveHooks" bundle
    = some (String.join (methods.map fun m => indented m.removal ++ "\n\n"))
  /-- A call has three lines, or two. -/
  lengths : ∀ m ∈ methods, (readLines (indented m.registration)).length = 3 ∧
    (readLines (indented m.removal)).length = 2
  registered : registered bundle = methods.map fun m => (m.key, m.hookName)
  removed : removed bundle = methods.map fun m => (m.key, m.hookName)

/-- Indenting moves the lines and breaks none. -/
theorem readLines_indented {text : String} {lines : List String} (h : readLines text = lines)
    (hne : lines ≠ []) (hline : ∀ l ∈ lines, OneLine l) :
    readLines (indented text) = indent lines := by
  have hindent : ∀ l ∈ indent lines, OneLine l ∧ l ≠ "" := by
    rw [indent, List.forall_mem_map]
    refine fun l hl => ⟨OneLine.append (by decide) (hline l hl), fun hnil => ?_⟩
    have hchars := congrArg String.toList hnil
    rw [String.toList_append] at hchars
    exact absurd hchars (List.cons_ne_nil _ _)
  rw [indented, h]
  refine readLines_intercalate (by simpa [indent] using hne) (fun l hl => (hindent l hl).1) ?_
  exact fun l hl => (hindent l (List.mem_of_getLast? hl)).2

/-- What is written of indented lines is the indented text that has these lines. -/
theorem unlines_indent {text : String} {lines : List String} (h : readLines text = lines)
    (hne : lines ≠ []) : unlines (indent lines ++ [""]) = indented text ++ "\n\n" := by
  rw [unlines_append, unlines_eq_intercalate (by simpa [indent] using hne), indented, h,
    String.append_assoc]
  rfl

/-! ### Both texts of a call by lines -/

namespace Method

/-- The lines of the call that registers a hook. -/
def registrationLines (m : Method) : List String :=
  [hookManager ++ ".SetHook(\"" ++ m.key ++ "\",",
   "    &Hook_" ++ m.hookName ++ ",",
   "    &" ++ m.hookName ++ ");"]

/-- The lines of the call that removes a hook. -/
def removalLines (m : Method) : List String :=
  [hookManager ++ ".DisableHook(\"" ++ m.key ++ "\",",
   "    &Hook_" ++ m.hookName ++ ");"]

/-- In the code of a method, line feeds stand between the lines of a call. -/
theorem registration_eq (m : Method) : m.registration = "\n".intercalate m.registrationLines := by
  have hhook : "\",\n    &Hook_" = "\"," ++ ("\n" ++ "    &Hook_") := rfl
  have hslot : ",\n    &" = "," ++ ("\n" ++ "    &") := rfl
  simp only [registration, registrationLines, hhook, hslot, String.intercalate_cons_cons,
    String.intercalate_singleton, String.append_assoc]

theorem removal_eq (m : Method) : m.removal = "\n".intercalate m.removalLines := by
  have hhook : "\",\n    &Hook_" = "\"," ++ ("\n" ++ "    &Hook_") := rfl
  simp only [removal, removalLines, hhook, String.intercalate_cons_cons,
    String.intercalate_singleton, String.append_assoc]

/-- In the body of a function every line of a call is indented and ended, and so is the empty
line after it. -/
theorem setupCall_eq (m : Method) : m.setupCall = unlines (indent m.registrationLines ++ [""]) := by
  have hkey : "\",\n" = "\"," ++ "\n" := rfl
  have hhook : "        &Hook_" = "    " ++ "    &Hook_" := rfl
  have hcomma : ",\n" = "," ++ "\n" := rfl
  have hslot : "        &" = "    " ++ "    &" := rfl
  have hblank : ");\n\n" = ");" ++ ("\n" ++ unlines [""]) := rfl
  simp only [setupCall, registrationLines, indent, List.map_cons, List.map_nil, List.cons_append,
    List.nil_append, String.join_cons, String.join_nil, String.append_empty, hkey, hhook, hcomma,
    hslot, hblank, unlines_cons, unlines_nil, String.append_assoc]

theorem removeCall_eq (m : Method) : m.removeCall = unlines (indent m.removalLines ++ [""]) := by
  have hkey : "\",\n" = "\"," ++ "\n" := rfl
  have hhook : "        &Hook_" = "    " ++ "    &Hook_" := rfl
  have hblank : ");\n\n" = ");" ++ ("\n" ++ unlines [""]) := rfl
  simp only [removeCall, removalLines, indent, List.map_cons, List.map_nil, List.cons_append,
    List.nil_append, String.join_cons, String.join_nil, String.append_empty, hkey, hhook, hblank,
    unlines_cons, unlines_nil, String.append_assoc]

end Method

/-! ### Parts of code on one line -/

namespace Method

section OneLine

variable {m : Method} (h : Header.ReadMethod m)

include h

theorem oneLine_className : OneLine m.className := not_mem_of_class h.className rfl

theorem oneLine_name : OneLine m.name := not_mem_of_class h.name rfl

theorem oneLine_hookName : OneLine m.hookName :=
  not_mem_of_class (isWord_hookName h.className h.name) rfl

/-- Types and names of parameters have no line feeds. -/
theorem oneLine_parameter {p : Parameter} (hp : p ∈ m.parameters) :
    OneLine p.type ∧ OneLine p.name := by
  obtain ⟨cs, hcs⟩ := h.parameters
  rw [hcs] at hp
  constructor <;> intro hc
  · exact absurd ((Parameter.spaces_of_mem_readList hp).2 '\n' hc rfl) (by decide)
  · exact absurd (Parameter.eq_space_of_mem_name hp hc rfl) (by decide)

theorem oneLine_key : OneLine m.key := by
  have htypes : OneLine (", ".intercalate (m.parameters.map (·.type))) := by
    refine OneLine.intercalate (by decide) ?_
    rw [List.forall_mem_map]
    exact fun p hp => (oneLine_parameter h hp).1
  exact (((((oneLine_className h).append (by decide)).append (oneLine_name h)).append
    (by decide)).append htypes).append (by decide)

theorem oneLine_receiverType {type : String} (htype : type ∈ m.receiverType?) : OneLine type := by
  rw [receiverType?] at htype
  split at htype
  · exact absurd htype (by simp)
  · obtain rfl := Option.some.inj htype
    exact (oneLine_className h).append (by decide)

/-- The types after the return type of a declaration have no line feeds. -/
theorem oneLine_types :
    ∀ t ∈ m.receiverType?.toList ++ m.parameters.map (·.type), OneLine t := by
  intro t ht
  rcases List.mem_append.1 ht with ht | ht
  · exact oneLine_receiverType h (Option.mem_toList.1 ht)
  · obtain ⟨p, hp, rfl⟩ := List.mem_map.1 ht
    exact (oneLine_parameter h hp).1

theorem oneLine_parameterList : OneLine m.parameterList := by
  refine OneLine.intercalate (by decide) fun t ht => ?_
  rcases List.mem_append.1 ht with ht | ht
  · rw [Option.mem_toList, Option.map_eq_some_iff] at ht
    obtain ⟨type, htype, rfl⟩ := ht
    exact (oneLine_receiverType h htype).append (by decide)
  · obtain ⟨p, hp, rfl⟩ := List.mem_map.1 ht
    obtain ⟨htype, hname⟩ := oneLine_parameter h hp
    exact (htype.append (by decide)).append hname

theorem oneLine_argumentList : OneLine m.argumentList := by
  refine OneLine.intercalate (by decide) fun t ht => ?_
  rcases List.mem_append.1 ht with ht | ht
  · rw [Option.mem_toList, Option.map_eq_some_iff] at ht
    obtain ⟨-, -, rfl⟩ := ht
    decide
  · obtain ⟨p, hp, rfl⟩ := List.mem_map.1 ht
    exact (oneLine_parameter h hp).2

theorem oneLine_registrationLines : ∀ l ∈ m.registrationLines, OneLine l := by
  have hhook := oneLine_hookName h
  simp only [registrationLines, List.forall_mem_cons]
  refine ⟨?_, ?_, ?_, fun l hl => absurd hl List.not_mem_nil⟩
  · exact ((OneLine.append (by decide) (by decide)).append (oneLine_key h)).append (by decide)
  · exact (OneLine.append (by decide) hhook).append (by decide)
  · exact (OneLine.append (by decide) hhook).append (by decide)

theorem oneLine_removalLines : ∀ l ∈ m.removalLines, OneLine l := by
  simp only [removalLines, List.forall_mem_cons]
  refine ⟨?_, ?_, fun l hl => absurd hl List.not_mem_nil⟩
  · exact ((OneLine.append (by decide) (by decide)).append (oneLine_key h)).append (by decide)
  · exact (OneLine.append (by decide) (oneLine_hookName h)).append (by decide)

theorem readLines_registration : readLines m.registration = m.registrationLines := by
  rw [registration_eq]
  refine readLines_intercalate (List.cons_ne_nil _ _) (oneLine_registrationLines h) fun l hl => ?_
  obtain rfl := Option.some.inj hl
  exact fun hnil => absurd (congrArg String.toList hnil) (by simp)

theorem readLines_removal : readLines m.removal = m.removalLines := by
  rw [removal_eq]
  refine readLines_intercalate (List.cons_ne_nil _ _) (oneLine_removalLines h) fun l hl => ?_
  obtain rfl := Option.some.inj hl
  exact fun hnil => absurd (congrArg String.toList hnil) (by simp)

/-- **Both texts of a registration agree:** the call in `SetupHooks` is that of the method's own
code, further in. -/
theorem setupCall_eq_indented : m.setupCall = indented m.registration ++ "\n\n" :=
  m.setupCall_eq.trans (unlines_indent (readLines_registration h) (List.cons_ne_nil _ _))

/-- **Both texts of a removal agree:** the call in `RemoveHooks` is that of the method's own
code, further in. -/
theorem removeCall_eq_indented : m.removeCall = indented m.removal ++ "\n\n" :=
  m.removeCall_eq.trans (unlines_indent (readLines_removal h) (List.cons_ne_nil _ _))

end OneLine

end Method

/-! ### Lines that open a parenthesis -/

/-- A mark: code of a method has one before the parentheses of a line. -/
def isMark (c : Char) : Bool := c == '_' || c == ',' || c == ':'

/-- Before every parenthesis that opens stands a mark on the same line; `marked` says that the
line has one before the text begins. -/
def opensMarked (marked : Bool) : List Char → Bool
  | [] => true
  | c :: cs =>
    if c = '\n' then opensMarked false cs
    else (c != '(' || marked) && opensMarked (marked || isMark c) cs

theorem opensMarked_mono {a b : Bool} (hab : a = true → b = true) {w : List Char}
    (h : opensMarked a w = true) : opensMarked b w = true := by
  induction w generalizing a b with
  | nil => rfl
  | cons c w ih =>
      rw [opensMarked] at h ⊢
      split
      · next hc => rwa [if_pos hc] at h
      · next hc =>
          rw [if_neg hc, Bool.and_eq_true, Bool.or_eq_true] at h
          rw [Bool.and_eq_true, Bool.or_eq_true]
          refine ⟨h.1.imp_right hab, ih (fun hmark => ?_) h.2⟩
          rw [Bool.or_eq_true] at hmark ⊢
          exact hmark.imp_left hab

/-- A text without parentheses may stand anywhere. -/
theorem opensMarked_append {u v : List Char} (hu : '(' ∉ u) (hv : opensMarked false v = true)
    (marked : Bool) : opensMarked marked (u ++ v) = true := by
  induction u generalizing marked with
  | nil => exact opensMarked_mono (fun h => absurd h Bool.false_ne_true) hv
  | cons c u ih =>
      rw [List.mem_cons, not_or] at hu
      rw [List.cons_append, opensMarked, ih hu.2, ih hu.2, Bool.and_true, bne_iff_ne.2 (Ne.symm hu.1)]
      split <;> rfl

/-- Any text may stand behind a mark, up to the end of the line. -/
theorem opensMarked_line {u v : List Char} (hu : '\n' ∉ u) (hv : opensMarked false v = true) :
    opensMarked true (u ++ v) = true := by
  induction u with
  | nil => exact opensMarked_mono (fun _ => rfl) hv
  | cons c u ih =>
      rw [List.mem_cons, not_or] at hu
      rw [List.cons_append, opensMarked, if_neg (Ne.symm hu.1), Bool.or_true, Bool.true_or, ih hu.2]
      rfl

/-- Every line of a text that opens its parentheses after marks does so. -/
theorem opensMarked_splitOn {marked : Bool} {w : List Char} (h : opensMarked marked w = true) :
    ∃ line more, w.splitOn '\n' = line :: more ∧ opensMarked marked line = true ∧
      ∀ l ∈ more, opensMarked false l = true := by
  induction w generalizing marked with
  | nil => exact ⟨[], [], rfl, rfl, fun l hl => absurd hl List.not_mem_nil⟩
  | cons c w ih =>
      rw [opensMarked] at h
      rw [List.splitOn_cons_eq_if_modifyHead]
      by_cases hc : c = '\n'
      · rw [if_pos hc] at h
        obtain ⟨line, more, hsplit, hline, hmore⟩ := ih h
        rw [if_pos (beq_iff_eq.2 hc), hsplit]
        exact ⟨[], line :: more, rfl, rfl, List.forall_mem_cons.2 ⟨hline, hmore⟩⟩
      · rw [if_neg hc, Bool.and_eq_true] at h
        obtain ⟨line, more, hsplit, hline, hmore⟩ := ih h.2
        rw [if_neg (mt beq_iff_eq.1 hc), hsplit]
        refine ⟨c :: line, more, rfl, ?_, hmore⟩
        rw [opensMarked, if_neg hc, h.1, hline]
        rfl

/-- A text that may stand before any text whose parentheses are marked. -/
def Marked (s : String) : Prop :=
  ∀ v, opensMarked false v = true → opensMarked false (s.toList ++ v) = true

theorem Marked.append {s t : String} (hs : Marked s) (ht : Marked t) : Marked (s ++ t) := by
  intro v hv
  rw [String.toList_append, List.append_assoc]
  exact hs _ (ht v hv)

theorem Marked.intercalate {sep : String} {texts : List String} (hsep : Marked sep)
    (h : ∀ t ∈ texts, Marked t) : Marked (sep.intercalate texts) :=
  intercalate_induction (fun _ hv => hv) Marked.append hsep h

theorem marked_of_not_mem {s : String} (h : '(' ∉ s.toList) : Marked s :=
  fun _ hv => opensMarked_append h hv false

/-- A text on one line is marked from its first mark on. -/
theorem marked_of_mark (u mark : String) {s : String} (hu : '(' ∉ u.toList)
    (hmark : mark ∈ ["_", ",", ":"]) (hs : OneLine s) : Marked (u ++ mark ++ s) := by
  intro v hv
  have hline := opensMarked_line hs hv
  have hstart : opensMarked false (mark.toList ++ (s.toList ++ v)) = true := by
    simp only [List.mem_cons, List.not_mem_nil, or_false] at hmark
    rcases hmark with rfl | rfl | rfl <;> exact hline
  rw [String.toList_append, String.toList_append, List.append_assoc, List.append_assoc]
  exact opensMarked_append hu hstart false

/-- No line of a marked text opens a parenthesis without a mark. -/
theorem Marked.opensMarked_of_mem {s line : String} (hs : Marked s) (hline : line ∈ readLines s) :
    opensMarked false line.toList = true := by
  have hmarked := hs [] rfl
  rw [List.append_nil] at hmarked
  obtain ⟨first, more, hsplit, hfirst, hmore⟩ := opensMarked_splitOn hmarked
  have hall : ∀ l ∈ first :: more, opensMarked false l = true :=
    List.forall_mem_cons.2 ⟨hfirst, hmore⟩
  rw [readLines, hsplit, List.mem_map] at hline
  obtain ⟨l, hl, rfl⟩ := hline
  rw [String.toList_ofList]
  split at hl
  · exact hall l (List.mem_of_mem_dropLast hl)
  · exact hall l hl

namespace Method

section Marked

variable {m : Method} (h : Header.ReadMethod m)

include h

/-- Before the parenthesis of a declaration stands the underscore of its first word, and a line
that begins inside the return type has a comma before all parentheses. -/
theorem marked_declareMacro : Marked m.declareMacro := by
  have htype : '(' ∉ (if isVoid m.returnType then "void" else m.returnType).toList :=
    not_mem_of_outside h.typeLike_returnType.endsType_eq_false rfl
  have hrest := oneLine_types h
  have htypes : Marked (", ".intercalate ((if isVoid m.returnType then "void" else m.returnType)
      :: (m.receiverType?.toList ++ m.parameters.map (·.type)))) := by
    rcases hlist : m.receiverType?.toList ++ m.parameters.map (·.type) with _ | ⟨t, more⟩
    · rw [String.intercalate_singleton]
      exact marked_of_not_mem htype
    · rw [hlist] at hrest
      rw [String.intercalate_cons_cons, String.append_assoc]
      refine (marked_of_not_mem htype).append ?_
      have htail : OneLine (" " ++ ", ".intercalate (t :: more)) :=
        OneLine.append (by decide) (OneLine.intercalate (by decide) hrest)
      have hcomma := marked_of_mark "" "," (by decide) (by decide) htail
      rwa [String.empty_append, ← String.append_assoc] at hcomma
  have hname : Marked ("DECLARE" ++ "_" ++ ("HOOK(" ++ m.hookName ++ ", ")) :=
    marked_of_mark _ _ (by decide) (by decide)
      ((OneLine.append (by decide) (oneLine_hookName h)).append (by decide))
  have hsplit : m.declareMacro = "DECLARE" ++ "_" ++ ("HOOK(" ++ m.hookName ++ ", ")
      ++ ", ".intercalate ((if isVoid m.returnType then "void" else m.returnType)
        :: (m.receiverType?.toList ++ m.parameters.map (·.type))) ++ ");" := by
    simp only [declareMacro, List.cons_append, List.nil_append, String.intercalate_cons_cons,
      show "DECLARE_HOOK(" = "DECLARE" ++ "_" ++ "HOOK(" from rfl, String.append_assoc]
  rw [hsplit]
  exact (hname.append htypes).append (marked_of_not_mem (by decide))

/-- The parentheses of a stub come after an underscore in the name of the hook. -/
theorem marked_stub : Marked m.stub := by
  have htype : '(' ∉ (m.returnType ++ " Hook").toList := by
    rw [String.toList_append, List.mem_append, not_or]
    exact ⟨not_mem_of_outside h.returnType.endsType_eq_false rfl, by decide⟩
  have hhead : Marked (m.returnType ++ " Hook_" ++ m.hookName ++ "(" ++ m.parameterList ++ ")") := by
    have hline : OneLine (m.hookName ++ "(" ++ m.parameterList ++ ")") :=
      (((oneLine_hookName h).append (by decide)).append (oneLine_parameterList h)).append (by decide)
    have hmark := marked_of_mark _ "_" htype (by decide) hline
    simpa only [show " Hook_" = " Hook" ++ "_" from rfl, String.append_assoc] using hmark
  have hcall : ∀ start : String, '(' ∉ start.toList →
      Marked (start ++ (m.hookName ++ ".original(" ++ m.argumentList ++ ");")) := by
    intro start hstart
    have hclass : '(' ∉ (start ++ m.className).toList := by
      rw [String.toList_append, List.mem_append, not_or]
      exact ⟨hstart, not_mem_of_class h.className rfl⟩
    have hline : OneLine (m.name ++ ".original(" ++ m.argumentList ++ ");") :=
      (((oneLine_name h).append (by decide)).append (oneLine_argumentList h)).append (by decide)
    have hmark := marked_of_mark _ "_" hclass (by decide) hline
    simpa only [hookName, String.append_assoc] using hmark
  refine Marked.intercalate (marked_of_not_mem (by decide)) ?_
  simp only [List.forall_mem_cons]
  refine ⟨hhead, marked_of_not_mem (by decide), ?_, marked_of_not_mem (by decide),
    fun t ht => absurd ht List.not_mem_nil⟩
  split
  · exact hcall _ (by decide)
  · exact hcall _ (by decide)

/-- The parentheses of a registration come after the colons in `hookManager`. -/
theorem marked_registration : Marked m.registration := by
  have hkey : Marked (hookManager ++ ".SetHook(\"" ++ m.key ++ "\",") := by
    have hline : OneLine (":GetHooks()" ++ ".SetHook(\"" ++ m.key ++ "\",") :=
      ((OneLine.append (by decide) (by decide)).append (oneLine_key h)).append (by decide)
    have hmark := marked_of_mark "AsaApi" ":" (by decide) (by decide) hline
    simpa only [hookManager, show "AsaApi::GetHooks()" = "AsaApi" ++ ":" ++ ":GetHooks()" from rfl,
      String.append_assoc] using hmark
  have hhook : '(' ∉ m.hookName.toList := not_mem_of_class (isWord_hookName h.className h.name) rfl
  rw [registration_eq]
  refine Marked.intercalate (marked_of_not_mem (by decide)) ?_
  simp only [registrationLines, List.forall_mem_cons]
  refine ⟨hkey, marked_of_not_mem ?_, marked_of_not_mem ?_, fun t ht => absurd ht List.not_mem_nil⟩
  · simpa using hhook
  · simpa using hhook

theorem marked_hookCode (declares : Bool) : Marked (m.hookCode declares) := by
  have hbreak : Marked "\n\n" := marked_of_not_mem (by decide)
  have hdeclaration : Marked (if declares then m.declareMacro ++ "\n\n" else "") := by
    split
    · exact (marked_declareMacro h).append hbreak
    · exact marked_of_not_mem (by decide)
  exact ((((hdeclaration.append (marked_stub h)).append hbreak).append
    (marked_registration h)).append (marked_of_not_mem (by decide)))

end Marked

end Method

/-! ### The bodies of the two functions -/

/-- The lines of a body: the lines of every call further in, and an empty line. -/
def bodyLines (call : Method → List String) (methods : List Method) : List String :=
  methods.flatMap fun m => indent (call m) ++ [""]

/-- The lines of a function with these lines in its body. -/
def functionLines (heading name : String) (content : List String) : List String :=
  [bundleRule, "// " ++ heading, bundleRule, "void " ++ name ++ "()", "\x7b"] ++ content ++ ["\x7d"]

/-- A body is written call by call. -/
theorem unlines_bodyLines {call : Method → List String} {text : Method → String}
    {methods : List Method} (h : ∀ m, text m = unlines (indent (call m) ++ [""])) :
    unlines (bodyLines call methods) = String.join (methods.map text) := by
  induction methods with
  | nil => rfl
  | cons m methods ih =>
      rw [List.map_cons, String.join_cons, h m, ← ih, ← unlines_append]
      rfl

theorem unlines_functionLines (heading name : String) (content : List String) :
    unlines (functionLines heading name content)
      = bundleFunction heading name (unlines content) := by
  rw [functionLines, unlines_append, unlines_append]
  rfl

/-- A function is found behind lines that are not its head. -/
theorem functionLines?_of_readLines {heading name code : String}
    {before content after : List String}
    (h : readLines code = before ++ (functionLines heading name content ++ after))
    (hhead : "void " ++ name ++ "()" ∉ before) (hcontent : "\x7d" ∉ content) :
    functionLines? name code = some content := by
  have hcomment : ∀ l : String, l.toList.head? = some '/' → l ≠ "void " ++ name ++ "()" := by
    rintro l hl rfl
    rw [String.toList_append, String.toList_append] at hl
    exact absurd (Option.some.inj hl) (by decide)
  have hbefore : ∀ l ∈ before ++ [bundleRule, "// " ++ heading, bundleRule],
      (l != "void " ++ name ++ "()") = true := by
    simp only [List.forall_mem_append, List.forall_mem_cons, bne_iff_ne]
    refine ⟨fun l hl heq => hhead (heq ▸ hl), hcomment _ rfl, hcomment _ ?_, hcomment _ rfl,
      fun l hl => absurd hl List.not_mem_nil⟩
    rw [String.toList_append]
    rfl
  have hinside : ∀ l ∈ content, (l != "\x7d") = true :=
    fun l hl => bne_iff_ne.2 fun heq => hcontent (heq ▸ hl)
  have hlines : readLines code = (before ++ [bundleRule, "// " ++ heading, bundleRule])
      ++ ("void " ++ name ++ "()") :: "\x7b" :: (content ++ "\x7d" :: after) := by
    rw [h]
    simp only [functionLines, List.append_assoc, List.cons_append, List.nil_append]
  rw [functionLines?, hlines, dropWhile_run hbefore (bne_self_eq_false _)]
  exact (if_pos ⟨rfl, List.mem_append_right _ List.mem_cons_self⟩).trans
    (congrArg some (takeWhile_run hinside (bne_self_eq_false _)))

/-- A line of a body is empty, or a line of a call four spaces further in. -/
theorem mem_bodyLines {call : Method → List String} {methods : List Method} {line : String}
    (h : line ∈ bodyLines call methods) :
    line = "" ∨ ∃ m ∈ methods, ∃ l ∈ call m, line = "    " ++ l := by
  obtain ⟨m, hm, hline⟩ := List.mem_flatMap.1 h
  rcases List.mem_append.1 hline with hline | hline
  · obtain ⟨l, hl, rfl⟩ := List.mem_map.1 hline
    exact .inr ⟨m, hm, l, hl, rfl⟩
  · exact .inl (List.mem_singleton.1 hline)

/-- Lines of another kind are no lines of a body. -/
theorem not_mem_bodyLines {call : Method → List String} {methods : List Method} {line : String}
    (h : ∃ c ∈ line.toList.head?, c ≠ ' ') : line ∉ bodyLines call methods := by
  obtain ⟨c, hhead, hspace⟩ := h
  intro hmem
  rcases mem_bodyLines hmem with rfl | ⟨m, -, l, -, rfl⟩
  · exact absurd hhead (by simp)
  · rw [String.toList_append] at hhead
    exact hspace (Option.some.inj hhead).symm

theorem oneLine_bodyLines {call : Method → List String} {methods : List Method}
    (h : ∀ m ∈ methods, ∀ l ∈ call m, OneLine l) : ∀ l ∈ bodyLines call methods, OneLine l := by
  intro line hline
  rcases mem_bodyLines hline with rfl | ⟨m, hm, l, hl, rfl⟩
  · decide
  · exact OneLine.append (by decide) (h m hm l hl)

theorem oneLine_functionLines {heading name : String} {content : List String}
    (hheading : OneLine heading) (hname : OneLine name) (h : ∀ l ∈ content, OneLine l) :
    ∀ l ∈ functionLines heading name content, OneLine l := by
  have hrule : OneLine bundleRule := by decide
  simp only [functionLines, List.forall_mem_append, List.forall_mem_cons]
  refine ⟨⟨⟨hrule, OneLine.append (by decide) hheading, hrule,
    (OneLine.append (by decide) hname).append (by decide), by decide, ?_⟩, h⟩, by decide, ?_⟩
  · exact fun l hl => absurd hl List.not_mem_nil
  · exact fun l hl => absurd hl List.not_mem_nil

/-- The lines of the two functions that a bundle ends with. -/
def bundleFunctions (methods : List Method) : List String :=
  functionLines "Load function - Initialize all hooks" "SetupHooks"
      (bodyLines Method.registrationLines methods)
    ++ [""]
    ++ functionLines "Unload function - Remove all hooks" "RemoveHooks"
      (bodyLines Method.removalLines methods)

theorem unlines_bundleFunctions (methods : List Method) :
    unlines (bundleFunctions methods)
      = bundleFunction "Load function - Initialize all hooks" "SetupHooks"
          (String.join (methods.map Method.setupCall))
        ++ "\n"
        ++ bundleFunction "Unload function - Remove all hooks" "RemoveHooks"
          (String.join (methods.map Method.removeCall)) := by
  rw [bundleFunctions, unlines_append, unlines_append, unlines_functionLines,
    unlines_functionLines, unlines_bodyLines Method.setupCall_eq,
    unlines_bodyLines Method.removeCall_eq]
  rfl

/-- The lines of a bundle before its two functions: the banner and the code of the methods. -/
def codeLines (className : String) (methods : List Method) (options : CodeOptions) : List String :=
  bundleBanner className
    ++ methods.flatMap fun m => readLines (m.hookCode options.declares ++ "\n\n")

theorem oneLine_bundleBanner {className : String} (h : OneLine className) :
    ∀ l ∈ bundleBanner className, OneLine l := by
  simp only [bundleBanner, List.forall_mem_cons]
  refine ⟨by decide, OneLine.append (by decide) h, by decide, by decide, by decide, by decide,
    by decide, by decide, by decide, by decide, fun l hl => absurd hl List.not_mem_nil⟩

theorem readLines_classBundle {className : String} {methods : List Method} (options : CodeOptions)
    (hclass : ∀ c ∈ className.toList, isWord c = true) (h : ∀ m ∈ methods, Header.ReadMethod m) :
    readLines (classBundle className methods options)
      = codeLines className methods options ++ bundleFunctions methods := by
  have hended : ∀ code ∈ methods.map fun m => m.hookCode options.declares ++ "\n\n", Ended code := by
    rw [List.forall_mem_map]
    exact fun m _ => Ended.append_left ⟨"\n", rfl⟩ _
  have hfunctions : ∀ l ∈ bundleFunctions methods, OneLine l := by
    rw [bundleFunctions, List.forall_mem_append, List.forall_mem_append]
    refine ⟨⟨oneLine_functionLines (by decide) (by decide) ?_, by decide⟩,
      oneLine_functionLines (by decide) (by decide) ?_⟩
    · exact oneLine_bodyLines fun m hm => Method.oneLine_registrationLines (h m hm)
    · exact oneLine_bodyLines fun m hm => Method.oneLine_removalLines (h m hm)
  have hbanner : ∀ l ∈ bundleBanner className, OneLine l :=
    oneLine_bundleBanner (not_mem_of_class hclass rfl)
  have hparts : classBundle className methods options = unlines (bundleBanner className)
      ++ (String.join (methods.map fun m => m.hookCode options.declares ++ "\n\n")
        ++ unlines (bundleFunctions methods)) := by
    rw [unlines_bundleFunctions, classBundle, String.append_assoc]
  rw [hparts, readLines_unlines_append hbanner, readLines_join_append hended,
    readLines_unlines hfunctions, List.flatMap_map, codeLines, List.append_assoc]

/-- No line before the two functions opens a parenthesis without a mark. -/
theorem opensMarked_of_mem_codeLines {className : String} {methods : List Method}
    (options : CodeOptions) (hclass : ∀ c ∈ className.toList, isWord c = true)
    (h : ∀ m ∈ methods, Header.ReadMethod m) :
    ∀ l ∈ codeLines className methods options, opensMarked false l.toList = true := by
  have hbanner : ∀ l ∈ bundleBanner className, '(' ∉ l.toList := by
    have hclass : '(' ∉ className.toList := not_mem_of_class hclass rfl
    simp only [bundleBanner, List.forall_mem_cons]
    refine ⟨by decide, by simpa using hclass, by decide, by decide, by decide, by decide,
      by decide, by decide, by decide, by decide, fun l hl => absurd hl List.not_mem_nil⟩
  intro l hl
  rcases List.mem_append.1 hl with hl | hl
  · have hline := opensMarked_append (hbanner l hl) (v := []) rfl false
    rwa [List.append_nil] at hline
  · obtain ⟨m, hm, hl⟩ := List.mem_flatMap.1 hl
    have hcode : Marked (m.hookCode options.declares ++ "\n\n") :=
      (Method.marked_hookCode (h m hm) options.declares).append (marked_of_not_mem (by decide))
    exact hcode.opensMarked_of_mem hl

section Functions

variable {className : String} {methods : List Method} (options : CodeOptions)
  (hclass : ∀ c ∈ className.toList, isWord c = true) (h : ∀ m ∈ methods, Header.ReadMethod m)

include hclass h

theorem functionLines?_setup :
    functionLines? "SetupHooks" (classBundle className methods options)
      = some (bodyLines Method.registrationLines methods) := by
  have hlines := readLines_classBundle options hclass h
  rw [bundleFunctions, List.append_assoc (functionLines _ _ _)] at hlines
  refine functionLines?_of_readLines hlines (fun hmem => ?_)
    (not_mem_bodyLines ⟨'\x7d', rfl, by decide⟩)
  exact absurd (opensMarked_of_mem_codeLines options hclass h _ hmem) (by decide)

theorem functionLines?_removal :
    functionLines? "RemoveHooks" (classBundle className methods options)
      = some (bodyLines Method.removalLines methods) := by
  have hlines := readLines_classBundle options hclass h
  rw [bundleFunctions, ← List.append_assoc,
    ← List.append_nil (functionLines _ "RemoveHooks" _)] at hlines
  refine functionLines?_of_readLines hlines (fun hmem => ?_)
    (not_mem_bodyLines ⟨'\x7d', rfl, by decide⟩)
  simp only [functionLines, List.mem_append] at hmem
  rcases hmem with hmem | ((hmem | hmem) | hmem) | hmem
  · exact absurd (opensMarked_of_mem_codeLines options hclass h _ hmem) (by decide)
  · exact absurd hmem (by decide)
  · exact not_mem_bodyLines ⟨'v', rfl, by decide⟩ hmem
  · exact absurd hmem (by decide)
  · exact absurd hmem (by decide)

/-- **The body of `SetupHooks`** is what the calls of all methods write in it. -/
theorem functionBody?_setup :
    functionBody? "SetupHooks" (classBundle className methods options)
      = some (String.join (methods.map Method.setupCall)) := by
  rw [functionBody?, functionLines?_setup options hclass h, Option.map_some,
    unlines_bodyLines Method.setupCall_eq]

/-- **The body of `RemoveHooks`** is what the calls of all methods write in it. -/
theorem functionBody?_removal :
    functionBody? "RemoveHooks" (classBundle className methods options)
      = some (String.join (methods.map Method.removeCall)) := by
  rw [functionBody?, functionLines?_removal options hclass h, Option.map_some,
    unlines_bodyLines Method.removeCall_eq]

end Functions

/-! ### The calls of a body -/

/-- What stands between two texts is read back. -/
theorem between?_append (first inner last : String) :
    between? first last (first ++ inner ++ last) = some inner := by
  have hrest : first.toList.isPrefixOf? (first ++ inner ++ last).toList
      = some (inner ++ last).toList := by
    rw [List.isPrefixOf?_eq_some_iff_append_eq, ← String.toList_append, String.append_assoc]
  have hinner : last.toList.isSuffixOf? (inner ++ last).toList = some inner.toList := by
    rw [List.isSuffixOf?_eq_some_iff_append_eq, ← String.toList_append]
  simp only [between?, hrest, hinner, Option.bind_eq_bind, Option.bind_some, Option.pure_def,
    String.ofList_toList]

/-- A line that does not begin as a call does holds no key. -/
theorem between?_callHead_eq_none {command line : String}
    (h : ∀ rest, line.toList ≠ "    A".toList ++ rest) :
    between? (callHead command) "\"," line = none := by
  have hstart : (callHead command).toList.isPrefixOf? line.toList = none := by
    rw [Option.eq_none_iff_forall_ne_some]
    intro rest hrest
    rw [List.isPrefixOf?_eq_some_iff_append_eq] at hrest
    refine h (("saApi::GetHooks()." ++ command ++ "(\"").toList ++ rest) ?_
    rw [← hrest]
    simp [callHead, hookManager]
  simp only [between?, hstart, Option.bind_eq_bind, Option.bind_none]

/-- Lines that hold no key are passed over. -/
theorem callsIn_skip {command ending : String} {skipped : List String}
    (h : ∀ l ∈ skipped, between? (callHead command) "\"," l = none) (rest : List String) :
    callsIn command ending (skipped ++ rest) = callsIn command ending rest := by
  induction skipped with
  | nil => rfl
  | cons l skipped ih =>
      rw [← ih fun k hk => h k (List.mem_cons_of_mem _ hk), List.cons_append]
      rcases skipped ++ rest with _ | ⟨next, more⟩
      · rfl
      · simp only [callsIn, callAt?, h l List.mem_cons_self, Option.bind_eq_bind, Option.bind_none,
          Option.toList_none, List.nil_append]

/-- **Every call of a body is found once and in its place** if the first two lines of a call say
what it calls and the others hold no key. -/
theorem callsIn_bodyLines {command ending : String} {call : Method → List String}
    {methods : List Method}
    (h : ∀ m ∈ methods, ∃ keyLine hookLine more, call m = keyLine :: hookLine :: more ∧
      callAt? command ending ("    " ++ keyLine) ("    " ++ hookLine) = some (m.key, m.hookName) ∧
      ∀ l ∈ hookLine :: more, between? (callHead command) "\"," ("    " ++ l) = none) :
    callsIn command ending (bodyLines call methods)
      = methods.map fun m => (m.key, m.hookName) := by
  induction methods with
  | nil => rfl
  | cons m methods ih =>
      obtain ⟨keyLine, hookLine, more, hcall, hread, hskip⟩ := h m List.mem_cons_self
      have hmore := ih fun n hn => h n (List.mem_cons_of_mem _ hn)
      have hrest : ∀ l ∈ indent (hookLine :: more) ++ [""],
          between? (callHead command) "\"," l = none := by
        intro l hl
        rcases List.mem_append.1 hl with hl | hl
        · obtain ⟨k, hk, rfl⟩ := List.mem_map.1 hl
          exact hskip k hk
        · obtain rfl := List.mem_singleton.1 hl
          exact between?_callHead_eq_none fun rest => by simp
      have hblock : bodyLines call (m :: methods) = ("    " ++ keyLine) :: ("    " ++ hookLine)
          :: (indent more ++ [""] ++ bodyLines call methods) := by
        rw [bodyLines, List.flatMap_cons, hcall]
        rfl
      rw [hblock, callsIn, hread, List.map_cons, ← hmore]
      exact congrArg _ (callsIn_skip hrest _)

/-- The first two lines of a call say what it calls. -/
theorem callAt?_call (command ending key hook : String) :
    callAt? command ending ("    " ++ (hookManager ++ ("." ++ command ++ "(\"") ++ key ++ "\","))
      ("    " ++ ("    &Hook_" ++ hook ++ ending)) = some (key, hook) := by
  have hkey := between?_append (callHead command) key "\","
  have hhook := between?_append ("    " ++ "    &Hook_") hook ending
  simp only [callHead, String.append_assoc] at hkey hhook ⊢
  simp only [callAt?, callHead, String.append_assoc, hkey, Option.bind_eq_bind, Option.bind_some]
  rw [show "        &Hook_" = "    " ++ "    &Hook_" from rfl, hhook]
  rfl

theorem callsIn_registration (methods : List Method) :
    callsIn "SetHook" "," (bodyLines Method.registrationLines methods)
      = methods.map fun m => (m.key, m.hookName) := by
  refine callsIn_bodyLines fun m _ => ⟨_, _, _, rfl, callAt?_call "SetHook" "," _ _, ?_⟩
  intro l hl
  refine between?_callHead_eq_none fun rest => ?_
  rcases List.mem_pair.1 hl with rfl | rfl <;> simp

theorem callsIn_removal (methods : List Method) :
    callsIn "DisableHook" ");" (bodyLines Method.removalLines methods)
      = methods.map fun m => (m.key, m.hookName) := by
  refine callsIn_bodyLines fun m _ => ⟨_, _, _, rfl, callAt?_call "DisableHook" ");" _ _, ?_⟩
  intro l hl
  refine between?_callHead_eq_none fun rest => ?_
  rcases List.mem_singleton.1 hl with rfl
  simp

/-! ### The whole bundle -/

theorem bundles_classBundle {className : String} {methods : List Method} (options : CodeOptions)
    (hclass : ∀ c ∈ className.toList, isWord c = true) (h : ∀ m ∈ methods, Header.ReadMethod m) :
    Bundles className methods options (classBundle className methods options) where
  code := ⟨_, rfl⟩
  setup := by
    rw [functionBody?_setup options hclass h,
      List.map_congr_left fun m hm => Method.setupCall_eq_indented (h m hm)]
  removal := by
    rw [functionBody?_removal options hclass h,
      List.map_congr_left fun m hm => Method.removeCall_eq_indented (h m hm)]
  lengths m hm := by
    have hm := h m hm
    rw [readLines_indented (Method.readLines_registration hm) (List.cons_ne_nil _ _)
        (Method.oneLine_registrationLines hm),
      readLines_indented (Method.readLines_removal hm) (List.cons_ne_nil _ _)
        (Method.oneLine_removalLines hm)]
    exact ⟨rfl, rfl⟩
  registered := by
    rw [registered, functionLines?_setup options hclass h]
    exact callsIn_registration methods
  removed := by
    rw [removed, functionLines?_removal options hclass h]
    exact callsIn_removal methods

/-- **The bundle of a header agrees with the code of its methods,** whatever the header is. -/
theorem bundles_ofHeader (text : String) (options : CodeOptions) :
    let d := Declarations.ofHeader text
    Bundles d.className d.methods options (classBundle d.className d.methods options) := by
  exact bundles_classBundle options (Header.isWord_className_ofHeader text)
    fun m hm => Header.readMethod_of_mem hm

end NativeHooks
