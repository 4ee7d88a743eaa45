/-
# Hook code for one method

Hooking a method takes four pieces of code: a `DECLARE_HOOK` line, a stub that
forwards to the method itself, a call that registers the stub under the key of
the method, and a call that removes it again.  Besides there are templates for
code that runs before or after the method.  Keys and hooks are looked up by
their text, so every space and line break is part of the format.

A method that belongs to an object takes it as its first parameter, the
receiver `_this`.  The key never mentions the receiver.
-/

import NativeHooks.Declaration.Basic
import NativeHooks.Text.Lines
import NativeHooks.Text.Lowercase

namespace NativeHooks

open Text

/-- The expression that generated code reaches the registered hooks by. -/
def hookManager : String := "AsaApi::GetHooks()"

/-- The return type `void` in any case.  A type that only stands for `void` is
not recognised. -/
def isVoid (type : String) : Bool := asciiLower type.toList == "void".toList

namespace Method

/-! ### Signatures -/

/-- The key a hook is registered under: class, name and parameter types. -/
def key (m : Method) : String :=
  m.className ++ "." ++ m.name ++ "(" ++ ", ".intercalate (m.parameters.map (·.type)) ++ ")"

/-- The type of the receiver; a static method has none. -/
def receiverType? (m : Method) : Option String :=
  if m.isStatic then none else some (m.className ++ "*")

/-- The parameters of a hook: the receiver, then those of the method. -/
def parameterList (m : Method) : String :=
  ", ".intercalate
    ((m.receiverType?.map (· ++ " _this")).toList ++ m.parameters.map Parameter.text)

/-- The arguments a hook passes on to the method. -/
def argumentList (m : Method) : String :=
  ", ".intercalate ((m.receiverType?.map fun _ => "_this").toList ++ m.parameters.map (·.name))

/-! ### The four pieces -/

/-- The line that declares a hook and its slot. -/
def declareMacro (m : Method) : String :=
  "DECLARE_HOOK(" ++
    ", ".intercalate
      ([m.hookName, if isVoid m.returnType then "void" else m.returnType]
        ++ m.receiverType?.toList ++ m.parameters.map (·.type))
    ++ ");"

/-- The hook that does nothing but call the method. -/
def stub (m : Method) : String :=
  let call := m.hookName ++ ".original(" ++ m.argumentList ++ ");"
  "\n".intercalate
    [m.returnType ++ " Hook_" ++ m.hookName ++ "(" ++ m.parameterList ++ ")",
     "\x7b",
     if isVoid m.returnType then "    " ++ call else "    return " ++ call,
     "\x7d"]

/-- The call that registers a hook, in three lines: key, hook and slot. -/
def registration (m : Method) : String :=
  hookManager ++ ".SetHook(\"" ++ m.key ++ "\",\n    &Hook_" ++ m.hookName
    ++ ",\n    &" ++ m.hookName ++ ");"

/-- The call that removes a hook, in two lines: key and hook. -/
def removal (m : Method) : String :=
  hookManager ++ ".DisableHook(\"" ++ m.key ++ "\",\n    &Hook_" ++ m.hookName ++ ");"

/-! ### Templates -/

/-- The line of a template that logs its run; `moment` is `Pre` or `Post`. -/
def logLine (m : Method) (moment : String) : String :=
  "    Log::GetLog()->info(\"" ++ m.className ++ "::" ++ m.name ++ " - " ++ moment ++ "-hook\");"

/-- The first lines of a template, up to the brace that opens its body. -/
def templateHead (m : Method) (moment : String) : List String :=
  ["// " ++ moment ++ "-hook for " ++ m.className ++ "::" ++ m.name,
   m.returnType ++ " " ++ moment ++ "Hook_" ++ m.name ++ "(" ++ m.parameterList ++ ")",
   "\x7b"]

/-- The call of the method in a template. -/
def directCall (m : Method) : String := m.name ++ "_original(" ++ m.argumentList ++ ");"

/-- The template for code that runs before the method. -/
def preHook (m : Method) (callsMethod : Bool) : String :=
  let call :=
    if isVoid m.returnType then ["    // Call original", "    " ++ m.directCall]
    else ["    // Call original and return result", "    return " ++ m.directCall]
  unlines
    (m.templateHead "Pre" ++ ["    // Your pre-hook logic here", m.logLine "Pre"]
      ++ (if callsMethod then "" :: call else []) ++ ["\x7d"])

/-- The template for code that runs after the method. -/
def postHook (m : Method) (callsMethod : Bool) : String :=
  let logic := ["    // Your post-hook logic here", m.logLine "Post"]
  let content :=
    if !callsMethod then logic
    else if isVoid m.returnType then
      ["    // Call original first", "    " ++ m.directCall, ""] ++ logic
    else
      ["    // Call original first", "    auto result = " ++ m.directCall, ""] ++ logic
        ++ ["", "    return result;"]
  unlines (m.templateHead "Post" ++ content ++ ["\x7d"])

/-- Declaration, stub and registration with empty lines between them; the
declaration may be left out. -/
def hookCode (m : Method) (declares : Bool) : String :=
  (if declares then m.declareMacro ++ "\n\n" else "")
    ++ m.stub ++ "\n\n" ++ m.registration ++ "\n"

end Method

/-! ### Kinds of code -/

/-- The kinds of code that can be written for a method. -/
inductive CodeKind where
  /-- The `DECLARE_HOOK` line. -/
  | declaration
  /-- The hook that forwards to the method. -/
  | stub
  /-- The template for code before the method. -/
  | preHook
  /-- The template for code after the method. -/
  | postHook
  /-- The call that registers the hook. -/
  | registration
  /-- The call that removes the hook. -/
  | removal
  /-- Declaration, stub and registration. -/
  | all
  /-- All of these and the removal. -/
  | allWithRemoval
  deriving DecidableEq, Repr

/-- What code contains beyond the necessary. -/
structure CodeOptions where
  /-- Templates call the method. -/
  callsMethod : Bool := true
  /-- Full code starts with the declaration. -/
  declares : Bool := true
  deriving DecidableEq, Repr

/-- The code of the given kind for a method. -/
def Method.code (m : Method) (options : CodeOptions) : CodeKind → String
  | .declaration => m.declareMacro
  | .stub => m.stub
  | .preHook => m.preHook options.callsMethod
  | .postHook => m.postHook options.callsMethod
  | .registration => m.registration
  | .removal => m.removal
  | .all => m.hookCode options.declares
  | .allWithRemoval => m.hookCode options.declares ++ "\n\n" ++ m.removal

/-- Code that shows how an accessor is used. -/
def Accessor.usage (a : Accessor) : String :=
  let field := a.fieldName?.getD a.name
  let first := "// Field accessor for " ++ a.className ++ "::" ++ a.name
  match a.kind with
  | .bits path =>
    unlines [first, "// BitField: " ++ path,
      "auto " ++ field ++ " = character->" ++ a.name ++ "();"]
  | .plain => unlines [first, "auto& " ++ field ++ " = instance->" ++ a.name ++ "();"]

end NativeHooks
