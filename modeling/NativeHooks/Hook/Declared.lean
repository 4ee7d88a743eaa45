/-
# Reading a declared hook

A `DECLARE_HOOK` line names the hook, the return type, the receiver and the
types of the parameters.  Reading it gives back which method it hooks.  Class
and method name are joined by `_` in the name of the hook, which either may
contain as well: a first type `C*` whose class begins the name is the receiver
and settles the question, and otherwise the name is split at its first `_`.
-/

import NativeHooks.Text.Nesting
import NativeHooks.Text.Shape

namespace NativeHooks

open Text

/-- A hook as its declaration gives it. -/
structure DeclaredHook where
  /-- Name of the hook: class and method joined by `_`. -/
  hookName : String
  className : String
  methodName : String
  returnType : String
  /-- The types of the parameters, without the receiver. -/
  parameterTypes : List String
  /-- The first type of the declaration is the receiver. -/
  hasReceiver : Bool
  deriving DecidableEq, Repr

namespace DeclaredHook

/-- The word that begins a declaration, up to its opening parenthesis. -/
def openingShape : List Part := [.text "DECLARE_HOOK", .spaces, .text "("]

/-- The text up to the parenthesis that closes a list, inside `d` parentheses of
the list; none if the line ends first. -/
def argumentsInside (d : Nat) : List Char → Option (List Char)
  | [] => none
  | c :: cs =>
    if c = '(' then (argumentsInside (d + 1) cs).map (c :: ·)
    else if c = ')' then
      match d with
      | 0 => some []
      | d + 1 => (argumentsInside d cs).map (c :: ·)
    else if c = '\n' then none
    else (argumentsInside d cs).map (c :: ·)

/-- The class and the method that a hook name joins, if `type` is a pointer to
the class. -/
def receiver? (hookName type : List Char) : Option (List Char × List Char) := do
  guard (type.getLast? = some '*')
  let className := trim type.dropLast
  let rest ← className.isPrefixOf? hookName
  let methodName ← ['_'].isPrefixOf? rest
  return (className, methodName)

/-- The class and the method that a hook name joins at its first `_`; without
one the whole name is the method's. -/
def splitName (hookName : List Char) : List Char × List Char :=
  match hookName.dropWhile (· != '_') with
  | [] => ([], hookName)
  | _ :: methodName => (hookName.takeWhile (· != '_'), methodName)

/-- The hook declared with these arguments. -/
def ofArguments : List (List Char) → Option DeclaredHook
  | hookName :: returnType :: types =>
    if hookName.isEmpty then none
    else
      let hook (names : List Char × List Char) (types : List (List Char)) (hasReceiver : Bool) :=
        { hookName := String.ofList hookName, className := String.ofList names.1,
          methodName := String.ofList names.2, returnType := String.ofList returnType,
          parameterTypes := types.map String.ofList, hasReceiver : DeclaredHook }
      match types with
      | [] => some (hook (splitName hookName) [] false)
      | first :: more =>
        match receiver? hookName first with
        | some names => some (hook names more true)
        | none => some (hook (splitName hookName) types false)
  | _ => none

/-- The first hook that a text declares.  Only the first `DECLARE_HOOK(` counts,
also if what follows it is no declaration. -/
def read? (text : String) : Option DeclaredHook := do
  let rest ← atFirstWord (afterShape openingShape) false text.toList
  let arguments ← argumentsInside 0 rest
  ofArguments ((splitTopLevel ',' arguments).map trim)

end DeclaredHook
end NativeHooks
