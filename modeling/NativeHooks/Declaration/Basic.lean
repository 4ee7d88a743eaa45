/-
# What a header declares

A header declares one class: its methods, each backed by a native call, and its
field accessors, plain ones and ones for bit-fields.  These are the values that
reading a header yields and that hook code is written from.
-/

namespace NativeHooks

/-- One declared parameter of a method. -/
structure Parameter where
  /-- The type, with every run of spaces written as one space. -/
  type : String
  /-- The name, or `argN` where the header gives none. -/
  name : String
  deriving DecidableEq, Repr, Inhabited

/-- The parameter as it is declared. -/
def Parameter.text (p : Parameter) : String := p.type ++ " " ++ p.name

/-- A member function whose body is a native call. -/
structure Method where
  /-- Name of the class the header declares; empty if it declares none. -/
  className : String
  returnType : String
  name : String
  /-- The parameters in the order they are declared. -/
  parameters : List Parameter
  isStatic : Bool
  isVirtual : Bool
  /-- The text that the native call looks its target up by. -/
  nativeSignature : String
  /-- The declaration as it stands in the header. -/
  fullText : String
  /-- Label of the source the header came from; empty outside an index. -/
  sourceLabel : String
  deriving DecidableEq, Repr, Inhabited

/-- Name shared by the hook of a method and the slot that keeps the method itself. -/
def Method.hookName (m : Method) : String := m.className ++ "_" ++ m.name

/-- The method as listings show it: return type, name and parameters. -/
def Method.displayName (m : Method) : String :=
  m.returnType ++ " " ++ m.name ++ "(" ++ ", ".intercalate (m.parameters.map Parameter.text) ++ ")"

/-- What an accessor gives access to. -/
inductive AccessorKind where
  /-- A field of its own. -/
  | plain
  /-- Some bits of a field, which are looked up by `path` when the program runs. -/
  | bits (path : String)
  deriving DecidableEq, Repr, Inhabited

/-- A method without parameters that gives access to a field. -/
structure Accessor where
  className : String
  type : String
  name : String
  fullText : String
  kind : AccessorKind
  deriving DecidableEq, Repr, Inhabited

/-- The accessor as listings show it. -/
def Accessor.displayName (a : Accessor) : String := a.type ++ " " ++ a.name

/-- Accessors are told from methods by the end of their names. -/
def accessorSuffix : String := "Field"

/-- The name of the field behind an accessor: its own name without the suffix. -/
def Accessor.fieldName? (a : Accessor) : Option String :=
  let name := a.name.toList
  let suffix := accessorSuffix.toList
  if suffix.isSuffixOf name then some (String.ofList (name.take (name.length - suffix.length)))
  else none

/-- Everything one header declares, each kind in the order of the header. -/
structure Declarations where
  /-- Empty if the header declares no class. -/
  className : String := ""
  methods : List Method := []
  /-- The accessors of plain fields. -/
  fields : List Accessor := []
  /-- The accessors of bit-fields. -/
  bitFields : List Accessor := []
  deriving DecidableEq, Repr, Inhabited

/-- All accessors, those of plain fields first. -/
def Declarations.accessors (d : Declarations) : List Accessor := d.fields ++ d.bitFields

/-- The header declares neither methods nor accessors. -/
def Declarations.isEmpty (d : Declarations) : Bool :=
  d.methods.isEmpty && d.fields.isEmpty && d.bitFields.isEmpty

end NativeHooks
