/-
# Headers as they are written

The other side of reading: how methods and accessors of well-formed type are
written down, one declaration on a line.  A type is any number of qualifiers,
a name that `::` may lead to, a list of types in angle brackets and any number
of marks; types nest to any depth.  The texts of a string hold no quote, no
line feed and no opening brace, and a line that declares nothing holds no
opening brace either: these are what a declaration could be mistaken by.
-/

import NativeHooks.Header.Reading
import NativeHooks.Proofs.Header.Token
import NativeHooks.Proofs.Text.Tidy

namespace NativeHooks
namespace Header

open Text

/-! ### Types -/

/-- An identifier. -/
structure Ident where
  chars : List Char
  ne_nil : chars ≠ []
  isIdent_of_mem : ∀ c ∈ chars, isIdent c = true

/-- A word that may stand before a type. -/
abbrev Qualifier := { word : String // word ∈ typeQualifiers }

/-- A mark that may follow a type. -/
inductive Mark where
  | pointer
  | reference
  deriving DecidableEq, Repr

/-- The mark as it is written. -/
def Mark.char : Mark → Char
  | .pointer => '*'
  | .reference => '&'

/-- A type: qualifiers, the scopes its name is found in, its name, the types it
is applied to, and marks. -/
inductive TypeName where
  | mk (qualifiers : List Qualifier) (scopes : List Ident) (name : Ident)
      (arguments : List TypeName) (marks : List Mark)

/-- The qualifiers of a type. -/
def TypeName.qualifiers : TypeName → List Qualifier
  | .mk qualifiers _ _ _ _ => qualifiers

/-- Qualifiers, each with one space after it. -/
def qualifierText (qualifiers : List Qualifier) : List Char :=
  qualifiers.flatMap fun q => q.val.toList ++ [' ']

/-- A name with the scopes it is found in. -/
def scopedText (scopes : List Ident) (name : Ident) : List Char :=
  (scopes.flatMap fun scope => scope.chars ++ [':', ':']) ++ name.chars

/-- A list of types in angle brackets; nothing if there are none. -/
def angledText : List (List Char) → List Char
  | [] => []
  | types => '<' :: joined types ++ ['>']

mutual

/-- A type without its qualifiers. -/
def TypeName.core : TypeName → List Char
  | .mk _ scopes name arguments marks =>
    scopedText scopes name ++ angledText (TypeName.texts arguments) ++ marks.map Mark.char

/-- Every type of a list as it is written. -/
def TypeName.texts : List TypeName → List (List Char)
  | [] => []
  | type :: more => (qualifierText type.qualifiers ++ type.core) :: TypeName.texts more

end

/-- A type as it is written. -/
def TypeName.text (type : TypeName) : List Char := qualifierText type.qualifiers ++ type.core

theorem TypeName.texts_eq_map : ∀ types : List TypeName, TypeName.texts types = types.map text
  | [] => rfl
  | _ :: more => congrArg _ (TypeName.texts_eq_map more)

/-! ### Declarations -/

/-- The contents of a string. -/
structure Quote where
  chars : List Char
  noQuote : '"' ∉ chars
  noLineFeed : '\n' ∉ chars
  noBrace : '{' ∉ chars

/-- What may follow the parameters of a method. -/
inductive Specifier where
  | const
  | override
  deriving DecidableEq, Repr

/-- The specifier with a space before it. -/
def Specifier.text : Specifier → List Char
  | .const => " const".toList
  | .override => " override".toList

/-- The arguments of a native call after its key: no string and no brace. -/
structure Arguments where
  chars : List Char
  noQuote : '"' ∉ chars
  noOpen : '{' ∉ chars
  noClose : '}' ∉ chars

/-- A method as it is written. -/
structure WrittenMethod where
  isStatic : Bool
  isVirtual : Bool
  returnType : TypeName
  name : Ident
  /-- The name does not mark an accessor. -/
  isMethodName : isAccessorName name.chars = false
  parameters : List (TypeName × Ident)
  specifier : Option Specifier
  /-- The result of the native call is returned. -/
  returns : Bool
  /-- The types the native call is made with. -/
  types : List TypeName
  /-- The native call is made on the object, and otherwise on no object. -/
  onObject : Bool
  key : Quote
  /-- What follows the key, if anything does. -/
  arguments : Option Arguments

/-- A plain accessor as it is written. -/
structure WrittenField where
  type : TypeName
  name : Ident
  isAccessorName : isAccessorName name.chars = true
  /-- The function that reads the field. -/
  reader : Ident
  /-- The type the field is read as. -/
  target : TypeName
  key : Quote

/-- The accessor of a bit-field as it is written. -/
structure WrittenBitField where
  first : TypeName
  second : TypeName
  name : Ident
  path : Quote

/-- The keywords of a method. -/
def keywordText (isStatic isVirtual : Bool) : List Char :=
  (if isStatic then "static ".toList else []) ++ if isVirtual then "virtual ".toList else []

/-- A parameter: its type and its name. -/
def parameterText (parameter : TypeName × Ident) : List Char :=
  parameter.1.text ++ ' ' :: parameter.2.chars

namespace WrittenMethod

/-- The parameters between their parentheses. -/
def parameterList (m : WrittenMethod) : List Char := joined (m.parameters.map parameterText)

/-- What stands before the body, without the space between them. -/
def head (m : WrittenMethod) : List Char :=
  keywordText m.isStatic m.isVirtual ++ m.returnType.text ++ ' ' :: m.name.chars
    ++ '(' :: m.parameterList ++ ')' :: (m.specifier.map Specifier.text).getD []

/-- The body between `NativeCall<` and the quote before its key. -/
def target (m : WrittenMethod) : List Char :=
  joined (m.types.map TypeName.text) ++ ">(".toList
    ++ (if m.onObject then "this".toList else "nullptr".toList) ++ ", ".toList

/-- What stands before the native call in its body. -/
def returnText (m : WrittenMethod) : List Char :=
  if m.returns then " return ".toList else " ".toList

/-- What follows the key up to the brace that closes the body. -/
def tail (m : WrittenMethod) : List Char :=
  (m.arguments.elim [] fun a => ", ".toList ++ a.chars) ++ "); ".toList

/-- The body, from the character after its opening brace. -/
def inner (m : WrittenMethod) : List Char :=
  m.returnText ++ "NativeCall<".toList ++ m.target ++ '"' :: m.key.chars ++ '"' :: m.tail ++ ['}']

/-- The whole declaration. -/
def text (m : WrittenMethod) : List Char := m.head ++ ' ' :: '{' :: m.inner

/-- The method that is declared. -/
def declared (className : String) (m : WrittenMethod) : Method where
  className := className
  returnType := String.ofList m.returnType.text
  name := String.ofList m.name.chars
  parameters := m.parameters.map fun p => ⟨String.ofList p.1.text, String.ofList p.2.chars⟩
  isStatic := m.isStatic
  isVirtual := m.isVirtual
  nativeSignature := String.ofList (trim m.key.chars)
  fullText := String.ofList m.text
  sourceLabel := ""

end WrittenMethod

namespace WrittenField

/-- What stands before the body, without the space between them. -/
def head (f : WrittenField) : List Char := f.type.text ++ ' ' :: f.name.chars ++ "()".toList

/-- The body, from the character after its opening brace. -/
def inner (f : WrittenField) : List Char :=
  " return *".toList ++ f.reader.chars ++ '<' :: f.target.text ++ ">(this, ".toList
    ++ '"' :: f.key.chars ++ '"' :: "); ".toList ++ ['}']

/-- The whole declaration. -/
def text (f : WrittenField) : List Char := f.head ++ ' ' :: '{' :: f.inner

/-- The accessor that is declared. -/
def declared (className : String) (f : WrittenField) : Accessor where
  className := className
  type := String.ofList f.type.text
  name := String.ofList f.name.chars
  fullText := String.ofList f.text
  kind := .plain

end WrittenField

namespace WrittenBitField

/-- The type of the accessor. -/
def type (b : WrittenBitField) : List Char :=
  "BitFieldValue".toList ++ '<' :: joined [b.first.text, b.second.text] ++ ['>']

/-- What stands before the body, without the space between them. -/
def head (b : WrittenBitField) : List Char := b.type ++ ' ' :: b.name.chars ++ "()".toList

/-- The pair that the body returns, from the character after its opening brace. -/
def pair (b : WrittenBitField) : List Char :=
  " this, ".toList ++ '"' :: b.path.chars ++ '"' :: " \x7d; ".toList ++ ['}']

/-- The body, from the character after its opening brace. -/
def inner (b : WrittenBitField) : List Char := " return ".toList ++ '{' :: b.pair

/-- The whole declaration. -/
def text (b : WrittenBitField) : List Char := b.head ++ ' ' :: '{' :: b.inner

/-- The accessor that is declared. -/
def declared (className : String) (b : WrittenBitField) : Accessor where
  className := className
  type := String.ofList b.type
  name := String.ofList b.name.chars
  fullText := String.ofList b.text
  kind := .bits (String.ofList (trim b.path.chars))

end WrittenBitField

/-! ### Headers -/

/-- Spaces and tabs before a declaration. -/
structure Indent where
  chars : List Char
  spaceOrTab : ∀ c ∈ chars, c = ' ' ∨ c = '\t'

/-- One line of a header between the braces of its class. -/
inductive HeaderLine where
  | method (indent : Indent) (m : WrittenMethod)
  | field (indent : Indent) (f : WrittenField)
  | bitField (indent : Indent) (b : WrittenBitField)
  /-- A line that declares nothing. -/
  | filler (chars : List Char) (noBrace : '{' ∉ chars) (noLineFeed : '\n' ∉ chars)

namespace HeaderLine

/-- The line without the line feed that ends it. -/
def text : HeaderLine → List Char
  | .method indent m => indent.chars ++ m.text
  | .field indent f => indent.chars ++ f.text
  | .bitField indent b => indent.chars ++ b.text
  | .filler chars _ _ => chars

/-- The method that the line declares. -/
def method? (className : String) : HeaderLine → Option Method
  | .method _ m => some (m.declared className)
  | _ => none

/-- The plain accessor that the line declares. -/
def field? (className : String) : HeaderLine → Option Accessor
  | .field _ f => some (f.declared className)
  | _ => none

/-- The accessor of a bit-field that the line declares. -/
def bitField? (className : String) : HeaderLine → Option Accessor
  | .bitField _ b => some (b.declared className)
  | _ => none

end HeaderLine

/-- A header as it is written: a class and the lines between its braces. -/
structure WrittenHeader where
  className : List Char
  className_ne_nil : className ≠ []
  isWord_className : ∀ c ∈ className, isWord c = true
  lines : List HeaderLine

namespace WrittenHeader

/-- The lines, each with its line feed, and the brace that closes the class. -/
def bodyText (lines : List HeaderLine) : List Char :=
  (lines.flatMap fun line => line.text ++ ['\n']) ++ "\x7d;".toList

/-- The whole header. -/
def text (h : WrittenHeader) : String :=
  String.ofList ("struct ".toList ++ h.className ++ '\n' :: '{' :: '\n' :: bodyText h.lines)

/-- Everything the header declares, each kind in the order of its lines. -/
def declarations (h : WrittenHeader) : Declarations where
  className := String.ofList h.className
  methods := h.lines.filterMap (HeaderLine.method? (String.ofList h.className))
  fields := h.lines.filterMap (HeaderLine.field? (String.ofList h.className))
  bitFields := h.lines.filterMap (HeaderLine.bitField? (String.ofList h.className))

end WrittenHeader

end Header
end NativeHooks
