/-
# Reading TOML documents

A document is a row of lines: a key with a value, a header that opens a table,
or a header that opens the next table of an array.  Every table is defined in
one way only: by its header, by dotted keys, or on the way to another table, in
which case a header may still open it.  A document that defines something twice
is malformed.
-/

import NativeHooks.Toml.Settled

namespace NativeHooks
namespace Toml

/-! ### Tables under construction -/

/-- What has defined a table. -/
inductive TableKind where
  /-- A header of its own, or the document. -/
  | header
  /-- The header of a table inside it. -/
  | implied
  /-- A dotted key. -/
  | dotted
  deriving DecidableEq, Repr

/-- What a key of an unfinished document stands for. -/
inductive Item where
  | value (v : Value)
  | table (kind : TableKind) (entries : List (String × Item))
  /-- An array of tables, of which the last one is still open. -/
  | tables (elements : List (List (String × Item)))

/-- The entries of a table under construction. -/
abbrev Entries := List (String × Item)

/-- Replaces what a key stands for; none if `change` refuses. -/
def Entries.alter (key : String) (change : Option Item → Option Item) : Entries → Option Entries
  | [] => (change none).map fun item => [(key, item)]
  | (other, item) :: more =>
    if other = key then (change (some item)).map fun item => (key, item) :: more
    else (Entries.alter key change more).map ((other, item) :: ·)

/-- Changes the table at a path, which is made where it does not exist.  The
last table of an array stands for the array.  Dotted keys do not reach into
tables that have a header. -/
def descend (dotted : Bool) (change : TableKind → Entries → Option Entries) :
    List String → TableKind → Entries → Option Entries
  | [], kind, entries => change kind entries
  | key :: path, _, entries =>
    entries.alter key fun item =>
      match item with
      | none =>
        let kind := if dotted then .dotted else .implied
        (descend dotted change path kind []).map (.table kind ·)
      | some (.value _) => none
      | some (.table kind entries) =>
        if dotted ∧ kind = .header then none
        else (descend dotted change path kind entries).map (.table kind ·)
      | some (.tables elements) =>
        (descend dotted change path .header (elements.getLastD [])).map fun last =>
          .tables (elements.dropLast ++ [last])

/-- Adds a value under a key, which may be dotted, to a table. -/
def addValue (key : List String) (v : Value) (kind : TableKind) (entries : Entries) :
    Option Entries :=
  let path := key.dropLast
  let add (kind : TableKind) (entries : Entries) : Option Entries :=
    if decide (kind = .dotted) == path.isEmpty then none
    else entries.alter (key.getLastD "") fun item => if item.isSome then none else some (.value v)
  descend true add path kind entries

/-- Opens the table that a header names.  One that was on the way to another
table moves behind the other entries, for it is defined only now. -/
def openTable (header : List String) (document : Entries) : Option Entries :=
  let key := header.getLastD ""
  let change (_ : TableKind) (entries : Entries) : Option Entries :=
    match entries.lookup key with
    | none => some (entries ++ [(key, .table .header [])])
    | some (.table .implied inner) =>
      some (entries.filter (·.1 != key) ++ [(key, .table .header inner)])
    | some _ => none
  descend false change header.dropLast .header document

/-- Opens the next table of the array that a header names. -/
def openElement (header : List String) (document : Entries) : Option Entries :=
  let change (_ : TableKind) (entries : Entries) : Option Entries :=
    entries.alter (header.getLastD "") fun item =>
      match item with
      | none => some (.tables [[]])
      | some (.tables elements) => some (.tables (elements ++ [[]]))
      | some _ => none
  descend false change header.dropLast .header document

mutual

/-- The finished value of an item, the entries of its tables in order of definition. -/
def Item.toValue : Item → Value
  | .value v => v
  | .table _ entries => .table (finishedEntries entries)
  | .tables elements => .array (finishedTables elements)

/-- The finished values of the entries of a table. -/
def finishedEntries : List (String × Item) → List (String × Value)
  | [] => []
  | (key, item) :: more => (key, item.toValue) :: finishedEntries more

/-- The finished tables of an array. -/
def finishedTables : List (List (String × Item)) → List Value
  | [] => []
  | entries :: more => .table (finishedEntries entries) :: finishedTables more

end

/-! ### Arrays and inline tables -/

/-- The text without the space, line ends and comments it starts with. -/
def skipLines (inComment : Bool) : List Char → List Char
  | [] => []
  | '\n' :: cs => skipLines false cs
  | '\r' :: '\n' :: cs => skipLines false cs
  | c :: cs =>
    if inComment then if isPrintable c then skipLines true cs else c :: cs
    else if isGap c then skipLines false cs
    else if c == '#' then skipLines true cs
    else c :: cs

/-- Reads the elements of an array and its closing bracket; `fuel` bounds their number. -/
def elements (element : Reader Value) : Nat → Reader (List Value)
  | 0, _ => none
  | fuel + 1, cs =>
    match skipLines false cs with
    | ']' :: rest => some ([], rest)
    | cs => do
      let (v, rest) ← element cs
      match skipLines false rest with
      | ']' :: rest => return ([v], rest)
      | ',' :: rest =>
        let (more, rest) ← elements element fuel rest
        return (v :: more, rest)
      | _ => none

/-- Reads a key, an equals sign and a value, with the gaps around them. -/
def entry (value : Reader Value) : Reader (List String × Value) := fun cs => do
  let (key, rest) ← key cs
  let (v, rest) ← value (skipGap (← afterText "=" rest))
  return ((key, v), skipGap rest)

/-- Reads the entries of an inline table, at least one, and its closing brace;
`fuel` bounds their number. -/
def inlineEntries (value : Reader Value) (entries : Entries) : Nat → Reader Entries
  | 0, _ => none
  | fuel + 1, cs => do
    let ((key, v), rest) ← entry value cs
    let entries ← addValue key v .header entries
    match rest with
    | '}' :: rest => return (entries, rest)
    | ',' :: rest => inlineEntries value entries fuel rest
    | _ => none

/-- Reads a value that contains others, which `inner` reads. -/
def compound (inner : Reader Value) : Reader Value
  | '[' :: cs =>
    (elements inner (cs.length + 1) cs).map fun (vs, rest) => (.array vs, rest)
  | '{' :: cs =>
    match skipGap cs with
    | '}' :: rest => some (.table [], rest)
    | _ =>
      (inlineEntries inner [] (cs.length + 1) cs).map fun (entries, rest) =>
        (.table (finishedEntries entries), rest)
  | _ => none

/-- Reads a value in which others are nested at most so deep. -/
def valueAt : Nat → Reader Value
  | 0 => scalar
  | nesting + 1 => fun cs => scalar cs <|> compound (valueAt nesting) cs

/-- Reads a value; fewer than eighty values may be nested. -/
def value : Reader Value := valueAt 79

/-! ### Documents -/

/-- The text after the end of a line, which may hold a comment; the document may
end there as well. -/
def afterLine (cs : List Char) : Option (List Char) :=
  let cs := skipGap cs
  let cs := if cs.head? = some '#' then cs.dropWhile isPrintable else cs
  if cs.isEmpty then some [] else if atLineEnd cs then some (skipLineEnd cs) else none

/-- Reads the lines of a document into the table that the last header opened,
whose path is `header`; `fuel` bounds their number. -/
def lines (header : List String) (document : Entries) : Nat → List Char → Option Entries
  | 0, _ => none
  | fuel + 1, cs =>
    match skipGap cs with
    | [] => some document
    | '[' :: '[' :: rest => do
      let (header, rest) ← key rest
      let rest ← (afterText "]]" rest).bind afterLine
      lines header (← openElement header document) fuel rest
    | '[' :: rest => do
      let (header, rest) ← key rest
      let rest ← (afterText "]" rest).bind afterLine
      lines header (← openTable header document) fuel rest
    | c :: cs => do
      if c == '#' || c == '\n' || c == '\r' then
        lines header document fuel (← afterLine (c :: cs))
      else
        let ((key, v), rest) ← entry value (c :: cs)
        let document ← descend false (addValue key v) header .header document
        lines header document fuel (← afterLine rest)

/-- The table of a document; none if the document is malformed. -/
def parse? (text : String) : Option Table :=
  let cs := match text.toList with
    | '\ufeff' :: cs => cs
    | cs => cs
  (lines [] [] (cs.length + 1) cs).bind fun entries => Table.ofEntries? (finishedEntries entries)

end Toml
end NativeHooks
