/-
# The text of TOML values

A value as it would stand behind a key.  A string takes the first of four forms
in which it can be written as it is: in quotes, between apostrophes, in three
quotes and between three apostrophes; where there is none, it is quoted with
escapes.  A key takes one of the two short forms unless it is made of bare
characters.  On its own, a point in time is written as the table that holds it.
-/

import NativeHooks.Decimal.Shortest
import NativeHooks.Toml.Value

namespace NativeHooks
namespace Toml

/-! ### Numbers and points in time -/

/-- The shortest decimal of a float; a whole number keeps one place. -/
def floatText (x : Float) : String :=
  let sign := if x.toBits.toNat / Nat.pow 2 63 = 1 then "-" else ""
  if x.isNaN then "nan"
  else if x.isInf then sign ++ "inf"
  else if x == 0 then sign ++ "0.0"
  else
    let (d, k) := (Decimal.Binary.ofBits x.toBits).shortest
    let digits := Decimal.positional d k
    sign ++ String.ofList digits ++ (if digits.contains '.' then "" else ".0")

/-- A number in at least `width` digits. -/
def padded (width n : Nat) : String :=
  let digits := toString n
  String.ofList (List.replicate (width - digits.length) '0') ++ digits

/-- A day as year, month and day. -/
def Date.text (d : Date) : String :=
  padded 4 d.year ++ "-" ++ padded 2 d.month ++ "-" ++ padded 2 d.day

/-- A fraction of a second without zeros at its end. -/
def fractionText (nanosecond : Nat) : String :=
  if nanosecond = 0 then ""
  else
    let digits := (padded 9 nanosecond).toList
    "." ++ String.ofList (digits.reverse.dropWhile (· == '0')).reverse

/-- A time as hour, minute and second. -/
def Time.text (t : Time) : String :=
  padded 2 t.hour ++ ":" ++ padded 2 t.minute ++ ":" ++ padded 2 t.second
    ++ fractionText t.nanosecond

/-- An offset as hours and minutes. -/
def Offset.text : Offset → String
  | .utc => "Z"
  | .minutes n =>
    (if n < 0 then "-" else "+") ++ padded 2 (n.natAbs / 60) ++ ":" ++ padded 2 (n.natAbs % 60)

/-- A point in time. -/
def Datetime.text (d : Datetime) : String :=
  (d.date.elim "" Date.text)
    ++ (if d.date.isSome && d.time.isSome then "T" else "")
    ++ (d.time.elim "" Time.text) ++ (d.offset.elim "" Offset.text)

/-! ### Strings -/

/-- How a string is marked off. -/
inductive StringForm where
  /-- A quote on either side. -/
  | quoted
  /-- An apostrophe on either side, without escapes. -/
  | literal
  /-- Three quotes on either side. -/
  | longQuoted
  /-- Three apostrophes on either side, without escapes. -/
  | longLiteral
  deriving DecidableEq, Repr

namespace StringForm

/-- The marks around the string. -/
def mark : StringForm → String
  | quoted => "\""
  | literal => "'"
  | longQuoted => "\"\"\""
  | longLiteral => "'''"

/-- The character that marks are made of. -/
def markChar : StringForm → Char
  | quoted | longQuoted => '"'
  | literal | longLiteral => '\''

/-- A string in this form may run over many lines. -/
def isLong : StringForm → Bool
  | quoted | literal => false
  | longQuoted | longLiteral => true

/-- A backslash starts an escape in this form. -/
def hasEscapes : StringForm → Bool
  | quoted | longQuoted => true
  | literal | longLiteral => false

/-- How many mark characters may stand in a row inside the string. -/
def marksInside (form : StringForm) : Nat := if form.isLong then 2 else 0

end StringForm

/-- A control character other than a tab or a line feed. -/
def needsEscape (c : Char) : Bool :=
  (c.toNat < 0x20 && c != '\t' && c != '\n') || c.toNat == 0x7F

/-- The length of the longest run of a character, the current one having `run`. -/
def longestRun (mark : Char) (run : Nat) : List Char → Nat
  | [] => run
  | c :: cs =>
    if c == mark then longestRun mark (run + 1) cs else max run (longestRun mark 0 cs)

/-- The string can be written as it is, up to tabs: no escape is needed and no
mark inside looks like the end. -/
def StringForm.fits (form : StringForm) (cs : List Char) : Bool :=
  !cs.any needsEscape && (form.isLong || !cs.contains '\n')
    && !(form.hasEscapes && cs.contains '\\')
    && decide (longestRun form.markChar 0 cs ≤ form.marksInside)

/-- The four hexadecimal digits of a code point below 65536. -/
def hexDigits (n : Nat) : String :=
  String.ofList ([n / 4096 % 16, n / 256 % 16, n / 16 % 16, n % 16].map fun d =>
    if d < 10 then Char.ofNat (48 + d) else Char.ofNat (55 + d))

/-- A character other than a quote; a line feed stays as it is in the long form. -/
def escaped (long : Bool) (c : Char) : String :=
  if c == '\x08' then "\\b"
  else if c == '\t' then "\\t"
  else if c == '\n' then if long then "\n" else "\\n"
  else if c == '\x0c' then "\\f"
  else if c == '\r' then "\\r"
  else if c == '\\' then "\\\\"
  else if needsEscape c then "\\u" ++ hexDigits c.toNat
  else String.singleton c

/-- The characters of a string with escapes.  Of the quotes in a row every one
has a backslash that would be too many; `run` quotes have stood just before. -/
def escapedAll (form : StringForm) (run : Nat) : List Char → String
  | [] => ""
  | '"' :: cs =>
    if run < form.marksInside then "\"" ++ escapedAll form (run + 1) cs
    else "\\\"" ++ escapedAll form 0 cs
  | c :: cs => escaped form.isLong c ++ escapedAll form 0 cs

/-- The string in a form; a line feed comes first if the string has any. -/
def StringForm.text (form : StringForm) (cs : List Char) : String :=
  form.mark ++ (if form.isLong && cs.contains '\n' then "\n" else "")
    ++ (if form.hasEscapes then escapedAll form 0 cs else String.ofList cs) ++ form.mark

/-- The text of a string. -/
def stringText (s : String) : String :=
  let cs := s.toList
  let form := [.quoted, .literal, .longQuoted, .longLiteral].find? (StringForm.fits · cs)
  (form.getD (if cs.contains '\n' then .longQuoted else .quoted)).text cs

/-- A character that a key may have without quotes. -/
def isBareKey (c : Char) : Bool := c.isAlphanum || c == '_' || c == '-'

/-- The text of a key. -/
def keyText (key : String) : String :=
  let cs := key.toList
  if !cs.isEmpty && cs.all isBareKey then key
  else (([.quoted, .literal].find? (StringForm.fits · cs)).getD .quoted).text cs

/-! ### Values -/

mutual

/-- The text of a value inside another. -/
def Value.text : Value → String
  | .string s => stringText s
  | .integer n => toString n
  | .float x => floatText x
  | .boolean b => if b then "true" else "false"
  | .datetime d => d.text
  | .array elements => "[" ++ ", ".intercalate (elementTexts elements) ++ "]"
  | .table entries =>
    if entries.isEmpty then "\x7b\x7d"
    else "\x7b " ++ ", ".intercalate (entryTexts entries) ++ " \x7d"

/-- The texts of the elements of an array. -/
def elementTexts : List Value → List String
  | [] => []
  | v :: more => v.text :: elementTexts more

/-- The texts of the entries of a table. -/
def entryTexts : List (String × Value) → List String
  | [] => []
  | (key, v) :: more => (keyText key ++ " = " ++ v.text) :: entryTexts more

end

/-- The text of a value on its own. -/
def Value.textAlone : Value → String
  | .datetime d => (Value.table [(datetimeKey, .string d.text)]).text
  | v => v.text

end Toml
end NativeHooks
