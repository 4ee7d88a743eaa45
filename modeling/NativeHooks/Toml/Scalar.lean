/-
# Reading TOML scalars

Keys, strings, numbers, truth values and points in time.  A reader takes the
start of a text and gives back what it read with the rest of the text, or
nothing if the text does not start that way.
-/

import NativeHooks.Toml.Value

namespace NativeHooks
namespace Toml

/-- Reads the start of a text. -/
abbrev Reader (α : Type) := List Char → Option (α × List Char)

/-- The characters `c` with what a reader found after it. -/
def Reader.push (c : Char) (found : Option (List Char × List Char)) :
    Option (List Char × List Char) :=
  found.map fun (cs, rest) => (c :: cs, rest)

/-- A space or tab, all that may stand between the parts of a line. -/
def isGap (c : Char) : Bool := c == ' ' || c == '\t'

/-- The text without the spaces and tabs it starts with. -/
def skipGap (cs : List Char) : List Char := cs.dropWhile isGap

/-- What follows the fixed text `word`. -/
def afterText (word : String) (cs : List Char) : Option (List Char) := word.toList.isPrefixOf? cs

/-! ### Strings -/

/-- A character that may stand in a text or comment: a tab or no control character. -/
def isPrintable (c : Char) : Bool := c == '\t' || (0x20 ≤ c.toNat && c.toNat != 0x7F)

/-- The value of a hexadecimal digit. -/
def hexDigit? (c : Char) : Option Nat :=
  if c.isDigit then some (c.toNat - 48)
  else if 'a' ≤ c ∧ c ≤ 'f' then some (c.toNat - 87)
  else if 'A' ≤ c ∧ c ≤ 'F' then some (c.toNat - 55)
  else none

/-- The character with a code point given in hexadecimal digits. -/
def codePoint? (digits : List Char) : Option Char := do
  let values ← digits.mapM hexDigit?
  let n := values.foldl (fun n d => 16 * n + d) 0
  if n.isValidChar then some (Char.ofNat n) else none

/-- The character that a backslash and one letter stand for. -/
def escape? : Char → Option Char
  | 'b' => some '\x08'
  | 't' => some '\t'
  | 'n' => some '\n'
  | 'f' => some '\x0c'
  | 'r' => some '\r'
  | '"' => some '"'
  | '\\' => some '\\'
  | _ => none

/-- Reads a string in quotes from the character after its opening quote. -/
def basicString : Reader (List Char)
  | [] => none
  | '"' :: cs => some ([], cs)
  | '\\' :: 'u' :: c₁ :: c₂ :: c₃ :: c₄ :: cs => do
    Reader.push (← codePoint? [c₁, c₂, c₃, c₄]) (basicString cs)
  | '\\' :: 'U' :: c₁ :: c₂ :: c₃ :: c₄ :: c₅ :: c₆ :: c₇ :: c₈ :: cs => do
    Reader.push (← codePoint? [c₁, c₂, c₃, c₄, c₅, c₆, c₇, c₈]) (basicString cs)
  | '\\' :: c :: cs => do Reader.push (← escape? c) (basicString cs)
  | c :: cs => if isPrintable c && c != '\\' then Reader.push c (basicString cs) else none

/-- Reads a string between apostrophes from the character after the first one. -/
def literalString : Reader (List Char)
  | [] => none
  | '\'' :: cs => some ([], cs)
  | c :: cs => if isPrintable c then Reader.push c (literalString cs) else none

/-- The text without the line end it may start with. -/
def skipLineEnd : List Char → List Char
  | '\n' :: cs => cs
  | '\r' :: '\n' :: cs => cs
  | cs => cs

/-- A line end follows. -/
def atLineEnd : List Char → Bool
  | '\n' :: _ => true
  | '\r' :: '\n' :: _ => true
  | _ => false

/-- Reads a long string in quotes from the character after its opening and the
line end there.  Up to two quotes may stand before the closing three.  A
backslash at the end of a line drops all space up to the next character;
`dropping` says that this is going on. -/
def longBasicString (dropping : Bool) : Reader (List Char)
  | [] => none
  | '"' :: '"' :: '"' :: '"' :: '"' :: cs => some (['"', '"'], cs)
  | '"' :: '"' :: '"' :: '"' :: cs => some (['"'], cs)
  | '"' :: '"' :: '"' :: cs => some ([], cs)
  | '\\' :: 'u' :: c₁ :: c₂ :: c₃ :: c₄ :: cs => do
    Reader.push (← codePoint? [c₁, c₂, c₃, c₄]) (longBasicString false cs)
  | '\\' :: 'U' :: c₁ :: c₂ :: c₃ :: c₄ :: c₅ :: c₆ :: c₇ :: c₈ :: cs => do
    Reader.push (← codePoint? [c₁, c₂, c₃, c₄, c₅, c₆, c₇, c₈]) (longBasicString false cs)
  | '\\' :: c :: cs =>
    if atLineEnd (skipGap (c :: cs)) then longBasicString true (c :: cs)
    else do Reader.push (← escape? c) (longBasicString false cs)
  | '\r' :: '\n' :: cs =>
    if dropping then longBasicString true cs else Reader.push '\n' (longBasicString false cs)
  | c :: cs =>
    if dropping && (isGap c || c == '\n') then longBasicString true cs
    else if c == '\n' || (isPrintable c && c != '\\') then Reader.push c (longBasicString false cs)
    else none

/-- Reads a long string between apostrophes, likewise. -/
def longLiteralString : Reader (List Char)
  | [] => none
  | '\'' :: '\'' :: '\'' :: '\'' :: '\'' :: cs => some (['\'', '\''], cs)
  | '\'' :: '\'' :: '\'' :: '\'' :: cs => some (['\''], cs)
  | '\'' :: '\'' :: '\'' :: cs => some ([], cs)
  | '\r' :: '\n' :: cs => Reader.push '\n' (longLiteralString cs)
  | c :: cs => if c == '\n' || isPrintable c then Reader.push c (longLiteralString cs) else none

/-- Reads a string of any of the four forms. -/
def string : Reader (List Char)
  | '"' :: '"' :: '"' :: cs => longBasicString false (skipLineEnd cs)
  | '\'' :: '\'' :: '\'' :: cs => longLiteralString (skipLineEnd cs)
  | '"' :: cs => basicString cs
  | '\'' :: cs => literalString cs
  | _ => none

/-! ### Numbers -/

/-- The digits at the start of a text; an underscore may stand between two. -/
def moreDigits (isDigit : Char → Bool) : List Char → List Char × List Char
  | [] => ([], [])
  | c :: cs =>
    if isDigit c then
      let (digits, rest) := moreDigits isDigit cs
      (c :: digits, rest)
    else if c == '_' && cs.head?.any isDigit then moreDigits isDigit cs
    else ([], c :: cs)

/-- Reads at least one digit. -/
def digits (isDigit : Char → Bool) : Reader (List Char)
  | [] => none
  | c :: cs => if isDigit c then some (moreDigits isDigit (c :: cs)) else none

/-- Reads the digits of a decimal integer: no zero stands before other digits. -/
def wholeDigits : Reader (List Char)
  | '0' :: cs => some (['0'], cs)
  | cs => digits Char.isDigit cs

/-- Reads a sign: the number is negative. -/
def sign : List Char → Bool × List Char
  | '-' :: cs => (true, cs)
  | '+' :: cs => (false, cs)
  | cs => (false, cs)

/-- The number that digits stand for. -/
def number (base : Nat) (digits : List Char) : Nat :=
  digits.foldl (fun n c => base * n + (hexDigit? c).getD 0) 0

/-- An integer that fits into 64 bits. -/
def int64? (n : Int) : Option Int :=
  let bound : Int := Nat.pow 2 63
  if -bound ≤ n ∧ n < bound then some n else none

/-- Reads an integer. -/
def integer : Reader Int
  | '0' :: 'x' :: cs => ofBase 16 (fun c => (hexDigit? c).isSome) cs
  | '0' :: 'o' :: cs => ofBase 8 (fun c => '0' ≤ c && c ≤ '7') cs
  | '0' :: 'b' :: cs => ofBase 2 (fun c => c == '0' || c == '1') cs
  | cs => do
    let (negative, cs) := sign cs
    let (ds, rest) ← wholeDigits cs
    let n : Int := number 10 ds
    return (← int64? (if negative then -n else n), rest)
where
  /-- Reads the digits of a number in another base. -/
  ofBase (base : Nat) (isDigit : Char → Bool) (cs : List Char) : Option (Int × List Char) := do
    let (ds, rest) ← digits isDigit cs
    return (← int64? (number base ds), rest)

/-- Reads the places after a decimal point; none is read where there is no point. -/
def places : Reader (List Char)
  | '.' :: cs => digits Char.isDigit cs
  | cs => some ([], cs)

/-- Reads an exponent; zero where there is none. -/
def exponent : Reader Int
  | c :: cs =>
    if c == 'e' || c == 'E' then do
      let (negative, cs) := sign cs
      let (ds, rest) ← digits Char.isDigit cs
      let n : Int := number 10 ds
      return (if negative then -n else n, rest)
    else some (0, c :: cs)
  | [] => some (0, [])

/-- The double nearest to `m * 10 ^ e`.  What is far beyond the greatest double
is infinite and what is far below the least one is zero. -/
def scaled (m : Nat) (e : Int) : Float :=
  let size := e + (toString m).length
  if m = 0 ∨ size < -400 then 0
  else if 400 < size then 1 / 0
  else Float.ofScientific m (e < 0) e.natAbs

/-- Reads a float: it has a point or an exponent, or is infinite or no number. -/
def float : Reader Float := fun cs => do
  let (negative, cs) := sign cs
  let signed (x : Float) := if negative then -x else x
  if let some rest := afterText "inf" cs then return (signed (1 / 0), rest)
  if let some rest := afterText "nan" cs then return (signed (0 / 0), rest)
  let (whole, afterWhole) ← wholeDigits cs
  let (fraction, afterPlaces) ← places afterWhole
  let (e, rest) ← exponent afterPlaces
  guard (rest.length < afterWhole.length)
  let x := signed (scaled (number 10 (whole ++ fraction)) (e - fraction.length))
  guard (x != 1 / 0)
  return (x, rest)

/-! ### Points in time -/

/-- Reads exactly `count` digits as a number between `low` and `high`. -/
def fixedDigits (count low high : Nat) : Reader Nat := fun cs => do
  let ds := cs.take count
  guard (ds.length = count && ds.all Char.isDigit)
  let n := number 10 ds
  guard (low ≤ n && n ≤ high)
  return (n, cs.drop count)

/-- The number of days of a month. -/
def daysOfMonth (year month : Nat) : Nat :=
  if month = 2 then
    if year % 4 = 0 ∧ (year % 100 ≠ 0 ∨ year % 400 = 0) then 29 else 28
  else if month = 4 ∨ month = 6 ∨ month = 9 ∨ month = 11 then 30
  else 31

/-- Reads a day. -/
def date : Reader Date := fun cs => do
  let (year, cs) ← fixedDigits 4 0 9999 cs
  let (month, cs) ← fixedDigits 2 1 12 (← afterText "-" cs)
  let (day, cs) ← fixedDigits 2 1 (daysOfMonth year month) (← afterText "-" cs)
  return (⟨year, month, day⟩, cs)

/-- Reads a fraction of a second in nanoseconds; further places are dropped. -/
def nanoseconds : Reader Nat
  | '.' :: cs =>
    let ds := cs.takeWhile Char.isDigit
    if ds.isEmpty then none
    else
      let used := ds.take 9
      some (number 10 used * Nat.pow 10 (9 - used.length), cs.dropWhile Char.isDigit)
  | cs => some (0, cs)

/-- How far the hours of a time and the parts of an offset may go. -/
structure ClockLimits where
  lastHour : Nat
  lastOffsetHour : Nat
  lastOffsetMinute : Nat
  deriving DecidableEq, Repr

/-- The limits of a point in time in a document. -/
def ClockLimits.strict : ClockLimits := ⟨23, 23, 59⟩

/-- Reads a time; a minute may have a leap second. -/
def time (limits : ClockLimits) : Reader Time := fun cs => do
  let (hour, cs) ← fixedDigits 2 0 limits.lastHour cs
  let (minute, cs) ← fixedDigits 2 0 59 (← afterText ":" cs)
  let (second, cs) ← fixedDigits 2 0 60 (← afterText ":" cs)
  let (nanosecond, cs) := (nanoseconds cs).getD (0, cs)
  return (⟨hour, minute, second, nanosecond⟩, cs)

/-- Reads an offset, which is a day at most. -/
def offset (limits : ClockLimits) : Reader Offset
  | 'Z' :: cs => some (.utc, cs)
  | 'z' :: cs => some (.utc, cs)
  | c :: cs => do
    guard (c == '+' || c == '-')
    let (hours, cs) ← fixedDigits 2 0 limits.lastOffsetHour cs
    let (minutes, cs) ← fixedDigits 2 0 limits.lastOffsetMinute (← afterText ":" cs)
    let n : Int := hours * 60 + minutes
    guard (n ≤ 24 * 60)
    return (.minutes (if c == '-' then -n else n), cs)
  | [] => none

/-- Reads the time that may follow a day, with its offset. -/
def timeOfDay (limits : ClockLimits) : Reader (Time × Option Offset)
  | c :: cs => do
    guard (c == 'T' || c == 't' || c == ' ')
    let (time, cs) ← time limits cs
    return match offset limits cs with
      | some (offset, rest) => ((time, some offset), rest)
      | none => ((time, none), cs)
  | [] => none

/-- Reads a point in time. -/
def datetime (limits : ClockLimits) : Reader Datetime := fun cs =>
  match date cs with
  | some (date, cs) =>
    match timeOfDay limits cs with
    | some ((time, offset), rest) => some (⟨some date, some time, offset⟩, rest)
    | none => some (⟨some date, none, none⟩, cs)
  | none => (time limits cs).map fun (time, rest) => (⟨none, some time, none⟩, rest)

/-! ### Scalars and keys -/

/-- Reads a truth value. -/
def boolean : Reader Bool := fun cs =>
  match afterText "true" cs with
  | some rest => some (true, rest)
  | none => (afterText "false" cs).map fun rest => (false, rest)

/-- What a reader found, as a value. -/
def Reader.found (f : α → Value) (r : Reader α) (cs : List Char) : Option (Value × List Char) :=
  (r cs).map fun (a, rest) => (f a, rest)

/-- Reads a value that contains no others. -/
def scalar : Reader Value := fun cs =>
  Reader.found (fun s => .string (String.ofList s)) string cs
    <|> Reader.found .boolean boolean cs
    <|> Reader.found .datetime (datetime .strict) cs
    <|> Reader.found .float float cs
    <|> Reader.found .integer integer cs

/-- A character that a key may have without quotes. -/
def isKeyChar (c : Char) : Bool := c.isAlphanum || c == '_' || c == '-'

/-- Reads one part of a key. -/
def keyPart : Reader String := fun cs =>
  match cs with
  | '"' :: rest => (basicString rest).map fun (key, rest) => (String.ofList key, rest)
  | '\'' :: rest => (literalString rest).map fun (key, rest) => (String.ofList key, rest)
  | _ =>
    let key := cs.takeWhile isKeyChar
    if key.isEmpty then none else some (String.ofList key, cs.dropWhile isKeyChar)

/-- Reads the parts of a key after the first `count` at most; dots stand between them. -/
def keyParts : Nat → Reader (List String)
  | 0, _ => none
  | count + 1, cs => do
    let (part, rest) ← keyPart (skipGap cs)
    match skipGap rest with
    | '.' :: rest =>
      let (parts, rest) ← keyParts count rest
      return (part :: parts, rest)
    | rest => return ([part], rest)

/-- Reads a key, the gaps around it included.  A key has fewer than eighty parts. -/
def key : Reader (List String) := keyParts 79

end Toml
end NativeHooks
