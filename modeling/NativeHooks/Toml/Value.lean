/-
# TOML values

The values that a TOML document can hold.  A table is a list of keys with their
values in ascending order of the keys, each key once.  A point in time can also
take the form of a table, with its text under a key of its own.
-/

namespace NativeHooks
namespace Toml

/-- A calendar day. -/
structure Date where
  year : Nat
  month : Nat
  day : Nat
  deriving DecidableEq, Repr, Inhabited

/-- A time of day. -/
structure Time where
  hour : Nat
  minute : Nat
  second : Nat
  nanosecond : Nat
  deriving DecidableEq, Repr, Inhabited

/-- A distance from Greenwich time. -/
inductive Offset where
  /-- Greenwich time itself, written `Z`. -/
  | utc
  /-- So many minutes ahead. -/
  | minutes (n : Int)
  deriving DecidableEq, Repr, Inhabited

/-- A point in time; a local one has no offset, and date or time may be missing. -/
structure Datetime where
  date : Option Date := none
  time : Option Time := none
  offset : Option Offset := none
  deriving DecidableEq, Repr, Inhabited

/-- A TOML value. -/
inductive Value where
  | string (s : String)
  | integer (n : Int)
  | float (x : Float)
  | boolean (b : Bool)
  | datetime (d : Datetime)
  | array (elements : List Value)
  | table (entries : List (String × Value))
  deriving Inhabited

/-- A TOML table. -/
abbrev Table := List (String × Value)

/-- The key under which a table holds the text of a point in time. -/
def datetimeKey : String := "$__toml_private_datetime"

/-- The value of a key. -/
def Table.get? (t : Table) (key : String) : Option Value := t.lookup key

/-- The string elements of an array; none for a value that is no array. -/
def Value.strings? : Value → Option (List String)
  | .array elements =>
    some (elements.filterMap fun v => match v with | .string s => some s | _ => none)
  | _ => none

/-- The text of a string value. -/
def Value.string? : Value → Option String
  | .string s => some s
  | _ => none

/-- The number of a non-negative integer value. -/
def Value.natural? : Value → Option Nat
  | .integer n => if 0 ≤ n then some n.toNat else none
  | _ => none

end Toml
end NativeHooks
