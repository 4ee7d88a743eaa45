/-
# Values as they are meant

A reader finds the entries of a table in the order of their definition.  What
the table means is settled in a second pass: a table whose first key is the
reserved one is a point in time, whatever else it holds, and every other table
is ordered by its keys.  A document is malformed if the text of such a point in
time is; there an hour may be 24 and an offset may have up to 99 minutes, as
long as it is no more than a day.
-/

import NativeHooks.Text.Order
import NativeHooks.Toml.Scalar

namespace NativeHooks
namespace Toml

open Text

/-- The limits of a point in time that a table holds. -/
def ClockLimits.wide : ClockLimits := ⟨24, 99, 99⟩

/-- The point in time with this text. -/
def Datetime.ofText? (text : String) : Option Datetime :=
  match datetime .wide text.toList with
  | some (d, []) => some d
  | _ => none

/-- These are the entries of a point in time: the first key is the reserved one. -/
def isDatetime (entries : List (String × Value)) : Bool :=
  entries.head?.any fun e => e.1 == datetimeKey

/-- The point in time whose text is the first value. -/
def Datetime.ofEntries? (entries : List (String × Value)) : Option Datetime :=
  (entries.head?.bind fun e => e.2.string?).bind Datetime.ofText?

mutual

/-- The value that is meant by one whose tables are in order of definition. -/
def Value.settled? : Value → Option Value
  | .array elements => (settledElements? elements).map .array
  | .table entries =>
    if isDatetime entries then (Datetime.ofEntries? entries).map .datetime
    else (settledEntries? entries).map fun entries => .table (sortByKeys (fun e => [e.1]) entries)
  | .string s => some (.string s)
  | .integer n => some (.integer n)
  | .float x => some (.float x)
  | .boolean b => some (.boolean b)
  | .datetime d => some (.datetime d)

/-- The elements that are meant. -/
def settledElements? : List Value → Option (List Value)
  | [] => some []
  | v :: more => do
    let v ← v.settled?
    let more ← settledElements? more
    return v :: more

/-- The entries that are meant, in order of definition. -/
def settledEntries? : List (String × Value) → Option (List (String × Value))
  | [] => some []
  | (key, v) :: more => do
    let v ← v.settled?
    let more ← settledEntries? more
    return (key, v) :: more

end

/-- The table that is meant by the entries of a document, which is no point in
time itself. -/
def Table.ofEntries? (entries : List (String × Value)) : Option Table :=
  (settledEntries? entries).map (sortByKeys fun e => [e.1])

end Toml
end NativeHooks
