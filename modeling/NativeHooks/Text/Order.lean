/-
# Order of texts

Listings are sorted by code point, which is also the order of the UTF-8 bytes.
An entry with several keys is sorted by the first one in which two entries
differ, and entries that agree in all keys keep their order.
-/

namespace NativeHooks
namespace Text

/-- The first row of keys comes before the second or is equal to it: at the first
place where they differ it has the smaller key or none at all. -/
def keysLe : List String → List String → Bool
  | [], _ => true
  | _ :: _, [] => false
  | a :: as, b :: bs => decide (a < b) || (decide (a = b) && keysLe as bs)

/-- The entries sorted by their keys, first key first; equal entries stay in order. -/
def sortByKeys (keys : α → List String) (xs : List α) : List α :=
  xs.mergeSort fun a b => keysLe (keys a) (keys b)

/-- A set of names as an ascending list without repetition, with `name` added. -/
def insertName (name : String) : List String → List String
  | [] => [name]
  | other :: more =>
    if name < other then name :: other :: more
    else if name = other then other :: more
    else other :: insertName name more

/-- The set `names` with `added` added. -/
def insertNames (added names : List String) : List String :=
  added.foldl (fun s n => insertName n s) names

/-- The set of the given names. -/
def nameSet (names : List String) : List String := insertNames names []

end Text
end NativeHooks
