/-
# Finding text in text

Both characters and bytes are searched; what stands before and after the last
separator is what names and extensions of files are made of.
-/

namespace NativeHooks
namespace Text

/-- The characters of `part` occur in a text, all together and in order. -/
def occursIn (part : List Char) : List Char → Bool
  | [] => part.isEmpty
  | c :: cs => part.isPrefixOf (c :: cs) || occursIn part cs

/-- The text without the characters of `p` at its end. -/
def dropEndWhile (p : α → Bool) (cs : List α) : List α := (cs.reverse.dropWhile p).reverse

/-- What stands after the last `c` of a text; the whole text if there is none. -/
def afterLast [BEq α] (c : α) (cs : List α) : List α :=
  (cs.reverse.takeWhile (· != c)).reverse

/-- What stands before the last `c` of a text; none if there is no `c`. -/
def beforeLast? [BEq α] (c : α) (cs : List α) : Option (List α) :=
  match cs.reverse.dropWhile (· != c) with
  | [] => none
  | _ :: before => some before.reverse

end Text
end NativeHooks
