/-
# Lines

Generated code and listings are written as lists of lines, and columns of a
listing are filled up with spaces.
-/

namespace NativeHooks
namespace Text

/-- The lines, each with a line feed after it. -/
def unlines (lines : List String) : String := String.join (lines.map (· ++ "\n"))

@[simp] theorem unlines_nil : unlines [] = "" := rfl

@[simp] theorem unlines_cons (line : String) (more : List String) :
    unlines (line :: more) = line ++ "\n" ++ unlines more := by
  simp [unlines]

/-- The lines of a text, each without the line feed that ends it; the last line
need not end. -/
def readLines (text : String) : List String :=
  let lines := text.toList.splitOn '\n'
  (if lines.getLast? = some [] then lines.dropLast else lines).map String.ofList

/-- The text with spaces after it, up to a number of characters. -/
def padRight (width : Nat) (s : String) : String := s ++ "".pushn ' ' (width - s.length)

/-- The text with spaces before it, up to a number of characters. -/
def padLeft (width : Nat) (s : String) : String := "".pushn ' ' (width - s.length) ++ s

end Text
end NativeHooks
