/-
# Spaces and blanks

Two notions of white space meet in a header.  A *space* is any character with
the Unicode property White_Space: texts are trimmed and split at those.  A
*blank* is one of five ASCII characters, and the only thing that may stand
between the parts of a declaration: the vertical tab is a space but no blank.
-/

import NativeHooks.Text.Find
import NativeHooks.Text.Ranges

namespace NativeHooks
namespace Text

/-- The Unicode property White_Space. -/
def spaceRanges : Ranges :=
  [(0x09, 0x0D), (0x20, 0x20), (0x85, 0x85), (0xA0, 0xA0), (0x1680, 0x1680), (0x2000, 0x200A),
   (0x2028, 0x2029), (0x202F, 0x202F), (0x205F, 0x205F), (0x3000, 0x3000)]

/-- A space: any Unicode white space. -/
def isSpace (c : Char) : Bool := spaceRanges.contains c.toNat

/-- A blank: space, tab, line feed, form feed or carriage return. -/
def isBlank (c : Char) : Bool :=
  c == ' ' || c == '\t' || c == '\n' || c == '\x0c' || c == '\r'

/-- Every blank is a space. -/
theorem isSpace_of_isBlank {c : Char} (h : isBlank c = true) : isSpace c = true := by
  simp only [isBlank, Bool.or_eq_true, beq_iff_eq] at h
  rcases h with (((rfl | rfl) | rfl) | rfl) | rfl <;> decide

/-- The text without the spaces at its two ends. -/
def trim (cs : List Char) : List Char := dropEndWhile isSpace (cs.dropWhile isSpace)

/-- The maximal runs of characters that are no spaces. -/
def words (cs : List Char) : List (List Char) :=
  (cs.splitOnP isSpace).filter (! ·.isEmpty)

/-- Every run of spaces becomes one space character; `inRun` says that the run
the text may start with has been written already. -/
def collapseFrom (inRun : Bool) : List Char → List Char
  | [] => []
  | c :: cs =>
    if isSpace c then
      if inRun then collapseFrom true cs else ' ' :: collapseFrom true cs
    else c :: collapseFrom false cs

/-- Every run of spaces becomes one space character. -/
def collapse (cs : List Char) : List Char := collapseFrom false cs

end Text
end NativeHooks
