/-
# Word characters and identifiers

A *word character* is one that Unicode counts as part of a word; class names
are made of those.  An *identifier character* is the ASCII part of that class,
`[A-Za-z0-9_]`, and names of declarations are made of those alone.
-/

import NativeHooks.Text.Property.Word

namespace NativeHooks
namespace Text

/-- An identifier character: an ASCII letter or digit, or an underscore. -/
def isIdent (c : Char) : Bool := c.isAlphanum || c == '_'

/-- A word character; below U+0080 these are the identifier characters. -/
def isWord (c : Char) : Bool :=
  if c.toNat < 0x80 then isIdent c else wordRanges.contains c.toNat

end Text
end NativeHooks
