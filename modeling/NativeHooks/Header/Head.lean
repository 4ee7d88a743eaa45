/-
# Heads

The head of a declaration is what stands before its body: keywords, a type, a
name and a parenthesised list.  It is read backwards from the brace, so every
reader here takes a text nearest character first and returns what it read, in
reading order, with what stands before that.
-/

import NativeHooks.Text.Blank
import NativeHooks.Text.Word

namespace NativeHooks
namespace Header

open Text

/-- The identifier that a text ends with, blanks after it aside. -/
def identBefore (before : List Char) : Option (List Char × List Char) :=
  let inner := before.dropWhile isBlank
  let name := inner.takeWhile isIdent
  if name.isEmpty then none else some (name.reverse, inner.dropWhile isIdent)

/-- The identifier that a text ends with, if it stands on the last line. -/
def wordOnLine (before : List Char) : Option (List Char × List Char) :=
  if (before.takeWhile isBlank).contains '\n' then none else identBefore before

/-- Reading an identifier leaves a shorter text. -/
theorem length_of_identBefore {before word rest : List Char}
    (h : identBefore before = some (word, rest)) : rest.length < before.length := by
  simp only [identBefore] at h
  split at h
  · cases h
  · next hne =>
    obtain ⟨rfl, rfl⟩ := by simpa using h
    have hd := (List.dropWhile_sublist isBlank (l := before)).length_le
    have hs := congrArg List.length
      (List.takeWhile_append_dropWhile (p := isIdent) (l := before.dropWhile isBlank))
    rw [List.length_append] at hs
    have : 0 < ((before.dropWhile isBlank).takeWhile isIdent).length :=
      List.length_pos_iff.2 (by simpa using hne)
    omega

/-- Reading a word on the line leaves a shorter text. -/
theorem length_of_wordOnLine {before word rest : List Char}
    (h : wordOnLine before = some (word, rest)) : rest.length < before.length := by
  unfold wordOnLine at h
  split at h
  · cases h
  · exact length_of_identBefore h

/-! ### Types -/

/-- Characters that no type contains. -/
def endsType (c : Char) : Bool := [';', '{', '}', '(', ')', '"'].contains c

/-- The character `c` read before a token whose reading gave `r`. -/
def extend (c : Char) (r : Option (List Char × List Char)) : Option (List Char × List Char) :=
  r.map fun (token, rest) => (c :: token, rest)

/-- Reads a type token, nearest character first, inside `d` angle brackets.  It
ends at a blank or comma outside angle brackets, at an angle bracket that opens
none of its own, at a character that no type contains, or where the text does;
none if an angle bracket is still to be opened there. -/
def tokenInside (d : Nat) : List Char → Option (List Char × List Char)
  | [] => if d = 0 then some ([], []) else none
  | c :: before =>
    if c = '>' then extend c (tokenInside (d + 1) before)
    else if c = '<' then
      match d with
      | 0 => some ([], c :: before)
      | d + 1 => extend c (tokenInside d before)
    else if endsType c then
      if d = 0 then some ([], c :: before) else none
    else if d = 0 ∧ (c = ',' ∨ isBlank c) then some ([], c :: before)
    else extend c (tokenInside d before)

/-- The type token that a text ends with, blanks after it aside. -/
def tokenBefore (before : List Char) : Option (List Char × List Char) :=
  match tokenInside 0 (before.dropWhile isBlank) with
  | some (token, rest) => if token.isEmpty then none else some (token.reverse, rest)
  | none => none

/-- Words that belong to the type they stand before. -/
def typeQualifiers : List String := ["const", "unsigned", "signed", "long", "short", "volatile"]

/-- A type with the qualifiers that stand before it on its line. -/
def qualified (type before : List Char) : List Char × List Char :=
  match _h : wordOnLine before with
  | some (word, rest) =>
    if typeQualifiers.contains (String.ofList word) then qualified (word ++ ' ' :: type) rest
    else (type, before)
  | none => (type, before)
termination_by before.length
decreasing_by exact length_of_wordOnLine _h

theorem qualified_of_word {type before word rest : List Char}
    (h : wordOnLine before = some (word, rest)) :
    qualified type before = if typeQualifiers.contains (String.ofList word)
      then qualified (word ++ ' ' :: type) rest else (type, before) := by
  rw [qualified]
  split
  · next hword =>
    rw [h] at hword
    obtain ⟨rfl, rfl⟩ := Prod.mk.inj (Option.some.inj hword)
    rfl
  · next hword => exact absurd (h.symm.trans hword) (Option.some_ne_none _)

theorem qualified_of_none {type before : List Char} (h : wordOnLine before = none) :
    qualified type before = (type, before) := by
  rw [qualified]
  split
  · next hword => exact absurd (hword.symm.trans h) (Option.some_ne_none _)
  · rfl

/-- The type that a text ends with.  Reference and pointer marks that stand
alone belong to the token before them. -/
def typeBefore (before : List Char) : Option (List Char × List Char) := do
  let (token, rest) ← tokenBefore before
  if token.all fun c => c == '&' || c == '*' then
    let (base, rest) ← tokenBefore rest
    return qualified (base ++ token) rest
  else
    return qualified token rest

/-! ### Keywords and parentheses -/

/-- The keywords that a declaration may begin with. -/
structure Keywords where
  isStatic : Bool := false
  isVirtual : Bool := false
  deriving DecidableEq, Repr

/-- Reads the keywords that stand before a type on its line, each at most once,
in addition to those found already. -/
def keywordsBefore (found : Keywords) (before : List Char) : Keywords × List Char :=
  match _h : wordOnLine before with
  | some (word, rest) =>
    if String.ofList word = "static" ∧ found.isStatic = false then
      keywordsBefore { found with isStatic := true } rest
    else if String.ofList word = "virtual" ∧ found.isVirtual = false then
      keywordsBefore { found with isVirtual := true } rest
    else (found, before)
  | none => (found, before)
termination_by before.length
decreasing_by all_goals exact length_of_wordOnLine _h

theorem keywordsBefore_of_word {found : Keywords} {before word rest : List Char}
    (h : wordOnLine before = some (word, rest)) :
    keywordsBefore found before =
      if String.ofList word = "static" ∧ found.isStatic = false then
        keywordsBefore { found with isStatic := true } rest
      else if String.ofList word = "virtual" ∧ found.isVirtual = false then
        keywordsBefore { found with isVirtual := true } rest
      else (found, before) := by
  rw [keywordsBefore]
  split
  · next hword =>
    rw [h] at hword
    obtain ⟨rfl, rfl⟩ := Prod.mk.inj (Option.some.inj hword)
    rfl
  · next hword => exact absurd (h.symm.trans hword) (Option.some_ne_none _)

theorem keywordsBefore_of_none {found : Keywords} {before : List Char}
    (h : wordOnLine before = none) : keywordsBefore found before = (found, before) := by
  rw [keywordsBefore]
  split
  · next hword => exact absurd (hword.symm.trans h) (Option.some_ne_none _)
  · rfl

/-- Reads up to the parenthesis that opens a list, nearest character first, with
`d` parentheses closed inside the list; none if a statement or body ends first. -/
def listInside (d : Nat) : List Char → Option (List Char × List Char)
  | [] => none
  | c :: before =>
    if c = ')' then extend c (listInside (d + 1) before)
    else if c = '(' then
      match d with
      | 0 => some ([], before)
      | d + 1 => extend c (listInside d before)
    else if c = ';' ∨ c = '{' ∨ c = '}' then none
    else extend c (listInside d before)

/-- The contents of the parenthesised list that a text ends with. -/
def listBefore : List Char → Option (List Char × List Char)
  | ')' :: before => (listInside 0 before).map fun (inner, rest) => (inner.reverse, rest)
  | _ => none

/-- The text without the `const` or `override` that it may end with, and without blanks. -/
def dropSpecifier (before : List Char) : List Char :=
  match identBefore before with
  | some (word, rest) =>
    if String.ofList word = "const" ∨ String.ofList word = "override" then rest.dropWhile isBlank
    else before.dropWhile isBlank
  | none => before.dropWhile isBlank

/-- The type and name of a declaration without parameters, and what stands before it. -/
structure AccessorHead where
  type : List Char
  name : List Char
  before : List Char

/-- The head of the accessor whose body opens after `before`. -/
def accessorHead (before : List Char) : Option AccessorHead := do
  let (inner, rest) ← listBefore (before.dropWhile isBlank)
  guard (inner.all isBlank)
  let (name, rest) ← identBefore rest
  let (type, rest) ← typeBefore rest
  return ⟨type, name, rest⟩

end Header
end NativeHooks
