/-
# Reading a header by offset

A header is read at the places where the body of a declaration begins.  The head before
such a place is read backwards and the body forwards, as from characters, but with places
kept as offsets and every step checked.
-/

import NativeHooks.Header.Reading
import NativeHooks.Offset.Lists

namespace NativeHooks
namespace Offset

open Text

/-! ### Names -/

/-- The bounds of the identifier that ends before `stop`, blanks after it aside. -/
def identBefore (bytes : List UInt8) (stop : Nat) : Checked (Option (Nat × Nat)) := do
  let stop ← skipBack isBlank bytes stop
  let start ← skipBack isIdent bytes stop
  return if start < stop then some (start, stop) else none

/-- The bounds of that identifier if it stands on the line of `stop`. -/
def wordOnLine (text : List Char) (stop : Nat) : Checked (Option (Nat × Nat)) := do
  match ← identBefore (encode text) stop with
  | none => return none
  | some (start, wordStop) =>
    let gap ← slice text wordStop stop
    return if gap.contains '\n' then none else some (start, wordStop)

/-- Going back does not lead forwards. -/
theorem le_of_skipBack {p : Char → Bool} {bytes : List UInt8} {i j : Nat}
    (h : skipBack p bytes i = .ok j) : j ≤ i := by
  induction i with
  | zero =>
      obtain rfl : 0 = j := Except.ok.inj h
      exact Nat.le_refl _
  | succ i ih =>
      rw [skipBack] at h
      rcases hbyte : byteAt bytes i with fault | c <;> rw [hbyte] at h
      · exact absurd h (by rintro ⟨⟩)
      · rw [ok_bind] at h
        split at h
        · exact Nat.le_succ_of_le (ih h)
        · obtain rfl : i + 1 = j := Except.ok.inj h
          exact Nat.le_refl _

/-- A word starts before the place that it is looked for at. -/
theorem lt_of_wordOnLine {text : List Char} {stop start wordStop : Nat}
    (h : wordOnLine text stop = .ok (some (start, wordStop))) : start < stop := by
  rw [wordOnLine, identBefore] at h
  rcases hblanks : skipBack isBlank (encode text) stop with fault | e <;> rw [hblanks] at h
  · exact absurd h (by rintro ⟨⟩)
  rw [ok_bind] at h
  rcases hident : skipBack isIdent (encode text) e with fault | s <;> rw [hident] at h
  · exact absurd h (by rintro ⟨⟩)
  rw [ok_bind] at h
  by_cases hlt : s < e
  · rw [if_pos hlt, pure_eq_ok, ok_bind] at h
    simp only at h
    rcases hgap : slice text e stop with fault | gap <;> rw [hgap] at h
    · exact absurd h (by rintro ⟨⟩)
    · rw [ok_bind] at h
      split at h
      · exact absurd h (by rintro ⟨⟩)
      · obtain ⟨rfl, rfl⟩ := Prod.mk.inj (Option.some.inj (Except.ok.inj h))
        have := le_of_skipBack hblanks
        omega
  · rw [if_neg hlt] at h
    exact absurd h (by rintro ⟨⟩)

/-! ### Types -/

/-- Looks for the start of a type token. -/
def tokenMove : Move Search := fun s i c => do
  if c = '>' then return .yield (← s.deeper)
  else if c = '<' then
    if s.depth = 0 then return .done { s with found := some (i + 1) }
    else return .yield (← s.shallower)
  else if Header.endsType c then return .done { s with found := some (i + 1) }
  else if (c = ',' ∨ isBlank c) ∧ s.depth = 0 then return .done { s with found := some (i + 1) }
  else return .yield s

/-- The start of the type token that ends before `stop`. -/
def tokenBefore (bytes : List UInt8) (stop : Nat) : Checked (Option Nat) := do
  let s ← walkBack bytes tokenMove {} stop
  return if s.found.getD 0 < stop ∧ s.depth = 0 then some (s.found.getD 0) else none

/-- The start and the text of a type with the qualifiers that stand before `start` on its
line. -/
def qualified (text type : List Char) (start : Nat) : Checked (Nat × List Char) :=
  match _h : wordOnLine text start with
  | .error fault => .error fault
  | .ok none => return (start, type)
  | .ok (some (wordStart, wordStop)) => do
    let word ← slice text wordStart wordStop
    if Header.typeQualifiers.contains (String.ofList word) then
      qualified text (word ++ ' ' :: type) wordStart
    else return (start, type)
termination_by start
decreasing_by exact lt_of_wordOnLine _h

/-- The start and the text of the type that ends before `stop`. -/
def typeBefore (text : List Char) (stop : Nat) : Checked (Option (Nat × List Char)) := do
  let bytes := encode text
  let typeStop ← skipBack isBlank bytes stop
  match ← tokenBefore bytes typeStop with
  | none => return none
  | some start =>
    let token ← slice text start typeStop
    if token.all fun c => c == '&' || c == '*' then
      let baseStop ← skipBack isBlank bytes start
      match ← tokenBefore bytes baseStop with
      | none => return none
      | some baseStart =>
        let base ← slice text baseStart baseStop
        return some (← qualified text (base ++ token) baseStart)
    else return some (← qualified text token start)

/-! ### Keywords and parentheses -/

/-- The start of a declaration and its keywords, which stand before `start` on its line. -/
def keywordsBefore (text : List Char) (found : Header.Keywords) (start : Nat) :
    Checked (Nat × Header.Keywords) :=
  match _h : wordOnLine text start with
  | .error fault => .error fault
  | .ok none => return (start, found)
  | .ok (some (wordStart, wordStop)) => do
    let word ← slice text wordStart wordStop
    if String.ofList word = "static" ∧ found.isStatic = false then
      keywordsBefore text { found with isStatic := true } wordStart
    else if String.ofList word = "virtual" ∧ found.isVirtual = false then
      keywordsBefore text { found with isVirtual := true } wordStart
    else return (start, found)
termination_by start
decreasing_by all_goals exact lt_of_wordOnLine _h

/-- Characters that no list contains. -/
def endsList (c : Char) : Bool := c == ';' || c == '{' || c == '}'

/-- The offset of the parenthesis that opens what the one at `close` closes. -/
def openingParenthesis (bytes : List UInt8) (close : Nat) : Checked (Option Nat) := do
  let s ← walkBack bytes (bracketMove ')' '(' endsList) {} (close + 1)
  return s.found

/-- The offset of the character `c` if the text before `stop` ends with it. -/
def markBefore (c : Char) (bytes : List UInt8) : Nat → Checked (Option Nat)
  | 0 => return none
  | i + 1 => do return if (← byteAt bytes i) = c then some i else none

/-- The offset at which the head of a method ends, before a `const` or `override` that
may follow it. -/
def dropSpecifier (text : List Char) (stop : Nat) : Checked Nat := do
  let bytes := encode text
  let close ← skipBack isBlank bytes stop
  match ← identBefore bytes close with
  | none => return close
  | some (start, wordStop) =>
    let word ← slice text start wordStop
    if String.ofList word = "const" ∨ String.ofList word = "override" then
      skipBack isBlank bytes start
    else return close

/-- The type and name of a declaration without parameters, and its start. -/
structure AccessorHead where
  start : Nat
  type : List Char
  name : List Char

/-- The head of the accessor whose body opens at `brace`. -/
def accessorHead (text : List Char) (brace : Nat) : Checked (Option AccessorHead) := do
  let bytes := encode text
  match ← markBefore ')' bytes (← skipBack isBlank bytes brace) with
  | none => return none
  | some close =>
    match ← markBefore '(' bytes (← skipBack isBlank bytes close) with
    | none => return none
    | some opening =>
      match ← identBefore bytes opening with
      | none => return none
      | some (nameStart, nameStop) =>
        match ← typeBefore text nameStart with
        | none => return none
        | some (start, type) => return some ⟨start, type, ← slice text nameStart nameStop⟩

/-! ### Bodies -/

/-- The variables of the loop that looks for the end of a body. -/
structure BodySearch extends Search where
  inString : Bool := false

/-- Looks for the end of a body. -/
def bodyMove : Move BodySearch := fun s i c => do
  if s.inString then return .yield { s with inString := c != '"' && c != '\n' }
  else if c = '"' then return .yield { s with inString := true }
  else if c = '{' then return .yield { s with toSearch := ← s.deeper }
  else if c = '}' then
    let search ← s.shallower
    if search.depth = 0 then
      return .done { s with toSearch := { search with found := some (i + 1) } }
    else return .yield { s with toSearch := search }
  else return .yield s

/-- The end of the body that opens at `brace`; that of its first line if it is never
closed. -/
def bodyEnd (bytes : List UInt8) (brace : Nat) : Checked Nat := do
  let s ← walk bytes bodyMove {} brace
  match s.found with
  | some stop => return stop
  | none =>
    let rest ← bytesFrom bytes brace
    return brace + (← skip (· != '\n') rest 0)

/-- The contents of a string, from the offset after its opening quote. -/
def quoted (text : List Char) (start : Nat) : Checked (List Char) := do
  let rest ← slice text start (size text)
  match find? (fun c => c == '"' || c == '\n') rest with
  | none => return rest
  | some i =>
    let content ← slice rest 0 i
    if (← byteAt (encode rest) i) = '"' then return content
    else return dropEndWhile (· == '\r') content

/-- Looks for the comma after the receiver of a native call. -/
def receiverMove : Move Search := fun s i c => do
  if c = '(' ∨ c = '<' then return .yield (← s.deeper)
  else if (c = ')' ∨ c = '>') ∧ 0 < s.depth then return .yield (← s.shallower)
  else if c = ')' ∨ c = ';' ∨ c = '{' ∨ c = '}' ∨ c = '"' then return .done s
  else if c = ',' ∧ s.depth = 0 then return .done { s with found := some i }
  else return .yield s

/-- The offset after the character `c` at `i`, blanks before it aside. -/
def afterMark (c : Char) (bytes : List UInt8) (i : Nat) : Checked (Option Nat) := do
  let j ← skip isBlank bytes i
  return if byteAt? bytes j = some c then some (j + 1) else none

/-- Characters that no list of types contains. -/
def endsTypes (c : Char) : Bool := endsList c || c == '"'

/-- The offset of the angle bracket that closes a list of types, whose contents start at
`start`. -/
def closingAngle (bytes : List UInt8) (start : Nat) : Checked (Option Nat) := do
  let s ← walk bytes (bracketMove '<' '>' endsTypes) { depth := 1 } start
  return s.found

/-- The signature a native call names, from the offset after `NativeCall<`. -/
def nativeSignature (text : List Char) (start : Nat) : Checked (Option (List Char)) := do
  let bytes := encode text
  match ← closingAngle bytes start with
  | none => return none
  | some close =>
    match ← afterMark '(' bytes (close + 1) with
    | none => return none
    | some receiver =>
      match (← walk bytes receiverMove {} receiver).found with
      | none => return none
      | some comma =>
        match ← afterMark '"' bytes (comma + 1) with
        | none => return none
        | some content => return some (trim (← quoted text content))

/-! ### Declarations -/

/-- The places at which a body of some shape begins, with the offset after the shape.
`after` tells from what follows a brace what follows the shape. -/
def places (after : List Char → Option (List Char)) (text : List Char) : List (Nat × Nat) :=
  (Header.openings text).filterMap fun o =>
    (after o.after).map fun rest => (size o.before, startOf text rest)

/-- The text of a declaration from `start` to the end of the body that opens at `brace`. -/
def declaration (text : List Char) (start brace : Nat) : Checked String := do
  let stop ← bodyEnd (encode text) brace
  return String.ofList (trim (← slice text start stop))

/-- The plain accessor at a place. -/
def fieldAt (text : List Char) (className : String) (place : Nat × Nat) :
    Checked (Option Accessor) := do
  match ← accessorHead text place.1 with
  | none => return none
  | some head =>
    if Header.isAccessorName head.name then
      return some { className, type := String.ofList head.type, name := String.ofList head.name,
                    fullText := ← declaration text head.start place.1, kind := .plain }
    else return none

/-- The type of a bit-field in its one spelling. -/
def bitFieldType (type : List Char) : Checked (Option (List Char)) :=
  let inner := do
    let rest ← "BitFieldValue".toList.isPrefixOf? type
    let inner ← ['<'].isPrefixOf? (rest.dropWhile isSpace)
    if inner.getLast? = some '>' then some inner.dropLast else none
  match inner with
  | none => return none
  | some inner => do
    match ← splitTopLevel ',' inner with
    | first :: second :: more =>
      return some ("BitFieldValue<".toList ++ trim first ++ ", ".toList
        ++ trim ([','].intercalate (second :: more)) ++ ">".toList)
    | _ => return none

/-- The accessor of a bit-field at a place. -/
def bitFieldAt (text : List Char) (className : String) (place : Nat × Nat) :
    Checked (Option Accessor) := do
  match ← accessorHead text place.1 with
  | none => return none
  | some head =>
    match ← bitFieldType head.type with
    | none => return none
    | some type =>
      let path ← quoted text place.2
      return some { className, type := String.ofList type, name := String.ofList head.name,
                    fullText := ← declaration text head.start place.1,
                    kind := .bits (String.ofList (trim path)) }

/-- The method at a place. -/
def methodAt (text : List Char) (className : String) (place : Nat × Nat) :
    Checked (Option Method) := do
  let bytes := encode text
  match ← markBefore ')' bytes (← dropSpecifier text place.1) with
  | none => return none
  | some close =>
    match ← openingParenthesis bytes close with
    | none => return none
    | some opening =>
      match ← identBefore bytes opening with
      | none => return none
      | some (nameStart, nameStop) =>
        let name ← slice text nameStart nameStop
        if Header.isAccessorName name then return none
        else
          match ← typeBefore text nameStart with
          | none => return none
          | some (typeStart, returnType) =>
            let (start, keywords) ← keywordsBefore text {} typeStart
            match ← nativeSignature text place.2 with
            | none => return none
            | some signature =>
              let fullText ← declaration text start place.1
              let parameters ← readParameters (← slice text (opening + 1) close)
              return some { className, returnType := String.ofList returnType,
                            name := String.ofList name, parameters,
                            isStatic := keywords.isStatic, isVirtual := keywords.isVirtual,
                            nativeSignature := String.ofList signature, fullText,
                            sourceLabel := "" }

/-- Everything that a header declares. -/
def readHeader (text : List Char) : Checked Declarations := do
  let className := String.ofList (Header.className text)
  let fields ← (places (afterShape Header.fieldShape) text).filterMapM (fieldAt text className)
  let bitFields ←
    (places (afterShape Header.bitFieldShape) text).filterMapM (bitFieldAt text className)
  let methods ← (places Header.afterCall text).filterMapM (methodAt text className)
  return { className, methods, fields, bitFields }

end Offset
end NativeHooks
