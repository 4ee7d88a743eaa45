/-
# Access by offset

A text is stored as UTF-8, and where it is read in place, places are offsets of bytes.
Steps are possible then that no text allows: reading a byte where there is none, cutting a
character in two, counting past 32 bits.  Here every such step is checked.  A computation
in `Checked` gives its result, or the first step that the text does not allow (`Fault`).
-/

import NativeHooks.Text.Utf8

namespace NativeHooks
namespace Offset

open Text

/-- A step that is not allowed. -/
inductive Fault where
  /-- The text has no byte at `i`. -/
  | noByte (i : Nat)
  /-- The offsets do not bound a part of the text: they are not in order, or one of them
  lies outside the text or within a character. -/
  | noPart (start stop : Nat)
  /-- No offset comes before the first one. -/
  | noOffset
  /-- The count does not fit into 32 bits. -/
  | overflow (n : Int)
  deriving DecidableEq, Repr

/-- What a computation gives whose steps are checked. -/
abbrev Checked (α : Type) := Except Fault α

@[simp] theorem pure_eq_ok {α : Type} (a : α) : (pure a : Checked α) = .ok a := rfl

@[simp] theorem ok_bind {α β : Type} (a : α) (f : α → Checked β) :
    ((.ok a : Checked α) >>= f) = f a := rfl

/-! ### Bytes and parts -/

/-- Number of bytes of a text. -/
def size (cs : List Char) : Nat := (encode cs).length

/-- The offset at which the last part `rest` of a text starts. -/
def startOf (text rest : List Char) : Nat := size text - size rest

/-- A byte as the character of its number.  Below 0x80 it is the ASCII character that the
byte stands for, and otherwise no ASCII character. -/
def ofByte (byte : UInt8) : Char := Char.ofNat byte.toNat

/-- The byte at `i`; none if there is no such byte. -/
def byteAt? (bytes : List UInt8) (i : Nat) : Option Char := bytes[i]?.map ofByte

/-- The byte at `i`, which has to exist. -/
def byteAt (bytes : List UInt8) (i : Nat) : Checked Char :=
  match byteAt? bytes i with
  | some c => .ok c
  | none => .error (.noByte i)

/-- The offset before `i`, which must not be the first one. -/
def pred : Nat → Checked Nat
  | 0 => .error .noOffset
  | i + 1 => .ok i

/-- The first `n` bytes of a text and what follows them; none if it has fewer, or if
they end within a character. -/
def splitAt? : Nat → List Char → Option (List Char × List Char)
  | 0, cs => some ([], cs)
  | _ + 1, [] => none
  | n + 1, c :: cs =>
    if c.utf8Size ≤ n + 1 then
      (splitAt? (n + 1 - c.utf8Size) cs).map fun (first, rest) => (c :: first, rest)
    else none

/-- The part of a text from the offset `start` to the offset `stop`. -/
def slice (text : List Char) (start stop : Nat) : Checked (List Char) :=
  let part := do
    let (_, rest) ← splitAt? start text
    let (part, _) ← splitAt? (stop - start) rest
    return part
  match part with
  | some part => if start ≤ stop then .ok part else .error (.noPart start stop)
  | none => .error (.noPart start stop)

/-- The bytes from `start` on. -/
def bytesFrom (bytes : List UInt8) (start : Nat) : Checked (List UInt8) :=
  if start ≤ bytes.length then .ok (bytes.drop start) else .error (.noPart start bytes.length)

/-- The offset of the first character of `p`. -/
def find? (p : Char → Bool) (cs : List Char) : Option Nat :=
  if cs.any p then some (size (cs.takeWhile (! p ·))) else none

/-- The first number that is too great for a signed count of 32 bits, 2³¹. -/
def countLimit : Nat := 0x80000000

/-- The count `n`, which has to fit into 32 bits. -/
def fitting (n : Int) : Checked Int :=
  if -countLimit ≤ n ∧ n < countLimit then .ok n else .error (.overflow n)

/-! ### Loops -/

/-- The first offset from `i` on at which no byte of `p` stands. -/
def skip (p : Char → Bool) (bytes : List UInt8) (i : Nat) : Checked Nat :=
  if i < bytes.length then do
    let c ← byteAt bytes i
    if p c then skip p bytes (i + 1) else return i
  else return i
termination_by bytes.length - i

/-- The last offset up to `i` before which no byte of `p` stands. -/
def skipBack (p : Char → Bool) (bytes : List UInt8) : Nat → Checked Nat
  | 0 => return 0
  | i + 1 => do
    let c ← byteAt bytes i
    if p c then skipBack p bytes i else return i + 1

/-- What a loop with the variables `σ` does at an offset with the byte `c`. -/
abbrev Move (σ : Type) := σ → Nat → Char → Checked (ForInStep σ)

/-- Goes on with `next` if the loop is not done. -/
def proceed {σ : Type} (next : σ → Checked σ) : ForInStep σ → Checked σ
  | .done s => return s
  | .yield s => next s

/-- Goes over the bytes from `i` on until the loop is done, beginning with `s`. -/
def walk {σ : Type} (bytes : List UInt8) (move : Move σ) (s : σ) (i : Nat) : Checked σ :=
  if i < bytes.length then do
    let c ← byteAt bytes i
    proceed (fun s => walk bytes move s (i + 1)) (← move s i c)
  else return s
termination_by bytes.length - i

/-- Goes back over the bytes before `i` until the loop is done, beginning with `s`. -/
def walkBack {σ : Type} (bytes : List UInt8) (move : Move σ) (s : σ) : Nat → Checked σ
  | 0 => return s
  | i + 1 => do
    let c ← byteAt bytes i
    proceed (fun s => walkBack bytes move s i) (← move s i c)

/-! ### Brackets -/

/-- The variables of a loop that counts brackets to find an offset. -/
structure Search where
  depth : Int := 0
  found : Option Nat := none

/-- One bracket more is open. -/
def Search.deeper (s : Search) : Checked Search := do
  return { s with depth := ← fitting (s.depth + 1) }

/-- One bracket less is open. -/
def Search.shallower (s : Search) : Checked Search := do
  return { s with depth := ← fitting (s.depth - 1) }

/-- Looks for the bracket `last` that ends what the bracket `first` begins; a character of
`ends` ends the search in vain. -/
def bracketMove (first last : Char) (ends : Char → Bool) : Move Search := fun s i c => do
  if c = first then return .yield (← s.deeper)
  else if c = last then
    let s ← s.shallower
    if s.depth = 0 then return .done { s with found := some i } else return .yield s
  else if ends c then return .done s
  else return .yield s

end Offset
end NativeHooks
