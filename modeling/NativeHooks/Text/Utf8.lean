/-
# UTF-8

Bytes are read as UTF-8 one at a time.  A byte that cannot continue the
character begun before it makes what has been read of that character one
malformed piece, and is read again as the start of the next.
-/

namespace NativeHooks
namespace Text

/-- A character of which some bytes are still missing. -/
structure PartialChar where
  /-- The bits read so far. -/
  bits : Nat
  /-- Number of bytes still to come, at least one. -/
  missing : Nat
  /-- The least byte that may come next. -/
  low : Nat
  /-- The greatest byte that may come next. -/
  high : Nat

/-- The character that a byte of 0x80 or more begins; none if it begins none.
The limits of the second byte keep out longer forms than necessary, surrogates
and what lies beyond U+10FFFF. -/
def leadByte (b : Nat) : Option PartialChar :=
  if 0xC2 ≤ b ∧ b ≤ 0xDF then some ⟨b - 0xC0, 1, 0x80, 0xBF⟩
  else if b = 0xE0 then some ⟨0, 2, 0xA0, 0xBF⟩
  else if b = 0xED then some ⟨0xD, 2, 0x80, 0x9F⟩
  else if 0xE1 ≤ b ∧ b ≤ 0xEF then some ⟨b - 0xE0, 2, 0x80, 0xBF⟩
  else if b = 0xF0 then some ⟨0, 3, 0x90, 0xBF⟩
  else if 0xF1 ≤ b ∧ b ≤ 0xF3 then some ⟨b - 0xF0, 3, 0x80, 0xBF⟩
  else if b = 0xF4 then some ⟨4, 3, 0x80, 0x8F⟩
  else none

/-- What a byte that starts afresh completes, and the character it begins. -/
def startByte (byte : UInt8) : List (Option Char) × Option PartialChar :=
  let b := byte.toNat
  if b < 0x80 then ([some (Char.ofNat b)], none)
  else
    match leadByte b with
    | some p => ([], some p)
    | none => ([none], none)

/-- What a byte after those of `current` completes, and the character then begun;
none stands for a malformed piece. -/
def nextByte (current : Option PartialChar) (byte : UInt8) :
    List (Option Char) × Option PartialChar :=
  match current with
  | none => startByte byte
  | some p =>
    let b := byte.toNat
    if p.low ≤ b ∧ b ≤ p.high then
      let bits := p.bits * 0x40 + (b - 0x80)
      if p.missing = 1 then ([some (Char.ofNat bits)], none)
      else ([], some ⟨bits, p.missing - 1, 0x80, 0xBF⟩)
    else
      let (pieces, begun) := startByte byte
      (none :: pieces, begun)

/-- The characters of some bytes that come after those of `current`. -/
def decodeAfter (current : Option PartialChar) : List UInt8 → List (Option Char)
  | [] => if current.isSome then [none] else []
  | byte :: bytes =>
    let (pieces, begun) := nextByte current byte
    pieces ++ decodeAfter begun bytes

/-- The text of some bytes; every malformed piece becomes U+FFFD. -/
def decodeLossy (bytes : List UInt8) : List Char :=
  (decodeAfter none bytes).map (·.getD '\ufffd')

/-- The text of some bytes; none if a piece of them is malformed. -/
def decode? (bytes : List UInt8) : Option (List Char) := (decodeAfter none bytes).mapM id

/-- The bytes of a text. -/
def encode (cs : List Char) : List UInt8 := cs.flatMap String.utf8EncodeChar

end Text
end NativeHooks
