/-
# ASCII in UTF-8

The bytes of a character of several bytes, and malformed ones, are 0x80 and more, so a byte
below that stands for itself wherever it is.  What is before it and what is after it are
decoded on their own (`decodeLossy_append_ascii`), and a character below U+0080 comes from
nothing but its byte (`exists_byte_of_mem_decodeLossy`).

For this the characters begun and not finished have to be known: they only go on with bytes of
0x80 and more, and enough bits have been read of them to get beyond ASCII (`PartialChar.Valid`).
-/

import NativeHooks.Text.Utf8
import Mathlib.Tactic.SplitIfs

namespace NativeHooks
namespace Text

/-- The character begun goes on with a byte of 0x80 or more.  With the least such byte it gets
beyond ASCII, at once or with the byte after that. -/
structure PartialChar.Valid (p : PartialChar) : Prop where
  low : 0x80 ≤ p.low
  more : 2 ≤ p.bits * 0x40 + (p.low - 0x80)
  last : p.missing = 1 → 0x80 ≤ p.bits * 0x40 + (p.low - 0x80)

/-- No character is begun, or a valid one. -/
def Begun (current : Option PartialChar) : Prop := ∀ p ∈ current, p.Valid

theorem begun_none : Begun none := fun _ hp => nomatch hp

theorem begun_some {p : PartialChar} (h : p.Valid) : Begun (some p) := by
  intro q hq
  obtain rfl := Option.some.inj hq
  exact h

variable {byte : UInt8} {bytes : List UInt8} {p : PartialChar} {current : Option PartialChar}
  {c : Char}

/-! ### One byte -/

/-- A number that is no code point gives the character zero. -/
theorem toNat_ofNat (n : Nat) : (Char.ofNat n).toNat = n ∨ (Char.ofNat n).toNat = 0 := by
  by_cases h : n.isValidChar
  · rw [Char.ofNat, dif_pos h]
    exact .inl rfl
  · rw [Char.ofNat, dif_neg h]
    exact .inr rfl

theorem leadByte_valid {b : Nat} (h : leadByte b = some p) : p.Valid := by
  simp only [leadByte] at h
  split_ifs at h <;> obtain rfl := Option.some.inj h <;> constructor <;> simp <;> omega

theorem startByte_ascii (h : byte.toNat < 0x80) :
    startByte byte = ([some (Char.ofNat byte.toNat)], none) := by
  simp only [startByte, if_pos h]

/-- A byte of 0x80 or more begins a character or is malformed. -/
theorem startByte_of_le (h : 0x80 ≤ byte.toNat) :
    (∃ p : PartialChar, p.Valid ∧ startByte byte = ([], some p))
      ∨ startByte byte = ([none], none) := by
  have hascii : ¬ byte.toNat < 0x80 := Nat.not_lt.2 h
  rcases hlead : leadByte byte.toNat with _ | p
  · exact .inr (by simp only [startByte, if_neg hascii, hlead])
  · exact .inl ⟨p, leadByte_valid hlead, by simp only [startByte, if_neg hascii, hlead]⟩

/-- A byte completes a character begun, goes on with it or breaks it off. -/
theorem nextByte_some (p : PartialChar) (byte : UInt8) :
    let bits := p.bits * 0x40 + (byte.toNat - 0x80)
    (p.low ≤ byte.toNat ∧ p.missing = 1 ∧
        nextByte (some p) byte = ([some (Char.ofNat bits)], none)) ∨
      (p.low ≤ byte.toNat ∧ p.missing ≠ 1 ∧
        nextByte (some p) byte = ([], some ⟨bits, p.missing - 1, 0x80, 0xBF⟩)) ∨
      nextByte (some p) byte = (none :: (startByte byte).1, (startByte byte).2) := by
  intro bits
  by_cases hrange : p.low ≤ byte.toNat ∧ byte.toNat ≤ p.high
  · by_cases hone : p.missing = 1
    · refine .inl ⟨hrange.1, hone, ?_⟩
      simp only [nextByte, if_pos hrange, if_pos hone, bits]
    · refine .inr (.inl ⟨hrange.1, hone, ?_⟩)
      simp only [nextByte, if_pos hrange, if_neg hone, bits]
  · refine .inr (.inr ?_)
    simp only [nextByte, if_neg hrange]

theorem PartialChar.Valid.big_of_last (h : p.Valid) {b : Nat} (hlow : p.low ≤ b)
    (hone : p.missing = 1) : 0x80 ≤ p.bits * 0x40 + (b - 0x80) := by
  have hlast := h.last hone
  omega

theorem PartialChar.Valid.next (h : p.Valid) {b : Nat} (hlow : p.low ≤ b) :
    Valid ⟨p.bits * 0x40 + (b - 0x80), p.missing - 1, 0x80, 0xBF⟩ := by
  have hmore := h.more
  constructor
  case low => exact Nat.le_refl _
  case more => simp only; omega
  case last => intro _; simp only; omega

theorem begun_startByte (byte : UInt8) : Begun (startByte byte).2 := by
  rcases Nat.lt_or_ge byte.toNat 0x80 with hascii | hbig
  · rw [startByte_ascii hascii]
    exact begun_none
  · rcases startByte_of_le hbig with ⟨p, hp, heq⟩ | heq
    · rw [heq]
      exact begun_some hp
    · rw [heq]
      exact begun_none

theorem begun_nextByte (h : Begun current) (byte : UInt8) : Begun (nextByte current byte).2 := by
  rcases current with _ | p
  · exact begun_startByte byte
  have hp := h p rfl
  rcases nextByte_some p byte with ⟨-, -, heq⟩ | ⟨hlow, -, heq⟩ | heq
  · rw [heq]
    exact begun_none
  · rw [heq]
    exact begun_some (hp.next hlow)
  · rw [heq]
    exact begun_startByte byte

/-- An ASCII byte breaks off what was begun and stands for itself. -/
theorem nextByte_ascii (h : Begun current) (hbyte : byte.toNat < 0x80) :
    nextByte current byte
      = ((if current.isSome then [none] else []) ++ [some (Char.ofNat byte.toNat)], none) := by
  rcases current with _ | p
  · exact startByte_ascii hbyte
  have hlow := (h p rfl).low
  rcases nextByte_some p byte with ⟨hle, -⟩ | ⟨hle, -⟩ | heq
  · omega
  · omega
  · rw [heq, startByte_ascii hbyte]
    rfl

theorem toNat_of_mem_startByte (hc : some c ∈ (startByte byte).1) :
    c.toNat = byte.toNat ∨ c.toNat = 0 := by
  rcases Nat.lt_or_ge byte.toNat 0x80 with hascii | hbig
  · rw [startByte_ascii hascii] at hc
    obtain rfl := Option.some.inj (List.mem_singleton.1 hc)
    exact toNat_ofNat byte.toNat
  · rcases startByte_of_le hbig with ⟨p, -, heq⟩ | heq
    · rw [heq] at hc
      exact absurd hc List.not_mem_nil
    · rw [heq] at hc
      exact absurd (List.mem_singleton.1 hc) (Option.some_ne_none _)

/-- A character that a byte completes is that byte or lies beyond ASCII, zero aside. -/
theorem toNat_of_mem_nextByte (h : Begun current) (hc : some c ∈ (nextByte current byte).1) :
    c.toNat = byte.toNat ∨ c.toNat = 0 ∨ 0x80 ≤ c.toNat := by
  rcases current with _ | p
  · exact (toNat_of_mem_startByte hc).imp_right .inl
  rcases nextByte_some p byte with ⟨hlow, hone, heq⟩ | ⟨-, -, heq⟩ | heq
  · simp only [heq, List.mem_singleton, Option.some.injEq] at hc
    rw [hc]
    have hbig := (h p rfl).big_of_last hlow hone
    rcases toNat_ofNat (p.bits * 0x40 + (byte.toNat - 0x80)) with hsame | hzero
    · exact .inr (.inr (by rwa [hsame]))
    · exact .inr (.inl hzero)
  · rw [heq] at hc
    exact absurd hc List.not_mem_nil
  · rw [heq] at hc
    rcases List.mem_cons.1 hc with hnone | hc
    · exact absurd hnone (Option.some_ne_none _)
    · exact (toNat_of_mem_startByte hc).imp_right .inl

/-! ### All bytes -/

/-- An ASCII byte parts what is decoded before it from what is decoded after it. -/
theorem decodeAfter_append_ascii (h : Begun current) (hbyte : byte.toNat < 0x80)
    (before after : List UInt8) :
    decodeAfter current (before ++ byte :: after)
      = decodeAfter current before ++ some (Char.ofNat byte.toNat) :: decodeAfter none after := by
  induction before generalizing current with
  | nil =>
      simp only [List.nil_append, decodeAfter, nextByte_ascii h hbyte, List.append_assoc,
        List.cons_append]
  | cons first before ih =>
      simp only [List.cons_append, decodeAfter, ih (begun_nextByte h first), List.append_assoc]

theorem decodeLossy_append_ascii (hbyte : byte.toNat < 0x80) (before after : List UInt8) :
    decodeLossy (before ++ byte :: after)
      = decodeLossy before ++ Char.ofNat byte.toNat :: decodeLossy after := by
  rw [decodeLossy, decodeAfter_append_ascii begun_none hbyte, List.map_append, List.map_cons]
  rfl

theorem exists_byte_of_mem_decodeAfter (h : Begun current) (hc : some c ∈ decodeAfter current bytes)
    (hzero : c.toNat ≠ 0) (hascii : c.toNat < 0x80) : ∃ byte ∈ bytes, byte.toNat = c.toNat := by
  induction bytes generalizing current with
  | nil =>
      rw [decodeAfter] at hc
      split at hc
      · exact absurd (List.mem_singleton.1 hc) (Option.some_ne_none _)
      · exact absurd hc List.not_mem_nil
  | cons byte bytes ih =>
      rcases List.mem_append.1 hc with hc | hc
      · rcases toNat_of_mem_nextByte h hc with heq | heq | hbig
        · exact ⟨byte, List.mem_cons_self, heq.symm⟩
        · exact absurd heq hzero
        · omega
      · obtain ⟨other, hother, heq⟩ := ih (begun_nextByte h byte) hc
        exact ⟨other, List.mem_cons_of_mem _ hother, heq⟩

/-- The replacement character is beyond ASCII. -/
theorem eq_some_of_getD {piece : Option Char} (h : piece.getD '\ufffd' = c)
    (hascii : c.toNat < 0x80) : piece = some c := by
  rcases piece with _ | other
  · rw [← h] at hascii
    exact absurd hascii (by decide)
  · exact congrArg some h

/-- **An ASCII character is decoded from its byte alone.** -/
theorem exists_byte_of_mem_decodeLossy (hc : c ∈ decodeLossy bytes) (hzero : c.toNat ≠ 0)
    (hascii : c.toNat < 0x80) : ∃ byte ∈ bytes, byte.toNat = c.toNat := by
  obtain ⟨piece, hpiece, heq⟩ := List.mem_map.1 hc
  rw [eq_some_of_getD heq hascii] at hpiece
  exact exists_byte_of_mem_decodeAfter begun_none hpiece hzero hascii

/-- An ASCII character stands in a text exactly if its byte does. -/
theorem mem_decodeLossy_iff (hchar : Char.ofNat byte.toNat = c) (hsame : c.toNat = byte.toNat)
    (hzero : c.toNat ≠ 0) (hascii : byte.toNat < 0x80) : c ∈ decodeLossy bytes ↔ byte ∈ bytes := by
  constructor
  · intro hc
    obtain ⟨other, hother, heq⟩ := exists_byte_of_mem_decodeLossy hc hzero (hsame ▸ hascii)
    rwa [UInt8.toNat_inj.1 (heq.trans hsame)] at hother
  · intro hbyte
    obtain ⟨before, after, rfl⟩ := List.append_of_mem hbyte
    rw [decodeLossy_append_ascii hascii, hchar]
    exact List.mem_append_right _ List.mem_cons_self

/-- What comes first after bytes of a character begun is no other ASCII character than zero. -/
theorem toNat_of_head?_decodeAfter (h : p.Valid)
    (hc : (decodeAfter (some p) bytes).head? = some (some c)) : c.toNat = 0 ∨ 0x80 ≤ c.toNat := by
  induction bytes generalizing p with
  | nil => exact absurd (Option.some.inj hc) (Option.some_ne_none c).symm
  | cons byte bytes ih =>
      rcases nextByte_some p byte with ⟨hlow, hone, heq⟩ | ⟨hlow, -, heq⟩ | heq
      · simp only [decodeAfter, heq] at hc
        obtain rfl := Option.some.inj (Option.some.inj hc)
        have hbig := h.big_of_last hlow hone
        rcases toNat_ofNat (p.bits * 0x40 + (byte.toNat - 0x80)) with hsame | hzero
        · exact .inr (by rwa [hsame])
        · exact .inl hzero
      · simp only [decodeAfter, heq] at hc
        exact ih (h.next hlow) hc
      · simp only [decodeAfter, heq] at hc
        exact absurd (Option.some.inj hc) (Option.some_ne_none c).symm

/-- A text starts with an ASCII character only if its bytes do. -/
theorem exists_byte_of_head?_decodeLossy (hc : (decodeLossy bytes).head? = some c)
    (hzero : c.toNat ≠ 0) (hascii : c.toNat < 0x80) :
    ∃ byte ∈ bytes.head?, byte.toNat = c.toNat := by
  have hpiece : (decodeAfter none bytes).head? = some (some c) := by
    rw [decodeLossy, List.head?_map] at hc
    obtain ⟨piece, hhead, heq⟩ := Option.map_eq_some_iff.1 hc
    rwa [eq_some_of_getD heq hascii] at hhead
  rcases bytes with _ | ⟨byte, bytes⟩
  · exact absurd hpiece.symm (Option.some_ne_none _)
  refine ⟨byte, rfl, ?_⟩
  rcases Nat.lt_or_ge byte.toNat 0x80 with hbyte | hbig
  · simp only [decodeAfter, nextByte, startByte_ascii hbyte] at hpiece
    have hchar : Char.ofNat byte.toNat = c := Option.some.inj (Option.some.inj hpiece)
    rcases toNat_ofNat byte.toNat with hsame | hnull
    · rw [← hchar, hsame]
    · exact absurd (hchar ▸ hnull) hzero
  · rcases startByte_of_le hbig with ⟨p, hp, heq⟩ | heq
    · simp only [decodeAfter, nextByte, heq] at hpiece
      have hchar := toNat_of_head?_decodeAfter hp hpiece
      omega
    · simp only [decodeAfter, nextByte, heq] at hpiece
      exact absurd (Option.some.inj hpiece) (Option.some_ne_none c).symm

end Text
end NativeHooks
