/-
# Offsets between characters

The readers that go by offsets look at bytes, and yet they stop between characters only.
Skipping a class of characters does so if the class does not tell apart what is not ASCII
(`Blind`, `skip_eq`, `skipBack_eq`), and a loop does so if it goes on at whatever is not
ASCII (`Unmoved`): one character is one step of it, whatever its bytes are (`walk_cons`,
`walkBack_cons`).  What stands between two characters can be cut out (`slice_eq`).

A place in a text is given by what stands after it, `rest <:+ text` at `startOf text rest`,
or by what stands before it, nearest character first, `before.reverse <+: text` at
`size before`.
-/

import NativeHooks.Offset.Access
import NativeHooks.Proofs.Text.Runs
import Mathlib.Tactic.SplitIfs
import Mathlib.Data.List.Infix

namespace NativeHooks
namespace Offset

open Text

/-! ### Sizes -/

@[simp] theorem size_nil : size [] = 0 := rfl

@[simp] theorem size_append (u v : List Char) : size (u ++ v) = size u + size v := by
  simp [size, encode]

@[simp] theorem size_cons (c : Char) (cs : List Char) : size (c :: cs) = c.utf8Size + size cs := by
  simp [size, encode, String.length_utf8EncodeChar]

@[simp] theorem size_reverse (cs : List Char) : size cs.reverse = size cs := by
  induction cs with
  | nil => rfl
  | cons c cs ih => rw [List.reverse_cons, size_append, ih, size_cons, size_cons, size_nil]; omega

theorem length_le_size (cs : List Char) : cs.length ≤ size cs := by
  induction cs with
  | nil => exact Nat.le_refl _
  | cons c cs ih =>
      have := c.utf8Size_pos
      rw [List.length_cons, size_cons]
      omega

theorem length_encode (cs : List Char) : (encode cs).length = size cs := rfl

theorem encode_append (u v : List Char) : encode (u ++ v) = encode u ++ encode v :=
  List.flatMap_append

theorem startOf_eq {text w rest : List Char} (h : text = w ++ rest) :
    startOf text rest = size w := by
  rw [startOf, h, size_append, Nat.add_sub_cancel]

theorem startOf_nil (text : List Char) : startOf text [] = size text := rfl

theorem startOf_self (text : List Char) : startOf text text = 0 := Nat.sub_self _

theorem suffix_tail {text rest : List Char} {c : Char} (h : c :: rest <:+ text) : rest <:+ text :=
  (List.suffix_cons c rest).trans h

theorem startOf_cons {text rest : List Char} {c : Char} (h : c :: rest <:+ text) :
    startOf text rest = startOf text (c :: rest) + c.utf8Size := by
  obtain ⟨w, rfl⟩ := h
  rw [startOf, startOf, size_append, size_cons]
  omega

/-! ### Characters and their bytes -/

theorem toNat_ofByte (byte : UInt8) : (ofByte byte).toNat = byte.toNat := by
  have hvalid : byte.toNat.isValidChar := .inl (by have := byte.toNat_lt; omega)
  rw [ofByte, Char.ofNat, dif_pos hvalid]
  rfl

/-- An ASCII character is its own byte. -/
theorem utf8EncodeChar_ascii {c : Char} (h : c.toNat < 0x80) :
    ∃ byte, String.utf8EncodeChar c = [byte] ∧ ofByte byte = c := by
  refine ⟨UInt8.ofNat c.toNat, ?_, ?_⟩
  · have hle : c.val.toNat ≤ 127 := Nat.le_of_lt_succ h
    unfold String.utf8EncodeChar
    rw [if_pos hle]
    rfl
  · refine Char.toNat_inj.1 ?_
    rw [toNat_ofByte, UInt8.toNat_ofNat']
    omega

/-- The bytes of any other character are not ASCII. -/
theorem toNat_of_mem_utf8EncodeChar {c : Char} (h : 0x80 ≤ c.toNat) {byte : UInt8}
    (hbyte : byte ∈ String.utf8EncodeChar c) : 0x80 ≤ (ofByte byte).toNat := by
  have hle : ¬ c.val.toNat ≤ 127 := Nat.not_le.2 h
  rw [toNat_ofByte]
  unfold String.utf8EncodeChar at hbyte
  simp only [if_neg hle] at hbyte
  split_ifs at hbyte <;> simp only [List.mem_cons, List.not_mem_nil, or_false] at hbyte
  · rcases hbyte with rfl | rfl <;> rw [UInt8.toNat_ofNat'] <;> omega
  · rcases hbyte with rfl | rfl | rfl <;> rw [UInt8.toNat_ofNat'] <;> omega
  · rcases hbyte with rfl | rfl | rfl | rfl <;> rw [UInt8.toNat_ofNat'] <;> omega

theorem utf8Size_ascii {c : Char} (h : c.toNat < 0x80) : c.utf8Size = 1 := by
  obtain ⟨byte, heq, -⟩ := utf8EncodeChar_ascii h
  rw [← String.length_utf8EncodeChar, heq, List.length_singleton]

/-- An ASCII character takes one byte. -/
theorem size_cons_ascii {c : Char} (h : c.toNat < 0x80) (cs : List Char) :
    size (c :: cs) = size cs + 1 := by
  rw [size_cons, utf8Size_ascii h, Nat.add_comm]

theorem startOf_cons_ascii {text rest : List Char} {c : Char} (hc : c.toNat < 0x80)
    (h : c :: rest <:+ text) : startOf text (c :: rest) + 1 = startOf text rest := by
  rw [startOf_cons h, utf8Size_ascii hc]

theorem ne_of_beyond {c d : Char} (hc : 0x80 ≤ c.toNat) (hd : d.toNat < 0x80) : c ≠ d := by
  rintro rfl
  omega

theorem beq_of_beyond {c d : Char} (hc : 0x80 ≤ c.toNat) (hd : d.toNat < 0x80) :
    (c == d) = false :=
  beq_eq_false_iff_ne.2 (ne_of_beyond hc hd)

theorem utf8EncodeChar_ne_nil (c : Char) : String.utf8EncodeChar c ≠ [] := by
  refine List.ne_nil_of_length_pos ?_
  rw [String.length_utf8EncodeChar]
  exact c.utf8Size_pos

theorem byteAt_eq {bytes u v : List UInt8} {byte : UInt8} (h : bytes = u ++ byte :: v) :
    byteAt bytes u.length = .ok (ofByte byte) := by
  subst h
  rw [byteAt, byteAt?, List.getElem?_append_right (Nat.le_refl _), Nat.sub_self]
  rfl

theorem byteAt?_end {bytes : List UInt8} {i : Nat} (h : bytes.length ≤ i) :
    byteAt? bytes i = none := by
  rw [byteAt?, List.getElem?_eq_none h, Option.map_none]

/-- A class that does not tell apart the characters beyond ASCII. -/
def Blind (p : Char → Bool) : Prop :=
  ∀ c d : Char, 0x80 ≤ c.toNat → 0x80 ≤ d.toNat → p c = p d

/-- A loop that goes on at whatever is not ASCII. -/
def Unmoved {σ : Type} (move : Move σ) : Prop :=
  ∀ s i c, 0x80 ≤ c.toNat → move s i c = .ok (.yield s)

/-- The bytes of a character are in a blind class if the character is. -/
theorem Blind.ofByte {p : Char → Bool} (hp : Blind p) {c : Char} {byte : UInt8}
    (hbyte : byte ∈ String.utf8EncodeChar c) : p (ofByte byte) = p c := by
  rcases Nat.lt_or_ge c.toNat 0x80 with hascii | hbig
  · obtain ⟨own, heq, rfl⟩ := utf8EncodeChar_ascii hascii
    rw [heq, List.mem_singleton] at hbyte
    rw [hbyte]
  · exact hp _ _ (toNat_of_mem_utf8EncodeChar hbig hbyte) hbig

/-- What is the same before and after each of some bytes is the same before and after all of
them. -/
theorem eq_over_bytes {β : Type} {f : Nat → β} {bytes u m v : List UInt8}
    (h : bytes = u ++ (m ++ v))
    (hstep : ∀ u' byte v', byte ∈ m → bytes = u' ++ byte :: v' →
      f u'.length = f (u'.length + 1)) : f u.length = f (u ++ m).length := by
  induction m generalizing u with
  | nil => rw [List.append_nil]
  | cons byte m ih =>
      have hrest : bytes = (u ++ [byte]) ++ (m ++ v) := by rw [h]; simp
      have hmore := ih hrest fun u' b v' hb => hstep u' b v' (List.mem_cons_of_mem _ hb)
      rw [hstep u byte _ List.mem_cons_self h]
      rwa [List.length_append, List.length_singleton, List.append_assoc,
        List.singleton_append] at hmore

/-! ### Going forwards -/

section Forwards

variable {p : Char → Bool} {σ : Type} {move : Move σ} {text rest : List Char} {c : Char}

theorem skip_end (p : Char → Bool) (bytes : List UInt8) :
    skip p bytes bytes.length = .ok bytes.length := by
  rw [skip, if_neg (Nat.lt_irrefl _)]
  rfl

/-- One byte is skipped or not. -/
theorem skip_byte {bytes u v : List UInt8} {byte : UInt8} (h : bytes = u ++ byte :: v) :
    skip p bytes u.length
      = if p (ofByte byte) then skip p bytes (u.length + 1) else .ok u.length := by
  have hlt : u.length < bytes.length := by
    rw [h, List.length_append, List.length_cons]
    omega
  rw [skip, if_pos hlt, byteAt_eq h]
  rfl

/-- Bytes of the class are skipped. -/
theorem skip_bytes {bytes u m v : List UInt8} (h : bytes = u ++ (m ++ v))
    (hm : ∀ byte ∈ m, p (ofByte byte) = true) :
    skip p bytes u.length = skip p bytes (u ++ m).length :=
  eq_over_bytes h fun u' byte v' hbyte heq => by rw [skip_byte heq, if_pos (hm byte hbyte)]

/-- One character is skipped or not. -/
theorem skip_cons (hp : Blind p) (h : c :: rest <:+ text) :
    skip p (encode text) (startOf text (c :: rest))
      = if p c then skip p (encode text) (startOf text rest)
        else .ok (startOf text (c :: rest)) := by
  obtain ⟨w, rfl⟩ := h
  have hnext : w ++ c :: rest = (w ++ [c]) ++ rest := by simp
  have hbytes : encode (w ++ c :: rest) = encode w ++ (String.utf8EncodeChar c ++ encode rest) := by
    rw [encode_append]
    rfl
  rw [startOf_eq rfl, startOf_eq hnext, ← length_encode, ← length_encode]
  by_cases hc : p c = true
  · rw [if_pos hc, skip_bytes hbytes fun byte hbyte => (hp.ofByte hbyte).trans hc, encode_append]
    simp [encode]
  · obtain ⟨byte, more, hmore⟩ := List.exists_cons_of_ne_nil (utf8EncodeChar_ne_nil c)
    rw [hmore, List.cons_append] at hbytes
    rw [if_neg hc, skip_byte hbytes, if_neg]
    rwa [hp.ofByte (c := c) (by rw [hmore]; exact List.mem_cons_self)]

/-- **Skipping takes whole characters.** -/
theorem skip_eq (hp : Blind p) (h : rest <:+ text) :
    skip p (encode text) (startOf text rest) = .ok (startOf text (rest.dropWhile p)) := by
  induction rest with
  | nil =>
      rw [List.dropWhile_nil, startOf_nil, ← length_encode, skip_end]
  | cons c rest ih =>
      rw [skip_cons hp h, List.dropWhile_cons]
      split
      · exact ih (suffix_tail h)
      · rfl

theorem walk_end (move : Move σ) (s : σ) (bytes : List UInt8) :
    walk bytes move s bytes.length = .ok s := by
  rw [walk, if_neg (Nat.lt_irrefl _)]
  rfl

/-- One step of a loop. -/
theorem walk_byte {bytes u v : List UInt8} {byte : UInt8} (h : bytes = u ++ byte :: v) (s : σ) :
    walk bytes move s u.length
      = move s u.length (ofByte byte) >>=
          proceed fun s => walk bytes move s (u.length + 1) := by
  have hlt : u.length < bytes.length := by
    rw [h, List.length_append, List.length_cons]
    omega
  rw [walk, if_pos hlt, byteAt_eq h]
  rfl

/-- A loop goes on over bytes that are not ASCII. -/
theorem walk_bytes (hmove : Unmoved move) {bytes u m v : List UInt8} (h : bytes = u ++ (m ++ v))
    (hm : ∀ byte ∈ m, 0x80 ≤ (ofByte byte).toNat) (s : σ) :
    walk bytes move s u.length = walk bytes move s (u ++ m).length :=
  eq_over_bytes h fun u' byte v' hbyte heq => by
    rw [walk_byte heq, hmove _ _ _ (hm byte hbyte), ok_bind, proceed]

/-- At the end of the text a loop is over. -/
theorem walk_nil (move : Move σ) (s : σ) (text : List Char) :
    walk (encode text) move s (startOf text []) = .ok s := by
  rw [startOf_nil, ← length_encode, walk_end]

/-- **A loop goes over whole characters.** -/
theorem walk_cons (hmove : Unmoved move) (h : c :: rest <:+ text) (s : σ) :
    walk (encode text) move s (startOf text (c :: rest))
      = move s (startOf text (c :: rest)) c >>=
          proceed fun s => walk (encode text) move s (startOf text rest) := by
  obtain ⟨w, rfl⟩ := h
  have hnext : w ++ c :: rest = (w ++ [c]) ++ rest := by simp
  have hbytes : encode (w ++ c :: rest) = encode w ++ (String.utf8EncodeChar c ++ encode rest) := by
    rw [encode_append]
    rfl
  rw [startOf_eq rfl, startOf_eq hnext, ← length_encode, ← length_encode]
  rcases Nat.lt_or_ge c.toNat 0x80 with hascii | hbig
  · obtain ⟨byte, heq, rfl⟩ := utf8EncodeChar_ascii hascii
    rw [heq, List.singleton_append] at hbytes
    rw [walk_byte hbytes, encode_append w]
    simp [encode, heq]
  · rw [walk_bytes hmove hbytes (fun byte => toNat_of_mem_utf8EncodeChar hbig), hmove _ _ _ hbig,
      ok_bind, proceed, encode_append w]
    simp [encode]

end Forwards

/-! ### Going back -/

section Back

variable {p : Char → Bool} {σ : Type} {move : Move σ} {text before : List Char} {c : Char}

/-- The bytes of a text around a character, from what stands before it. -/
theorem exists_bytes_around (h : (c :: before).reverse <+: text) :
    ∃ after, encode text = encode before.reverse ++ (String.utf8EncodeChar c ++ after) ∧
      size (c :: before) = (encode before.reverse ++ String.utf8EncodeChar c).length ∧
      size before = (encode before.reverse).length := by
  obtain ⟨after, rfl⟩ := h
  refine ⟨encode after, ?_, ?_, ?_⟩
  · simp [encode]
  · rw [List.length_append, length_encode, size_reverse, String.length_utf8EncodeChar, size_cons,
      Nat.add_comm]
  · rw [length_encode, size_reverse]

/-- The last byte of the character before a place. -/
theorem exists_last_byte (h : (c :: before).reverse <+: text) :
    ∃ u byte v, encode text = u ++ byte :: v ∧ byte ∈ String.utf8EncodeChar c ∧
      size (c :: before) = u.length + 1 := by
  obtain ⟨after, hbytes, hsize, -⟩ := exists_bytes_around h
  obtain ⟨bytes, byte, hlast⟩ := (String.utf8EncodeChar c).eq_nil_or_concat.resolve_left
    (utf8EncodeChar_ne_nil c)
  refine ⟨encode before.reverse ++ bytes, byte, after, ?_, ?_, ?_⟩
  · rw [hbytes, hlast]
    simp
  · rw [hlast]
    simp
  · rw [hsize, hlast]
    simp
    omega

theorem reverse_tail (h : (c :: before).reverse <+: text) : before.reverse <+: text := by
  rw [List.reverse_cons] at h
  exact (List.prefix_append _ _).trans h

/-- One byte is skipped or not. -/
theorem skipBack_byte {bytes u v : List UInt8} {byte : UInt8} (h : bytes = u ++ byte :: v) :
    skipBack p bytes (u.length + 1)
      = if p (ofByte byte) then skipBack p bytes u.length else .ok (u.length + 1) := by
  rw [skipBack, byteAt_eq h]
  rfl

/-- Bytes of the class are skipped. -/
theorem skipBack_bytes {bytes u m v : List UInt8} (h : bytes = u ++ (m ++ v))
    (hm : ∀ byte ∈ m, p (ofByte byte) = true) :
    skipBack p bytes (u ++ m).length = skipBack p bytes u.length :=
  (eq_over_bytes h fun u' byte v' hbyte heq => by
    rw [skipBack_byte heq, if_pos (hm byte hbyte)]).symm

/-- One character is skipped or not. -/
theorem skipBack_cons (hp : Blind p) (h : (c :: before).reverse <+: text) :
    skipBack p (encode text) (size (c :: before))
      = if p c then skipBack p (encode text) (size before) else .ok (size (c :: before)) := by
  obtain ⟨after, hbytes, hsize, hsize'⟩ := exists_bytes_around h
  rw [hsize, hsize']
  by_cases hc : p c = true
  · rw [if_pos hc, skipBack_bytes hbytes fun byte hbyte => (hp.ofByte hbyte).trans hc]
  · obtain ⟨u, byte, v, hlast, hbyte, hplace⟩ := exists_last_byte h
    rw [if_neg hc, ← hsize, hplace, skipBack_byte hlast, if_neg (by rwa [hp.ofByte hbyte])]

/-- **Going back takes whole characters.** -/
theorem skipBack_eq (hp : Blind p) (h : before.reverse <+: text) :
    skipBack p (encode text) (size before) = .ok (size (before.dropWhile p)) := by
  induction before with
  | nil => rfl
  | cons c before ih =>
      rw [skipBack_cons hp h, List.dropWhile_cons]
      split
      · exact ih (reverse_tail h)
      · rfl

/-- One step of a loop. -/
theorem walkBack_byte {bytes u v : List UInt8} {byte : UInt8} (h : bytes = u ++ byte :: v)
    (s : σ) :
    walkBack bytes move s (u.length + 1)
      = move s u.length (ofByte byte) >>= proceed fun s => walkBack bytes move s u.length := by
  rw [walkBack, byteAt_eq h]
  rfl

/-- A loop goes on over bytes that are not ASCII. -/
theorem walkBack_bytes (hmove : Unmoved move) {bytes u m v : List UInt8}
    (h : bytes = u ++ (m ++ v)) (hm : ∀ byte ∈ m, 0x80 ≤ (ofByte byte).toNat) (s : σ) :
    walkBack bytes move s (u ++ m).length = walkBack bytes move s u.length :=
  (eq_over_bytes h fun u' byte v' hbyte heq => by
    rw [walkBack_byte heq, hmove _ _ _ (hm byte hbyte), ok_bind, proceed]).symm

/-- **A loop goes back over whole characters.** -/
theorem walkBack_cons (hmove : Unmoved move) (h : (c :: before).reverse <+: text) (s : σ) :
    walkBack (encode text) move s (size (c :: before))
      = move s (size before) c >>=
          proceed fun s => walkBack (encode text) move s (size before) := by
  obtain ⟨after, hbytes, hsize, hsize'⟩ := exists_bytes_around h
  rw [hsize, hsize']
  rcases Nat.lt_or_ge c.toNat 0x80 with hascii | hbig
  · obtain ⟨byte, heq, rfl⟩ := utf8EncodeChar_ascii hascii
    rw [heq, List.singleton_append] at hbytes
    rw [heq, List.length_append, List.length_singleton, walkBack_byte hbytes]
  · rw [walkBack_bytes hmove hbytes (fun byte => toNat_of_mem_utf8EncodeChar hbig),
      hmove _ _ _ hbig, ok_bind, proceed]

end Back

/-! ### Parts -/

theorem splitAt?_size (u v : List Char) : splitAt? (size u) (u ++ v) = some (u, v) := by
  induction u with
  | nil => rw [size_nil, List.nil_append, splitAt?]
  | cons c u ih =>
      obtain ⟨n, hn⟩ := Nat.exists_eq_add_of_lt c.utf8Size_pos
      have hsize : size (c :: u) = n + size u + 1 := by rw [size_cons, hn]; omega
      rw [hsize, List.cons_append, splitAt?, if_pos (by omega),
        show n + size u + 1 - c.utf8Size = size u by omega, ih]
      rfl

/-- **What stands between two characters can be cut out.** -/
theorem slice_eq {text u w v : List Char} (h : text = u ++ (w ++ v)) :
    slice text (size u) (size u + size w) = .ok w := by
  subst h
  simp only [slice, splitAt?_size, Nat.add_sub_cancel_left, Option.bind_eq_bind, Option.bind_some,
    Option.pure_def, if_pos (Nat.le_add_right _ _)]

/-- The same, given by what stands after the two characters. -/
theorem slice_between {text w rest : List Char} (h : w ++ rest <:+ text) :
    slice text (startOf text (w ++ rest)) (startOf text rest) = .ok w := by
  obtain ⟨u, rfl⟩ := h
  rw [startOf_eq rfl, startOf_eq (w := u ++ w) (by rw [List.append_assoc]), size_append]
  exact slice_eq rfl

/-- What stands from a character on can be cut out. -/
theorem slice_startOf {text rest : List Char} (h : rest <:+ text) :
    slice text (startOf text rest) (size text) = .ok rest := by
  have hslice : slice text (startOf text (rest ++ [])) (startOf text []) = .ok rest :=
    slice_between (by rwa [List.append_nil])
  rwa [List.append_nil, startOf_nil] at hslice

/-- What stands before a character can be cut out. -/
theorem slice_before {text w rest : List Char} (h : text = w ++ rest) :
    slice text 0 (size w) = .ok w := by
  have hslice := slice_between (h ▸ List.suffix_refl text)
  rwa [← h, startOf_self, startOf_eq h] at hslice

end Offset
end NativeHooks
