/-
# Heads by offset agree with heads of characters

Every reader of heads goes back from a place without a fault, and ends at a place between
two characters: the one before which what it leaves of the text stands (`identBefore_eq`,
`typeBefore_eq`, `keywordsBefore_eq`, `openingParenthesis_eq`, `accessorHead_eq`,
`dropSpecifier_eq`).  What it read stands between two such places, and so it can be cut out
(`slice_back`).
-/

import Mathlib.Data.List.DropRight
import NativeHooks.Offset.Reading
import NativeHooks.Proofs.Header.Taken
import NativeHooks.Proofs.Offset.Lists

namespace NativeHooks
namespace Offset

open Text

variable {text before : List Char}

/-! ### What stands before a place -/

theorem reverse_left {taken rest : List Char} (h : (taken ++ rest).reverse <+: text) :
    rest.reverse <+: text := by
  rw [List.reverse_append] at h
  exact (List.prefix_append _ _).trans h

theorem reverse_dropWhile (h : before.reverse <+: text) (p : Char → Bool) :
    (before.dropWhile p).reverse <+: text := by
  rw [← List.takeWhile_append_dropWhile (p := p) (l := before)] at h
  exact reverse_left h

/-- What stands between two places is cut out. -/
theorem slice_back {taken rest : List Char} (h : (taken ++ rest).reverse <+: text) :
    slice text (size rest) (size (taken ++ rest)) = .ok taken.reverse := by
  obtain ⟨after, rfl⟩ := h
  have hslice : slice ((taken ++ rest).reverse ++ after) (size rest.reverse)
      (size rest.reverse + size taken.reverse) = .ok taken.reverse :=
    slice_eq (by rw [List.reverse_append, List.append_assoc])
  rwa [size_reverse, size_reverse, Nat.add_comm, ← size_append] at hslice

theorem blind_of_false {p : Char → Bool} (h : ∀ c : Char, 0x80 ≤ c.toNat → p c = false) :
    Blind p := fun c d hc hd => (h c hc).trans (h d hd).symm

theorem isBlank_of_beyond {c : Char} (hc : 0x80 ≤ c.toNat) : isBlank c = false := by
  rw [isBlank, beq_of_beyond hc (by decide), beq_of_beyond hc (by decide),
    beq_of_beyond hc (by decide), beq_of_beyond hc (by decide), beq_of_beyond hc (by decide)]
  rfl

theorem isIdent_of_beyond {c : Char} (hc : 0x80 ≤ c.toNat) : isIdent c = false := by
  by_contra h
  have := toNat_lt_of_isIdent (by simpa using h)
  omega

theorem blind_isBlank : Blind isBlank := blind_of_false fun _ => isBlank_of_beyond

theorem blind_isIdent : Blind isIdent := blind_of_false fun _ => isIdent_of_beyond

theorem size_pos {w : List Char} : 0 < size w ↔ w ≠ [] := by
  cases w with
  | nil => simp
  | cons c w =>
      have := c.utf8Size_pos
      rw [size_cons]
      exact ⟨fun _ => List.cons_ne_nil c w, fun _ => by omega⟩

/-! ### Names -/

/-- The bounds of a word that is read and leaves `r.2`. -/
def bounds (r : List Char × List Char) : Nat × Nat := (size r.2, size r.2 + size r.1)

/-- **The identifier before a place is found.** -/
theorem identBefore_eq (h : before.reverse <+: text) :
    identBefore (encode text) (size before) = .ok ((Header.identBefore before).map bounds) := by
  have hinner := reverse_dropWhile h isBlank
  have hsplit : size (before.dropWhile isBlank)
      = size ((before.dropWhile isBlank).takeWhile isIdent)
        + size ((before.dropWhile isBlank).dropWhile isIdent) := by
    rw [← size_append, List.takeWhile_append_dropWhile]
  rw [identBefore, skipBack_eq blind_isBlank h, ok_bind, skipBack_eq blind_isIdent hinner, ok_bind,
    Header.identBefore]
  rcases hname : (before.dropWhile isBlank).takeWhile isIdent with _ | ⟨c, name⟩
  · rw [hname, size_nil, Nat.zero_add] at hsplit
    rw [hsplit, if_neg (Nat.lt_irrefl _)]
    rfl
  · rw [hname] at hsplit
    have hpos : 0 < size (c :: name) := size_pos.2 (List.cons_ne_nil c name)
    rw [if_pos (by omega), hsplit]
    simp [bounds]
    omega

/-- An identifier that was read can be cut out. -/
theorem slice_identBefore (h : before.reverse <+: text) {name rest : List Char}
    (hname : Header.identBefore before = some (name, rest)) :
    rest.reverse <+: text ∧ slice text (size rest) (size rest + size name) = .ok name := by
  obtain ⟨blanks, rfl, -⟩ := Header.identBefore_eq_some_iff.1 hname
  have hword : (name.reverse ++ rest).reverse <+: text := reverse_left h
  have hslice := slice_back hword
  rw [List.reverse_reverse, size_append, size_reverse, Nat.add_comm] at hslice
  exact ⟨reverse_left hword, hslice⟩

/-- **The word before a place on its line is found.** -/
theorem wordOnLine_eq (h : before.reverse <+: text) :
    wordOnLine text (size before) = .ok ((Header.wordOnLine before).map bounds) := by
  rw [wordOnLine, identBefore_eq h, ok_bind, Header.wordOnLine]
  rcases hname : Header.identBefore before with _ | ⟨name, rest⟩
  · rw [ite_self]
    rfl
  have hgap : slice text (size rest + size name) (size before)
      = .ok (before.takeWhile isBlank).reverse := by
    obtain ⟨blanks, hbefore, hblanks, hne, hident, -⟩ := Header.identBefore_eq_some_iff.1 hname
    obtain ⟨c, more, hmore⟩ := List.exists_cons_of_ne_nil (List.reverse_ne_nil_iff.2 hne)
    have hc : c ∈ name := List.mem_reverse.1 (hmore ▸ List.mem_cons_self)
    have htake : before.takeWhile isBlank = blanks := by
      rw [hbefore, hmore]
      exact takeWhile_run hblanks (isBlank_eq_false_of_isIdent (hident c hc))
    rw [htake, hbefore]
    rw [hbefore] at h
    have hslice := slice_back h
    rwa [size_append name.reverse, size_reverse, Nat.add_comm (size name)] at hslice
  simp only [Option.map_some, bounds, hgap, ok_bind, List.contains_eq_mem, List.mem_reverse]
  split <;> rfl

/-! ### Types -/

/-- One character of a token inside `d` angle brackets. -/
theorem tokenMove_cases {d : Nat} (hfits : d + 1 < countLimit) (i : Nat) (c : Char) :
    (tokenMove ⟨d, none⟩ i c = .ok (.done ⟨d, some (i + 1)⟩) ∧
      ∀ before, Header.tokenInside d (c :: before)
        = if d = 0 then some ([], c :: before) else none) ∨
    ∃ e ≤ d + 1, tokenMove ⟨d, none⟩ i c = .ok (.yield ⟨e, none⟩) ∧
      ∀ before, Header.tokenInside d (c :: before)
        = Header.extend c (Header.tokenInside e before) := by
  by_cases hclose : c = '>'
  · refine .inr ⟨d + 1, Nat.le_refl _, ?_, fun before => ?_⟩
    · rw [tokenMove, if_pos hclose, deeper_eq hfits]
      rfl
    · rw [hclose, Header.tokenInside_close]
  by_cases hopen : c = '<'
  · cases d with
    | zero =>
        refine .inl ⟨?_, fun before => by rw [hopen]; rfl⟩
        rw [tokenMove, if_neg hclose, if_pos hopen]
        rfl
    | succ d =>
        refine .inr ⟨d, by omega, ?_, fun before => by rw [hopen]; rfl⟩
        have hdepth : ¬ ((d + 1 : Nat) : Int) = 0 := by omega
        simp only [tokenMove, if_neg hclose, if_pos hopen, if_neg hdepth]
        rw [shallower_eq (by omega)]
        rfl
  by_cases hends : Header.endsType c = true
  · refine .inl ⟨?_, fun before => ?_⟩
    · rw [tokenMove, if_neg hclose, if_neg hopen, if_pos hends]
      rfl
    · rw [Header.tokenInside.eq_def]
      simp only [if_neg hclose, if_neg hopen, if_pos hends]
  by_cases hstop : (c = ',' ∨ isBlank c = true) ∧ d = 0
  · obtain ⟨hchar, rfl⟩ := hstop
    refine .inl ⟨?_, fun before => ?_⟩
    · rw [tokenMove, if_neg hclose, if_neg hopen, if_neg hends, if_pos ⟨hchar, rfl⟩]
      rfl
    · rw [Header.tokenInside.eq_def]
      simp only [if_neg hclose, if_neg hopen, if_neg hends, hchar, and_self, if_true]
  · refine .inr ⟨d, Nat.le_succ d, ?_, fun before => ?_⟩
    · have hdepth : ¬ ((c = ',' ∨ isBlank c = true) ∧ (d : Int) = 0) := fun h =>
        hstop ⟨h.1, by omega⟩
      rw [tokenMove, if_neg hclose, if_neg hopen, if_neg hends, if_neg hdepth]
      rfl
    · rw [Header.tokenInside.eq_def]
      simp only [if_neg hclose, if_neg hopen, if_neg hends, if_neg fun h => hstop (And.symm h)]

theorem unmoved_tokenMove : Unmoved tokenMove := by
  intro s i c hc
  have hends : ¬ Header.endsType c = true := by
    rw [Header.endsType, List.contains_iff_mem]
    simp only [List.mem_cons, List.not_mem_nil, or_false, not_or]
    exact ⟨ne_of_beyond hc (by decide), ne_of_beyond hc (by decide), ne_of_beyond hc (by decide),
      ne_of_beyond hc (by decide), ne_of_beyond hc (by decide), ne_of_beyond hc (by decide)⟩
  have hblank : ¬ ((c = ',' ∨ isBlank c = true) ∧ s.depth = 0) := by
    rintro ⟨rfl | hblank, -⟩
    · exact absurd hc (by decide)
    · exact absurd ((isBlank_of_beyond hc).symm.trans hblank) Bool.false_ne_true
  rw [tokenMove, if_neg (ne_of_beyond hc (by decide)), if_neg (ne_of_beyond hc (by decide)),
    if_neg hends, if_neg hblank]
  rfl

/-- Where a loop is done an ASCII character stands. -/
theorem ascii_of_done {σ : Type} {move : Move σ} (hmove : Unmoved move) {s s' : σ} {i : Nat}
    {c : Char} (h : move s i c = .ok (.done s')) : c.toNat < 0x80 := by
  by_contra hc
  rw [hmove s i c (by omega)] at h
  exact absurd h (by rintro ⟨⟩)

/-- **The start of a token is found from any place in it.** -/
theorem walkBack_tokenMove (h : before.reverse <+: text) {d : Nat}
    (hfits : d + before.length < countLimit) :
    ∃ s, walkBack (encode text) tokenMove ⟨d, none⟩ (size before) = .ok s ∧
      (if s.depth = 0 then some (s.found.getD 0) else none)
        = (Header.tokenInside d before).map fun r => size r.2 := by
  induction before generalizing d with
  | nil =>
      refine ⟨⟨d, none⟩, rfl, ?_⟩
      rw [Header.tokenInside]
      cases d with
      | zero => rfl
      | succ d =>
          have hdepth : ¬ ((d + 1 : Nat) : Int) = 0 := by omega
          simp only [if_neg hdepth, if_neg (Nat.succ_ne_zero d), Option.map_none]
  | cons c before ih =>
      rw [List.length_cons] at hfits
      have hstep : d + 1 < countLimit := by omega
      rw [walkBack_cons unmoved_tokenMove h]
      rcases tokenMove_cases hstep (size before) c with ⟨hmove, hread⟩ | ⟨e, he, hmove, hread⟩
      · refine ⟨⟨d, some (size before + 1)⟩, by rw [hmove]; rfl, ?_⟩
        have hplace := size_cons_ascii (ascii_of_done unmoved_tokenMove hmove) before
        rw [hread]
        show (if (d : Int) = 0 then some (size before + 1) else none) = _
        by_cases hd : d = 0
        · rw [if_pos hd, if_pos (by omega), Option.map_some, hplace]
        · rw [if_neg hd, if_neg (by omega), Option.map_none]
      · obtain ⟨s, hwalk, hfound⟩ := ih (reverse_tail h) (d := e) (by omega)
        refine ⟨s, by rw [hmove, ok_bind, proceed, hwalk], ?_⟩
        rw [hfound, hread, Header.extend, Option.map_map]
        rfl

/-- A token that was read is what stands between its bounds. -/
theorem token_split {token rest : List Char} (h : Header.tokenBefore before = some (token, rest)) :
    before.dropWhile isBlank = token.reverse ++ rest := by
  rw [Header.tokenBefore_eq] at h
  obtain ⟨⟨inner, left⟩, hinner, heq⟩ := Option.bind_eq_some_iff.1 h
  obtain ⟨word, hword, heq⟩ := Option.map_eq_some_iff.1 heq
  obtain ⟨rfl, rfl⟩ := Prod.mk.inj heq
  split at hword
  · exact absurd hword.symm (Option.some_ne_none _)
  · obtain rfl := Option.some.inj hword
    rw [List.reverse_reverse]
    exact Header.tokenInside_append hinner

/-- **The token before a place is found.** -/
theorem tokenBefore_eq (h : before.reverse <+: text) (hfits : size text < countLimit) :
    tokenBefore (encode text) (size (before.dropWhile isBlank))
      = .ok ((Header.tokenBefore before).map fun r => size r.2) := by
  have hinner := reverse_dropWhile h isBlank
  have hlength : (before.dropWhile isBlank).length < countLimit := by
    have hle := hinner.length_le
    have hsize := length_le_size text
    rw [List.length_reverse] at hle
    omega
  obtain ⟨s, hwalk, hfound⟩ := walkBack_tokenMove hinner (d := 0) (by omega)
  have hstart : walkBack (encode text) tokenMove {} (size (before.dropWhile isBlank)) = .ok s :=
    hwalk
  rw [tokenBefore, hstart, ok_bind, Header.tokenBefore_eq]
  rcases htoken : Header.tokenInside 0 (before.dropWhile isBlank) with _ | ⟨token, rest⟩
  · rw [htoken] at hfound
    split at hfound
    · exact absurd hfound (Option.some_ne_none _)
    · next hdepth =>
        rw [if_neg fun h => hdepth h.2]
        rfl
  · rw [htoken] at hfound
    split at hfound
    · next hdepth =>
        have hplace : s.found.getD 0 = size rest := Option.some.inj hfound
        have hsize := congrArg size (Header.tokenInside_append htoken)
        rw [size_append] at hsize
        rcases token with _ | ⟨c, token⟩
        · rw [size_nil, Nat.zero_add] at hsize
          rw [hplace, hsize, if_neg fun h => Nat.lt_irrefl _ h.1]
          rfl
        · have hpos : 0 < size (c :: token) := size_pos.2 (List.cons_ne_nil c token)
          rw [hplace, if_pos ⟨by omega, hdepth⟩]
          rfl
    · exact absurd hfound.symm (Option.some_ne_none _)

theorem slice_token (h : before.reverse <+: text) {token rest : List Char}
    (htoken : Header.tokenBefore before = some (token, rest)) :
    rest.reverse <+: text ∧
      slice text (size rest) (size (before.dropWhile isBlank)) = .ok token := by
  have hinner := reverse_dropWhile h isBlank
  rw [token_split htoken] at hinner ⊢
  have hslice := slice_back hinner
  rw [List.reverse_reverse] at hslice
  exact ⟨reverse_left hinner, hslice⟩

theorem qualified_of_word {type : List Char} {start wordStart wordStop : Nat}
    (h : wordOnLine text start = .ok (some (wordStart, wordStop))) :
    qualified text type start = (do
      let word ← slice text wordStart wordStop
      if Header.typeQualifiers.contains (String.ofList word) then
        qualified text (word ++ ' ' :: type) wordStart
      else return (start, type)) := by
  rw [qualified]
  split
  · next hword => rw [h] at hword; exact absurd hword (by rintro ⟨⟩)
  · next hword => rw [h] at hword; exact absurd hword (by rintro ⟨⟩)
  · next hword =>
      rw [h] at hword
      obtain ⟨rfl, rfl⟩ := Prod.mk.inj (Option.some.inj (Except.ok.inj hword))
      rfl

theorem qualified_of_none {type : List Char} {start : Nat}
    (h : wordOnLine text start = .ok none) : qualified text type start = .ok (start, type) := by
  rw [qualified]
  split
  · next hword => rw [h] at hword; exact absurd hword (by rintro ⟨⟩)
  · rfl
  · next hword => rw [h] at hword; exact absurd hword (by rintro ⟨⟩)

/-- A word on the line is found where it stands, and can be cut out. -/
theorem wordOnLine_of_some (h : before.reverse <+: text) {word rest : List Char}
    (hword : Header.wordOnLine before = some (word, rest)) :
    rest.reverse <+: text ∧
      wordOnLine text (size before) = .ok (some (size rest, size rest + size word)) ∧
      slice text (size rest) (size rest + size word) = .ok word := by
  have hfound := wordOnLine_eq h
  rw [hword] at hfound
  rw [Header.wordOnLine] at hword
  split at hword
  · exact absurd hword.symm (Option.some_ne_none _)
  · obtain ⟨hrest, hslice⟩ := slice_identBefore h hword
    exact ⟨hrest, hfound, hslice⟩

theorem wordOnLine_of_none (h : before.reverse <+: text) (hword : Header.wordOnLine before = none) :
    wordOnLine text (size before) = .ok none := by
  rw [wordOnLine_eq h, hword]
  rfl

/-- **The qualifiers before a type are found.** -/
theorem qualified_eq (h : before.reverse <+: text) (type : List Char) :
    qualified text type (size before)
      = .ok (size (Header.qualified type before).2, (Header.qualified type before).1) := by
  induction type, before using Header.qualified.induct with
  | case1 type before word rest hword hqualifier ih =>
      obtain ⟨hrest, hfound, hslice⟩ := wordOnLine_of_some h hword
      rw [qualified_of_word hfound, hslice, ok_bind, if_pos hqualifier, ih hrest,
        Header.qualified_of_word hword, if_pos hqualifier]
  | case2 type before word rest hword hqualifier =>
      obtain ⟨-, hfound, hslice⟩ := wordOnLine_of_some h hword
      rw [qualified_of_word hfound, hslice, ok_bind, if_neg hqualifier,
        Header.qualified_of_word hword, if_neg hqualifier]
      rfl
  | case3 type before hword =>
      rw [qualified_of_none (wordOnLine_of_none h hword), Header.qualified_of_none hword]

/-- **The type before a place is read.** -/
theorem typeBefore_eq (h : before.reverse <+: text) (hfits : size text < countLimit) :
    typeBefore text (size before)
      = .ok ((Header.typeBefore before).map fun r => (size r.2, r.1)) := by
  rw [typeBefore, skipBack_eq blind_isBlank h, ok_bind, tokenBefore_eq h hfits, ok_bind,
    Header.typeBefore]
  rcases htoken : Header.tokenBefore before with _ | ⟨token, rest⟩
  · rfl
  obtain ⟨hrest, hslice⟩ := slice_token h htoken
  simp only [Option.map_some, hslice, ok_bind, Option.bind_eq_bind, Option.bind_some]
  by_cases hmarks : (token.all fun c => c == '&' || c == '*') = true
  · rw [if_pos hmarks, if_pos hmarks, skipBack_eq blind_isBlank hrest, ok_bind,
      tokenBefore_eq hrest hfits, ok_bind]
    rcases hbase : Header.tokenBefore rest with _ | ⟨base, left⟩
    · rfl
    obtain ⟨hleft, hslice'⟩ := slice_token hrest hbase
    simp only [Option.map_some, hslice', ok_bind, Option.bind_some, qualified_eq hleft]
    rfl
  · rw [if_neg hmarks, if_neg hmarks, qualified_eq hrest]
    rfl

/-! ### Keywords -/

theorem keywordsBefore_of_word {found : Header.Keywords} {start wordStart wordStop : Nat}
    (h : wordOnLine text start = .ok (some (wordStart, wordStop))) :
    keywordsBefore text found start = (do
      let word ← slice text wordStart wordStop
      if String.ofList word = "static" ∧ found.isStatic = false then
        keywordsBefore text { found with isStatic := true } wordStart
      else if String.ofList word = "virtual" ∧ found.isVirtual = false then
        keywordsBefore text { found with isVirtual := true } wordStart
      else return (start, found)) := by
  rw [keywordsBefore]
  split
  · next hword => rw [h] at hword; exact absurd hword (by rintro ⟨⟩)
  · next hword => rw [h] at hword; exact absurd hword (by rintro ⟨⟩)
  · next hword =>
      rw [h] at hword
      obtain ⟨rfl, rfl⟩ := Prod.mk.inj (Option.some.inj (Except.ok.inj hword))
      rfl

theorem keywordsBefore_of_none {found : Header.Keywords} {start : Nat}
    (h : wordOnLine text start = .ok none) :
    keywordsBefore text found start = .ok (start, found) := by
  rw [keywordsBefore]
  split
  · next hword => rw [h] at hword; exact absurd hword (by rintro ⟨⟩)
  · rfl
  · next hword => rw [h] at hword; exact absurd hword (by rintro ⟨⟩)

/-- **The keywords before a type are found.** -/
theorem keywordsBefore_eq (h : before.reverse <+: text) (found : Header.Keywords) :
    keywordsBefore text found (size before)
      = .ok (size (Header.keywordsBefore found before).2,
        (Header.keywordsBefore found before).1) := by
  induction found, before using Header.keywordsBefore.induct with
  | case1 found before word rest hword hstatic ih =>
      obtain ⟨hrest, hfound, hslice⟩ := wordOnLine_of_some h hword
      rw [keywordsBefore_of_word hfound, hslice, ok_bind, if_pos hstatic, ih hrest,
        Header.keywordsBefore_of_word hword, if_pos hstatic]
  | case2 found before word rest hword hstatic hvirtual ih =>
      obtain ⟨hrest, hfound, hslice⟩ := wordOnLine_of_some h hword
      rw [keywordsBefore_of_word hfound, hslice, ok_bind, if_neg hstatic, if_pos hvirtual, ih hrest,
        Header.keywordsBefore_of_word hword, if_neg hstatic, if_pos hvirtual]
  | case3 found before word rest hword hstatic hvirtual =>
      obtain ⟨-, hfound, hslice⟩ := wordOnLine_of_some h hword
      rw [keywordsBefore_of_word hfound, hslice, ok_bind, if_neg hstatic, if_neg hvirtual,
        Header.keywordsBefore_of_word hword, if_neg hstatic, if_neg hvirtual]
      rfl
  | case4 found before hword =>
      rw [keywordsBefore_of_none (wordOnLine_of_none h hword), Header.keywordsBefore_of_none hword]

/-! ### Parentheses -/

/-- **The character before a place is looked at.** -/
theorem markBefore_eq (h : before.reverse <+: text) {c : Char} (hc : c.toNat < 0x80) :
    markBefore c (encode text) (size before)
      = .ok ((Header.markBefore c before).map fun r => size r.2) := by
  cases before with
  | nil => rfl
  | cons d before =>
      obtain ⟨u, byte, v, hlast, hbyte, hplace⟩ := exists_last_byte h
      rw [hplace, markBefore, byteAt_eq hlast, ok_bind, Header.markBefore]
      rcases Nat.lt_or_ge d.toNat 0x80 with hascii | hbig
      · obtain ⟨own, heq, rfl⟩ := utf8EncodeChar_ascii hascii
        obtain rfl : byte = own := by rwa [heq, List.mem_singleton] at hbyte
        rw [size_cons_ascii hascii] at hplace
        rw [← Nat.succ.inj hplace]
        split <;> rfl
      · rw [if_neg (ne_of_beyond (toNat_of_mem_utf8EncodeChar hbig hbyte) hc),
          if_neg (ne_of_beyond hbig hc)]
        rfl

/-- A list is what its parentheses hold. -/
theorem listInside_eq (d : Nat) (before : List Char) :
    Header.listInside d before = bracketed ')' '(' endsList d before := by
  induction before generalizing d with
  | nil => rfl
  | cons c before ih =>
      have hends : endsList c = true ↔ c = ';' ∨ c = '{' ∨ c = '}' := by
        simp [endsList, or_assoc]
      rw [Header.listInside.eq_def, bracketed.eq_def]
      cases d <;> simp only [ih, hends]

theorem ascii_list : Ascii ')' '(' endsList where
  first := by decide
  last := by decide
  ends c hc := by
    rw [endsList, beq_of_beyond hc (by decide), beq_of_beyond hc (by decide),
      beq_of_beyond hc (by decide)]
    rfl

/-- **The parenthesis is found that opens a list.** -/
theorem openingParenthesis_eq {before : List Char} (h : (')' :: before).reverse <+: text)
    (hfits : size text < countLimit) :
    openingParenthesis (encode text) (size before)
      = .ok ((Header.listInside 0 before).map fun r => size r.2) := by
  have hlength : before.length + 1 ≤ text.length := by
    have hle := h.length_le
    rwa [List.length_reverse, List.length_cons] at hle
  have hsize := length_le_size text
  have hstep : bracketMove ')' '(' endsList {} (size before) ')'
      = .ok (.yield ⟨(0 + 1 : Nat), none⟩) := rfl
  rw [openingParenthesis, ← size_cons_ascii (c := ')') (by decide), walkBack_cons ascii_list.unmoved h, hstep, ok_bind, proceed,
    listInside_eq]
  exact walkBack_bracketMove ascii_list (reverse_tail h) (by omega)

/-! ### Heads -/

theorem eq_of_markBefore {c : Char} {r : Unit × List Char}
    (h : Header.markBefore c before = some r) : before = c :: r.2 := by
  cases before with
  | nil => exact absurd h.symm (Option.some_ne_none _)
  | cons d before =>
      obtain ⟨rfl, heq⟩ := Option.ite_none_right_eq_some.1 h
      obtain rfl := Option.some.inj heq
      rfl

/-- What is left before a list of nothing but blanks; none for any other list. -/
def beforeBlanks (list : Option (List Char × List Char)) : Option (List Char) :=
  list.bind fun r => if r.1.all isBlank then some r.2 else none

/-- A list that a character belongs to is blank if the character is one and the rest is. -/
theorem beforeBlanks_extend (c : Char) (list : Option (List Char × List Char)) :
    beforeBlanks (Header.extend c list) = if isBlank c then beforeBlanks list else none := by
  rcases list with _ | ⟨inner, rest⟩
  · cases isBlank c <;> rfl
  · show (if (isBlank c && inner.all isBlank) = true then some rest else none)
      = if isBlank c = true then if inner.all isBlank = true then some rest else none else none
    cases isBlank c <;> rfl

/-- The parentheses of an accessor hold nothing but blanks if the next character before the
one that closes them opens them. -/
theorem listInside_blank (before : List Char) :
    beforeBlanks (Header.listInside 0 before)
      = (Header.markBefore '(' (before.dropWhile isBlank)).map Prod.snd := by
  induction before with
  | nil => rfl
  | cons c before ih =>
      by_cases hopen : c = '('
      · subst hopen
        rfl
      have hmark : isBlank c = false →
          (Header.markBefore '(' ((c :: before).dropWhile isBlank)).map Prod.snd = none := by
        intro hc
        rw [List.dropWhile_cons, if_neg (by rw [hc]; exact Bool.false_ne_true), Header.markBefore,
          if_neg hopen]
        rfl
      by_cases hclose : c = ')'
      · rw [hmark (by rw [hclose]; rfl), hclose, Header.listInside.eq_def]
        simp only [if_true]
        rw [beforeBlanks_extend]
        rfl
      by_cases hend : c = ';' ∨ c = '{' ∨ c = '}'
      · rw [hmark (by rcases hend with rfl | rfl | rfl <;> rfl), Header.listInside.eq_def]
        simp only [if_neg hclose, if_neg hopen, if_pos hend]
        rfl
      · rw [Header.listInside.eq_def]
        simp only [if_neg hclose, if_neg hopen, if_neg hend]
        rw [beforeBlanks_extend]
        by_cases hc : isBlank c = true
        · rw [if_pos hc, ih, List.dropWhile_cons, if_pos hc]
        · rw [if_neg hc, hmark (by simpa using hc)]

/-- The head of an accessor, one mark after the other. -/
theorem accessorHead_marks (before : List Char) :
    Header.accessorHead before
      = (Header.markBefore ')' (before.dropWhile isBlank)).bind fun close =>
          (Header.markBefore '(' (close.2.dropWhile isBlank)).bind fun opening =>
            (Header.identBefore opening.2).bind fun name =>
              (Header.typeBefore name.2).map fun type => ⟨type.1, name.1, type.2⟩ := by
  rw [Header.accessorHead, Header.listBefore_eq]
  rcases Header.markBefore ')' (before.dropWhile isBlank) with _ | ⟨⟨⟩, inside⟩
  · rfl
  have hblank := listInside_blank inside
  simp only [Option.bind_some]
  rcases hlist : Header.listInside 0 inside with _ | ⟨inner, rest⟩
  · rw [hlist] at hblank
    rw [Option.map_eq_none_iff.1 hblank.symm]
    rfl
  · rw [hlist, beforeBlanks, Option.bind_some] at hblank
    simp only [Option.bind_some, Option.map_some, Option.bind_eq_bind, List.all_reverse]
    by_cases hall : inner.all isBlank = true
    · rw [if_pos hall] at hblank
      obtain ⟨⟨⟨⟩, rest'⟩, hmark, rfl⟩ := Option.map_eq_some_iff.1 hblank.symm
      rw [hmark, hall]
      simp only [guard_true, Option.pure_def, Option.bind_some]
      rcases Header.identBefore rest' with _ | ⟨name, left⟩
      · rfl
      · simp only [Option.bind_some]
        cases Header.typeBefore left <;> rfl
    · rw [if_neg hall] at hblank
      rw [Option.map_eq_none_iff.1 hblank.symm]
      simp [hall]

/-- **The head of an accessor is read as its characters are.** -/
theorem accessorHead_eq (h : before.reverse <+: text) (hfits : size text < countLimit) :
    accessorHead text (size before)
      = .ok ((Header.accessorHead before).map fun head =>
          ⟨size head.before, head.type, head.name⟩) := by
  have hclose := reverse_dropWhile h isBlank
  rw [accessorHead_marks]
  simp only [accessorHead, skipBack_eq blind_isBlank h, ok_bind,
    markBefore_eq hclose (c := ')') (by decide)]
  rcases hmark : Header.markBefore ')' (before.dropWhile isBlank) with _ | close
  · rfl
  rw [eq_of_markBefore hmark] at hclose
  have hinside := reverse_tail hclose
  have hopen := reverse_dropWhile hinside isBlank
  simp only [Option.map_some, Option.bind_some, skipBack_eq blind_isBlank hinside, ok_bind,
    markBefore_eq hopen (c := '(') (by decide)]
  rcases hmark' : Header.markBefore '(' (close.2.dropWhile isBlank) with _ | opening
  · rfl
  rw [eq_of_markBefore hmark'] at hopen
  have hbefore := reverse_tail hopen
  simp only [Option.map_some, Option.bind_some, ok_bind, identBefore_eq hbefore]
  rcases hname : Header.identBefore opening.2 with _ | ⟨name, rest⟩
  · rfl
  obtain ⟨hrest, hslice⟩ := slice_identBefore hbefore hname
  simp only [Option.map_some, Option.bind_some, bounds, ok_bind, typeBefore_eq hrest hfits]
  rcases Header.typeBefore rest with _ | ⟨type, left⟩
  · rfl
  · simp only [Option.map_some, hslice, ok_bind]
    rfl

/-- **The end of the head of a method is found.** -/
theorem dropSpecifier_eq (h : before.reverse <+: text) :
    (Header.dropSpecifier before).reverse <+: text ∧
      dropSpecifier text (size before) = .ok (size (Header.dropSpecifier before)) := by
  have hclose := reverse_dropWhile h isBlank
  have hsame : Header.identBefore (before.dropWhile isBlank) = Header.identBefore before := by
    rw [Header.identBefore, Header.identBefore, List.dropWhile_idempotent]
  rw [dropSpecifier, skipBack_eq blind_isBlank h, ok_bind, identBefore_eq hclose, ok_bind, hsame,
    Header.dropSpecifier]
  rcases hname : Header.identBefore before with _ | ⟨word, rest⟩
  · exact ⟨hclose, rfl⟩
  obtain ⟨hrest, hslice⟩ := slice_identBefore h hname
  simp only [Option.map_some, bounds, hslice, ok_bind]
  by_cases hspecifier : String.ofList word = "const" ∨ String.ofList word = "override"
  · rw [if_pos hspecifier, if_pos hspecifier]
    exact ⟨reverse_dropWhile hrest isBlank, skipBack_eq blind_isBlank hrest⟩
  · rw [if_neg hspecifier, if_neg hspecifier]
    exact ⟨hclose, rfl⟩

end Offset
end NativeHooks
