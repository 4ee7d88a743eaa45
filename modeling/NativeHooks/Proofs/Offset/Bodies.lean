/-
# Bodies by offset agree with bodies of characters

The readers of bodies go forwards from a place, without a fault, and each of them ends at
the place where what it leaves of the text starts (`bodyEnd_eq`, `afterMark_eq`,
`closingAngle_eq`, `quoted_eq`, `nativeSignature_eq`).  A body that is never closed ends
with its line, and a string that is never closed as well, so both end before a character.
-/

import NativeHooks.Offset.Reading
import NativeHooks.Proofs.Header.OwnText
import NativeHooks.Proofs.Offset.Heads

namespace NativeHooks
namespace Offset

open Text

variable {text : List Char}

/-! ### What stands after a place -/

theorem startOf_dropWhile (p : Char → Bool) (rest : List Char) :
    startOf rest (rest.dropWhile p) = size (rest.takeWhile p) :=
  startOf_eq List.takeWhile_append_dropWhile.symm

/-- The byte at a place is the character that stands there if one of the two is ASCII. -/
theorem byteAt?_iff {rest : List Char} (h : rest <:+ text) {c : Char} (hc : c.toNat < 0x80) :
    byteAt? (encode text) (startOf text rest) = some c ↔ rest.head? = some c := by
  cases rest with
  | nil =>
      have hend : byteAt? (encode text) (size text) = none := byteAt?_end (Nat.le_refl _)
      rw [startOf_nil, hend]
      exact ⟨fun h => absurd h.symm (Option.some_ne_none _),
        fun h => absurd h.symm (Option.some_ne_none _)⟩
  | cons d rest =>
      obtain ⟨w, rfl⟩ := h
      obtain ⟨byte, more, hmore⟩ := List.exists_cons_of_ne_nil (utf8EncodeChar_ne_nil d)
      have hmem : byte ∈ String.utf8EncodeChar d := by
        rw [hmore]
        exact List.mem_cons_self
      have hbyte : byteAt? (encode (w ++ d :: rest)) (startOf (w ++ d :: rest) (d :: rest))
          = some (ofByte byte) := by
        rw [startOf_eq rfl, ← length_encode, encode_append, byteAt?,
          List.getElem?_append_right (Nat.le_refl _), Nat.sub_self, encode, List.flatMap_cons,
          hmore]
        rfl
      rw [hbyte, List.head?_cons, Option.some.injEq, Option.some.injEq]
      rcases Nat.lt_or_ge d.toNat 0x80 with hascii | hbig
      · obtain ⟨own, heq, rfl⟩ := utf8EncodeChar_ascii hascii
        rw [heq, List.mem_singleton] at hmem
        rw [hmem]
      · exact ⟨fun h => absurd h (ne_of_beyond (toNat_of_mem_utf8EncodeChar hbig hmem) hc),
          fun h => absurd h (ne_of_beyond hbig hc)⟩

/-! ### Bodies -/

theorem unmoved_bodyMove : Unmoved bodyMove := by
  rintro ⟨search, inString⟩ i c hc
  have hne : ∀ d : Char, d.toNat < 0x80 → c ≠ d := fun d => ne_of_beyond hc
  rw [bodyMove]
  cases inString with
  | true =>
      rw [if_pos rfl, bne_iff_ne.2 (hne '"' (by decide)), bne_iff_ne.2 (hne '\n' (by decide))]
      rfl
  | false =>
      rw [if_neg Bool.false_ne_true, if_neg (hne _ (by decide)), if_neg (hne _ (by decide)),
        if_neg (hne _ (by decide))]
      rfl

/-- One character of a body inside `d` braces of its own. -/
theorem bodyMove_cases {d : Nat} (hfits : d + 2 < countLimit) (inString : Bool) (i : Nat)
    (c : Char) :
    (bodyMove ⟨⟨(d + 1 : Nat), none⟩, inString⟩ i c
        = .ok (.done ⟨⟨0, some (i + 1)⟩, inString⟩) ∧
      ∀ cs, Header.closing d inString (c :: cs) = some [c]) ∨
    ∃ e ≤ d + 1, ∃ b, bodyMove ⟨⟨(d + 1 : Nat), none⟩, inString⟩ i c
        = .ok (.yield ⟨⟨(e + 1 : Nat), none⟩, b⟩) ∧
      ∀ cs, Header.closing d inString (c :: cs) = (Header.closing e b cs).map (c :: ·) := by
  cases inString with
  | true =>
      exact .inr ⟨d, Nat.le_succ d, c != '"' && c != '\n', rfl, Header.closing_inString d c⟩
  | false =>
      by_cases hquote : c = '"'
      · subst hquote
        exact .inr ⟨d, Nat.le_succ d, true, rfl, Header.closing_beginString d⟩
      by_cases hopen : c = '{'
      · subst hopen
        refine .inr ⟨d + 1, Nat.le_refl _, false, ?_, Header.closing_open d⟩
        rw [bodyMove, if_neg Bool.false_ne_true, if_neg (by decide), if_pos rfl]
        simp only [deeper_eq hfits]
        rfl
      by_cases hclose : c = '}'
      · subst hclose
        have hmove : bodyMove ⟨⟨(d + 1 : Nat), none⟩, false⟩ i '}'
            = if (d : Int) = 0 then .ok (.done ⟨⟨d, some (i + 1)⟩, false⟩)
              else .ok (.yield ⟨⟨d, none⟩, false⟩) := by
          rw [bodyMove, if_neg Bool.false_ne_true, if_neg (by decide), if_neg (by decide),
            if_pos rfl]
          simp only [shallower_eq (show d < countLimit by omega)]
          rfl
        cases d with
        | zero => exact .inl ⟨hmove, fun _ => rfl⟩
        | succ d =>
            refine .inr ⟨d, by omega, false, ?_, Header.closing_inner d⟩
            rw [hmove, if_neg (by omega)]
      · refine .inr ⟨d, Nat.le_succ d, false, ?_, ?_⟩
        · rw [bodyMove, if_neg Bool.false_ne_true, if_neg hquote, if_neg hopen, if_neg hclose]
          rfl
        · exact Header.closing_char (Header.isBodyChar_iff.2 ⟨hquote, hopen, hclose⟩) d

/-- **The end of a body is found from any place in it,** and what is read of the body up to
there stands there. -/
theorem walk_bodyMove {cs : List Char} (h : cs <:+ text) {d : Nat}
    (hfits : d + 1 + cs.length < countLimit) (inString : Bool) :
    ∃ s, walk (encode text) bodyMove ⟨⟨(d + 1 : Nat), none⟩, inString⟩ (startOf text cs) = .ok s ∧
      ((s.found = none ∧ Header.closing d inString cs = none) ∨
        ∃ inner, Header.closing d inString cs = some inner ∧ inner <+: cs ∧
          s.found = some (startOf text cs + size inner)) := by
  induction cs generalizing d inString with
  | nil => exact ⟨_, walk_nil _ _ _, .inl ⟨rfl, rfl⟩⟩
  | cons c cs ih =>
      rw [List.length_cons] at hfits
      have hstep : d + 2 < countLimit := by omega
      rw [walk_cons unmoved_bodyMove h]
      rcases bodyMove_cases hstep inString (startOf text (c :: cs)) c with
        ⟨hmove, hread⟩ | ⟨e, he, b, hmove, hread⟩
      · refine ⟨_, by rw [hmove]; rfl, .inr ⟨[c], hread cs, ⟨cs, rfl⟩, ?_⟩⟩
        rw [size_cons_ascii (ascii_of_done unmoved_bodyMove hmove), size_nil, Nat.zero_add]
      · obtain ⟨s, hwalk, hfound⟩ := ih (suffix_tail h) (d := e) (by omega) b
        refine ⟨s, by rw [hmove, ok_bind, proceed, hwalk], ?_⟩
        rw [hread]
        rcases hfound with ⟨hnone, hnone'⟩ | ⟨inner, hinner, hinitial, hplace⟩
        · exact .inl ⟨hnone, by rw [hnone']; rfl⟩
        · refine .inr ⟨c :: inner, by rw [hinner]; rfl, List.cons_prefix_cons.2 ⟨rfl, hinitial⟩, ?_⟩
          rw [hplace, startOf_cons h, size_cons, Nat.add_assoc]

theorem blind_lineFeed : Blind (· != '\n') := by
  intro c d hc hd
  show (c != '\n') = (d != '\n')
  rw [bne_iff_ne.2 (ne_of_beyond hc (by decide)), bne_iff_ne.2 (ne_of_beyond hd (by decide))]

/-- **The end of a body is found,** and the body is what stands before it. -/
theorem bodyEnd_eq {before after : List Char} (htext : text = before.reverse ++ '{' :: after)
    (hfits : size text < countLimit) :
    Header.body after <+: '{' :: after ∧
      bodyEnd (encode text) (size before) = .ok (size before + size (Header.body after)) := by
  have hplace : size before = startOf text ('{' :: after) := by rw [startOf_eq htext, size_reverse]
  have hsuffix : '{' :: after <:+ text := ⟨before.reverse, htext.symm⟩
  have hlength := Nat.le_trans hsuffix.length_le (length_le_size text)
  rw [List.length_cons] at hlength
  have hstep : bodyMove {} (startOf text ('{' :: after)) '{'
      = .ok (.yield ⟨⟨(0 + 1 : Nat), none⟩, false⟩) := rfl
  obtain ⟨s, hwalk, hfound⟩ := walk_bodyMove (suffix_tail hsuffix) (d := 0) (by omega) false
  rw [Header.body, bodyEnd, hplace, walk_cons unmoved_bodyMove hsuffix, hstep, ok_bind, proceed,
    hwalk, ok_bind]
  rcases hfound with ⟨hnone, hnone'⟩ | ⟨inner, hinner, hinitial, hfound⟩
  · rw [hnone, hnone', Option.getD_none]
    refine ⟨List.cons_prefix_cons.2 ⟨rfl, List.takeWhile_prefix _⟩, ?_⟩
    have hbytes : bytesFrom (encode text) (startOf text ('{' :: after))
        = .ok (encode ('{' :: after)) := by
      rw [startOf_eq htext, htext, encode_append, ← length_encode, bytesFrom, if_pos (by simp),
        List.drop_left]
    have hskip := skip_eq blind_lineFeed (List.suffix_refl ('{' :: after))
    rw [startOf_self, startOf_dropWhile] at hskip
    simp only [hbytes, ok_bind, hskip]
    rfl
  · rw [hinner, hfound, Option.getD_some]
    refine ⟨List.cons_prefix_cons.2 ⟨rfl, hinitial⟩, ?_⟩
    rw [startOf_cons hsuffix, size_cons, Nat.add_assoc]
    rfl

/-! ### Strings -/

/-- A character of `p` is found where what stands before it ends. -/
theorem find?_eq (p : Char → Bool) (cs : List Char) :
    find? p cs
      = (cs.dropWhile fun c => !p c).head?.map fun _ => size (cs.takeWhile fun c => !p c) := by
  have hany : cs.any p = (cs.dropWhile fun c => !p c).head?.isSome := by
    induction cs with
    | nil => rfl
    | cons c cs ih =>
        rw [List.any_cons, List.dropWhile_cons, ih]
        cases p c <;> rfl
  rw [find?, hany]
  cases (cs.dropWhile fun c => !p c).head? <;> rfl

/-- **A string is read as its characters are.** -/
theorem quoted_eq {rest : List Char} (h : rest <:+ text) :
    quoted text (startOf text rest) = .ok (Header.quoted rest) := by
  have hends : (fun c : Char => !(c == '"' || c == '\n')) = fun c => c != '"' && c != '\n' :=
    funext fun c => Bool.not_or ..
  have hsplit := List.takeWhile_append_dropWhile (p := fun c => c != '"' && c != '\n') (l := rest)
  rw [quoted, slice_startOf h, ok_bind, find?_eq, hends, Header.quoted]
  rcases hdrop : rest.dropWhile (fun c => c != '"' && c != '\n') with _ | ⟨c, more⟩
  · rw [hdrop, List.append_nil] at hsplit
    rw [hsplit]
    rfl
  · have hc : c = '"' ∨ c = '\n' := by
      have hnot := List.head?_dropWhile_not (fun c => c != '"' && c != '\n') rest
      rw [hdrop] at hnot
      have hfalse : (c != '"' && c != '\n') = false := hnot
      by_contra hc
      rw [not_or] at hc
      rw [bne_iff_ne.2 hc.1, bne_iff_ne.2 hc.2] at hfalse
      exact absurd hfalse (by decide)
    have hascii : c.toNat < 0x80 := by rcases hc with rfl | rfl <;> decide
    rw [hdrop] at hsplit
    have hbyte := (byteAt?_iff ⟨_, hsplit⟩ hascii).2 List.head?_cons
    rw [startOf_eq hsplit.symm] at hbyte
    simp only [List.head?_cons, Option.map_some, slice_before hsplit.symm, ok_bind, byteAt, hbyte]
    by_cases hquote : c = '"'
    · subst hquote
      rfl
    · obtain rfl := hc.resolve_left hquote
      rfl

/-! ### Native calls -/

/-- **The mark after a place is found.** -/
theorem afterMark_eq {rest : List Char} (h : rest <:+ text) {c : Char} (hc : c.toNat < 0x80) :
    afterMark c (encode text) (startOf text rest)
      = .ok ((Header.afterMark c rest).map (startOf text)) := by
  have hinner : rest.dropWhile isBlank <:+ text := (List.dropWhile_suffix _).trans h
  have hbyte := byteAt?_iff hinner hc
  rw [afterMark, skip_eq blind_isBlank h, ok_bind, Header.afterMark]
  rcases hdrop : rest.dropWhile isBlank with _ | ⟨d, more⟩
  · rw [hdrop] at hbyte
    rw [if_neg fun h => absurd (hbyte.1 h) (Option.some_ne_none c).symm]
    rfl
  · rw [hdrop] at hbyte hinner
    rw [List.head?_cons, Option.some.injEq] at hbyte
    by_cases hd : d = c
    · subst hd
      simp only [if_pos (hbyte.2 rfl), startOf_cons_ascii hc hinner]
      rfl
    · simp only [if_neg fun h => hd (hbyte.1 h), if_neg hd]
      rfl

theorem suffix_of_afterMark {c : Char} {cs rest : List Char}
    (h : Header.afterMark c cs = some rest) : rest <:+ cs := by
  rw [Header.afterMark] at h
  rcases hdrop : cs.dropWhile isBlank with _ | ⟨d, more⟩
  · rw [hdrop] at h
    exact absurd h.symm (Option.some_ne_none _)
  · rw [hdrop] at h
    obtain ⟨-, heq⟩ := Option.ite_none_right_eq_some.1 h
    obtain rfl := Option.some.inj heq
    exact suffix_tail (hdrop ▸ List.dropWhile_suffix _)

theorem ascii_types : Ascii '<' '>' endsTypes where
  first := by decide
  last := by decide
  ends c hc := by
    rw [endsTypes, ascii_list.ends c hc]
    simpa using ne_of_beyond hc (by decide)

/-- A list of types ends where its angle bracket is closed. -/
theorem afterTypes_eq (d : Nat) (cs : List Char) :
    Header.afterTypes d cs = (bracketed '<' '>' endsTypes d cs).map Prod.snd := by
  induction cs generalizing d with
  | nil => rfl
  | cons c cs ih =>
      have hends : endsTypes c = true ↔ c = ';' ∨ c = '{' ∨ c = '}' ∨ c = '"' := by
        simp [endsTypes, endsList, or_assoc]
      have hextend : ∀ r : Option (List Char × List Char),
          (Header.extend c r).map Prod.snd = r.map Prod.snd := by
        rintro (_ | r) <;> rfl
      rw [Header.afterTypes.eq_def, bracketed.eq_def]
      simp only [ih, hends]
      split
      · exact (hextend _).symm
      split
      · cases d with
        | zero => rfl
        | succ d => exact (hextend _).symm
      split
      · rfl
      · exact (hextend _).symm

/-- **The end of a list of types is found.** -/
theorem closingAngle_eq {cs : List Char} (h : cs <:+ text) (hfits : size text < countLimit)
    (hbefore : cs.length < text.length) :
    closingAngle (encode text) (startOf text cs)
      = .ok ((Header.afterTypes 0 cs).map fun rest => startOf text ('>' :: rest)) := by
  have hsize := length_le_size text
  rw [afterTypes_eq, Option.map_map]
  exact walk_bracketMove ascii_types h (by omega)

theorem unmoved_receiverMove : Unmoved receiverMove := by
  intro s i c hc
  have hne : ∀ d : Char, d.toNat < 0x80 → ¬ c = d := fun d => ne_of_beyond hc
  have hopen : ¬ (c = '(' ∨ c = '<') := not_or.2 ⟨hne _ (by decide), hne _ (by decide)⟩
  have hclose : ¬ ((c = ')' ∨ c = '>') ∧ 0 < s.depth) := fun h =>
    h.1.elim (hne _ (by decide)) (hne _ (by decide))
  have hend : ¬ (c = ')' ∨ c = ';' ∨ c = '{' ∨ c = '}' ∨ c = '"') := by
    simp only [not_or]
    exact ⟨hne _ (by decide), hne _ (by decide), hne _ (by decide), hne _ (by decide),
      hne _ (by decide)⟩
  rw [receiverMove, if_neg hopen, if_neg hclose, if_neg hend, if_neg fun h => hne _ (by decide) h.1]
  rfl

/-- One character of a receiver inside `d` brackets. -/
theorem receiverMove_cases {d : Nat} (hfits : d + 1 < countLimit) (i : Nat) (c : Char) :
    (receiverMove ⟨d, none⟩ i c = .ok (.done ⟨d, none⟩) ∧
      ∀ cs, Header.afterReceiver d (c :: cs) = none) ∨
    (c = ',' ∧ receiverMove ⟨d, none⟩ i c = .ok (.done ⟨d, some i⟩) ∧
      ∀ cs, Header.afterReceiver d (c :: cs) = some cs) ∨
    ∃ e ≤ d + 1, receiverMove ⟨d, none⟩ i c = .ok (.yield ⟨e, none⟩) ∧
      ∀ cs, Header.afterReceiver d (c :: cs) = Header.afterReceiver e cs := by
  have hread : ∀ cs, Header.afterReceiver d (c :: cs)
      = if c = '(' ∨ c = '<' then Header.afterReceiver (d + 1) cs
        else if (c = ')' ∨ c = '>') ∧ 0 < d then Header.afterReceiver (d - 1) cs
        else if c = ')' ∨ c = ';' ∨ c = '{' ∨ c = '}' ∨ c = '"' then none
        else if c = ',' ∧ d = 0 then some cs else Header.afterReceiver d cs := fun _ => rfl
  have hpos : ((c = ')' ∨ c = '>') ∧ (0 : Int) < d) ↔ (c = ')' ∨ c = '>') ∧ 0 < d := by
    rw [Int.natCast_pos]
  have hzero : (c = ',' ∧ (d : Int) = 0) ↔ c = ',' ∧ d = 0 := by
    rw [Int.natCast_eq_zero]
  by_cases hopen : c = '(' ∨ c = '<'
  · refine .inr (.inr ⟨d + 1, Nat.le_refl _, ?_, fun cs => by rw [hread, if_pos hopen]⟩)
    rw [receiverMove, if_pos hopen, deeper_eq hfits]
    rfl
  by_cases hclose : (c = ')' ∨ c = '>') ∧ 0 < d
  · obtain ⟨e, rfl⟩ := Nat.exists_eq_add_of_le' hclose.2
    refine .inr (.inr ⟨e, by omega, ?_, fun cs => ?_⟩)
    · simp only [receiverMove, if_neg hopen, if_pos (hpos.2 hclose)]
      rw [shallower_eq (by omega)]
      rfl
    · rw [hread, if_neg hopen, if_pos hclose, Nat.add_sub_cancel]
  by_cases hend : c = ')' ∨ c = ';' ∨ c = '{' ∨ c = '}' ∨ c = '"'
  · refine .inl ⟨?_, fun cs => by rw [hread, if_neg hopen, if_neg hclose, if_pos hend]⟩
    simp only [receiverMove, if_neg hopen, if_neg fun h => hclose (hpos.1 h), if_pos hend]
    rfl
  by_cases hcomma : c = ',' ∧ d = 0
  · refine .inr (.inl ⟨hcomma.1, ?_, fun cs => by
      rw [hread, if_neg hopen, if_neg hclose, if_neg hend, if_pos hcomma]⟩)
    simp only [receiverMove, if_neg hopen, if_neg fun h => hclose (hpos.1 h), if_neg hend,
      if_pos (hzero.2 hcomma)]
    rfl
  · refine .inr (.inr ⟨d, Nat.le_succ d, ?_, fun cs => by
      rw [hread, if_neg hopen, if_neg hclose, if_neg hend, if_neg hcomma]⟩)
    simp only [receiverMove, if_neg hopen, if_neg fun h => hclose (hpos.1 h), if_neg hend,
      if_neg fun h => hcomma (hzero.1 h)]
    rfl

/-- **The comma after a receiver is found from any place in it.** -/
theorem walk_receiverMove {cs : List Char} (h : cs <:+ text) {d : Nat}
    (hfits : d + cs.length < countLimit) :
    ∃ s, walk (encode text) receiverMove ⟨d, none⟩ (startOf text cs) = .ok s ∧
      ((s.found = none ∧ Header.afterReceiver d cs = none) ∨
        ∃ rest, Header.afterReceiver d cs = some rest ∧ ',' :: rest <:+ cs ∧
          s.found = some (startOf text (',' :: rest))) := by
  induction cs generalizing d with
  | nil => exact ⟨_, walk_nil _ _ _, .inl ⟨rfl, rfl⟩⟩
  | cons c cs ih =>
      rw [List.length_cons] at hfits
      have hstep : d + 1 < countLimit := by omega
      rw [walk_cons unmoved_receiverMove h]
      rcases receiverMove_cases hstep (startOf text (c :: cs)) c with
        ⟨hmove, hread⟩ | ⟨rfl, hmove, hread⟩ | ⟨e, he, hmove, hread⟩
      · exact ⟨_, by rw [hmove]; rfl, .inl ⟨rfl, hread cs⟩⟩
      · exact ⟨_, by rw [hmove]; rfl, .inr ⟨cs, hread cs, List.suffix_refl _, rfl⟩⟩
      · obtain ⟨s, hwalk, hfound⟩ := ih (suffix_tail h) (d := e) (by omega)
        refine ⟨s, by rw [hmove, ok_bind, proceed, hwalk], ?_⟩
        rw [hread]
        rcases hfound with hnone | ⟨rest, hrest, hsuffix, hplace⟩
        · exact .inl hnone
        · exact .inr ⟨rest, hrest, hsuffix.trans (List.suffix_cons c cs), hplace⟩

/-- **The signature of a native call is read as its characters are.** -/
theorem nativeSignature_eq {cs : List Char} (h : cs <:+ text) (hfits : size text < countLimit)
    (hbefore : cs.length < text.length) :
    nativeSignature text (startOf text cs) = .ok (Header.nativeSignature cs) := by
  have hsize := length_le_size text
  simp only [nativeSignature, closingAngle_eq h hfits hbefore, ok_bind, Header.nativeSignature,
    Option.bind_eq_bind]
  rcases htypes : Header.afterTypes 0 cs with _ | types
  · rfl
  have hangle : '>' :: types <:+ text := by
    rw [afterTypes_eq] at htypes
    obtain ⟨⟨inner, rest⟩, hbracketed, rfl⟩ := Option.map_eq_some_iff.1 htypes
    exact List.IsSuffix.trans ⟨inner, (eq_of_bracketed hbracketed).symm⟩ h
  have htypes' := suffix_tail hangle
  have hnext := startOf_cons_ascii (by decide) hangle
  simp only [Option.map_some, hnext, afterMark_eq htypes' (c := '(') (by decide), ok_bind,
    Option.bind_some]
  rcases hopen : Header.afterMark '(' types with _ | arguments
  · rfl
  have harguments : arguments <:+ text := (suffix_of_afterMark hopen).trans htypes'
  have hlength := harguments.length_le
  obtain ⟨s, hwalk, hfound⟩ := walk_receiverMove harguments (d := 0) (by omega)
  have hstart : walk (encode text) receiverMove {} (startOf text arguments) = .ok s := hwalk
  simp only [Option.map_some, hstart, ok_bind, Option.bind_some]
  rcases hfound with ⟨hnone, hnone'⟩ | ⟨rest, hrest, hsuffix, hplace⟩
  · rw [hnone, hnone']
    rfl
  have hcomma : ',' :: rest <:+ text := hsuffix.trans harguments
  have hrest' := suffix_tail hcomma
  have hafter := startOf_cons_ascii (by decide) hcomma
  simp only [hplace, hafter, hrest, afterMark_eq hrest' (c := '"') (by decide), ok_bind,
    Option.bind_some]
  rcases hquote : Header.afterMark '"' rest with _ | content
  · rfl
  · simp only [Option.map_some, quoted_eq ((suffix_of_afterMark hquote).trans hrest'), ok_bind,
      Option.bind_some]
    rfl

end Offset
end NativeHooks
