/-
# Fences

A line that holds nothing but a semicolon is a *fence*.  Every reader of a header
stops there, whichever way it reads, and finds what it would have found had the
text ended at the fence.  So each lemma here says of one reader that it reads
`w ++ fence rest` as it reads `w`; what it leaves unread is longer by the fence,
and otherwise the two readings are the same.

The readers that go over blanks first go over the line break of the fence as well,
and need two facts more: they find nothing at the end of a text, and nothing at a
semicolon (`fence_of_dropWhile`).
-/

import Mathlib.Data.List.TakeWhile
import Mathlib.Data.Option.Basic
import NativeHooks.Header.Reading
import NativeHooks.Proofs.Text.Runs

namespace NativeHooks
namespace Header

open Text

/-- A semicolon on a line of its own, up to which a text is read; `rest` stands
beyond it.  Read backwards, the fence is the same. -/
def fence (rest : List Char) : List Char := '\n' :: ';' :: rest

/-- What a reader found, and what it left with `rest` after that. -/
def further {α : Type} (rest : List Char) (read : Option (α × List Char)) :
    Option (α × List Char) :=
  read.map fun r => (r.1, r.2 ++ rest)

@[simp] theorem further_none {α : Type} (rest : List Char) :
    further rest (none : Option (α × List Char)) = none := rfl

@[simp] theorem further_some {α : Type} (rest : List Char) (found : α) (left : List Char) :
    further rest (some (found, left)) = some (found, left ++ rest) := rfl

theorem extend_further (c : Char) (rest : List Char) (read : Option (List Char × List Char)) :
    extend c (further rest read) = further rest (extend c read) := by
  cases read <;> rfl

/-! ### Runs at a fence -/

section Runs

variable {p : Char → Bool}

/-- A run that no line break belongs to ends at the fence. -/
theorem takeWhile_fence (hp : p '\n' = false) (w rest : List Char) :
    (w ++ fence rest).takeWhile p = w.takeWhile p := by
  induction w with
  | nil => simp [fence, hp]
  | cons c w ih => simp [List.takeWhile_cons, ih]

theorem dropWhile_fence (hp : p '\n' = false) (w rest : List Char) :
    (w ++ fence rest).dropWhile p = w.dropWhile p ++ fence rest := by
  induction w with
  | nil => simp [fence, hp]
  | cons c w ih =>
      rw [List.cons_append, List.dropWhile_cons, List.dropWhile_cons, ih]
      split <;> rfl

/-- **A reader that goes over blanks first stops at a fence** if it stops there
without the blanks, and finds nothing at the end of a text or at a semicolon. -/
theorem fence_of_dropWhile {β : Type} (read : List Char → Option β) {later : β → β}
    (hbreak : p '\n' = true) (hsemi : p ';' = false) {rest : List Char}
    (hend : read [] = none) (hmark : read (';' :: rest) = none)
    (hread : ∀ w, read (w ++ fence rest) = (read w).map later) (w : List Char) :
    read ((w ++ fence rest).dropWhile p) = (read (w.dropWhile p)).map later := by
  have hfence : (fence rest).dropWhile p = ';' :: rest := by
    simp [fence, hbreak, hsemi]
  rw [List.dropWhile_append]
  split
  · next hempty =>
      rw [List.isEmpty_iff.1 hempty, hfence, hend, hmark]
      rfl
  · exact hread _

end Runs

/-! ### Names, types and keywords -/

theorem identBefore_fence (before rest : List Char) :
    identBefore (before ++ fence rest) = further (fence rest) (identBefore before) := by
  refine fence_of_dropWhile (fun inner => if (inner.takeWhile isIdent).isEmpty then none
    else some ((inner.takeWhile isIdent).reverse, inner.dropWhile isIdent))
    rfl rfl rfl rfl (fun inner => ?_) before
  rw [takeWhile_fence rfl, dropWhile_fence rfl]
  split <;> rfl

theorem wordOnLine_fence (before rest : List Char) :
    wordOnLine (before ++ fence rest) = further (fence rest) (wordOnLine before) := by
  rw [wordOnLine, wordOnLine, identBefore_fence]
  by_cases hnone : identBefore before = none
  · simp [hnone]
  · have hblanks : (before ++ fence rest).takeWhile isBlank = before.takeWhile isBlank := by
      rw [List.takeWhile_append, if_neg]
      intro hlength
      refine hnone ?_
      have hdrop : before.dropWhile isBlank = [] := by
        have hsplit := congrArg List.length
          (List.takeWhile_append_dropWhile (p := isBlank) (l := before))
        rw [List.length_append] at hsplit
        exact List.length_eq_zero_iff.1 (by omega)
      simp [identBefore, hdrop]
    rw [hblanks]
    split <;> rfl

theorem tokenInside_fence (d : Nat) (before rest : List Char) :
    tokenInside d (before ++ fence rest) = further (fence rest) (tokenInside d before) := by
  induction before generalizing d with
  | nil => cases d <;> rfl
  | cons c before ih =>
      rw [List.cons_append, tokenInside.eq_def, tokenInside.eq_def d]
      cases d <;> simp only [ih, extend_further] <;> split_ifs <;> rfl

theorem tokenBefore_fence (before rest : List Char) :
    tokenBefore (before ++ fence rest) = further (fence rest) (tokenBefore before) := by
  have hread : ∀ w, tokenBefore w = (tokenInside 0 (w.dropWhile isBlank)).bind fun r =>
      if r.1.isEmpty then none else some (r.1.reverse, r.2) := by
    intro w
    rw [tokenBefore]
    cases tokenInside 0 (w.dropWhile isBlank) <;> rfl
  rw [hread, hread]
  refine fence_of_dropWhile (fun inner => (tokenInside 0 inner).bind fun r =>
    if r.1.isEmpty then none else some (r.1.reverse, r.2)) rfl rfl rfl rfl (fun inner => ?_) before
  rw [tokenInside_fence]
  rcases tokenInside 0 inner with _ | ⟨token, left⟩
  · rfl
  · simp only [further_some, Option.bind_some]
    split <;> rfl

/-- Qualifiers are looked for up to a fence. -/
theorem qualified_fence (type before rest : List Char) :
    qualified type (before ++ fence rest)
      = ((qualified type before).1, (qualified type before).2 ++ fence rest) := by
  induction type, before using qualified.induct with
  | case1 type before word left hword hqualifier ih =>
      have hfence := wordOnLine_fence before rest
      rw [hword, further_some] at hfence
      rw [qualified_of_word hword, qualified_of_word hfence, if_pos hqualifier, if_pos hqualifier, ih]
  | case2 type before word left hword hqualifier =>
      have hfence := wordOnLine_fence before rest
      rw [hword, further_some] at hfence
      rw [qualified_of_word hword, qualified_of_word hfence, if_neg hqualifier, if_neg hqualifier]
  | case3 type before hword =>
      have hfence := wordOnLine_fence before rest
      rw [hword, further_none] at hfence
      rw [qualified_of_none hword, qualified_of_none hfence]

theorem typeBefore_fence (before rest : List Char) :
    typeBefore (before ++ fence rest) = further (fence rest) (typeBefore before) := by
  rw [typeBefore, typeBefore, tokenBefore_fence]
  rcases tokenBefore before with _ | ⟨token, left⟩
  · rfl
  · simp only [further_some, Option.bind_eq_bind, Option.bind_some]
    split
    · rw [tokenBefore_fence]
      rcases tokenBefore left with _ | ⟨base, left⟩
      · rfl
      · simp only [further_some, Option.bind_some, qualified_fence]
        rfl
    · simp only [qualified_fence]
      rfl

/-- Keywords are looked for up to a fence. -/
theorem keywordsBefore_fence (found : Keywords) (before rest : List Char) :
    keywordsBefore found (before ++ fence rest)
      = ((keywordsBefore found before).1, (keywordsBefore found before).2 ++ fence rest) := by
  induction found, before using keywordsBefore.induct with
  | case1 found before word left hword hstatic ih =>
      have hfence := wordOnLine_fence before rest
      rw [hword, further_some] at hfence
      rw [keywordsBefore_of_word hword, keywordsBefore_of_word hfence, if_pos hstatic,
        if_pos hstatic, ih]
  | case2 found before word left hword hstatic hvirtual ih =>
      have hfence := wordOnLine_fence before rest
      rw [hword, further_some] at hfence
      rw [keywordsBefore_of_word hword, keywordsBefore_of_word hfence, if_neg hstatic,
        if_neg hstatic, if_pos hvirtual, if_pos hvirtual, ih]
  | case3 found before word left hword hstatic hvirtual =>
      have hfence := wordOnLine_fence before rest
      rw [hword, further_some] at hfence
      rw [keywordsBefore_of_word hword, keywordsBefore_of_word hfence, if_neg hstatic,
        if_neg hstatic, if_neg hvirtual, if_neg hvirtual]
  | case4 found before hword =>
      have hfence := wordOnLine_fence before rest
      rw [hword, further_none] at hfence
      rw [keywordsBefore_of_none hword, keywordsBefore_of_none hfence]

/-! ### Lists -/

theorem listInside_fence (d : Nat) (before rest : List Char) :
    listInside d (before ++ fence rest) = further (fence rest) (listInside d before) := by
  induction before generalizing d with
  | nil => rfl
  | cons c before ih =>
      rw [List.cons_append, listInside.eq_def, listInside.eq_def d]
      cases d <;> simp only [ih, extend_further] <;> split_ifs <;> rfl

theorem listBefore_fence (before rest : List Char) :
    listBefore (before ++ fence rest) = further (fence rest) (listBefore before) := by
  cases before with
  | nil => rfl
  | cons c before =>
      by_cases hc : c = ')'
      · subst hc
        rw [List.cons_append, listBefore, listBefore, listInside_fence]
        rcases listInside 0 before with _ | ⟨inner, left⟩ <;> rfl
      · rw [List.cons_append, listBefore, listBefore]
        · rfl
        · rintro left ⟨⟩
          exact hc rfl
        · rintro left ⟨⟩
          exact hc rfl

theorem listBefore_blanks_fence (before rest : List Char) :
    listBefore ((before ++ fence rest).dropWhile isBlank)
      = further (fence rest) (listBefore (before.dropWhile isBlank)) :=
  fence_of_dropWhile listBefore rfl rfl rfl rfl (fun _ => listBefore_fence _ rest) before

/-- The list of a head, which a specifier may follow. -/
theorem listBefore_dropSpecifier_fence (before rest : List Char) :
    listBefore (dropSpecifier (before ++ fence rest))
      = further (fence rest) (listBefore (dropSpecifier before)) := by
  rw [dropSpecifier, dropSpecifier, identBefore_fence]
  rcases identBefore before with _ | ⟨word, left⟩
  · exact listBefore_blanks_fence before rest
  · simp only [further_some]
    split
    · exact listBefore_blanks_fence left rest
    · exact listBefore_blanks_fence before rest

theorem accessorHead_fence (before rest : List Char) :
    accessorHead (before ++ fence rest)
      = (accessorHead before).map fun head => { head with before := head.before ++ fence rest } := by
  rw [accessorHead, accessorHead, listBefore_blanks_fence]
  rcases listBefore (before.dropWhile isBlank) with _ | ⟨inner, left⟩
  · rfl
  · simp only [further_some, Option.bind_eq_bind, Option.bind_some]
    cases hguard : inner.all isBlank
    · rfl
    · rw [identBefore_fence]
      rcases identBefore left with _ | ⟨name, left⟩
      · rfl
      · simp only [further_some, Option.bind_some, typeBefore_fence]
        rcases typeBefore left with _ | ⟨type, left⟩ <;> rfl

/-! ### Shapes -/

theorem isPrefixOf?_cons_cons (c d : Char) (s w : List Char) :
    (c :: s).isPrefixOf? (d :: w) = if c == d then s.isPrefixOf? w else none := rfl

/-- A part that is read neither at the end of a text nor at a semicolon. -/
def isFirm : Part → Bool
  | .text s => s.toList.head?.any (· != ';')
  | .word => true
  | .spaces | .gap => false

/-- A shape that no fence fits into: its texts have no line breaks, and what
follows spaces is firm. -/
def keepsOff : List Part → Bool
  | [] => true
  | .text s :: parts => !s.toList.contains '\n' && keepsOff parts
  | .word :: parts => keepsOff parts
  | .spaces :: parts | .gap :: parts => parts.head?.any isFirm && keepsOff parts

/-- A shape that begins with a firm part ends no text, and no semicolon begins it. -/
theorem afterShape_eq_none {parts : List Part} (h : parts.head?.any isFirm = true) :
    afterShape parts [] = none ∧ ∀ rest, afterShape parts (';' :: rest) = none := by
  cases parts with
  | nil => exact absurd h Bool.false_ne_true
  | cons part parts =>
      cases part with
      | text s =>
          simp only [List.head?_cons, Option.any_some, isFirm] at h
          rcases hs : s.toList with _ | ⟨c, w⟩
          · simp [hs] at h
          · have hc : (c == ';') = false := by simpa [hs] using h
            have hnone : ∀ rest, (c :: w).isPrefixOf? (';' :: rest) = none := by
              intro rest
              rw [isPrefixOf?_cons_cons, hc, if_neg Bool.false_ne_true]
            constructor
            · rw [afterShape, Part.after, hs]
              rfl
            · intro rest
              rw [afterShape, Part.after, hs, hnone]
              rfl
      | word => exact ⟨rfl, fun _ => rfl⟩
      | spaces => exact absurd h Bool.false_ne_true
      | gap => exact absurd h Bool.false_ne_true

/-- A text without line breaks stands before a fence or does not. -/
theorem isPrefixOf?_fence {s : List Char} (hs : '\n' ∉ s) (w rest : List Char) :
    s.isPrefixOf? (w ++ fence rest) = (s.isPrefixOf? w).map (· ++ fence rest) := by
  induction s generalizing w with
  | nil => rfl
  | cons c s ih =>
      rw [List.mem_cons, not_or] at hs
      cases w with
      | nil =>
          have hne : (c == '\n') = false := beq_eq_false_iff_ne.2 (Ne.symm hs.1)
          rw [List.nil_append, fence, isPrefixOf?_cons_cons, hne, if_neg Bool.false_ne_true]
          rfl
      | cons d w =>
          rw [List.cons_append, isPrefixOf?_cons_cons, isPrefixOf?_cons_cons]
          split
          · exact ih hs.2 w
          · rfl

/-- **A shape that no fence fits into is read before a fence** as at the end of a
text. -/
theorem afterShape_fence {parts : List Part} (h : keepsOff parts = true) (w rest : List Char) :
    afterShape parts (w ++ fence rest) = (afterShape parts w).map (· ++ fence rest) := by
  induction parts generalizing w with
  | nil => rfl
  | cons part parts ih =>
      rw [afterShape, afterShape]
      cases part with
      | text s =>
          rw [keepsOff, Bool.and_eq_true] at h
          have hbreak : '\n' ∉ s.toList := by simpa using h.1
          rw [Part.after, Part.after, isPrefixOf?_fence hbreak]
          cases s.toList.isPrefixOf? w with
          | none => rfl
          | some left => exact ih h.2 left
      | word =>
          cases w with
          | nil => rfl
          | cons c w =>
              simp only [Part.after, List.cons_append, afterSome]
              split
              · rw [Option.bind_some, Option.bind_some, dropWhile_fence rfl, ih h]
              · rfl
      | spaces =>
          rw [keepsOff, Bool.and_eq_true] at h
          obtain ⟨hend, hmark⟩ := afterShape_eq_none h.1
          exact fence_of_dropWhile (afterShape parts) rfl rfl hend (hmark rest) (ih h.2) w
      | gap =>
          rw [keepsOff, Bool.and_eq_true] at h
          obtain ⟨hend, hmark⟩ := afterShape_eq_none h.1
          have hdrop := fence_of_dropWhile (p := isSpace) (afterShape parts) rfl rfl hend
            (hmark rest) (ih h.2)
          cases w with
          | nil => exact hmark rest
          | cons c w =>
              simp only [Part.after, List.cons_append, afterSome]
              split
              · exact hdrop w
              · rfl

/-! ### Bodies -/

theorem afterCall_fence (after rest : List Char) :
    afterCall (after ++ fence rest) = (afterCall after).map (· ++ fence rest) := by
  rw [afterCall, afterCall, afterShape_fence (by decide), afterShape_fence (by decide)]
  cases afterShape ([.spaces, .text "return", .gap] ++ callShape) after <;> rfl

theorem afterTypes_fence (d : Nat) (w rest : List Char) :
    afterTypes d (w ++ fence rest) = (afterTypes d w).map (· ++ fence rest) := by
  induction w generalizing d with
  | nil => rfl
  | cons c w ih =>
      rw [List.cons_append, afterTypes.eq_def, afterTypes.eq_def d]
      cases d <;> simp only [ih] <;> split_ifs <;> rfl

theorem afterReceiver_fence (d : Nat) (w rest : List Char) :
    afterReceiver d (w ++ fence rest) = (afterReceiver d w).map (· ++ fence rest) := by
  induction w generalizing d with
  | nil => rfl
  | cons c w ih =>
      rw [List.cons_append, afterReceiver, afterReceiver]
      simp only [ih]
      split_ifs <;> rfl

theorem afterMark_fence {c : Char} (hc : c ≠ '\n' ∧ c ≠ ';') (w rest : List Char) :
    afterMark c (w ++ fence rest) = (afterMark c w).map (· ++ fence rest) := by
  have hread : ∀ w, afterMark c w = if (w.dropWhile isBlank).head? = some c
      then some (w.dropWhile isBlank).tail else none := by
    intro w
    rw [afterMark]
    cases w.dropWhile isBlank with
    | nil => rfl
    | cons d left => simp
  rw [hread, hread]
  refine fence_of_dropWhile (fun cs => if cs.head? = some c then some cs.tail else none)
    rfl rfl rfl ?_ (fun cs => ?_) w
  · exact if_neg fun h => hc.2 (Option.some.inj h).symm
  · cases cs with
    | nil => exact if_neg fun h => hc.1 (Option.some.inj h).symm
    | cons d cs =>
        rw [List.cons_append, List.head?_cons, List.head?_cons]
        split <;> rfl

/-- A string that its line leaves open ends at a fence as well; a carriage return
before the fence is a space. -/
theorem trim_quoted_fence (w rest : List Char) :
    trim (quoted (w ++ fence rest)) = trim (quoted w) := by
  have hreturn : ∀ content, trim (dropEndWhile (· == '\r') content) = trim content := by
    intro content
    have hspaces : ∀ c ∈ (content.reverse.takeWhile (· == '\r')).reverse, isSpace c = true := by
      intro c hc
      have hreturn := List.mem_takeWhile_imp (List.mem_reverse.1 hc)
      rw [beq_iff_eq.1 hreturn]
      rfl
    have hsplit : content = dropEndWhile (· == '\r') content
        ++ (content.reverse.takeWhile (· == '\r')).reverse := by
      rw [dropEndWhile, ← List.reverse_append, List.takeWhile_append_dropWhile,
        List.reverse_reverse]
    rw [hsplit, trim_append_spaces hspaces, ← hsplit]
  rw [quoted, quoted, takeWhile_fence rfl, dropWhile_fence rfl]
  rcases w.dropWhile fun c => c != '"' && c != '\n' with _ | ⟨c, left⟩
  · exact hreturn _
  · by_cases hc : c = '\n'
    · subst hc
      rfl
    · rw [List.cons_append]
      split
      · next h => exact absurd (List.cons.inj h).1 hc
      · split
        · next h => exact absurd (List.cons.inj h).1 hc
        · rfl

theorem nativeSignature_fence (w rest : List Char) :
    nativeSignature (w ++ fence rest) = nativeSignature w := by
  rw [nativeSignature, nativeSignature, afterTypes_fence]
  rcases afterTypes 0 w with _ | w
  · rfl
  · simp only [Option.map_some, Option.bind_some, afterMark_fence (by decide : '(' ≠ '\n' ∧ '(' ≠ ';')]
    rcases afterMark '(' w with _ | w
    · rfl
    · simp only [Option.map_some, Option.bind_eq_bind, Option.bind_some, afterReceiver_fence]
      rcases afterReceiver 0 w with _ | w
      · rfl
      · simp only [Option.map_some, Option.bind_some,
          afterMark_fence (by decide : '"' ≠ '\n' ∧ '"' ≠ ';')]
        rcases afterMark '"' w with _ | w
        · rfl
        · exact congrArg some (trim_quoted_fence w rest)

/-- What follows a closed body has no part in it. -/
theorem closing_of_prefix {d : Nat} {inString : Bool} {w inner : List Char}
    (h : closing d inString w = some inner) (rest : List Char) :
    closing d inString (w ++ rest) = some inner := by
  have hstep : ∀ {c : Char} {d : Nat} {inString : Bool} {w inner : List Char},
      (∀ inner, closing d inString w = some inner → closing d inString (w ++ rest) = some inner) →
      (closing d inString w).map (c :: ·) = some inner →
      (closing d inString (w ++ rest)).map (c :: ·) = some inner := by
    intro c d inString w inner ih h
    obtain ⟨left, hleft, rfl⟩ := Option.map_eq_some_iff.1 h
    rw [ih left hleft]
    rfl
  induction w generalizing d inString inner with
  | nil => exact absurd h.symm (Option.some_ne_none _)
  | cons c w ih =>
      rw [closing.eq_def] at h
      rw [List.cons_append, closing.eq_def]
      cases d <;> simp only at h ⊢ <;> split_ifs at h ⊢
      all_goals first
        | exact hstep (fun _ => ih) h
        | exact h

end Header
end NativeHooks
