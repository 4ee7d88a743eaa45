/-
# What a reader takes

A reader takes a part of the text and leaves the rest.  It is *steady* if what it takes is
read the same where the text is cut off further on, wherever that is (`Steady`), and a
steady reader may go on where another one stopped (`Steady.bind`).

The readers that look for one more word, qualifiers and keywords, are steady only if the
text is not cut within a word, so what is shown of them is what holds where their own
words end (`qualified_cut`, `keywordsBefore_cut`).
-/

import NativeHooks.Proofs.Header.Parts

namespace NativeHooks
namespace Header

open Text

/-! ### Steady readers -/

/-- The part of a text before `left`, nearest character first, in which no brace opens. -/
def Takes (before left : List Char) : Prop := ∃ taken, before = taken ++ left ∧ '{' ∉ taken

theorem Takes.refl (before : List Char) : Takes before before := ⟨[], rfl, List.not_mem_nil⟩

theorem Takes.length_le {before left : List Char} (h : Takes before left) :
    left.length ≤ before.length := by
  obtain ⟨taken, rfl, -⟩ := h
  rw [List.length_append]
  omega

theorem Takes.trans {a b c : List Char} (h : Takes a b) (h' : Takes b c) : Takes a c := by
  obtain ⟨u, rfl, hu⟩ := h
  obtain ⟨v, rfl, hv⟩ := h'
  exact ⟨u ++ v, (List.append_assoc ..).symm, fun hmem => (List.mem_append.1 hmem).elim hu hv⟩

/-- A reader that takes a part of the text without braces and reads that part the same if
what is far from it is cut off. -/
structure Steady {α : Type} (read : List Char → Option (α × List Char)) : Prop where
  takes : ∀ {before found left}, read before = some (found, left) → Takes before left
  cut : ∀ {near far found left}, read (near ++ far) = some (found, left ++ far) →
    read near = some (found, left)

section Steady

variable {α β : Type} {read : List Char → Option (α × List Char)}

/-- One reader goes on where another one stopped. -/
theorem Steady.bind (h : Steady read) {next : α → List Char → Option (β × List Char)}
    (hnext : ∀ a, Steady (next a)) :
    Steady fun before => (read before).bind fun r => next r.1 r.2 where
  takes hread := by
    obtain ⟨⟨a, middle⟩, ha, hb⟩ := Option.bind_eq_some_iff.1 hread
    exact (h.takes ha).trans ((hnext a).takes hb)
  cut {near far found left} hread := by
    obtain ⟨⟨a, middle⟩, ha, hb⟩ := Option.bind_eq_some_iff.1 hread
    obtain ⟨taken, rfl, -⟩ := (hnext a).takes hb
    rw [← List.append_assoc] at ha hb
    rw [h.cut ha, Option.bind_some]
    exact (hnext a).cut hb

/-- What is made of what was found plays no part. -/
theorem steady_filter (f : α → Option β) (h : Steady read) :
    Steady fun before => (read before).bind fun r => (f r.1).map fun b => (b, r.2) := by
  have hmade : ∀ a, Steady fun rest => (f a).map fun b => (b, rest) := by
    refine fun a => ⟨fun hread => ?_, fun hread => ?_⟩
    · obtain ⟨b, -, heq⟩ := Option.map_eq_some_iff.1 hread
      obtain ⟨-, rfl⟩ := Prod.mk.inj heq
      exact Takes.refl _
    · obtain ⟨b, hb, heq⟩ := Option.map_eq_some_iff.1 hread
      obtain ⟨rfl, hleft⟩ := Prod.mk.inj heq
      rw [hb, List.append_cancel_right hleft]
      rfl
  exact h.bind hmade

/-- What is left of blanks is left of them as well if the text is cut off. -/
theorem dropWhile_cut {p : Char → Bool} {near far left : List Char}
    (h : (near ++ far).dropWhile p = left ++ far) : near.dropWhile p = left := by
  induction near with
  | nil =>
      have hlength := (List.dropWhile_sublist p (l := far)).length_le
      rw [List.nil_append] at h
      rw [h, List.length_append] at hlength
      exact (List.length_eq_zero_iff.1 (by omega)).symm
  | cons c near ih =>
      rw [List.cons_append, List.dropWhile_cons] at h
      rw [List.dropWhile_cons]
      split at h
      · next hc => rw [if_pos hc, ih h]
      · next hc =>
          rw [if_neg hc]
          exact List.append_cancel_right ((List.cons_append ..).trans h)

/-- Reading goes on behind the blanks that a text ends with. -/
theorem Steady.blanks (h : Steady read) : Steady fun before => read (before.dropWhile isBlank) where
  takes {before found left} hread := by
    refine Takes.trans ⟨before.takeWhile isBlank, ?_, fun hmem => ?_⟩ (h.takes hread)
    · rw [List.takeWhile_append_dropWhile]
    · exact absurd (List.mem_takeWhile_imp hmem) (by decide)
  cut {near far found left} hread := by
    obtain ⟨taken, hdrop, -⟩ := h.takes hread
    rw [← List.append_assoc] at hdrop
    rw [dropWhile_cut hdrop]
    rw [hdrop] at hread
    exact h.cut hread

end Steady

/-! ### Names -/

/-- An identifier is read where it ends: blanks stand after it and none of its characters
before it. -/
theorem identBefore_eq_some_iff {before name left : List Char} :
    identBefore before = some (name, left) ↔
      ∃ blanks, before = blanks ++ (name.reverse ++ left) ∧ (∀ c ∈ blanks, isBlank c = true) ∧
        name ≠ [] ∧ (∀ c ∈ name, isIdent c = true) ∧ ∀ c ∈ left.head?, isIdent c = false := by
  constructor
  · intro h
    obtain ⟨hne, hident⟩ := identBefore_spec h
    simp only [identBefore] at h
    split at h
    · exact absurd h.symm (Option.some_ne_none _)
    · obtain ⟨rfl, rfl⟩ := Prod.mk.inj (Option.some.inj h)
      refine ⟨before.takeWhile isBlank, ?_, fun c hc => List.mem_takeWhile_imp hc, hne, hident, ?_⟩
      · rw [List.reverse_reverse, List.takeWhile_append_dropWhile, List.takeWhile_append_dropWhile]
      · intro c hc
        have hnot := List.head?_dropWhile_not isIdent (before.dropWhile isBlank)
        rw [hc] at hnot
        exact hnot
  · rintro ⟨blanks, rfl, hblanks, hne, hident, hleft⟩
    have hrev : ∀ c ∈ name.reverse, isIdent c = true := fun c hc => hident c (List.mem_reverse.1 hc)
    have hinner : (name.reverse ++ left).dropWhile isBlank = name.reverse ++ left := by
      refine dropWhile_eq_self fun c hc => isBlank_eq_false_of_isIdent (hrev c ?_)
      rw [List.head?_append_of_ne_nil _ (List.reverse_ne_nil_iff.2 hne)] at hc
      exact List.mem_of_mem_head? hc
    have hrun : left.takeWhile isIdent = [] := by
      cases left with
      | nil => rfl
      | cons c left => rw [List.takeWhile_cons, hleft c rfl, if_neg Bool.false_ne_true]
    rw [identBefore]
    simp only [List.dropWhile_append_of_pos hblanks, hinner, List.takeWhile_append_of_pos hrev,
      List.dropWhile_append_of_pos hrev, hrun, dropWhile_eq_self hleft, List.append_nil,
      List.reverse_reverse]
    rw [if_neg (by simpa using hne)]

/-- The same for a word on the line: no line feed is among the blanks. -/
theorem wordOnLine_eq_some_iff {before word left : List Char} :
    wordOnLine before = some (word, left) ↔
      ∃ blanks, before = blanks ++ (word.reverse ++ left) ∧ (∀ c ∈ blanks, isBlank c = true) ∧
        '\n' ∉ blanks ∧ word ≠ [] ∧ (∀ c ∈ word, isIdent c = true) ∧
          ∀ c ∈ left.head?, isIdent c = false := by
  have hrun : ∀ {blanks : List Char}, (∀ c ∈ blanks, isBlank c = true) → word ≠ [] →
      (∀ c ∈ word, isIdent c = true) →
      (blanks ++ (word.reverse ++ left)).takeWhile isBlank = blanks := by
    intro blanks hblanks hne hident
    obtain ⟨c, rest, hrest⟩ := List.exists_cons_of_ne_nil (List.reverse_ne_nil_iff.2 hne)
    have hc : c ∈ word := List.mem_reverse.1 (hrest ▸ List.mem_cons_self)
    rw [hrest]
    exact takeWhile_run hblanks (isBlank_eq_false_of_isIdent (hident c hc))
  rw [wordOnLine]
  constructor
  · intro h
    split at h
    · exact absurd h.symm (Option.some_ne_none _)
    · next hline =>
        obtain ⟨blanks, rfl, hblanks, hne, hident, hleft⟩ := identBefore_eq_some_iff.1 h
        rw [hrun hblanks hne hident, List.contains_iff_mem] at hline
        exact ⟨blanks, rfl, hblanks, hline, hne, hident, hleft⟩
  · rintro ⟨blanks, rfl, hblanks, hline, hne, hident, hleft⟩
    rw [hrun hblanks hne hident, if_neg (by rwa [List.contains_iff_mem])]
    exact identBefore_eq_some_iff.2 ⟨blanks, rfl, hblanks, hne, hident, hleft⟩

/-- Names and blanks hold no brace. -/
theorem takes_word {blanks word left : List Char} (hblanks : ∀ c ∈ blanks, isBlank c = true)
    (hident : ∀ c ∈ word, isIdent c = true) : Takes (blanks ++ (word.reverse ++ left)) left := by
  refine ⟨blanks ++ word.reverse, (List.append_assoc ..).symm, fun hmem => ?_⟩
  rcases List.mem_append.1 hmem with h | h
  · exact absurd (hblanks _ h) (by decide)
  · exact absurd (hident _ (List.mem_reverse.1 h)) (by decide)

/-- The head of what was cut off. -/
theorem head?_of_head?_append {p : Char → Bool} {left far : List Char}
    (h : ∀ c ∈ (left ++ far).head?, p c = false) : ∀ c ∈ left.head?, p c = false := by
  intro c hc
  refine h c ?_
  rw [List.head?_append, hc]
  rfl

theorem steady_identBefore : Steady identBefore where
  takes h := by
    obtain ⟨blanks, rfl, hblanks, -, hident, -⟩ := identBefore_eq_some_iff.1 h
    exact takes_word hblanks hident
  cut {near far name left} h := by
    obtain ⟨blanks, heq, hblanks, hne, hident, hleft⟩ := identBefore_eq_some_iff.1 h
    rw [← List.append_assoc, ← List.append_assoc] at heq
    rw [List.append_cancel_right heq, List.append_assoc]
    exact identBefore_eq_some_iff.2
      ⟨blanks, rfl, hblanks, hne, hident, head?_of_head?_append hleft⟩

theorem steady_wordOnLine : Steady wordOnLine where
  takes h := by
    obtain ⟨blanks, rfl, hblanks, -, -, hident, -⟩ := wordOnLine_eq_some_iff.1 h
    exact takes_word hblanks hident
  cut {near far name left} h := by
    obtain ⟨blanks, heq, hblanks, hline, hne, hident, hleft⟩ := wordOnLine_eq_some_iff.1 h
    rw [← List.append_assoc, ← List.append_assoc] at heq
    rw [List.append_cancel_right heq, List.append_assoc]
    exact wordOnLine_eq_some_iff.2
      ⟨blanks, rfl, hblanks, hline, hne, hident, head?_of_head?_append hleft⟩

/-! ### Readers that count brackets -/

/-- What one character does to a reader inside `d` brackets, whatever stands before it: it
ends the reading without success, before the character or with it, or is read. -/
def Steps (read : Nat → List Char → Option (List Char × List Char)) (d : Nat) (c : Char) : Prop :=
  (∀ before, read d (c :: before) = none) ∨
    (∀ before, read d (c :: before) = some ([], c :: before)) ∨
    (c ≠ '{' ∧ ∀ before, read d (c :: before) = some ([], before)) ∨
    c ≠ '{' ∧ ∃ e, ∀ before, read d (c :: before) = extend c (read e before)

section Steps

variable {read : Nat → List Char → Option (List Char × List Char)}

/-- Such a reader takes what it reads. -/
theorem takes_of_steps (hsteps : ∀ d c, Steps read d c)
    (hnil : ∀ d, read d [] = none ∨ read d [] = some ([], [])) {d : Nat}
    {before found left : List Char} (h : read d before = some (found, left)) :
    Takes before left ∧ found.length + left.length ≤ before.length := by
  induction before generalizing d found with
  | nil =>
      rcases hnil d with hread | hread <;> rw [hread] at h
      · exact absurd h.symm (Option.some_ne_none _)
      · obtain ⟨rfl, rfl⟩ := Prod.mk.inj (Option.some.inj h)
        exact ⟨Takes.refl _, Nat.le_refl _⟩
  | cons c before ih =>
      have hone : c ≠ '{' → Takes (c :: before) before := fun hc =>
        ⟨[c], rfl, by simpa using hc.symm⟩
      rcases hsteps d c with hread | hread | ⟨hc, hread⟩ | ⟨hc, e, hread⟩ <;> rw [hread] at h
      · exact absurd h.symm (Option.some_ne_none _)
      · obtain ⟨rfl, rfl⟩ := Prod.mk.inj (Option.some.inj h)
        exact ⟨Takes.refl _, by simp⟩
      · obtain ⟨rfl, rfl⟩ := Prod.mk.inj (Option.some.inj h)
        exact ⟨hone hc, by simp⟩
      · obtain ⟨⟨inner, rest⟩, hinner, heq⟩ := Option.map_eq_some_iff.1 h
        obtain ⟨rfl, rfl⟩ := Prod.mk.inj heq
        obtain ⟨htakes, hlength⟩ := ih hinner
        exact ⟨(hone hc).trans htakes, by simp only [List.length_cons]; omega⟩

/-- **A reader that counts brackets is steady** if the start of the text ends its reading
where it may end. -/
theorem steady_of_steps (hsteps : ∀ d c, Steps read d c)
    (hnil : ∀ d, read d [] = none ∨ read d [] = some ([], []))
    (hend : ∀ d before, read d before = some ([], before) → read d [] = some ([], []))
    (d : Nat) : Steady (read d) where
  takes h := (takes_of_steps hsteps hnil h).1
  cut {near far found left} h := by
    induction near generalizing d found with
    | nil =>
        have hlength := (takes_of_steps hsteps hnil h).2
        rw [List.nil_append, List.length_append] at hlength
        have hfound : found = [] := List.length_eq_zero_iff.1 (by omega)
        have hleft : left = [] := List.length_eq_zero_iff.1 (by omega)
        subst hfound hleft
        exact hend d far h
    | cons c near ih =>
        rw [List.cons_append] at h
        rcases hsteps d c with hread | hread | ⟨-, hread⟩ | ⟨-, e, hread⟩ <;> rw [hread] at h ⊢
        · exact absurd h.symm (Option.some_ne_none _)
        · obtain ⟨rfl, hleft⟩ := Prod.mk.inj (Option.some.inj h)
          rw [List.append_cancel_right ((List.cons_append ..).trans hleft)]
        · obtain ⟨rfl, hleft⟩ := Prod.mk.inj (Option.some.inj h)
          rw [List.append_cancel_right hleft]
        · obtain ⟨⟨inner, rest⟩, hinner, heq⟩ := Option.map_eq_some_iff.1 h
          obtain ⟨rfl, rfl⟩ := Prod.mk.inj heq
          rw [ih _ hinner]
          rfl

end Steps

/-! ### Types -/

/-- Only outside angle brackets a token ends. -/
theorem eq_zero_of_tokenInside {d : Nat} {before left : List Char}
    (h : tokenInside d before = some ([], left)) : d = 0 := by
  exact (tokenInside_spec h).eq_zero

/-- A token and what is left of it are the text that was read. -/
theorem tokenInside_append {d : Nat} {before token left : List Char}
    (h : tokenInside d before = some (token, left)) : before = token ++ left := by
  induction before generalizing d token with
  | nil =>
      rw [tokenInside.eq_def] at h
      simp only at h
      split at h
      · obtain ⟨rfl, rfl⟩ := Prod.mk.inj (Option.some.inj h)
        rfl
      · exact absurd h.symm (Option.some_ne_none _)
  | cons c before ih =>
      rcases tokenInside_cons h with ⟨-, rfl, rfl⟩ | ⟨e, inner, hinner, rfl, -⟩
      · rfl
      · rw [List.cons_append, ← ih hinner]

/-- A token does not begin with a blank. -/
theorem isBlank_getLast?_token {d : Nat} {before token left : List Char}
    (h : tokenInside d before = some (token, left)) :
    ∀ c ∈ token.getLast?, isBlank c = false := by
  induction before generalizing d token with
  | nil =>
      obtain ⟨rfl, -⟩ := List.append_eq_nil_iff.1 (tokenInside_append h).symm
      exact fun c hc => absurd hc.symm (Option.some_ne_none c)
  | cons a before ih =>
      rcases tokenInside_cons h with ⟨-, rfl, -⟩ | ⟨e, inner, hinner, rfl, -, -, hzero⟩
      · exact fun c hc => absurd hc.symm (Option.some_ne_none c)
      · intro c hc
        cases inner with
        | nil =>
            obtain rfl : a = c := Option.some.inj hc
            exact (hzero (eq_zero_of_tokenInside hinner)).2
        | cons b inner => exact ih hinner c (by rwa [List.getLast?_cons_cons] at hc)

theorem steady_tokenInside (d : Nat) : Steady (tokenInside d) := by
  refine steady_of_steps (fun d c => ?_) (fun d => ?_) (fun d before h => ?_) d
  · rcases tokenInside_step d c with ⟨-, hread⟩ | ⟨-, hread⟩ | ⟨e, hends, -, -, hread⟩
    · exact .inr (.inl hread)
    · exact .inl hread
    · refine .inr (.inr (.inr ⟨?_, e, hread⟩))
      rintro rfl
      exact absurd hends (by decide)
  · cases d with
    | zero => exact .inr rfl
    | succ d => exact .inl rfl
  · rw [eq_zero_of_tokenInside h]
    rfl

/-- A token in the order that it is read in, if there is one. -/
theorem tokenBefore_eq (before : List Char) :
    tokenBefore before = (tokenInside 0 (before.dropWhile isBlank)).bind fun r =>
      (if r.1.isEmpty then none else some r.1.reverse).map fun token => (token, r.2) := by
  rw [tokenBefore]
  rcases tokenInside 0 (before.dropWhile isBlank) with _ | ⟨token, left⟩
  · rfl
  · simp only [Option.bind_some]
    split <;> rfl

theorem steady_tokenBefore : Steady tokenBefore := by
  rw [funext tokenBefore_eq]
  exact (steady_filter (fun token => if token.isEmpty then none else some token.reverse)
    (steady_tokenInside 0)).blanks

/-! ### Lists -/

/-- A list has its opening parenthesis before it. -/
theorem listInside_ne (d : Nat) (before : List Char) : listInside d before ≠ some ([], before) := by
  have hextend : ∀ {c e rest}, extend c (listInside e rest) ≠ some ([], c :: rest) := by
    intro c e rest h
    obtain ⟨r, -, heq⟩ := Option.map_eq_some_iff.1 h
    exact List.cons_ne_nil _ _ (Prod.mk.inj heq).1
  cases before with
  | nil => exact (Option.some_ne_none _).symm
  | cons c before =>
      intro h
      rw [listInside.eq_def] at h
      cases d <;> simp only at h <;> split_ifs at h
      all_goals first
        | exact hextend h
        | exact List.cons_ne_self _ _ (Prod.mk.inj (Option.some.inj h)).2.symm

theorem steps_listInside (d : Nat) (c : Char) : Steps listInside d c := by
  by_cases hclose : c = ')'
  · subst hclose
    exact .inr (.inr (.inr ⟨by decide, d + 1, fun before => by cases d <;> rfl⟩))
  by_cases hopen : c = '('
  · subst hopen
    cases d with
    | zero => exact .inr (.inr (.inl ⟨by decide, fun before => rfl⟩))
    | succ d => exact .inr (.inr (.inr ⟨by decide, d, fun before => rfl⟩))
  by_cases hend : c = ';' ∨ c = '{' ∨ c = '}'
  · refine .inl fun before => ?_
    rw [listInside.eq_def]
    simp only [if_neg hclose, if_neg hopen, if_pos hend]
  · refine .inr (.inr (.inr ⟨fun h => hend (.inr (.inl h)), d, fun before => ?_⟩))
    rw [listInside.eq_def]
    simp only [if_neg hclose, if_neg hopen, if_neg hend]

theorem steady_listInside (d : Nat) : Steady (listInside d) := by
  exact steady_of_steps steps_listInside (fun d => .inl rfl)
    (fun d before h => absurd h (listInside_ne d before)) d

/-- What stands before the character `c` at the end of a text. -/
def markBefore (c : Char) : List Char → Option (Unit × List Char)
  | [] => none
  | d :: before => if d = c then some ((), before) else none

theorem steady_markBefore {c : Char} (hc : c ≠ '{') : Steady (markBefore c) where
  takes {before found left} h := by
    cases before with
    | nil => exact absurd h.symm (Option.some_ne_none _)
    | cons d before =>
        obtain ⟨rfl, heq⟩ := Option.ite_none_right_eq_some.1 h
        obtain rfl := (Prod.mk.inj (Option.some.inj heq)).2
        exact ⟨[d], rfl, by simpa using hc.symm⟩
  cut {near far found left} h := by
    cases near with
    | nil =>
        cases far with
        | nil => exact absurd h.symm (Option.some_ne_none _)
        | cons d far =>
            have heq := (Option.ite_none_right_eq_some.1 h).2
            have hlength := congrArg List.length (Prod.mk.inj (Option.some.inj heq)).2
            simp at hlength
            omega
    | cons d near =>
        obtain ⟨rfl, heq⟩ := Option.ite_none_right_eq_some.1 h
        rw [markBefore, if_pos rfl, List.append_cancel_right (Prod.mk.inj (Option.some.inj heq)).2]

theorem listBefore_eq (before : List Char) :
    listBefore before = (markBefore ')' before).bind fun r =>
      (listInside 0 r.2).bind fun r => (some r.1.reverse).map fun list => (list, r.2) := by
  cases before with
  | nil => rfl
  | cons c before =>
      by_cases hc : c = ')'
      · subst hc
        rw [listBefore, markBefore, if_pos rfl, Option.bind_some]
        cases listInside 0 before <;> rfl
      · rw [listBefore, markBefore, if_neg hc]
        · rfl
        · rintro rest ⟨⟩
          exact hc rfl

theorem steady_listBefore : Steady listBefore := by
  have hinside : Steady fun rest => (listInside 0 rest).bind fun r =>
      (some r.1.reverse).map fun list => (list, r.2) :=
    steady_filter (fun list => some list.reverse) (steady_listInside 0)
  rw [funext listBefore_eq]
  exact (steady_markBefore (by decide)).bind fun _ => hinside

/-- Where a list ends, no word does. -/
theorem identBefore_of_listBefore {before list left : List Char}
    (h : listBefore (before.dropWhile isBlank) = some (list, left)) :
    identBefore before = none := by
  rw [identBefore]
  rcases hdrop : before.dropWhile isBlank with _ | ⟨c, rest⟩
  · rfl
  · rw [hdrop] at h
    unfold listBefore at h
    split at h
    · next heq =>
        obtain ⟨rfl, rfl⟩ := List.cons.inj heq
        rfl
    · exact absurd h.symm (Option.some_ne_none _)

/-- The list of a head, which a specifier may follow. -/
theorem steady_listBefore_dropSpecifier :
    Steady fun before => listBefore (dropSpecifier before) where
  takes {before list left} h := by
    unfold dropSpecifier at h
    split at h
    · next word rest hword =>
        split at h
        · exact (steady_identBefore.takes hword).trans (steady_listBefore.blanks.takes h)
        · exact steady_listBefore.blanks.takes h
    · exact steady_listBefore.blanks.takes h
  cut {near far list left} h := by
    unfold dropSpecifier at h ⊢
    split at h
    · next word rest hword =>
        split at h
        · next hspecifier =>
            obtain ⟨taken, hrest, -⟩ := steady_listBefore.blanks.takes h
            rw [hrest, ← List.append_assoc] at hword h
            rw [steady_identBefore.cut hword]
            simp only [if_pos hspecifier]
            exact steady_listBefore.blanks.cut h
        · exact absurd (hword.symm.trans (identBefore_of_listBefore h)) (Option.some_ne_none _)
    · have hnear := steady_listBefore.blanks.cut h
      rw [identBefore_of_listBefore hnear]
      exact hnear

/-! ### Where a declaration begins -/

/-- What is read of `before` up to `left` begins, in reading order, with no blank. -/
def Begins (before left : List Char) : Prop :=
  ∃ taken, before = taken ++ left ∧ ∀ c ∈ taken.getLast?, isBlank c = false

theorem Begins.refl (before : List Char) : Begins before before :=
  ⟨[], rfl, fun c hc => absurd hc.symm (Option.some_ne_none c)⟩

theorem Begins.trans {a b c : List Char} (h : Begins a b) (h' : Begins b c) : Begins a c := by
  obtain ⟨u, rfl, hu⟩ := h
  obtain ⟨v, rfl, hv⟩ := h'
  refine ⟨u ++ v, (List.append_assoc ..).symm, fun d hd => ?_⟩
  rw [List.getLast?_append] at hd
  rcases hlast : v.getLast? with _ | e
  · exact hu d (by simpa [hlast] using hd)
  · exact hv d (by simpa [hlast] using hd)

theorem Begins.of_takes {a b c : List Char} (h : Takes a b) (h' : Begins b c)
    (hlength : c.length < b.length) : Begins a c := by
  obtain ⟨u, rfl, -⟩ := h
  obtain ⟨v, rfl, hv⟩ := h'
  have hv' : v ≠ [] := by
    rintro rfl
    exact Nat.lt_irrefl _ hlength
  refine ⟨u ++ v, (List.append_assoc ..).symm, fun d hd => hv d ?_⟩
  rwa [List.getLast?_append_of_ne_nil _ hv'] at hd

theorem begins_wordOnLine {before word left : List Char}
    (h : wordOnLine before = some (word, left)) : Begins before left := by
  obtain ⟨blanks, rfl, -, -, hne, hident, -⟩ := wordOnLine_eq_some_iff.1 h
  refine ⟨blanks ++ word.reverse, (List.append_assoc ..).symm, fun c hc => ?_⟩
  rw [List.getLast?_append_of_ne_nil _ (List.reverse_ne_nil_iff.2 hne)] at hc
  exact isBlank_eq_false_of_isIdent (hident c (List.mem_reverse.1 (List.mem_of_getLast? hc)))

theorem begins_tokenBefore {before token left : List Char}
    (h : tokenBefore before = some (token, left)) :
    Begins before left ∧ left.length < before.length := by
  rw [tokenBefore_eq] at h
  obtain ⟨⟨inner, rest⟩, hinner, heq⟩ := Option.bind_eq_some_iff.1 h
  obtain ⟨token, htoken, heq⟩ := Option.map_eq_some_iff.1 heq
  obtain ⟨-, rfl⟩ := Prod.mk.inj heq
  have hne : inner ≠ [] := by
    rintro rfl
    exact absurd htoken.symm (Option.some_ne_none _)
  have hbefore : before = before.takeWhile isBlank ++ inner ++ rest := by
    rw [List.append_assoc, ← tokenInside_append hinner, List.takeWhile_append_dropWhile]
  constructor
  · refine ⟨before.takeWhile isBlank ++ inner, hbefore, fun c hc => ?_⟩
    rw [List.getLast?_append_of_ne_nil _ hne] at hc
    exact isBlank_getLast?_token hinner c hc
  · have hpos := List.length_pos_iff.2 hne
    have hlength := congrArg List.length hbefore
    simp only [List.length_append] at hlength ⊢
    omega

/-! ### Qualifiers and keywords -/

/-- The words of `left` end where `far` is cut off, if there are any. -/
def WordsEnd (left far : List Char) : Prop :=
  left = [] ∨ ∃ word more, wordOnLine (left ++ far) = some (word, more ++ far)

/-- Words of one line stand between `left` and the end of `before`, or nothing does. -/
inductive Words : List Char → List Char → Prop
  | none (before : List Char) : Words before before
  | word {before word rest left : List Char} :
      wordOnLine before = some (word, rest) → Words rest left → Words before left

theorem Words.takes {before left : List Char} (h : Words before left) : Takes before left := by
  induction h with
  | none before => exact Takes.refl before
  | word hword _ ih => exact (steady_wordOnLine.takes hword).trans ih

theorem Words.begins {before left : List Char} (h : Words before left) : Begins before left := by
  induction h with
  | none before => exact Begins.refl before
  | word hword _ ih => exact (begins_wordOnLine hword).trans ih

theorem words_qualified {before type type' left : List Char}
    (h : qualified type before = (type', left)) : Words before left := by
  induction type, before using qualified.induct with
  | case1 type before word rest hword hqualifier ih =>
      rw [qualified_of_word hword, if_pos hqualifier] at h
      exact .word hword (ih h)
  | case2 type before word rest hword hqualifier =>
      rw [qualified_of_word hword, if_neg hqualifier] at h
      exact (Prod.mk.inj h).2 ▸ .none before
  | case3 type before hword =>
      rw [qualified_of_none hword] at h
      exact (Prod.mk.inj h).2 ▸ .none before

theorem words_keywordsBefore {found keywords : Keywords} {before left : List Char}
    (h : keywordsBefore found before = (keywords, left)) : Words before left := by
  induction found, before using keywordsBefore.induct with
  | case1 found before word rest hword hstatic ih =>
      rw [keywordsBefore_of_word hword, if_pos hstatic] at h
      exact .word hword (ih h)
  | case2 found before word rest hword hstatic hvirtual ih =>
      rw [keywordsBefore_of_word hword, if_neg hstatic, if_pos hvirtual] at h
      exact .word hword (ih h)
  | case3 found before word rest hword hstatic hvirtual =>
      rw [keywordsBefore_of_word hword, if_neg hstatic, if_neg hvirtual] at h
      exact (Prod.mk.inj h).2 ▸ .none before
  | case4 found before hword =>
      rw [keywordsBefore_of_none hword] at h
      exact (Prod.mk.inj h).2 ▸ .none before

/-- Qualifiers are read the same if the text is cut off behind the words before them. -/
theorem qualified_cut {near far type type' left : List Char}
    (h : qualified type (near ++ far) = (type', left ++ far)) (hend : WordsEnd left far) :
    qualified type near = (type', left) := by
  generalize hbefore : near ++ far = before at h
  induction type, before using qualified.induct generalizing near with
  | case1 type before word rest hword hqualifier ih =>
      rw [qualified_of_word hword, if_pos hqualifier] at h
      obtain ⟨taken, rfl, -⟩ := (words_qualified h).takes
      rw [← hbefore, ← List.append_assoc] at hword
      rw [qualified_of_word (steady_wordOnLine.cut hword), if_pos hqualifier]
      exact ih (List.append_assoc ..) h
  | case2 type before word rest hword hqualifier =>
      rw [qualified_of_word hword, if_neg hqualifier] at h
      obtain ⟨rfl, hleft⟩ := Prod.mk.inj h
      rw [← hbefore] at hleft hword
      obtain rfl := List.append_cancel_right hleft
      rcases hend with rfl | ⟨word', more, hmore⟩
      · exact qualified_of_none rfl
      · obtain ⟨rfl, rfl⟩ := Prod.mk.inj (Option.some.inj (hword.symm.trans hmore))
        rw [qualified_of_word (steady_wordOnLine.cut hmore), if_neg hqualifier]
  | case3 type before hword =>
      rw [qualified_of_none hword] at h
      obtain ⟨rfl, hleft⟩ := Prod.mk.inj h
      rw [← hbefore] at hleft hword
      obtain rfl := List.append_cancel_right hleft
      rcases hend with rfl | ⟨word', more, hmore⟩
      · exact qualified_of_none rfl
      · exact absurd (hmore.symm.trans hword) (Option.some_ne_none _)

/-- Keywords are read the same if the text is cut off behind them. -/
theorem keywordsBefore_cut {near far : List Char} {found keywords : Keywords}
    (h : keywordsBefore found (near ++ far) = (keywords, far)) :
    keywordsBefore found near = (keywords, []) ∧ WordsEnd near far := by
  have hstop : ∀ {near : List Char} {found : Keywords}, (found, near ++ far) = (keywords, far) →
      keywordsBefore found near = (keywords, []) ∧ WordsEnd near far := by
    intro near found heq
    obtain ⟨rfl, hnear⟩ := Prod.mk.inj heq
    obtain rfl := List.append_left_eq_self.1 hnear
    exact ⟨keywordsBefore_of_none rfl, .inl rfl⟩
  generalize hbefore : near ++ far = before at h
  induction found, before using keywordsBefore.induct generalizing near with
  | case1 found before word rest hword hstatic ih =>
      rw [keywordsBefore_of_word hword, if_pos hstatic] at h
      obtain ⟨taken, rfl, -⟩ := (words_keywordsBefore h).takes
      rw [← hbefore] at hword
      rw [keywordsBefore_of_word (steady_wordOnLine.cut hword), if_pos hstatic]
      exact ⟨(ih rfl h).1, .inr ⟨word, taken, hword⟩⟩
  | case2 found before word rest hword hstatic hvirtual ih =>
      rw [keywordsBefore_of_word hword, if_neg hstatic, if_pos hvirtual] at h
      obtain ⟨taken, rfl, -⟩ := (words_keywordsBefore h).takes
      rw [← hbefore] at hword
      rw [keywordsBefore_of_word (steady_wordOnLine.cut hword), if_neg hstatic, if_pos hvirtual]
      exact ⟨(ih rfl h).1, .inr ⟨word, taken, hword⟩⟩
  | case3 found before word rest hword hstatic hvirtual =>
      rw [keywordsBefore_of_word hword, if_neg hstatic, if_neg hvirtual, ← hbefore] at h
      exact hstop h
  | case4 found before hword =>
      rw [keywordsBefore_of_none hword, ← hbefore] at h
      exact hstop h

theorem takes_typeBefore {before type left : List Char}
    (h : typeBefore before = some (type, left)) : Takes before left := by
  simp only [typeBefore, Option.bind_eq_bind, Option.bind_eq_some_iff] at h
  obtain ⟨⟨token, rest⟩, htoken, h⟩ := h
  refine (steady_tokenBefore.takes htoken).trans ?_
  split at h
  · obtain ⟨⟨base, further⟩, hbase, h⟩ := Option.bind_eq_some_iff.1 h
    exact (steady_tokenBefore.takes hbase).trans (words_qualified (Option.some.inj h)).takes
  · exact (words_qualified (Option.some.inj h)).takes

/-- A type is read the same if the text is cut off behind the words before it. -/
theorem typeBefore_cut {near far type left : List Char}
    (h : typeBefore (near ++ far) = some (type, left ++ far)) (hend : WordsEnd left far) :
    typeBefore near = some (type, left) := by
  simp only [typeBefore, Option.bind_eq_bind, Option.bind_eq_some_iff] at h
  obtain ⟨⟨token, rest⟩, htoken, h⟩ := h
  split at h
  · next hmarks =>
      obtain ⟨⟨base, further⟩, hbase, h⟩ := Option.bind_eq_some_iff.1 h
      obtain ⟨taken, rfl, -⟩ := (words_qualified (Option.some.inj h)).takes
      rw [← List.append_assoc] at hbase h
      obtain ⟨taken', rfl, -⟩ := steady_tokenBefore.takes hbase
      rw [← List.append_assoc] at htoken hbase
      rw [typeBefore, steady_tokenBefore.cut htoken]
      simp only [Option.bind_eq_bind, Option.bind_some, if_pos hmarks,
        steady_tokenBefore.cut hbase, qualified_cut (Option.some.inj h) hend]
      rfl
  · next hmarks =>
      obtain ⟨taken, rfl, -⟩ := (words_qualified (Option.some.inj h)).takes
      rw [← List.append_assoc] at htoken h
      rw [typeBefore, steady_tokenBefore.cut htoken]
      simp only [Option.bind_eq_bind, Option.bind_some, if_neg hmarks,
        qualified_cut (Option.some.inj h) hend]
      rfl

theorem begins_typeBefore {before type left : List Char}
    (h : typeBefore before = some (type, left)) :
    Begins before left ∧ left.length < before.length := by
  simp only [typeBefore, Option.bind_eq_bind, Option.bind_eq_some_iff] at h
  obtain ⟨⟨token, rest⟩, htoken, h⟩ := h
  obtain ⟨hbegins, hlength⟩ := begins_tokenBefore htoken
  split at h
  · obtain ⟨⟨base, further⟩, hbase, h⟩ := Option.bind_eq_some_iff.1 h
    obtain ⟨hbegins', hlength'⟩ := begins_tokenBefore hbase
    have hwords := words_qualified (Option.some.inj h)
    exact ⟨(hbegins.trans hbegins').trans hwords.begins,
      Nat.lt_of_le_of_lt hwords.takes.length_le (Nat.lt_trans hlength' hlength)⟩
  · have hwords := words_qualified (Option.some.inj h)
    exact ⟨hbegins.trans hwords.begins, Nat.lt_of_le_of_lt hwords.takes.length_le hlength⟩

end Header
end NativeHooks
