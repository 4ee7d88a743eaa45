/-
# A declaration stands on its own

A declaration is read back from its own text: where the text around it is cut off, every
part of it is found again, and nothing is found before it (`ofHeader_fullText`).

The readers of heads end in the same place because they are steady.  The readers of bodies
are *prompt*: they stop with a character of their own, without looking at what follows
(`Prompt`), and leave the body and at most one string open, so what they leave starts
within the body.  What a string holds is settled before its body is closed
(`quoted_of_closing`).

Only the spaces at the ends of a declaration would make a difference, as they are trimmed.
A head begins with no blank, so there are none in a header all of whose spaces are blanks.
-/

import NativeHooks.Proofs.Header.Locality
import NativeHooks.Proofs.Header.RoundTrip
import NativeHooks.Proofs.Header.Taken

namespace NativeHooks
namespace Header

open Text

/-! ### Closed bodies -/

/-- A body inside a body is closed. -/
theorem closing_inner (d : Nat) (rest : List Char) :
    closing (d + 1) false ('}' :: rest) = (closing d false rest).map ('}' :: ·) :=
  rfl

/-- **A closed body is read to its end,** which is a brace. -/
theorem closing_closed {d : Nat} {inString : Bool} {w inner : List Char}
    (h : closing d inString w = some inner) :
    closing d inString inner = some inner ∧ inner.getLast? = some '}' := by
  have hstep : ∀ {c : Char} {d e : Nat} {b b' : Bool} {w inner : List Char},
      (∀ rest, closing d b (c :: rest) = (closing e b' rest).map (c :: ·)) →
      (∀ {inner}, closing e b' w = some inner →
        closing e b' inner = some inner ∧ inner.getLast? = some '}') →
      closing d b (c :: w) = some inner →
        closing d b inner = some inner ∧ inner.getLast? = some '}' := by
    intro c d e b b' w inner hread ih h
    rw [hread] at h
    obtain ⟨left, hleft, rfl⟩ := Option.map_eq_some_iff.1 h
    obtain ⟨hclosed, hlast⟩ := ih hleft
    refine ⟨by rw [hread, hclosed, Option.map_some], ?_⟩
    cases left with
    | nil => exact absurd hlast.symm (Option.some_ne_none _)
    | cons a left => rw [List.getLast?_cons_cons, hlast]
  induction w generalizing d inString inner with
  | nil => exact absurd h.symm (Option.some_ne_none _)
  | cons c w ih =>
      cases inString with
      | true => exact hstep (closing_inString d c) ih h
      | false =>
          by_cases hquote : c = '"'
          · subst hquote
            exact hstep (closing_beginString d) ih h
          by_cases hopen : c = '{'
          · subst hopen
            exact hstep (closing_open d) ih h
          by_cases hclose : c = '}'
          · subst hclose
            cases d with
            | zero =>
                obtain rfl : ['}'] = inner := Option.some.inj h
                exact ⟨rfl, rfl⟩
            | succ d => exact hstep (closing_inner d) ih h
          · exact hstep (closing_char (isBodyChar_iff.2 ⟨hquote, hopen, hclose⟩) d) ih h

/-- A string inside a body that is closed ends before the body does. -/
theorem exists_of_closing_true {d : Nat} {s t : List Char} (h : closing d true s = some t) :
    ∃ content c u v, s = content ++ c :: u ∧ t = content ++ c :: v ∧
      (∀ a ∈ content, (a != '"' && a != '\n') = true) ∧ (c = '"' ∨ c = '\n') := by
  induction s generalizing t with
  | nil => exact absurd h.symm (Option.some_ne_none _)
  | cons c s ih =>
      rw [closing_inString] at h
      obtain ⟨left, hleft, rfl⟩ := Option.map_eq_some_iff.1 h
      by_cases hc : (c != '"' && c != '\n') = true
      · rw [hc] at hleft
        obtain ⟨content, a, u, v, rfl, rfl, hcontent, ha⟩ := ih hleft
        exact ⟨c :: content, a, u, v, rfl, rfl, List.forall_mem_cons.2 ⟨hc, hcontent⟩, ha⟩
      · refine ⟨[], c, s, left, rfl, rfl, fun a ha => absurd ha List.not_mem_nil, ?_⟩
        by_cases hquote : c = '"'
        · exact .inl hquote
        · exact .inr (by simpa [hquote] using hc)

/-- **What a string holds is settled in the body that it stands in.** -/
theorem quoted_of_closing {d : Nat} {s t : List Char} (h : closing d true s = some t) :
    quoted t = quoted s := by
  obtain ⟨content, c, u, v, rfl, rfl, hcontent, hc⟩ := exists_of_closing_true h
  have hend : (c != '"' && c != '\n') = false := by
    rcases hc with rfl | rfl <;> rfl
  rw [quoted, quoted, takeWhile_run hcontent hend, takeWhile_run hcontent hend,
    dropWhile_run hcontent hend, dropWhile_run hcontent hend]
  rcases hc with rfl | rfl <;> rfl

/-! ### Prompt readers -/

/-- In a body, the text `w` closes nothing: `e` braces more are open after it, and perhaps
a string. -/
def StaysOpen (w : List Char) (e : Nat) (inString : Bool) : Prop :=
  ∀ d rest, closing d false (w ++ rest) = (closing (d + e) inString rest).map (w ++ ·)

theorem StaysOpen.append {u v : List Char} {e e' : Nat} {inString : Bool}
    (hu : StaysOpen u e false) (hv : StaysOpen v e' inString) :
    StaysOpen (u ++ v) (e + e') inString := by
  intro d rest
  rw [List.append_assoc, hu, hv, Option.map_map, Nat.add_assoc]
  simp only [Function.comp_def, List.append_assoc]

theorem staysOpen_of_forall {w : List Char} (hw : ∀ c ∈ w, isBodyChar c = true) :
    StaysOpen w 0 false :=
  closing_append hw

theorem staysOpen_of_all {w : List Char} (hw : w.all isBodyChar = true) : StaysOpen w 0 false :=
  staysOpen_of_forall (List.all_eq_true.1 hw)

theorem staysOpen_brace : StaysOpen ['{'] 1 false := closing_open

theorem staysOpen_quote : StaysOpen ['"'] 0 true := closing_beginString

/-- A reader in a body that begins with a character of the class `starts`, stops without
looking at what it leaves, and leaves its body open; `inString` says that it stops in a
string. -/
def Prompt (starts : Char → Bool) (inString : Bool) (read : List Char → Option (List Char)) :
    Prop :=
  ∀ cs left, read cs = some left → ∃ c w e, starts c = true ∧ cs = c :: w ++ left ∧
    StaysOpen (c :: w) e inString ∧ ∀ more, read (c :: w ++ more) = some more

section Prompt

variable {starts starts' p : Char → Bool} {inString : Bool}
  {read next : List Char → Option (List Char)}

/-- One reader goes on where another one stopped. -/
theorem Prompt.bind (h : Prompt starts false read) (hnext : Prompt starts' inString next) :
    Prompt starts inString fun cs => (read cs).bind next := by
  intro cs left hread
  obtain ⟨middle, hmiddle, hleft⟩ := Option.bind_eq_some_iff.1 hread
  obtain ⟨c, w, e, hc, rfl, hopen, hmore⟩ := h _ _ hmiddle
  obtain ⟨c', w', e', -, rfl, hopen', hmore'⟩ := hnext _ _ hleft
  refine ⟨c, w ++ c' :: w', e + e', hc, (List.append_assoc ..).symm, hopen.append hopen', ?_⟩
  intro more
  show (read (c :: w ++ c' :: w' ++ more)).bind next = some more
  rw [List.append_assoc, hmore, Option.bind_some, hmore']

/-- A reader that goes over a run of `p` first stops where the other one does. -/
theorem Prompt.skip (h : Prompt starts inString read) (hp : ∀ c, starts c = true → p c = false)
    (hbody : ∀ c, p c = true → isBodyChar c = true) :
    Prompt (fun c => p c || starts c) inString fun cs => read (cs.dropWhile p) := by
  intro cs left hread
  obtain ⟨c, w, e, hc, hcs, hopen, hmore⟩ := h _ _ hread
  have hrun : ∀ a ∈ cs.takeWhile p, p a = true := fun a ha => List.mem_takeWhile_imp ha
  have hsplit : cs = cs.takeWhile p ++ (c :: w ++ left) := by
    rw [← hcs, List.takeWhile_append_dropWhile]
  have hopen' := (staysOpen_of_forall fun a ha => hbody a (hrun a ha)).append hopen
  have hmore' : ∀ more, read ((cs.takeWhile p ++ c :: w ++ more).dropWhile p) = some more := by
    intro more
    rw [List.append_assoc, List.cons_append, dropWhile_run hrun (hp c hc), ← List.cons_append,
      hmore]
  rcases hrunAt : cs.takeWhile p with _ | ⟨a, run⟩ <;> rw [hrunAt] at hrun hsplit hopen' hmore'
  · exact ⟨c, w, _, Bool.or_eq_true_iff.2 (.inr hc), hsplit, hopen', hmore'⟩
  · exact ⟨a, run ++ c :: w, _, Bool.or_eq_true_iff.2 (.inl (hrun a List.mem_cons_self)),
      hsplit.trans (List.append_assoc ..).symm, hopen', hmore'⟩

/-- The same if the run may not be empty. -/
theorem Prompt.skipSome (h : Prompt starts inString read) (hp : ∀ c, starts c = true → p c = false)
    (hbody : ∀ c, p c = true → isBodyChar c = true) :
    Prompt p inString fun cs => (afterSome p cs).bind read := by
  intro cs left hread
  cases cs with
  | nil => exact absurd hread.symm (Option.some_ne_none _)
  | cons a cs =>
      have hsome : ∀ rest, afterSome p (a :: rest)
          = if p a = true then some (rest.dropWhile p) else none := fun _ => rfl
      simp only [hsome] at hread
      split at hread
      · next ha =>
          obtain ⟨c, w, e, -, rfl, hopen, hmore⟩ := h.skip hp hbody cs left hread
          have hsingle : StaysOpen [a] 0 false :=
            staysOpen_of_forall (List.forall_mem_singleton.2 (hbody a ha))
          refine ⟨a, c :: w, _, ha, rfl, hsingle.append hopen, fun more => ?_⟩
          simp only [List.cons_append, hsome, if_pos ha]
          exact hmore more
      · exact absurd hread.symm (Option.some_ne_none _)

/-- A fixed text. -/
theorem prompt_fixed {c : Char} {w : List Char} {e : Nat} (h : StaysOpen (c :: w) e inString) :
    Prompt (· == c) inString fun cs => (c :: w).isPrefixOf? cs := by
  intro cs left hread
  exact ⟨c, w, e, beq_self_eq_true c, (List.isPrefixOf?_eq_some_iff_append_eq.1 hread).symm, h,
    fun more => List.isPrefixOf?_eq_some_iff_append_eq.2 rfl⟩

end Prompt

/-! ### Shapes are read promptly -/

section Shapes

variable {starts : Char → Bool} {inString : Bool} {parts : List Part}

theorem isBodyChar_of_isSpace {c : Char} (h : isSpace c = true) : isBodyChar c = true := by
  refine isBodyChar_iff.2 ⟨?_, ?_, ?_⟩ <;>
    · rintro rfl
      exact absurd h (by decide)

theorem isBodyChar_of_isWord {c : Char} (h : isWord c = true) : isBodyChar c = true := by
  refine isBodyChar_iff.2 ⟨?_, ?_, ?_⟩ <;>
    · rintro rfl
      exact absurd h (by decide)

/-- A class without a character, if that is all that a reader may begin with. -/
theorem eq_false_of_beq {p : Char → Bool} {d : Char} (hd : p d = false) :
    ∀ c, (c == d) = true → p c = false := by
  intro c hc
  rw [eq_of_beq hc, hd]

theorem prompt_text {s : String} {c : Char} {w : List Char} {e : Nat} (hs : s.toList = c :: w)
    (h : StaysOpen (c :: w) e inString) : Prompt (· == c) inString (afterShape [.text s]) := by
  have hread : afterShape [.text s] = fun cs => (c :: w).isPrefixOf? cs := by
    funext cs
    rw [← hs, afterShape, Part.after]
    cases s.toList.isPrefixOf? cs <;> rfl
  rw [hread]
  exact prompt_fixed h

theorem Prompt.text {s : String} {c : Char} {w : List Char} {e : Nat}
    (h : Prompt starts inString (afterShape parts)) (hs : s.toList = c :: w)
    (hopen : StaysOpen (c :: w) e false) :
    Prompt (· == c) inString (afterShape (.text s :: parts)) := by
  have hread : afterShape (.text s :: parts)
      = fun cs => ((c :: w).isPrefixOf? cs).bind (afterShape parts) := by
    funext cs
    rw [← hs]
    rfl
  rw [hread]
  exact (prompt_fixed hopen).bind h

theorem Prompt.spaces (h : Prompt starts inString (afterShape parts))
    (hstarts : ∀ c, starts c = true → isSpace c = false) :
    Prompt (fun c => isSpace c || starts c) inString (afterShape (.spaces :: parts)) :=
  h.skip hstarts fun _ => isBodyChar_of_isSpace

theorem Prompt.gap (h : Prompt starts inString (afterShape parts))
    (hstarts : ∀ c, starts c = true → isSpace c = false) :
    Prompt isSpace inString (afterShape (.gap :: parts)) :=
  h.skipSome hstarts fun _ => isBodyChar_of_isSpace

theorem Prompt.word (h : Prompt starts inString (afterShape parts))
    (hstarts : ∀ c, starts c = true → isWord c = false) :
    Prompt isWord inString (afterShape (.word :: parts)) :=
  h.skipSome hstarts fun _ => isBodyChar_of_isWord

end Shapes

theorem prompt_fieldShape :
    Prompt (fun c => isSpace c || c == 'r') false (afterShape fieldShape) := by
  have hangle : Prompt (· == '<') false (afterShape [.text "<"]) :=
    prompt_text rfl (staysOpen_of_all rfl)
  have hword := (hangle.spaces (eq_false_of_beq (by decide))).word fun c hc => by
    rcases Bool.or_eq_true_iff.1 hc with hspace | hangle
    · by_contra hword
      exact absurd hspace (by simp [isSpace_eq_false_of_isWord (by simpa using hword)])
    · exact eq_false_of_beq (by decide) c hangle
  have hstar := (hword.spaces fun c => isSpace_eq_false_of_isWord).text (s := "*") rfl
    (staysOpen_of_all rfl)
  exact ((hstar.gap (eq_false_of_beq (by decide))).text (s := "return") rfl
    (staysOpen_of_all rfl)).spaces (eq_false_of_beq (by decide))

theorem prompt_bitFieldShape :
    Prompt (fun c => isSpace c || c == 'r') true (afterShape bitFieldShape) := by
  have hquote : Prompt (· == '"') true (afterShape [.text "\""]) := prompt_text rfl staysOpen_quote
  have hcomma := (hquote.spaces (eq_false_of_beq (by decide))).text (s := ",") rfl
    (staysOpen_of_all rfl)
  have hthis := (hcomma.spaces (eq_false_of_beq (by decide))).text (s := "this") rfl
    (staysOpen_of_all rfl)
  have hbrace := (hthis.spaces (eq_false_of_beq (by decide))).text (s := "\x7b") rfl staysOpen_brace
  exact ((hbrace.spaces (eq_false_of_beq (by decide))).text (s := "return") rfl
    (staysOpen_of_all rfl)).spaces (eq_false_of_beq (by decide))

theorem prompt_callShape : Prompt (· == 'N') false (afterShape callShape) := by
  have hangle : Prompt (· == '<') false (afterShape [.text "<"]) :=
    prompt_text rfl (staysOpen_of_all rfl)
  exact (hangle.spaces (eq_false_of_beq (by decide))).text rfl (staysOpen_of_all rfl)

/-- A call that is not returned is not returned whatever follows it. -/
theorem afterShape_return_eq_none {cs rest : List Char}
    (h : afterShape (.spaces :: callShape) cs = some rest) :
    afterShape ([.spaces, .text "return", .gap] ++ callShape) cs = none := by
  have hcall : ("NativeCall".toList.isPrefixOf? (cs.dropWhile isSpace)).bind
      (afterShape [.spaces, .text "<"]) = some rest := h
  obtain ⟨left, hleft, -⟩ := Option.bind_eq_some_iff.1 hcall
  have hreturn : "return".toList.isPrefixOf? (cs.dropWhile isSpace) = none := by
    rw [← List.isPrefixOf?_eq_some_iff_append_eq.1 hleft]
    rfl
  show ("return".toList.isPrefixOf? (cs.dropWhile isSpace)).bind (afterShape (.gap :: callShape))
    = none
  rw [hreturn, Option.bind_none]

theorem prompt_afterCall : Prompt (fun _ => true) false afterCall := by
  have hcall : Prompt (fun c => isSpace c || c == 'N') false (afterShape (.spaces :: callShape)) :=
    prompt_callShape.spaces (eq_false_of_beq (by decide))
  have hreturn : Prompt (fun c => isSpace c || c == 'r') false
      (afterShape ([.spaces, .text "return", .gap] ++ callShape)) :=
    ((prompt_callShape.gap (eq_false_of_beq (by decide))).text (s := "return") rfl
      (staysOpen_of_all rfl)).spaces (eq_false_of_beq (by decide))
  intro cs left hread
  rw [afterCall] at hread
  split at hread
  · next found hfound =>
      obtain rfl := Option.some.inj hread
      obtain ⟨c, w, e, -, hcs, hopen, hmore⟩ := hreturn _ _ hfound
      refine ⟨c, w, e, rfl, hcs, hopen, fun more => ?_⟩
      rw [afterCall, hmore]
  · obtain ⟨c, w, e, -, hcs, hopen, hmore⟩ := hcall _ _ hread
    refine ⟨c, w, e, rfl, hcs, hopen, fun more => ?_⟩
    rw [afterCall, afterShape_return_eq_none (hmore more)]
    exact hmore more

/-! ### Native calls are read promptly -/

/-- What one character does to a forward reader inside `d` brackets, whatever follows it: it
ends the reading, with success or without, or is read. -/
def StepsOn (read : Nat → List Char → Option (List Char)) (d : Nat) (c : Char) : Prop :=
  (∀ cs, read d (c :: cs) = none) ∨
    isBodyChar c = true ∧
      ((∀ cs, read d (c :: cs) = some cs) ∨ ∃ e, ∀ cs, read d (c :: cs) = read e cs)

/-- **A reader that counts brackets is prompt** if it does not end where the text does. -/
theorem prompt_of_stepsOn {read : Nat → List Char → Option (List Char)}
    (hsteps : ∀ d c, StepsOn read d c) (hnil : ∀ d, read d [] = none) (d : Nat) :
    Prompt (fun _ => true) false (read d) := by
  intro cs left hread
  induction cs generalizing d with
  | nil => exact absurd ((hnil d).symm.trans hread) (Option.some_ne_none _).symm
  | cons a cs ih =>
      rcases hsteps d a with hstep | ⟨ha, hstep⟩
      · exact absurd ((hstep cs).symm.trans hread) (Option.some_ne_none _).symm
      · have hopen : StaysOpen [a] 0 false := staysOpen_of_forall (List.forall_mem_singleton.2 ha)
        rcases hstep with hstep | ⟨e, hstep⟩
        · obtain rfl := Option.some.inj ((hstep cs).symm.trans hread)
          exact ⟨a, [], 0, rfl, rfl, hopen, hstep⟩
        · obtain ⟨c, w, f, -, rfl, hopen', hmore⟩ := ih e ((hstep cs).symm.trans hread)
          exact ⟨a, c :: w, 0 + f, rfl, rfl, hopen.append hopen', fun more =>
            (hstep _).trans (hmore more)⟩

theorem prompt_afterTypes (d : Nat) : Prompt (fun _ => true) false (afterTypes d) := by
  refine prompt_of_stepsOn (fun d c => ?_) (fun _ => rfl) d
  by_cases hopen : c = '<'
  · subst hopen
    exact .inr ⟨rfl, .inr ⟨d + 1, fun cs => by rw [afterTypes.eq_def]; rfl⟩⟩
  by_cases hclose : c = '>'
  · subst hclose
    cases d with
    | zero => exact .inr ⟨rfl, .inl fun _ => rfl⟩
    | succ d => exact .inr ⟨rfl, .inr ⟨d, fun _ => rfl⟩⟩
  by_cases hend : c = ';' ∨ c = '{' ∨ c = '}' ∨ c = '"'
  · refine .inl fun cs => ?_
    rw [afterTypes.eq_def]
    simp only [if_neg hopen, if_neg hclose, if_pos hend]
  · refine .inr ⟨isBodyChar_iff.2 ?_, .inr ⟨d, fun cs => ?_⟩⟩
    · simp only [not_or] at hend
      exact ⟨hend.2.2.2, hend.2.1, hend.2.2.1⟩
    · rw [afterTypes.eq_def]
      simp only [if_neg hopen, if_neg hclose, if_neg hend]

theorem prompt_afterReceiver (d : Nat) : Prompt (fun _ => true) false (afterReceiver d) := by
  refine prompt_of_stepsOn (fun d c => ?_) (fun _ => rfl) d
  have hread : ∀ cs, afterReceiver d (c :: cs) = if c = '(' ∨ c = '<' then afterReceiver (d + 1) cs
      else if (c = ')' ∨ c = '>') ∧ 0 < d then afterReceiver (d - 1) cs
      else if c = ')' ∨ c = ';' ∨ c = '{' ∨ c = '}' ∨ c = '"' then none
      else if c = ',' ∧ d = 0 then some cs else afterReceiver d cs := fun _ => rfl
  by_cases hopen : c = '(' ∨ c = '<'
  · exact .inr ⟨by rcases hopen with rfl | rfl <;> rfl,
      .inr ⟨d + 1, fun cs => by rw [hread, if_pos hopen]⟩⟩
  by_cases hclose : (c = ')' ∨ c = '>') ∧ 0 < d
  · exact .inr ⟨by rcases hclose.1 with rfl | rfl <;> rfl,
      .inr ⟨d - 1, fun cs => by rw [hread, if_neg hopen, if_pos hclose]⟩⟩
  by_cases hend : c = ')' ∨ c = ';' ∨ c = '{' ∨ c = '}' ∨ c = '"'
  · exact .inl fun cs => by rw [hread, if_neg hopen, if_neg hclose, if_pos hend]
  refine .inr ⟨isBodyChar_iff.2 ?_, ?_⟩
  · simp only [not_or] at hend
    exact ⟨hend.2.2.2.2, hend.2.2.1, hend.2.2.2.1⟩
  by_cases hcomma : c = ',' ∧ d = 0
  · exact .inl fun cs => by rw [hread, if_neg hopen, if_neg hclose, if_neg hend, if_pos hcomma]
  · exact .inr ⟨d, fun cs => by rw [hread, if_neg hopen, if_neg hclose, if_neg hend, if_neg hcomma]⟩

/-- A mark is a fixed text behind blanks. -/
theorem afterMark_eq (c : Char) (cs : List Char) :
    afterMark c cs = [c].isPrefixOf? (cs.dropWhile isBlank) := by
  rw [afterMark]
  cases cs.dropWhile isBlank with
  | nil => rfl
  | cons d rest =>
      by_cases hd : d = c
      · simp [hd, List.isPrefixOf?]
      · simp [hd, List.isPrefixOf?, Ne.symm hd]

theorem prompt_afterMark {c : Char} {e : Nat} {inString : Bool} (h : StaysOpen [c] e inString)
    (hblank : isBlank c = false) :
    Prompt (fun d => isBlank d || d == c) inString (afterMark c) := by
  rw [funext (afterMark_eq c)]
  refine (prompt_fixed h).skip (eq_false_of_beq hblank) fun d hd => ?_
  exact isBodyChar_of_isSpace (isSpace_of_isBlank hd)

/-- What follows the quote that opens the key of a native call, after `NativeCall<`. -/
def afterKeyQuote (call : List Char) : Option (List Char) :=
  ((afterTypes 0 call).bind (afterMark '(')).bind fun arguments =>
    (afterReceiver 0 arguments).bind (afterMark '"')

theorem nativeSignature_eq (call : List Char) :
    nativeSignature call = (afterKeyQuote call).map fun key => trim (quoted key) := by
  rw [nativeSignature, afterKeyQuote]
  cases (afterTypes 0 call).bind (afterMark '(') with
  | none => rfl
  | some arguments =>
      rw [Option.bind_some, Option.bind_eq_bind, Option.bind_some]
      cases (afterReceiver 0 arguments).bind (afterMark '"') <;> rfl

theorem prompt_afterKeyQuote : Prompt (fun _ => true) true afterKeyQuote := by
  have hparen : StaysOpen ['('] 0 false := staysOpen_of_all rfl
  exact ((prompt_afterTypes 0).bind (prompt_afterMark hparen rfl)).bind
    ((prompt_afterReceiver 0).bind (prompt_afterMark staysOpen_quote rfl))

/-- **What a prompt reader finds is found in the body alone,** and what it leaves of the
text starts within the body. -/
theorem Prompt.inner {starts : Char → Bool} {inString : Bool}
    {read : List Char → Option (List Char)} (h : Prompt starts inString read)
    {cs left inner : List Char} (hread : read cs = some left)
    (hclosing : closing 0 false cs = some inner) :
    ∃ left', read inner = some left' ∧ ∃ e, closing e inString left = some left' := by
  obtain ⟨c, w, e, -, rfl, hopen, hmore⟩ := h cs left hread
  rw [hopen] at hclosing
  obtain ⟨left', hleft, rfl⟩ := Option.map_eq_some_iff.1 hclosing
  exact ⟨left', hmore left', _, hleft⟩

/-! ### Heads -/

/-- What is read of a head up to `left`: no brace opens in it, and it begins with no blank. -/
structure HeadText (before taken left : List Char) : Prop where
  eq_append : before = taken ++ left
  no_brace : '{' ∉ taken
  no_blank : ∀ c ∈ taken.getLast?, isBlank c = false

theorem headText_of_takes {before left : List Char} (h : Takes before left)
    (hbegins : Begins before left) : ∃ taken, HeadText before taken left := by
  obtain ⟨taken, hbefore, hbrace⟩ := h
  obtain ⟨taken', htaken', hblank⟩ := hbegins
  obtain rfl := List.append_cancel_right (hbefore.symm.trans htaken')
  exact ⟨taken, hbefore, hbrace, hblank⟩

section Head

variable {read : List Char → Option (List Char × List Char)}
  {before list rest name rest' type left : List Char}

/-- A list, a name before it and a type before that. -/
theorem takes_head (hread : Steady read) (hlist : read before = some (list, rest))
    (hname : identBefore rest = some (name, rest')) (htype : typeBefore rest' = some (type, left)) :
    Takes before left ∧ Begins before left := by
  have htakes := (hread.takes hlist).trans (steady_identBefore.takes hname)
  obtain ⟨hbegins, hlength⟩ := begins_typeBefore htype
  exact ⟨htakes.trans (takes_typeBefore htype), hbegins.of_takes htakes hlength⟩

/-- They are read the same if the text is cut off behind the words before them. -/
theorem head_cut (hread : Steady read) {far : List Char} (hlist : read before = some (list, rest))
    (hname : identBefore rest = some (name, rest'))
    (htype : typeBefore rest' = some (type, left ++ far)) (hend : WordsEnd left far)
    {taken : List Char} (hbefore : before = taken ++ left ++ far) :
    ∃ near near', read (taken ++ left) = some (list, near) ∧
      identBefore near = some (name, near') ∧ typeBefore near' = some (type, left) := by
  obtain ⟨u, rfl, -⟩ := takes_typeBefore htype
  obtain ⟨v, rfl, -⟩ := steady_identBefore.takes hname
  rw [← List.append_assoc] at hname htype
  rw [← List.append_assoc, ← List.append_assoc] at hlist hname
  rw [hbefore] at hlist
  exact ⟨v ++ u ++ left, u ++ left, hread.cut hlist, steady_identBefore.cut hname,
    typeBefore_cut htype hend⟩

end Head

/-- **The head of an accessor is found where it begins.** -/
theorem accessorHead_cut {before : List Char} {head : AccessorHead}
    (h : accessorHead before = some head) : ∃ taken, HeadText before taken head.before ∧
      accessorHead taken = some { head with before := [] } := by
  simp only [accessorHead, Option.bind_eq_bind, Option.bind_eq_some_iff] at h
  obtain ⟨⟨inner, rest⟩, hlist, ⟨⟩, hinner, ⟨name, rest'⟩, hname, ⟨type, far⟩, htype, h⟩ := h
  obtain rfl := Option.some.inj h
  obtain ⟨htakes, hbegins⟩ := takes_head steady_listBefore.blanks hlist hname htype
  obtain ⟨taken, htaken⟩ := headText_of_takes htakes hbegins
  have hbefore : before = taken ++ [] ++ far := by
    rw [List.append_nil]
    exact htaken.eq_append
  obtain ⟨near, near', hlist', hname', htype'⟩ :=
    head_cut steady_listBefore.blanks hlist hname htype (.inl rfl) hbefore
  rw [List.append_nil] at hlist'
  refine ⟨taken, htaken, ?_⟩
  simp only [accessorHead, hlist', Option.bind_eq_bind, Option.bind_some, hinner, hname', htype']
  rfl

/-- The head of a method. -/
structure MethodHead where
  parameters : List Char
  name : List Char
  type : List Char
  keywords : Keywords
  before : List Char

/-- The head of the method whose body opens after `before`. -/
def methodHead (before : List Char) : Option MethodHead := do
  let (parameters, rest) ← listBefore (dropSpecifier before)
  let (name, rest) ← identBefore rest
  let (type, rest) ← typeBefore rest
  let (keywords, rest) := keywordsBefore {} rest
  return ⟨parameters, name, type, keywords, rest⟩

/-- A method is read from its head and its native call. -/
theorem methodAt_eq (className : String) (o : Opening) :
    methodAt className o = (methodHead o.before).bind fun head =>
      if isAccessorName head.name = true then none
      else ((afterCall o.after).bind afterKeyQuote).map fun key =>
        { className, returnType := String.ofList head.type, name := String.ofList head.name,
          parameters := Parameter.readList head.parameters, isStatic := head.keywords.isStatic,
          isVirtual := head.keywords.isVirtual,
          nativeSignature := String.ofList (trim (quoted key)),
          fullText := declaration o head.before, sourceLabel := "" } := by
  rw [methodAt, methodHead]
  rcases afterCall o.after with _ | call
  · simp only [Option.bind_eq_bind, Option.bind_none, Option.map_none, ite_self]
    cases listBefore (dropSpecifier o.before) <;> simp
  rcases listBefore (dropSpecifier o.before) with _ | ⟨parameters, rest⟩
  · rfl
  simp only [Option.bind_eq_bind, Option.bind_some]
  rcases identBefore rest with _ | ⟨name, rest⟩
  · rfl
  simp only [Option.bind_some]
  rcases htype : typeBefore rest with _ | ⟨type, rest⟩
  · cases isAccessorName name <;> rfl
  simp only [Option.bind_some, Option.pure_def]
  cases isAccessorName name
  · rw [nativeSignature_eq]
    cases afterKeyQuote call <;> rfl
  · rfl

/-- **The head of a method is found where it begins.** -/
theorem methodHead_cut {before : List Char} {head : MethodHead}
    (h : methodHead before = some head) : ∃ taken, HeadText before taken head.before ∧
      methodHead taken = some { head with before := [] } := by
  simp only [methodHead, Option.bind_eq_bind, Option.bind_eq_some_iff] at h
  obtain ⟨⟨parameters, rest⟩, hlist, ⟨name, rest'⟩, hname, ⟨type, left⟩, htype, h⟩ := h
  rcases hkeywords : keywordsBefore {} left with ⟨keywords, far⟩
  simp only [hkeywords] at h
  obtain rfl := Option.some.inj h
  have hwords := words_keywordsBefore hkeywords
  obtain ⟨htakes, hbegins⟩ := takes_head steady_listBefore_dropSpecifier hlist hname htype
  obtain ⟨taken, htaken⟩ :=
    headText_of_takes (htakes.trans hwords.takes) (hbegins.trans hwords.begins)
  obtain ⟨near, rfl, -⟩ := hwords.takes
  obtain ⟨taken', hbefore, -⟩ := htakes
  obtain ⟨hkeywords', hend⟩ := keywordsBefore_cut hkeywords
  rw [← List.append_assoc] at hbefore
  obtain rfl := List.append_cancel_right (htaken.eq_append.symm.trans hbefore)
  obtain ⟨near₁, near₂, hlist', hname', htype'⟩ :=
    head_cut steady_listBefore_dropSpecifier hlist hname htype hend hbefore
  refine ⟨_, htaken, ?_⟩
  simp only [methodHead, hlist', Option.bind_eq_bind, Option.bind_some, hname', htype', hkeywords']
  rfl

/-! ### Declarations -/

/-- The text of a declaration whose body is closed, from its head `taken`. -/
theorem declaration_eq {o : Opening} {taken left inner : List Char}
    (htaken : HeadText o.before taken left) (hinner : closing 0 false o.after = some inner) :
    declaration o left = String.ofList (trim (taken.reverse ++ '{' :: inner)) := by
  have hbetween := between_append taken.reverse left
  rw [List.reverse_reverse, ← htaken.eq_append] at hbetween
  rw [declaration, hbetween, body, hinner, Option.getD_some]

/-- The text of a declaration is that of its own opening. -/
theorem declaration_own {o : Opening} {taken left inner : List Char}
    (htaken : HeadText o.before taken left) (hinner : closing 0 false o.after = some inner) :
    declaration ⟨taken, inner⟩ [] = declaration o left := by
  have hown : HeadText taken taken [] :=
    ⟨(List.append_nil _).symm, htaken.no_brace, htaken.no_blank⟩
  have hclosed : closing 0 false inner = some inner := (closing_closed hinner).1
  rw [declaration_eq htaken hinner, declaration_eq (o := ⟨taken, inner⟩) hown hclosed]

/-- A kind of declarations is *read from its own text* if a declaration at an opening is
found at the opening that is left of it where the text is cut off before its head and
after its body. -/
def Kind.OwnText {α : Type} (kind : Kind α) : Prop :=
  ∀ (className : String) (o : Opening) (d : α) (inner : List Char),
    kind.readAt className o = some d → closing 0 false o.after = some inner →
    ∃ taken left, HeadText o.before taken left ∧ kind.fullText d = declaration o left ∧
      ∀ other, kind.readAt other ⟨taken, inner⟩ = some (kind.retell other (kind.fullText d) d)

theorem methodKind_ownText : methodKind.OwnText := by
  intro className o d inner hread hinner
  have hmethod : methodAt className o = some d := hread
  rw [methodAt_eq] at hmethod
  obtain ⟨head, hhead, hmethod⟩ := Option.bind_eq_some_iff.1 hmethod
  obtain ⟨hname, hmethod⟩ := Option.ite_none_left_eq_some.1 hmethod
  obtain ⟨key, hkey, rfl⟩ := Option.map_eq_some_iff.1 hmethod
  obtain ⟨taken, htaken, hhead'⟩ := methodHead_cut hhead
  obtain ⟨key', hkey', e, hclosing⟩ :=
    (prompt_afterCall.bind prompt_afterKeyQuote).inner hkey hinner
  refine ⟨taken, head.before, htaken, rfl, fun other => ?_⟩
  show methodAt other ⟨taken, inner⟩ = _
  rw [methodAt_eq, hhead', Option.bind_some, if_neg hname, hkey', Option.map_some,
    quoted_of_closing hclosing, declaration_own htaken hinner]
  rfl

theorem fieldKind_ownText : fieldKind.OwnText := by
  intro className o d inner hread hinner
  have hfield : fieldAt className o = some d := hread
  simp only [fieldAt, Option.bind_eq_bind, Option.bind_eq_some_iff] at hfield
  obtain ⟨left, hshape, head, hhead, ⟨⟩, hname, hfield⟩ := hfield
  obtain rfl := Option.some.inj hfield
  obtain ⟨taken, htaken, hhead'⟩ := accessorHead_cut hhead
  obtain ⟨left', hshape', -⟩ := prompt_fieldShape.inner hshape hinner
  refine ⟨taken, head.before, htaken, rfl, fun other => ?_⟩
  show fieldAt other ⟨taken, inner⟩ = _
  simp only [fieldAt, hshape', hhead', Option.bind_eq_bind, Option.bind_some, hname,
    declaration_own htaken hinner]
  rfl

theorem bitFieldKind_ownText : bitFieldKind.OwnText := by
  intro className o d inner hread hinner
  have hbitField : bitFieldAt className o = some d := hread
  simp only [bitFieldAt, Option.bind_eq_bind, Option.bind_eq_some_iff] at hbitField
  obtain ⟨path, hshape, head, hhead, type, htype, hbitField⟩ := hbitField
  obtain rfl := Option.some.inj hbitField
  obtain ⟨taken, htaken, hhead'⟩ := accessorHead_cut hhead
  obtain ⟨path', hshape', e, hclosing⟩ := prompt_bitFieldShape.inner hshape hinner
  refine ⟨taken, head.before, htaken, rfl, fun other => ?_⟩
  show bitFieldAt other ⟨taken, inner⟩ = _
  simp only [bitFieldAt, hshape', hhead', Option.bind_eq_bind, Option.bind_some, htype,
    quoted_of_closing hclosing, declaration_own htaken hinner]
  rfl

/-! ### Headers -/

section OwnText

variable {α : Type} {kind : Kind α}

/-- **A declaration is the first one in its own text** if no space but blanks stands
before its brace. -/
theorem Kind.OwnText.head? (h : kind.OwnText) {className : String} {o : Opening} {d : α}
    (hread : kind.readAt className o = some d) (hclosed : (closing 0 false o.after).isSome)
    (hspaces : ∀ c ∈ o.before, isSpace c = true → isBlank c = true) (other : String) :
    ((openings (kind.fullText d).toList).filterMap (kind.readAt other)).head?
      = some (kind.retell other (kind.fullText d) d) := by
  obtain ⟨inner, hinner⟩ := Option.isSome_iff_exists.1 hclosed
  obtain ⟨taken, left, htaken, htext, hown⟩ := h className o d inner hread hinner
  have hlast : inner.getLast? = some '}' := (closing_closed hinner).2
  have htrim : trim (taken.reverse ++ '{' :: inner) = taken.reverse ++ '{' :: inner := by
    refine trim_eq_self (fun c hc => ?_) (fun c hc => ?_)
    · rw [List.head?_append, List.head?_reverse] at hc
      rcases hfirst : taken.getLast? with _ | a <;> rw [hfirst] at hc
      · obtain rfl : '{' = c := Option.some.inj hc
        rfl
      · obtain rfl : a = c := Option.some.inj hc
        have hmem : a ∈ o.before :=
          htaken.eq_append ▸ List.mem_append_left _ (List.mem_of_getLast? hfirst)
        by_contra hspace
        have hblank := hspaces a hmem (by simpa using hspace)
        exact absurd ((htaken.no_blank a hfirst).symm.trans hblank) Bool.false_ne_true
    · cases inner with
      | nil => exact absurd hlast.symm (Option.some_ne_none _)
      | cons a inner =>
          rw [List.getLast?_append_of_ne_nil _ (List.cons_ne_nil _ _), List.getLast?_cons_cons,
            hlast] at hc
          obtain rfl : '}' = c := Option.some.inj hc
          rfl
  have hopenings : openings (kind.fullText d).toList
      = ⟨taken, inner⟩ :: openingsAfter ('{' :: taken) inner := by
    have hbrace : '{' ∉ taken.reverse := fun hmem => htaken.no_brace (List.mem_reverse.1 hmem)
    rw [htext, declaration_eq htaken hinner, String.toList_ofList, htrim, openings,
      openingsAfter_pass hbrace, List.reverse_reverse, List.append_nil, openingsAfter_brace]
  rw [hopenings, List.filterMap_cons_some (hown other), List.head?_cons]

/-- What a header declares of one kind, `found`, is read from its places, and each
declaration whose body is closed is read again from its own text. -/
structure Kind.StandsAlone (kind : Kind α) (found : Declarations → List α) (text : String) :
    Prop where
  /-- The declarations are those at the places where they are located. -/
  located : (kind.located (Declarations.ofHeader text).className text.toList).map Prod.snd
    = found (Declarations.ofHeader text)
  /-- The first declaration in the text of a closed one is that one, but for its class. -/
  head? : ∀ place ∈ kind.located (Declarations.ofHeader text).className text.toList,
    (closing 0 false place.1.after).isSome →
      (found (Declarations.ofHeader (kind.fullText place.2))).head?
        = some (kind.retell (Declarations.ofHeader (kind.fullText place.2)).className
            (kind.fullText place.2) place.2)

theorem Kind.OwnText.standsAlone (h : kind.OwnText) {found : Declarations → List α}
    (hfound : ∀ text, found (Declarations.ofHeader text)
      = (openings text.toList).filterMap (kind.readAt (Declarations.ofHeader text).className))
    {text : String} (hspaces : ∀ c ∈ text.toList, isSpace c = true → isBlank c = true) :
    kind.StandsAlone found text where
  located := by rw [hfound, Kind.map_snd_located]
  head? := by
    intro place hplace hclosed
    obtain ⟨o, ho, hread⟩ := List.mem_filterMap.1 hplace
    obtain ⟨d, hd, rfl⟩ := Option.map_eq_some_iff.1 hread
    rw [hfound]
    refine h.head? hd hclosed (fun c hc => hspaces c ?_) _
    have htext : [].reverse ++ text.toList = o.before.reverse ++ '{' :: o.after :=
      eq_of_mem_openingsAfter ho
    rw [List.reverse_nil, List.nil_append] at htext
    rw [htext]
    exact List.mem_append_left _ (List.mem_reverse.2 hc)

end OwnText

/-- **A declaration stands on its own.**  In a header all of whose spaces are blanks, every
method, plain accessor and bit-field whose body is closed is the first of its kind in its
own text: nothing but its class depends on what stands around it. -/
theorem ofHeader_fullText {text : String}
    (hspaces : ∀ c ∈ text.toList, isSpace c = true → isBlank c = true) :
    methodKind.StandsAlone Declarations.methods text ∧
      fieldKind.StandsAlone Declarations.fields text ∧
      bitFieldKind.StandsAlone Declarations.bitFields text :=
  ⟨methodKind_ownText.standsAlone (fun _ => rfl) hspaces,
    fieldKind_ownText.standsAlone (fun _ => rfl) hspaces,
    bitFieldKind_ownText.standsAlone (fun _ => rfl) hspaces⟩

/-- A method between other members, whose type stands on a line of its own and whose key
holds a brace, is closed, and so it stands on its own. -/
theorem ofHeader_fullText_member :
    let text := "int B;\nstatic const TMap<int, bool> &\nF(int a) const\t"
      ++ "\x7b return NativeCall<int>(this, \"A.F\x7d\"); \x7d int C;"
    ((methodKind.located "A" text.toList).map fun place =>
        (place.2.nativeSignature, (closing 0 false place.1.after).isSome)) = [("A.F\x7d", true)] ∧
      methodKind.StandsAlone Declarations.methods text ∧
      fieldKind.StandsAlone Declarations.fields text ∧
      bitFieldKind.StandsAlone Declarations.bitFields text := by
  intro text
  have hblanks : text.toList.all (fun c => !isSpace c || isBlank c) = true := by decide +kernel
  refine ⟨by decide +kernel, ofHeader_fullText fun c hc hspace => ?_⟩
  simpa [hspace] using List.all_eq_true.1 hblanks c hc

end Header
end NativeHooks
