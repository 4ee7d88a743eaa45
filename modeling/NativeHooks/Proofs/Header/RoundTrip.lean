/-
# Reading a header gives back what was written

A written header has one opening for its class, one for every method and plain
accessor, and two for the accessor of a bit-field, whose body returns a pair in
braces.  Each opening is read on its own, and reads as what its line declares
or as nothing (`methods_openings`, `fields_openings`, `bitFields_openings`);
`ofHeader_written` puts the lines together again.
-/

import Mathlib.Data.Bool.AllAny
import NativeHooks.Proofs.Header.BodyReading
import NativeHooks.Proofs.Header.HeadReading

namespace NativeHooks
namespace Header

open Text

/-! ### Openings -/

/-- A brace is an opening, and reading goes on behind it. -/
theorem openingsAfter_brace (before after : List Char) :
    openingsAfter before ('{' :: after) = ⟨before, after⟩ :: openingsAfter ('{' :: before) after :=
  rfl

/-- A brace opens a body wherever it stands. -/
theorem mem_openings (head after : List Char) :
    (⟨head.reverse, after⟩ : Opening) ∈ openings (head ++ '{' :: after) := by
  rw [openings, openingsAfter_append, openingsAfter_brace, List.append_nil]
  exact List.mem_append_right _ List.mem_cons_self

/-- The opening of a declaration whose body holds no other. -/
theorem openingsAfter_declaration {head inner : List Char} (hhead : '{' ∉ head)
    (hinner : '{' ∉ inner) (before after : List Char) :
    openingsAfter before (head ++ ' ' :: '{' :: inner ++ after)
      = ⟨' ' :: (head.reverse ++ before), inner ++ after⟩
        :: openingsAfter ((head ++ ' ' :: '{' :: inner).reverse ++ before) after := by
  have hspace : '{' ∉ head ++ [' '] := by
    rw [List.mem_append, not_or]
    exact ⟨hhead, by decide⟩
  have htext : head ++ ' ' :: '{' :: inner ++ after = (head ++ [' ']) ++ '{' :: (inner ++ after) := by
    simp only [List.append_assoc, List.cons_append, List.nil_append]
  rw [htext, openingsAfter_pass hspace, openingsAfter_brace, openingsAfter_pass hinner,
    List.reverse_append, List.reverse_append, List.reverse_cons, List.reverse_cons]
  simp only [List.append_assoc, List.cons_append, List.nil_append, List.reverse_cons,
    List.reverse_nil]

/-- What stands between a rest and the end of the text that it was read from. -/
theorem between_append (w rest : List Char) : between (w.reverse ++ rest) rest = w := by
  rw [between, List.length_append, Nat.add_sub_cancel, List.take_left, List.reverse_reverse]

/-- The declaration at an opening is the text from its head to the end of its body. -/
theorem declaration_written {head inner before after : List Char}
    (hhead : ∃ c w, head = c :: w ∧ isSpace c = false)
    (hbody : body after = '{' :: inner) (hlast : ∀ c ∈ inner.getLast?, isSpace c = false) :
    declaration ⟨' ' :: (head.reverse ++ before), after⟩ before
      = String.ofList (head ++ ' ' :: '{' :: inner) := by
  have hbetween : between (' ' :: (head.reverse ++ before)) before = head ++ [' '] := by
    have := between_append (head ++ [' ']) before
    rwa [List.reverse_append] at this
  have htext : head ++ [' '] ++ '{' :: inner = head ++ ' ' :: '{' :: inner := by
    rw [List.append_assoc]
    rfl
  have htrim : trim (head ++ ' ' :: '{' :: inner) = head ++ ' ' :: '{' :: inner := by
    obtain ⟨a, w, rfl, ha⟩ := hhead
    refine trim_eq_self (fun c hc => ?_) (fun c hc => ?_)
    · rw [List.cons_append, List.head?_cons, Option.mem_some_iff] at hc
      rwa [← hc]
    · rw [List.getLast?_append_of_ne_nil _ (List.cons_ne_nil _ _), List.getLast?_cons_cons] at hc
      cases inner with
      | nil =>
          rw [List.getLast?_singleton, Option.mem_some_iff] at hc
          rw [← hc]
          rfl
      | cons a inner =>
          rw [List.getLast?_cons_cons] at hc
          exact hlast c hc
  rw [declaration, hbetween, hbody, htext, htrim]

/-- A text that a brace closes ends in no space. -/
theorem getLast?_closed (w : List Char) : ∀ c ∈ (w ++ ['}']).getLast?, isSpace c = false := by
  intro c hc
  rw [List.getLast?_concat, Option.mem_some_iff] at hc
  rw [← hc]
  rfl

/-! ### Shapes that a body has not -/

theorem fieldAt_eq_none {className : String} {o : Opening}
    (h : afterShape fieldShape o.after = none) : fieldAt className o = none := by
  rw [fieldAt, h]
  rfl

theorem bitFieldAt_eq_none {className : String} {o : Opening}
    (h : afterShape bitFieldShape o.after = none) : bitFieldAt className o = none := by
  rw [bitFieldAt, h]
  rfl

/-! ### Methods -/

theorem not_mem_keywordText (isStatic isVirtual : Bool) : '{' ∉ keywordText isStatic isVirtual := by
  cases isStatic <;> cases isVirtual <;> decide

namespace WrittenMethod

variable (m : WrittenMethod)

theorem not_mem_head : '{' ∉ m.head := by
  have hparameters : '{' ∉ m.parameterList := not_mem_of_class (isListChar_parameterList m) rfl
  have hspecifier : '{' ∉ (m.specifier.map Specifier.text).getD [] := by
    cases m.specifier with
    | none => exact List.not_mem_nil
    | some s => cases s <;> decide
  rw [head]
  simp only [List.mem_append, List.mem_cons, not_or, and_assoc]
  exact ⟨not_mem_keywordText _ _, m.returnType.not_mem_text rfl, by decide,
    m.name.not_mem_chars rfl, by decide, hparameters, by decide, hspecifier⟩

theorem isBodyChar_returnText : ∀ c ∈ m.returnText ++ "NativeCall<".toList, isBodyChar c = true := by
  rw [returnText]
  cases m.returns <;> exact List.all_eq_true.1 rfl

theorem isBodyChar_target : ∀ c ∈ m.target, isBodyChar c = true := by
  have htypes : ∀ c ∈ joined (m.types.map TypeName.text), isBodyChar c = true := by
    intro c hc
    have hends := (nested_typeTexts m.types).endsType_eq_false c hc
    refine isBodyChar_iff.2 ⟨?_, ?_, ?_⟩ <;>
      · rintro rfl
        exact absurd hends (by decide)
  have hreceiver : ∀ c ∈ ">(".toList ++ (if m.onObject then "this".toList else "nullptr".toList)
      ++ ", ".toList, isBodyChar c = true := by
    cases m.onObject <;> exact List.all_eq_true.1 rfl
  intro c hc
  rw [target, List.append_assoc, List.append_assoc, List.mem_append, ← List.append_assoc] at hc
  exact hc.elim (htypes c) (hreceiver c)

theorem isBodyChar_tail : ∀ c ∈ m.tail, isBodyChar c = true := by
  rw [tail]
  cases m.arguments with
  | none => exact List.all_eq_true.1 rfl
  | some a =>
      intro c hc
      simp only [Option.elim, List.mem_append] at hc
      rcases hc with (hc | hc) | hc
      · exact List.all_eq_true.1 (rfl : ", ".toList.all isBodyChar = true) c hc
      · exact isBodyChar_iff.2 ⟨fun h => a.noQuote (h ▸ hc), fun h => a.noOpen (h ▸ hc),
          fun h => a.noClose (h ▸ hc)⟩
      · exact List.all_eq_true.1 (rfl : "); ".toList.all isBodyChar = true) c hc

theorem isBodyChar_beforeKey :
    ∀ c ∈ m.returnText ++ "NativeCall<".toList ++ m.target, isBodyChar c = true := by
  intro c hc
  rcases List.mem_append.1 hc with hc | hc
  · exact m.isBodyChar_returnText c hc
  · exact m.isBodyChar_target c hc

theorem not_mem_inner : '{' ∉ m.inner := by
  have hbefore := not_mem_of_class (d := '{') m.isBodyChar_beforeKey rfl
  have htail : '{' ∉ m.tail := not_mem_of_class m.isBodyChar_tail rfl
  rw [inner]
  rw [List.append_assoc, List.append_assoc, List.mem_append, not_or]
  refine ⟨hbefore, ?_⟩
  simp only [List.mem_append, List.mem_cons, not_or, and_assoc]
  exact ⟨by decide, m.key.noBrace, by decide, htail, by decide, List.not_mem_nil⟩

theorem body_inner (rest : List Char) : body (m.inner ++ rest) = '{' :: m.inner := by
  have := body_written m.key rest m.isBodyChar_beforeKey m.isBodyChar_tail
  rw [inner]
  simp only [List.append_assoc, List.cons_append] at this ⊢
  exact this

theorem exists_cons_head : ∃ c w, m.head = c :: w ∧ isSpace c = false := by
  have hkeywords : ∃ c w, keywordText m.isStatic m.isVirtual ++ m.returnType.text = c :: w ∧
      isSpace c = false := by
    cases m.isStatic with
    | true => exact ⟨'s', _, rfl, rfl⟩
    | false =>
        cases m.isVirtual with
        | true => exact ⟨'v', _, rfl, rfl⟩
        | false => exact m.returnType.tidy_text.exists_cons
  obtain ⟨c, w, hw, hc⟩ := hkeywords
  rw [head, hw]
  exact ⟨c, _, rfl, hc⟩

/-- The head as it is met when it is read from its end. -/
theorem reverse_head (before : List Char) : m.head.reverse ++ before
    = ((m.specifier.map Specifier.text).getD []).reverse ++ ')' :: (m.parameterList.reverse
      ++ '(' :: (m.name.chars.reverse ++ ' ' :: (m.returnType.text.reverse
        ++ ((keywordText m.isStatic m.isVirtual).reverse ++ before)))) := by
  rw [head]
  simp only [List.reverse_append, List.reverse_cons, List.append_assoc, List.cons_append,
    List.nil_append]

theorem getLast?_inner : ∀ c ∈ m.inner.getLast?, isSpace c = false := by
  rw [inner]
  exact getLast?_closed _

/-- **A written method is read back** where its line starts. -/
theorem methodAt_written (className : String) {before : List Char} (h : AtLineStart before)
    (after : List Char) :
    methodAt className ⟨' ' :: (m.head.reverse ++ before), m.inner ++ after⟩
      = some (m.declared className) := by
  have hcall : afterCall (m.inner ++ after)
      = some (m.target ++ '"' :: m.key.chars ++ '"' :: (m.tail ++ ['}'] ++ after)) := by
    rw [← afterCall_written m, inner]
    simp only [List.append_assoc, List.cons_append]
  have hlist : listBefore (dropSpecifier (' ' :: (m.head.reverse ++ before)))
      = some (m.parameterList, m.name.chars.reverse ++ ' ' :: (m.returnType.text.reverse
        ++ ((keywordText m.isStatic m.isVirtual).reverse ++ before))) := by
    rw [reverse_head, dropSpecifier_written, listBefore_written (isListChar_parameterList m)]
  have hname : identBefore (m.name.chars.reverse ++ ' ' :: (m.returnType.text.reverse
      ++ ((keywordText m.isStatic m.isVirtual).reverse ++ before)))
        = some (m.name.chars, ' ' :: (m.returnType.text.reverse
          ++ ((keywordText m.isStatic m.isVirtual).reverse ++ before))) :=
    identBefore_run m.name.ne_nil m.name.isIdent_of_mem rfl
  have htype := typeBefore_typeName m.returnType
    (unqualified_keywordText m.isStatic m.isVirtual h)
  have hkeywords := keywordsBefore_written m.isStatic m.isVirtual h
  have hsignature := nativeSignature_written m (m.tail ++ ['}'] ++ after)
  have htext : declaration ⟨' ' :: (m.head.reverse ++ before), m.inner ++ after⟩ before
      = String.ofList m.text :=
    declaration_written m.exists_cons_head (m.body_inner after) m.getLast?_inner
  rw [methodAt]
  simp only [hcall, hlist, hname, m.isMethodName, htype, hkeywords, hsignature, htext,
    Option.bind_eq_bind, Option.bind_some, Bool.not_false, guard_true]
  rw [parameterList, readList_parameterList]
  rfl

/-- A written method is no accessor. -/
theorem afterShape_inner (after : List Char) :
    afterShape fieldShape (m.inner ++ after) = none ∧
      afterShape bitFieldShape (m.inner ++ after) = none := by
  have hshape : ∀ rest,
      afterShape fieldShape (m.returnText ++ ("NativeCall<".toList ++ rest)) = none ∧
        afterShape bitFieldShape (m.returnText ++ ("NativeCall<".toList ++ rest)) = none := by
    intro rest
    rw [returnText]
    cases m.returns <;> exact ⟨rfl, rfl⟩
  rw [inner]
  simp only [List.append_assoc]
  exact hshape _

end WrittenMethod

/-! ### Plain accessors -/

/-- Reading a shape is reading its first parts and then its last ones. -/
theorem afterShape_append (first last : List Part) (cs : List Char) :
    afterShape (first ++ last) cs = (afterShape first cs).bind (afterShape last) := by
  induction first generalizing cs with
  | nil => rfl
  | cons part first ih =>
      rw [List.cons_append, afterShape, afterShape, Option.bind_assoc]
      exact congrArg _ (funext ih)

/-- No qualifier stands before the start of a line. -/
theorem AtLineStart.unqualified {before : List Char} (h : AtLineStart before) :
    Unqualified before :=
  unqualified_keywordText false false h

namespace WrittenField

variable (f : WrittenField)

/-- What stands before the key of the accessor. -/
theorem isBodyChar_beforeKey : ∀ c ∈ " return *".toList ++ f.reader.chars ++ '<' :: f.target.text
    ++ ">(this, ".toList, isBodyChar c = true := by
  intro c hc
  simp only [List.mem_append, List.mem_cons, or_assoc] at hc
  rcases hc with hc | hc | rfl | hc | hc
  · exact List.all_eq_true.1 (rfl : " return *".toList.all isBodyChar = true) c hc
  · have hident := f.reader.isIdent_of_mem c hc
    exact isBodyChar_iff.2 ⟨ne_of_class hident rfl, ne_of_class hident rfl, ne_of_class hident rfl⟩
  · rfl
  · have htype := f.target.isTypeTextChar_text c hc
    exact isBodyChar_iff.2 ⟨ne_of_class htype rfl, ne_of_class htype rfl, ne_of_class htype rfl⟩
  · exact List.all_eq_true.1 (rfl : ">(this, ".toList.all isBodyChar = true) c hc

theorem body_inner (rest : List Char) : body (f.inner ++ rest) = '{' :: f.inner :=
  body_written f.key rest f.isBodyChar_beforeKey (List.all_eq_true.1 rfl)

theorem getLast?_inner : ∀ c ∈ f.inner.getLast?, isSpace c = false := by
  unfold inner
  exact getLast?_closed _

theorem not_mem_head : '{' ∉ f.head := by
  rw [head]
  simp only [List.mem_append, List.mem_cons, not_or, and_assoc]
  exact ⟨f.type.not_mem_text rfl, by decide, f.name.not_mem_chars rfl, by decide⟩

theorem not_mem_inner : '{' ∉ f.inner := by
  have hbefore := not_mem_of_class (d := '{') f.isBodyChar_beforeKey rfl
  unfold inner
  rw [List.append_assoc, List.append_assoc, List.mem_append, not_or]
  refine ⟨hbefore, ?_⟩
  simp only [List.mem_append, List.mem_cons, not_or, and_assoc]
  exact ⟨by decide, f.key.noBrace, by decide, by decide, by decide, List.not_mem_nil⟩

theorem exists_cons_head : ∃ c w, f.head = c :: w ∧ isSpace c = false := by
  obtain ⟨c, w, hw, hc⟩ := f.type.tidy_text.exists_cons
  rw [head, hw]
  exact ⟨c, _, rfl, hc⟩

/-- The body has the shape of a plain accessor. -/
theorem afterShape_inner (after : List Char) : (afterShape fieldShape (f.inner ++ after)).isSome := by
  have hfirst : ∀ rest, afterShape [.spaces, .text "return", .gap, .text "*"]
      (" return *".toList ++ rest) = some rest := fun _ => rfl
  have hlast : ∀ rest, afterShape [.spaces, .word, .spaces, .text "<"]
      (f.reader.chars ++ '<' :: rest) = some rest := by
    intro rest
    obtain ⟨c, w, hw, hc⟩ := f.reader.tidy.exists_cons
    have hword : ∀ a ∈ c :: w, isWord a = true := fun a ha =>
      isWord_of_isIdent (f.reader.isIdent_of_mem a (hw ▸ ha))
    have hreader : afterSome isWord (c :: w ++ '<' :: rest) = some ('<' :: rest) := by
      rw [List.cons_append, afterSome, if_pos (hword c List.mem_cons_self),
        dropWhile_run (fun a ha => hword a (List.mem_cons_of_mem _ ha)) rfl]
    have hspaces : (c :: w ++ '<' :: rest).dropWhile isSpace = c :: w ++ '<' :: rest := by
      refine dropWhile_eq_self fun a ha => ?_
      rw [List.cons_append, List.head?_cons, Option.mem_some_iff] at ha
      rwa [← ha]
    rw [hw, afterShape, Part.after, Option.bind_some, hspaces, afterShape, Part.after, hreader]
    rfl
  have hinner : ∃ rest, f.inner ++ after
      = " return *".toList ++ (f.reader.chars ++ '<' :: rest) := by
    unfold inner
    simp only [List.append_assoc, List.cons_append]
    exact ⟨_, rfl⟩
  obtain ⟨rest, hrest⟩ := hinner
  have hshape := afterShape_append [.spaces, .text "return", .gap, .text "*"]
    [.spaces, .word, .spaces, .text "<"] (f.inner ++ after)
  rw [hrest, hfirst, Option.bind_some, hlast] at hshape
  rw [hrest]
  exact Option.isSome_iff_exists.2 ⟨rest, hshape⟩

/-- **A written accessor is read back** where its line starts. -/
theorem fieldAt_written (className : String) {before : List Char} (h : AtLineStart before)
    (after : List Char) :
    fieldAt className ⟨' ' :: (f.head.reverse ++ before), f.inner ++ after⟩
      = some (f.declared className) := by
  obtain ⟨rest, hshape⟩ := Option.isSome_iff_exists.1 (f.afterShape_inner after)
  have hhead : accessorHead (' ' :: (f.head.reverse ++ before))
      = some ⟨f.type.text, f.name.chars, before⟩ :=
    accessorHead_written f.name (typeBefore_typeName f.type h.unqualified)
  have htext : declaration ⟨' ' :: (f.head.reverse ++ before), f.inner ++ after⟩ before
      = String.ofList f.text :=
    declaration_written f.exists_cons_head (f.body_inner after) f.getLast?_inner
  rw [fieldAt]
  simp only [hshape, hhead, f.isAccessorName, htext, Option.bind_eq_bind, Option.bind_some,
    guard_true]
  rfl

end WrittenField

/-! ### Accessors of bit-fields -/

namespace WrittenBitField

variable (b : WrittenBitField)

theorem nested_type : Nested false b.type := by
  have htypes : Nested true (joined [b.first.text, b.second.text]) :=
    nested_typeTexts [b.first, b.second]
  have hname : Nested false "BitFieldValue".toList := Nested.of_chars (List.all_eq_true.1 rfl)
  exact hname.append (.group htypes .nil)

theorem tidy_type : Tidy b.type := by
  have htypes : Tidy (joined [b.first.text, b.second.text]) := by
    refine tidy_joined (List.cons_ne_nil _ _) fun w hw => ?_
    simp only [List.mem_cons, List.not_mem_nil, or_false] at hw
    rcases hw with rfl | rfl
    · exact b.first.tidy_text
    · exact b.second.tidy_text
  have hname : Tidy ("BitFieldValue".toList ++ ['<']) :=
    tidy_of_forall (by decide) (isSpace_eq_false_of_any rfl)
  have := (hname.append htypes).append_forall (w := ['>']) (isSpace_eq_false_of_any rfl)
  rwa [List.append_assoc, List.append_assoc] at this

/-- **The type of a bit-field has one spelling**, the one it is written in. -/
theorem bitFieldType_type : bitFieldType b.type = some b.type := by
  have hname : "BitFieldValue".toList.isPrefixOf? b.type
      = some ('<' :: joined [b.first.text, b.second.text] ++ ['>']) := rfl
  have hopen : ['<'].isPrefixOf?
      (('<' :: joined [b.first.text, b.second.text] ++ ['>']).dropWhile isSpace)
        = some (joined [b.first.text, b.second.text] ++ ['>']) := rfl
  have hsplit : splitTopLevel ',' (joined [b.first.text, b.second.text])
      = [b.first.text, ' ' :: b.second.text] :=
    splitTopLevel_joined ⟨b.first.guarded_text, b.first.depth_text, b.second.guarded_text⟩
      b.first.tidy_text.ne_nil
  rw [bitFieldType, hname]
  simp only [Option.bind_eq_bind, Option.bind_some, hopen, List.getLast?_concat, guard_true,
    List.dropLast_concat, hsplit, b.first.tidy_text.trim, List.intercalate_singleton,
    b.second.tidy_text.trim_space]
  unfold type
  rw [joined_cons_cons, joined_singleton]
  simp only [List.append_assoc, List.cons_append]
  rfl

theorem not_mem_head : '{' ∉ b.head := by
  have htype : '{' ∉ b.type := not_mem_of_outside b.nested_type.endsType_eq_false rfl
  rw [head]
  simp only [List.mem_append, List.mem_cons, not_or, and_assoc]
  exact ⟨htype, by decide, b.name.not_mem_chars rfl, by decide⟩

theorem not_mem_pair : '{' ∉ b.pair := by
  unfold pair
  simp only [List.mem_append, List.mem_cons, not_or, and_assoc]
  exact ⟨by decide, by decide, b.path.noBrace, by decide, by decide, by decide, List.not_mem_nil⟩

/-- The pair closes in the body and the body closes after it. -/
theorem body_inner (rest : List Char) : body (b.inner ++ rest) = '{' :: b.inner := by
  have hfirst : ∀ c ∈ " return ".toList, isBodyChar c = true := List.all_eq_true.1 rfl
  have hthis : ∀ c ∈ " this, ".toList, isBodyChar c = true := List.all_eq_true.1 rfl
  have hend : closing 1 false (" \x7d; ".toList ++ '}' :: rest)
      = some (" \x7d; ".toList ++ ['}']) := rfl
  have hclosing : closing 0 false (b.inner ++ rest) = some b.inner := by
    unfold inner pair
    simp only [List.append_assoc, List.cons_append, List.nil_append]
    rw [closing_append hfirst, closing_open, closing_append hthis, closing_quote, hend]
    rfl
  rw [body, hclosing, Option.getD_some]

theorem getLast?_inner : ∀ c ∈ b.inner.getLast?, isSpace c = false := by
  have hinner : b.inner = " return ".toList ++ '{' :: (" this, ".toList ++ '"' :: b.path.chars
      ++ '"' :: " \x7d; ".toList) ++ ['}'] := by
    unfold inner pair
    simp only [List.append_assoc, List.cons_append]
  rw [hinner]
  exact getLast?_closed _

theorem exists_cons_head : ∃ c w, b.head = c :: w ∧ isSpace c = false := ⟨'B', _, rfl, rfl⟩

/-- **A written accessor of a bit-field is read back** where its line starts. -/
theorem bitFieldAt_written (className : String) {before : List Char} (h : AtLineStart before)
    (after : List Char) :
    bitFieldAt className ⟨' ' :: (b.head.reverse ++ before), b.inner ++ after⟩
      = some (b.declared className) := by
  have hshape : afterShape bitFieldShape (b.inner ++ after)
      = some (b.path.chars ++ '"' :: (" \x7d; ".toList ++ ['}'] ++ after)) := by
    unfold inner pair
    simp only [List.append_assoc, List.cons_append]
    rfl
  have hhead : accessorHead (' ' :: (b.head.reverse ++ before))
      = some ⟨b.type, b.name.chars, before⟩ :=
    accessorHead_written b.name (typeBefore_token b.nested_type b.tidy_type.ne_nil rfl h.unqualified)
  have htext : declaration ⟨' ' :: (b.head.reverse ++ before), b.inner ++ after⟩ before
      = String.ofList b.text :=
    declaration_written b.exists_cons_head (b.body_inner after) b.getLast?_inner
  rw [bitFieldAt]
  simp only [hshape, hhead, b.bitFieldType_type, htext, quoted_written, Option.bind_eq_bind,
    Option.bind_some]
  rfl

end WrittenBitField

/-! ### Lines -/

/-- The openings of a line between `before` and `after`. -/
def HeaderLine.openings (before after : List Char) : HeaderLine → List Opening
  | .method indent m =>
    [⟨' ' :: (m.head.reverse ++ (indent.chars.reverse ++ before)), m.inner ++ after⟩]
  | .field indent f =>
    [⟨' ' :: (f.head.reverse ++ (indent.chars.reverse ++ before)), f.inner ++ after⟩]
  | .bitField indent b =>
    [⟨' ' :: (b.head.reverse ++ (indent.chars.reverse ++ before)), b.inner ++ after⟩,
     ⟨" return ".toList.reverse ++ '{' :: ' ' :: (b.head.reverse ++ (indent.chars.reverse ++ before)),
      b.pair ++ after⟩]
  | .filler _ _ _ => []

theorem Indent.not_mem_chars (indent : Indent) : '{' ∉ indent.chars := by
  intro h
  rcases indent.spaceOrTab _ h with h | h <;> exact absurd h (by decide)

/-- The opening of a bit-field, and that of the pair its body returns. -/
theorem WrittenBitField.openingsAfter_text (b : WrittenBitField) (before after : List Char) :
    openingsAfter before (b.text ++ after)
      = ⟨' ' :: (b.head.reverse ++ before), b.inner ++ after⟩
        :: ⟨" return ".toList.reverse ++ '{' :: ' ' :: (b.head.reverse ++ before), b.pair ++ after⟩
        :: openingsAfter (b.text.reverse ++ before) after := by
  have hhead : '{' ∉ b.head ++ [' '] := by
    rw [List.mem_append, not_or]
    exact ⟨b.not_mem_head, by decide⟩
  have hreturn : '{' ∉ " return ".toList := by decide
  have htext : b.text = (b.head ++ [' ']) ++ '{' :: (" return ".toList ++ '{' :: b.pair) := by
    unfold text inner
    rw [List.append_assoc]
    rfl
  have hinner : b.inner = " return ".toList ++ '{' :: b.pair := rfl
  rw [htext, hinner, List.append_assoc, openingsAfter_pass hhead, List.cons_append,
    openingsAfter_brace, List.append_assoc, openingsAfter_pass hreturn, List.cons_append,
    openingsAfter_brace, openingsAfter_pass b.not_mem_pair]
  simp only [List.reverse_append, List.reverse_cons, List.append_assoc, List.cons_append,
    List.nil_append, List.reverse_nil]

/-- **The openings of a text are those of its lines**, one line after another. -/
theorem openingsAfter_line (line : HeaderLine) (before after : List Char) :
    openingsAfter before (line.text ++ after)
      = line.openings before after ++ openingsAfter (line.text.reverse ++ before) after := by
  have hindent : ∀ (indent : Indent) (w : List Char),
      (indent.chars ++ w).reverse ++ before = w.reverse ++ (indent.chars.reverse ++ before) := by
    intro indent w
    rw [List.reverse_append, List.append_assoc]
  cases line with
  | method indent m =>
      rw [HeaderLine.text, hindent, List.append_assoc, openingsAfter_pass indent.not_mem_chars,
        WrittenMethod.text, openingsAfter_declaration m.not_mem_head m.not_mem_inner]
      rfl
  | field indent f =>
      rw [HeaderLine.text, hindent, List.append_assoc, openingsAfter_pass indent.not_mem_chars,
        WrittenField.text, openingsAfter_declaration f.not_mem_head f.not_mem_inner]
      rfl
  | bitField indent b =>
      rw [HeaderLine.text, hindent, List.append_assoc, openingsAfter_pass indent.not_mem_chars,
        b.openingsAfter_text]
      rfl
  | filler chars noBrace noLineFeed => exact openingsAfter_pass noBrace before after

theorem Indent.atLineStart (indent : Indent) (rest : List Char) :
    AtLineStart (indent.chars.reverse ++ '\n' :: rest) :=
  ⟨indent.chars.reverse, rest, rfl, fun c hc => indent.spaceOrTab c (List.mem_reverse.1 hc)⟩

/-- The openings of a line declare the method of the line and no other. -/
theorem methods_openings (className : String) (line : HeaderLine) (rest after : List Char) :
    (line.openings ('\n' :: rest) after).filterMap (methodAt className)
      = (line.method? className).toList := by
  cases line with
  | method indent m =>
      rw [HeaderLine.openings, List.filterMap_cons, m.methodAt_written _ (indent.atLineStart rest)]
      rfl
  | field indent f => rfl
  | bitField indent b => rfl
  | filler => rfl

/-- The openings of a line declare the plain accessor of the line and no other. -/
theorem fields_openings (className : String) (line : HeaderLine) (rest after : List Char) :
    (line.openings ('\n' :: rest) after).filterMap (fieldAt className)
      = (line.field? className).toList := by
  cases line with
  | method indent m =>
      rw [HeaderLine.openings, List.filterMap_cons, fieldAt_eq_none (m.afterShape_inner after).1]
      rfl
  | field indent f =>
      rw [HeaderLine.openings, List.filterMap_cons, f.fieldAt_written _ (indent.atLineStart rest)]
      rfl
  | bitField indent b => rfl
  | filler => rfl

/-- The openings of a line declare the bit-field of the line and no other. -/
theorem bitFields_openings (className : String) (line : HeaderLine) (rest after : List Char) :
    (line.openings ('\n' :: rest) after).filterMap (bitFieldAt className)
      = (line.bitField? className).toList := by
  cases line with
  | method indent m =>
      rw [HeaderLine.openings, List.filterMap_cons, bitFieldAt_eq_none (m.afterShape_inner after).2]
      rfl
  | field indent f => rfl
  | bitField indent b =>
      rw [HeaderLine.openings, List.filterMap_cons,
        b.bitFieldAt_written _ (indent.atLineStart rest)]
      rfl
  | filler => rfl

/-! ### The class -/

/-- Where no parenthesis is closed, no list is found. -/
theorem listBefore_eq_none {before : List Char} (h : ')' ∉ before) : listBefore before = none := by
  cases before with
  | nil => rfl
  | cons c before =>
      rw [List.mem_cons, not_or] at h
      rw [listBefore]
      exact fun rest hrest => h.1 (List.cons.inj hrest).1.symm

/-- A specifier is dropped from the end of a text. -/
theorem dropSpecifier_suffix (before : List Char) : dropSpecifier before <:+ before := by
  rw [dropSpecifier]
  split
  · next word rest hword =>
      have hrest : rest <:+ before := by
        simp only [identBefore] at hword
        split at hword
        · exact absurd hword.symm (Option.some_ne_none _)
        · obtain ⟨-, rfl⟩ := Prod.mk.inj (Option.some.inj hword)
          exact (List.dropWhile_suffix _).trans (List.dropWhile_suffix _)
      split_ifs
      · exact (List.dropWhile_suffix _).trans hrest
      · exact List.dropWhile_suffix _
  · exact List.dropWhile_suffix _

/-- No declaration has its head where no parenthesis is closed. -/
theorem declares_nothing (className : String) {o : Opening} (h : ')' ∉ o.before) :
    methodAt className o = none ∧ fieldAt className o = none ∧ bitFieldAt className o = none := by
  have hlist : listBefore (dropSpecifier o.before) = none :=
    listBefore_eq_none fun hmem => h ((dropSpecifier_suffix o.before).mem hmem)
  have hhead : accessorHead o.before = none := by
    have hblank : listBefore (o.before.dropWhile isBlank) = none :=
      listBefore_eq_none fun hmem => h ((List.dropWhile_suffix _).mem hmem)
    rw [accessorHead, hblank]
    rfl
  refine ⟨?_, ?_, ?_⟩
  · rw [methodAt, hlist]
    cases afterCall o.after <;> rfl
  · rw [fieldAt, hhead]
    cases afterShape fieldShape o.after <;> rfl
  · rw [bitFieldAt, hhead]
    cases afterShape bitFieldShape o.after <;> rfl

namespace WrittenHeader

variable (h : WrittenHeader)

theorem toList_text : h.text.toList
    = "struct ".toList ++ (h.className ++ '\n' :: '{' :: '\n' :: bodyText h.lines) := by
  unfold text
  rw [String.toList_ofList, List.append_assoc]

/-- The first line of a header names its class. -/
theorem className_text : Header.className h.text.toList = h.className := by
  obtain ⟨c, w, hw⟩ := List.exists_cons_of_ne_nil h.className_ne_nil
  have hspace : isSpace c = false :=
    isSpace_eq_false_of_isWord (h.isWord_className c (hw ▸ List.mem_cons_self))
  have hgap : ∀ rest, afterShape [.text "struct", .gap] ("struct ".toList ++ (c :: w ++ rest))
      = some (c :: w ++ rest) := by
    intro rest
    have hdrop : (c :: w ++ rest).dropWhile isSpace = c :: w ++ rest := by
      rw [List.cons_append, List.dropWhile_cons, hspace, if_neg Bool.false_ne_true]
    exact congrArg some hdrop
  have hname : structName h.text.toList = some h.className := by
    have hne : h.className.isEmpty = false := List.isEmpty_eq_false_iff.2 h.className_ne_nil
    rw [toList_text, structName, hw, hgap]
    simp only [Option.bind_eq_bind, Option.bind_some]
    rw [← hw, takeWhile_run h.isWord_className rfl, hne, if_neg Bool.false_ne_true]
  have hfirst : ∃ rest, h.text.toList = 's' :: rest := by
    rw [toList_text]
    exact ⟨_, rfl⟩
  obtain ⟨rest, hrest⟩ := hfirst
  rw [Header.className, hrest, atFirstWord, if_neg Bool.false_ne_true, ← hrest, hname]
  rfl

/-- The openings of a header: that of its class, and those of its lines. -/
theorem openings_text : ∃ before, ')' ∉ before ∧ openings h.text.toList
    = ⟨before, '\n' :: bodyText h.lines⟩
      :: openingsAfter ('\n' :: '{' :: before) (bodyText h.lines) := by
  have htext : h.text.toList
      = ("struct ".toList ++ h.className ++ ['\n']) ++ '{' :: (['\n'] ++ bodyText h.lines) := by
    rw [toList_text]
    simp only [List.append_assoc, List.cons_append, List.nil_append]
  have hfirst : ∀ c, isWord c = false → c ∉ "struct ".toList ++ ['\n'] →
      c ∉ "struct ".toList ++ h.className ++ ['\n'] := by
    intro c hc hmem
    simp only [List.mem_append, not_or] at hmem ⊢
    exact ⟨⟨hmem.1, not_mem_of_class h.isWord_className hc⟩, hmem.2⟩
  refine ⟨("struct ".toList ++ h.className ++ ['\n']).reverse, fun hmem => ?_, ?_⟩
  · exact hfirst ')' rfl (by decide) (List.mem_reverse.1 hmem)
  · rw [htext, openings, openingsAfter_pass (hfirst '{' rfl (by decide)), List.append_nil,
      openingsAfter_brace, openingsAfter_pass (by decide)]
    rfl

end WrittenHeader

/-! ### The header -/

/-- What the openings between the braces of a class declare, line by line. -/
theorem filterMap_bodyText {α : Type} (read : Opening → Option α) (declared : HeaderLine → Option α)
    (h : ∀ line rest after,
      (line.openings ('\n' :: rest) after).filterMap read = (declared line).toList)
    (lines : List HeaderLine) (rest : List Char) :
    (openingsAfter ('\n' :: rest) (WrittenHeader.bodyText lines)).filterMap read
      = lines.filterMap declared := by
  induction lines generalizing rest with
  | nil => rfl
  | cons line lines ih =>
      have htext : WrittenHeader.bodyText (line :: lines)
          = line.text ++ (['\n'] ++ WrittenHeader.bodyText lines) := by
        rw [WrittenHeader.bodyText, List.flatMap_cons, List.append_assoc, List.append_assoc]
        rfl
      have hline : openingsAfter (line.text.reverse ++ '\n' :: rest)
          (['\n'] ++ WrittenHeader.bodyText lines)
            = openingsAfter ('\n' :: (line.text.reverse ++ '\n' :: rest))
              (WrittenHeader.bodyText lines) :=
        openingsAfter_pass (by decide) _ _
      rw [htext, openingsAfter_line, hline, List.filterMap_append, h, ih, List.filterMap_cons]
      cases declared line <;> rfl

/-- **Reading a written header gives back what was written:** the class, and
every method, plain accessor and accessor of a bit-field with all its parts, each
kind in the order of the lines, and nothing else. -/
theorem ofHeader_written (h : WrittenHeader) : Declarations.ofHeader h.text = h.declarations := by
  obtain ⟨before, hbefore, hopenings⟩ := h.openings_text
  obtain ⟨hmethod, hfield, hbitField⟩ := declares_nothing (String.ofList h.className)
    (o := ⟨before, '\n' :: WrittenHeader.bodyText h.lines⟩) hbefore
  have hclass : Header.className h.text.toList = h.className := h.className_text
  rw [Declarations.ofHeader, read, hclass, hopenings, WrittenHeader.declarations]
  simp only [List.filterMap_cons, hmethod, hfield, hbitField]
  rw [filterMap_bodyText _ _ (methods_openings _), filterMap_bodyText _ _ (fields_openings _),
    filterMap_bodyText _ _ (bitFields_openings _)]

/-! ### A header with lines of every kind -/

/-- The identifier with these characters. -/
def Ident.of (s : String) (h : s.toList ≠ [] ∧ s.toList.all isIdent = true) : Ident :=
  ⟨s.toList, h.1, List.all_eq_true.1 h.2⟩

/-- A type that is a name. -/
def TypeName.named (name : Ident) : TypeName := .mk [] [] name [] []

/-- `int`. -/
def TypeName.int : TypeName := .named (.of "int" (by decide))

/-- `volatile U::I*`. -/
def TypeName.item : TypeName :=
  .mk [⟨"volatile", by decide⟩] [.of "U" (by decide)] (.of "I" (by decide)) [] [.pointer]

/-- `TMap<int, TSet<volatile U::I*>>&`. -/
def TypeName.itemMap : TypeName :=
  .mk [] [] (.of "TMap" (by decide))
    [.int, .mk [] [] (.of "TSet" (by decide)) [.item] []] [.reference]

/-- A static method with a parameter of a nested type. -/
def WrittenMethod.f : WrittenMethod where
  isStatic := true
  isVirtual := false
  returnType := .int
  name := .of "F" (by decide)
  isMethodName := by decide
  parameters := [(.itemMap, .of "x" (by decide))]
  specifier := none
  returns := false
  types := [.int]
  onObject := false
  key := ⟨"F".toList, by decide, by decide, by decide⟩
  arguments := some ⟨"x".toList, by decide, by decide, by decide⟩

/-- A virtual method without parameters. -/
def WrittenMethod.next : WrittenMethod where
  isStatic := false
  isVirtual := true
  returnType := .int
  name := .of "Next" (by decide)
  isMethodName := by decide
  parameters := []
  specifier := some .override
  returns := true
  types := [.item]
  onObject := true
  key := ⟨"Next".toList, by decide, by decide, by decide⟩
  arguments := none

/-- An accessor of a nested type. -/
def WrittenField.itemMap : WrittenField where
  type := .itemMap
  name := .of "MapField" (by decide)
  isAccessorName := by decide
  reader := .of "Get" (by decide)
  target := .int
  key := ⟨"Map".toList, by decide, by decide, by decide⟩

/-- An accessor of a bit. -/
def WrittenBitField.locked : WrittenBitField where
  first := .named (.of "bool" (by decide))
  second := .mk [⟨"unsigned", by decide⟩] [] (.of "int" (by decide)) [] []
  name := .of "bLocked" (by decide)
  path := ⟨"bLocked".toList, by decide, by decide, by decide⟩

/-- A class with declarations of all three kinds, and two lines that declare nothing. -/
def WrittenHeader.box : WrittenHeader where
  className := "Box".toList
  className_ne_nil := by decide
  isWord_className := List.all_eq_true.1 rfl
  lines :=
    [.filler "\t// Fields (all)".toList (by decide) (by decide),
     .field ⟨"\t".toList, List.all_iff_forall_prop.1 rfl⟩ .itemMap,
     .bitField ⟨"\t".toList, List.all_iff_forall_prop.1 rfl⟩ .locked,
     .filler [] (by decide) (by decide),
     .method ⟨" ".toList, List.all_iff_forall_prop.1 rfl⟩ .f,
     .method ⟨[], List.all_iff_forall_prop.1 rfl⟩ .next]

set_option maxRecDepth 2000 in
/-- The lines of `box` are read as the four declarations among them. -/
theorem ofHeader_written_box :
    WrittenHeader.box.lines.map (fun line => String.ofList line.text) = [
      "\t// Fields (all)",
      "\tTMap<int, TSet<volatile U::I*>>& MapField() \x7b return *Get<int>(this, \"Map\"); \x7d",
      "\tBitFieldValue<bool, unsigned int> bLocked() \x7b return \x7b this, \"bLocked\" \x7d; \x7d",
      "",
      " static int F(TMap<int, TSet<volatile U::I*>>& x) \x7b NativeCall<int>(nullptr, \"F\", x); \x7d",
      "virtual int Next() override \x7b return NativeCall<volatile U::I*>(this, \"Next\"); \x7d"] ∧
      Declarations.ofHeader WrittenHeader.box.text = WrittenHeader.box.declarations ∧
      WrittenHeader.box.declarations.methods.map (·.name) = ["F", "Next"] ∧
      WrittenHeader.box.declarations.fields.map (·.name) = ["MapField"] ∧
      WrittenHeader.box.declarations.bitFields.map (·.name) = ["bLocked"] :=
  ⟨rfl, ofHeader_written .box, rfl, rfl, rfl⟩

end Header
end NativeHooks
