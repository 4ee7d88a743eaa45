/-
# The layout of a method makes no difference

A method with any gaps between its parts is found in a header, and two layouts of it are
read as the same method but for its text (`ofHeader_relaid`).  What stands before it and
after it plays no part, as long as a declaration may begin where the method does.

The class of a method is that of its header, which is named by words of the whole text.
Two layouts name the same class as well, unless a type that ends in a letter beyond ASCII
runs into the name of the method in one of them and not in the other: such a letter ends
no identifier, but belongs to the name of a class.
-/

import NativeHooks.Proofs.Header.ClassName
import NativeHooks.Proofs.Header.LaidOut

namespace NativeHooks
namespace Header

open Text

namespace MethodParts

variable (m : MethodParts) (l l' : Layout m)

/-! ### The class -/

/-- Type and name are parted in both layouts or in neither, if the type ends in a letter. -/
def PartedAlike : Prop :=
  m.marks = [] → (∃ c ∈ m.type.getLast?, isWord c = true) →
    ((l.gap .type).chars ++ (l.gap .marks).chars = []
      ↔ (l'.gap .type).chars ++ (l'.gap .marks).chars = [])

theorem alike_wordText (gap gap' : Nat → LineBlanks) (words : List (List Char)) :
    Alike (wordText gap words) (wordText gap' words) := by
  have hspaces : ∀ g : LineBlanks, ∀ c ∈ g.chars, isSpace c = true :=
    fun g c hc => isSpace_of_isBlank (g.isBlank_of_mem c hc)
  induction words using List.reverseRecOn with
  | nil => exact .refl _
  | append_singleton words w ih =>
      rw [wordText_concat, wordText_concat]
      refine ih.append ((Alike.refl w).append (alike_gap (hspaces _) (hspaces _) ?_))
      exact iff_of_false (gap _).ne_nil (gap' _).ne_nil

theorem alike_typeText (h : m.PartedAlike l l') : Alike (m.typeText l) (m.typeText l') := by
  unfold typeText
  rcases hmarks : m.marks with _ | ⟨mark, marks⟩
  · have hspaces : ∀ l : Layout m, ∀ c ∈ (l.gap .type).chars ++ (l.gap .marks).chars,
        isSpace c = true := fun l c hc =>
      (List.mem_append.1 hc).elim (m.isSpace_gap l .type c) (m.isSpace_gap l .marks c)
    rw [List.map_nil, List.append_nil, List.append_nil, List.append_assoc, List.append_assoc]
    by_cases hword : ∃ c ∈ m.type.getLast?, isWord c = true
    · exact (Alike.refl m.type).append (alike_gap (hspaces l) (hspaces l') (h hmarks hword))
    · refine alike_append_gap (hspaces l) (hspaces l') m.type_ne_nil fun c hc => ?_
      by_contra hnot
      exact hword ⟨c, hc, by simpa using hnot⟩
  · have hword : ∀ c ∈ (mark :: marks).map Mark.char, isWord c = false := by
      intro c hc
      obtain ⟨mark, -, rfl⟩ := List.mem_map.1 hc
      cases mark <;> rfl
    rw [List.append_assoc m.type, List.append_assoc m.type, List.append_assoc m.type,
      List.append_assoc m.type]
    refine (Alike.refl m.type).append (alike_between (by simp)
      (fun c hc => hword c (List.mem_of_mem_head? hc))
      (fun c hc => hword c (List.mem_of_getLast? hc)) ?_ ?_ ?_ ?_)
    all_goals exact m.isSpace_gap _ _

/-- The method as a row of words, and of marks with gaps around them. -/
theorem text_eq : m.text l = m.keywordText l ++ (m.qualifiersText l ++ (m.typeText l
    ++ (m.name.chars ++ (((l.gap .name).chars ++ ['('] ++ (l.gap .beforeParameters).chars)
    ++ (m.parameters ++ (((l.gap .afterParameters).chars ++ [')'] ++ (l.gap .list).chars)
    ++ ((m.specifier.elim [] fun s => s.word.toList)
    ++ (((l.gap .specifier).chars ++ ['{'] ++ (l.gap .body).chars)
    ++ ((if m.returns then "return".toList ++ (l.gap .returned).chars else [])
    ++ ("NativeCall".toList ++ (((l.gap .call).chars ++ ['<'] ++ (l.gap .beforeTypes).chars)
    ++ (m.types ++ (((l.gap .afterTypes).chars ++ ['>'] ++ (l.gap .arguments).chars)
    ++ (([] ++ ['('] ++ (l.gap .beforeReceiver).chars) ++ (m.receiver.chars
    ++ (((l.gap .afterReceiver).chars ++ [','] ++ (l.gap .beforeKey).chars)
    ++ ('"' :: m.key ++ ['"']))))))))))))))))) := by
  simp only [text, head, listText, specifierText, body, returnText, callTypes, callReceiver,
    List.append_assoc, List.cons_append, List.nil_append]

/-- **The class of a header does not depend on the layout of its methods.** -/
theorem alike_text (h : m.PartedAlike l l') : Alike (m.text l) (m.text l') := by
  have hmark : ∀ (c : Char) (first last : Place), isWord c = false →
      Alike ((l.gap first).chars ++ [c] ++ (l.gap last).chars)
        ((l'.gap first).chars ++ [c] ++ (l'.gap last).chars) := by
    intro c first last hc
    exact alike_between (List.cons_ne_nil _ _) (by rintro a ⟨⟩; exact hc)
      (by rintro a ⟨⟩; exact hc) (m.isSpace_gap l first) (m.isSpace_gap l' first)
      (m.isSpace_gap l last) (m.isSpace_gap l' last)
  have hparen : Alike ([] ++ ['('] ++ (l.gap .beforeReceiver).chars)
      ([] ++ ['('] ++ (l'.gap .beforeReceiver).chars) :=
    alike_append_gap (m.isSpace_gap l _) (m.isSpace_gap l' _) (by simp) (by rintro c ⟨⟩; rfl)
  have hreturn : Alike (if m.returns then "return".toList ++ (l.gap .returned).chars else [])
      (if m.returns then "return".toList ++ (l'.gap .returned).chars else []) := by
    split
    · exact (Alike.refl _).append (alike_gap (m.isSpace_gap l _) (m.isSpace_gap l' _)
        (iff_of_false l.returned_ne_nil l'.returned_ne_nil))
    · exact .refl _
  rw [text_eq, text_eq]
  refine (alike_wordText _ _ _).append <| (alike_wordText _ _ _).append <|
    (m.alike_typeText l l' h).append <| (Alike.refl _).append <|
    (hmark '(' _ _ rfl).append <| (Alike.refl _).append <| (hmark ')' _ _ rfl).append <|
    (Alike.refl _).append <| (hmark '{' _ _ rfl).append <| hreturn.append <|
    (Alike.refl _).append <| (hmark '<' _ _ rfl).append <| (Alike.refl _).append <|
    (hmark '>' _ _ rfl).append <| hparen.append <| (Alike.refl _).append <|
    (hmark ',' _ _ rfl).append (Alike.refl _)

/-! ### Headers -/

/-- A header with the method between two other texts. -/
def header (before after : List Char) : String := String.ofList (before ++ m.text l ++ after)

/-- The opening of the method in such a header. -/
def opening (before after : List Char) : Opening :=
  ⟨(before ++ m.head l).reverse, m.body l ++ after⟩

/-- The method `d` is what is found at that opening. -/
structure FoundAs (before after : List Char) (d : Method) : Prop where
  located : (m.opening l before after, d) ∈
    methodKind.located (Declarations.ofHeader (m.header l before after)).className
      (m.header l before after).toList
  mem_methods : d ∈ (Declarations.ofHeader (m.header l before after)).methods

/-- A method is found with its parts. -/
theorem foundAs_declared {before : List Char} (h : Fresh before.reverse) (after : List Char) :
    m.FoundAs l before after
      (m.declared (Declarations.ofHeader (m.header l before after)).className
        (declaration (m.opening l before after) before.reverse)) := by
  have hopening : m.opening l before after
      = ⟨(m.head l).reverse ++ before.reverse, m.body l ++ after⟩ := by
    rw [opening, List.reverse_append]
  have hmem : m.opening l before after ∈ openings (m.header l before after).toList := by
    have htext : (m.header l before after).toList
        = before ++ m.head l ++ '{' :: (m.body l ++ after) := by
      rw [header, String.toList_ofList, text]
      simp only [List.append_assoc, List.cons_append]
    rw [htext]
    exact mem_openings _ _
  have hread : methodAt (Declarations.ofHeader (m.header l before after)).className
      (m.opening l before after)
        = some (m.declared (Declarations.ofHeader (m.header l before after)).className
          (declaration (m.opening l before after) before.reverse)) := by
    rw [hopening]
    exact m.methodAt_laidOut l _ h after
  refine ⟨List.mem_filterMap.2 ⟨_, hmem, ?_⟩, List.mem_filterMap.2 ⟨_, hmem, hread⟩⟩
  show (methodAt _ _).map _ = _
  rw [hread, Option.map_some]

end MethodParts

/-- **The layout of a method makes no difference.**  Two layouts of one method, between the
same texts, are read as the same method with the parts that were written, but for its text
and its class; and its class is the same too, if type and name are parted in both layouts or
in neither. -/
theorem ofHeader_relaid (m : MethodParts) (l l' : Layout m) {before : List Char}
    (h : Fresh before.reverse) (after : List Char) :
    ∃ d d', m.FoundAs l before after d ∧ m.FoundAs l' before after d' ∧
      d = m.declared d.className d.fullText ∧
      d' = { d with className := d'.className, fullText := d'.fullText } ∧
      (m.PartedAlike l l' → d'.className = d.className) := by
  refine ⟨_, _, m.foundAs_declared l h after, m.foundAs_declared l' h after, rfl, rfl,
    fun hparted => ?_⟩
  have hclass : ∀ l : Layout m, (Declarations.ofHeader (m.header l before after)).className
      = String.ofList (className (before ++ m.text l ++ after)) := by
    intro l
    rw [MethodParts.header]
    exact congrArg (fun cs => String.ofList (className cs)) String.toList_ofList
  show (Declarations.ofHeader (m.header l' before after)).className
    = (Declarations.ofHeader (m.header l before after)).className
  rw [hclass, hclass, m.alike_text l l' hparted before after]

/-! ### One method in two layouts -/

/-- The parts of `virtual const TMap<A, B> &F(int a) const`, which returns its native call. -/
def sample : MethodParts where
  keywords := [.virtual]
  nodup := by decide
  qualifiers := [⟨"const", by decide⟩]
  type := "TMap<A, B>".toList
  nested :=
    .append (.of_chars (List.all_eq_true.1 (rfl : "TMap".toList.all (isTypeChar false) = true)))
      (.group (.of_chars (List.all_eq_true.1 (rfl : "A, B".toList.all (isTypeChar true) = true)))
        .nil)
  not_marks := rfl
  marks := [.reference]
  name := ⟨"F".toList, by decide, List.all_eq_true.1 rfl⟩
  isMethodName := rfl
  parameters := "int a".toList
  balanced := balanced_of_not_mem (by decide) (by decide)
  unended := by simp
  specifier := some .const
  returns := true
  types := "A".toList
  types_balanced := balanced_of_not_mem (by decide) (by decide)
  types_unended := by simp
  receiver := ⟨"this".toList, by decide, List.all_eq_true.1 rfl⟩
  key := "C.F".toList
  key_noQuote := by decide
  key_noLineFeed := by decide

/-- One space. -/
def LineBlanks.space : LineBlanks where
  chars := [' ']
  isBlank_of_mem := List.all_eq_true.1 rfl
  ne_nil := by decide
  noLineFeed := by decide

/-- Every gap is left out that can be. -/
def sample.tight : Layout sample where
  keyword _ := .space
  qualifier _ := .space
  gap
    | .returned => LineBlanks.space.toBlanks
    | _ => ⟨[], List.all_eq_true.1 rfl⟩
  returned_ne_nil := List.cons_ne_nil _ _
  parted h := absurd h (List.cons_ne_nil _ _)

/-- Every gap is a line feed that can be one. -/
def sample.spread : Layout sample where
  keyword _ := .space
  qualifier _ := .space
  gap _ := ⟨['\n'], List.all_eq_true.1 rfl⟩
  returned_ne_nil := List.cons_ne_nil _ _
  parted _ _ := List.cons_ne_nil _ _

/-- Without the gaps that can be left out, and spread over many lines. -/
theorem ofHeader_relaid_sample :
    sample.text sample.tight
        = "virtual const TMap<A, B>&F(int a)const\x7breturn NativeCall<A>(this,\"C.F\"".toList ∧
      sample.text sample.spread = "virtual const TMap<A, B>\n&\nF\n(\nint a\n)\nconst\n\x7b\n".toList
        ++ "return\nNativeCall\n<\nA\n>\n(\nthis\n,\n\"C.F\"".toList ∧
      ∃ d d', sample.FoundAs sample.tight "struct C;\n".toList "); \x7d".toList d ∧
        sample.FoundAs sample.spread "struct C;\n".toList "); \x7d".toList d' ∧
        d = sample.declared d.className d.fullText ∧
        d' = { d with className := d'.className, fullText := d'.fullText } ∧
        (sample.PartedAlike sample.tight sample.spread → d'.className = d.className) := by
  have hfresh : Fresh "struct C;\n".toList.reverse :=
    ⟨[], _, rfl, fun c hc => absurd hc List.not_mem_nil, by rintro c ⟨⟩; exact .inl rfl⟩
  refine ⟨by decide +kernel, by decide +kernel, ?_⟩
  exact ofHeader_relaid sample sample.tight sample.spread hfresh _

end Header
end NativeHooks
