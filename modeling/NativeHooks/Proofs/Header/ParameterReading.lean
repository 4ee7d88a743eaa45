/-
# Written parameters are read back

A list of parameters holds no bracket but those of its types, so splitting it
finds the parameters, and in each of them the last space at the top level is
the one before the name.
-/

import NativeHooks.Proofs.Header.TypeReading

namespace NativeHooks
namespace Header

open Text

variable (parameter : TypeName × Ident)

/-! ### One parameter -/

theorem TypeName.depth_text (type : TypeName) : depth type.text = 0 :=
  type.nested_text.depth_eq_zero

/-- The commas of a type are inside its angle brackets. -/
theorem TypeName.guarded_text (type : TypeName) : Guarded ',' 0 type.text := by
  have hall : ∀ word ∈ typeQualifiers, ',' ∉ word.toList ++ [' '] := by decide
  have hcomma : ',' ∉ qualifierText type.qualifiers := by
    intro h
    obtain ⟨q, -, hq⟩ := List.mem_flatMap.1 h
    exact hall _ q.2 hq
  rw [TypeName.text, guarded_append, (nested_qualifierText _).depth_eq_zero]
  exact ⟨guarded_of_not_mem hcomma 0,
    type.nested_core.guarded (Int.le_refl 0) fun h => absurd h Bool.false_ne_true⟩

theorem Ident.depth_chars (i : Ident) : depth i.chars = 0 :=
  depth_eq_zero fun c hc => nesting_eq_zero_of_isIdent (i.isIdent_of_mem c hc)

/-- What is no identifier character does not occur in an identifier. -/
theorem Ident.not_mem_chars (i : Ident) {c : Char} (hc : isIdent c = false) : c ∉ i.chars :=
  not_mem_of_class i.isIdent_of_mem hc

theorem tidy_parameterText : Tidy (parameterText parameter) :=
  parameter.1.tidy_text.append_space parameter.2.tidy

theorem depth_parameterText : depth (parameterText parameter) = 0 := by
  rw [parameterText, depth_append, depth_cons, parameter.1.depth_text, parameter.2.depth_chars]
  rfl

theorem guarded_parameterText : Guarded ',' 0 (parameterText parameter) := by
  rw [parameterText, guarded_append, parameter.1.depth_text]
  have hname : ',' ∉ ' ' :: parameter.2.chars := by
    rw [List.mem_cons, not_or]
    exact ⟨by decide, parameter.2.not_mem_chars rfl⟩
  exact ⟨parameter.1.guarded_text, guarded_of_not_mem hname _⟩

/-- What is neither a character of a type nor a space does not occur in a parameter. -/
theorem not_mem_parameterText {c : Char} (hc : isTypeTextChar c = false) :
    c ∉ parameterText parameter := by
  have hident : isIdent c = false := by
    rw [isTypeTextChar, Bool.or_eq_false_iff] at hc
    exact hc.1
  rw [parameterText, List.mem_append, List.mem_cons, not_or, not_or]
  exact ⟨parameter.1.not_mem_text hc, ne_of_apply_ne isTypeTextChar (by rw [hc]; decide),
    parameter.2.not_mem_chars hident⟩

/-- A tidy text without a default value is tidied up to itself. -/
theorem parameterTidy_eq_self {w : List Char} (hw : Tidy w) (hdefault : '=' ∉ w) :
    Parameter.tidy w = w := by
  rw [Parameter.tidy, untilTopLevel_eq_self (guarded_of_not_mem hdefault 0), hw.trim, hw.collapse,
    hw.trim]

/-- The same with a space before it. -/
theorem parameterTidy_space {w : List Char} (hw : Tidy w) (hdefault : '=' ∉ w) :
    Parameter.tidy (' ' :: w) = w := by
  have hspace : '=' ∉ ' ' :: w := by
    rw [List.mem_cons, not_or]
    exact ⟨by decide, hdefault⟩
  rw [Parameter.tidy, untilTopLevel_eq_self (guarded_of_not_mem hspace 0), hw.trim_space,
    hw.collapse, hw.trim]

/-- A parameter is read as its type and its name. -/
theorem ofPiece_parameterText (index : Nat) :
    Parameter.ofPiece index (parameterText parameter)
      = ⟨String.ofList parameter.1.text, String.ofList parameter.2.chars⟩ := by
  obtain ⟨type, name⟩ := parameter
  have hsplit : splitLastSpace 0 (parameterText (type, name)) = some (type.text, name.chars) :=
    splitLastSpace_append (by rw [type.depth_text, Int.add_zero])
      (guarded_of_not_mem (name.not_mem_chars rfl) 0)
  have hname : name.chars.dropWhile Parameter.isIndirection = name.chars := by
    refine dropWhile_eq_self fun c hc => ?_
    have hc := name.isIdent_of_mem c (List.mem_of_mem_head? hc)
    rw [Parameter.isIndirection, Bool.or_eq_false_iff, beq_eq_false_iff_ne, beq_eq_false_iff_ne]
    exact ⟨ne_of_class hc rfl, ne_of_class hc rfl⟩
  rw [Parameter.ofPiece, hsplit]
  simp only [List.isEmpty_iff, type.tidy_text.ne_nil, if_false, type.tidy_text.trim,
    name.tidy.trim, hname]

/-! ### The list -/

theorem ofPieces_parameterTexts (parameters : List (TypeName × Ident)) (index : Nat) :
    Parameter.ofPieces index (parameters.map parameterText)
      = parameters.map fun p => ⟨String.ofList p.1.text, String.ofList p.2.chars⟩ := by
  induction parameters generalizing index with
  | nil => rfl
  | cons p more ih =>
      have hne : (parameterText p).isEmpty = false := by
        rw [List.isEmpty_eq_false_iff]
        exact (tidy_parameterText p).ne_nil
      rw [List.map_cons, List.map_cons, Parameter.ofPieces, hne, if_neg Bool.false_ne_true, ih,
        ofPiece_parameterText]

/-- **A written list of parameters is read back:** the parameters in order, each
with its type and its name. -/
theorem readList_parameterList (parameters : List (TypeName × Ident)) :
    Parameter.readList (joined (parameters.map parameterText))
      = parameters.map fun p => ⟨String.ofList p.1.text, String.ofList p.2.chars⟩ := by
  cases parameters with
  | nil => rfl
  | cons p more =>
      have hseparable : Separable ((p :: more).map parameterText) := by
        refine separable_of_forall fun t ht => ?_
        obtain ⟨q, -, rfl⟩ := List.mem_map.1 ht
        exact ⟨guarded_parameterText q, depth_parameterText q⟩
      have hmore : ((more.map parameterText).map (' ' :: ·)).map Parameter.tidy
          = more.map parameterText := by
        rw [List.map_map, List.map_map]
        refine List.map_congr_left fun q _ => ?_
        rw [Function.comp_apply, Function.comp_apply]
        exact parameterTidy_space (tidy_parameterText q) (not_mem_parameterText q rfl)
      have hfirst : Parameter.tidy (parameterText p) = parameterText p :=
        parameterTidy_eq_self (tidy_parameterText p) (not_mem_parameterText p rfl)
      rw [List.map_cons] at hseparable ⊢
      rw [Parameter.readList, splitTopLevel_joined hseparable (tidy_parameterText p).ne_nil,
        List.map_cons, hfirst, hmore, ← List.map_cons]
      exact ofPieces_parameterTexts (p :: more) 0

end Header
end NativeHooks
