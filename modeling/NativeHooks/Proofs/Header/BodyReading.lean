/-
# Written bodies are read back

A body is read forwards from its brace.  The readers of native calls meet a
list of types, a receiver and a string, each of which ends where it was meant
to; and as the string holds no quote, the brace that closes the body is the
one that was written for it.
-/

import NativeHooks.Proofs.Header.TypeReading

namespace NativeHooks
namespace Header

open Text

/-! ### Strings and braces -/

/-- A string is read up to its closing quote. -/
theorem quoted_written (q : Quote) (rest : List Char) : quoted (q.chars ++ '"' :: rest) = q.chars := by
  have hall : ∀ c ∈ q.chars, (c != '"' && c != '\n') = true := by
    intro c hc
    rw [Bool.and_eq_true, bne_iff_ne, bne_iff_ne]
    exact ⟨fun h => q.noQuote (h ▸ hc), fun h => q.noLineFeed (h ▸ hc)⟩
  rw [quoted, takeWhile_run hall rfl, dropWhile_run hall rfl]
  rfl

/-- A character that neither opens nor closes a body or a string. -/
def isBodyChar (c : Char) : Bool := !(['"', '{', '}'].contains c)

theorem isBodyChar_iff {c : Char} : isBodyChar c = true ↔ c ≠ '"' ∧ c ≠ '{' ∧ c ≠ '}' := by
  simp [isBodyChar]

theorem closing_char {c : Char} (hc : isBodyChar c = true) (d : Nat) (rest : List Char) :
    closing d false (c :: rest) = (closing d false rest).map (c :: ·) := by
  obtain ⟨hquote, hopen, hclose⟩ := isBodyChar_iff.1 hc
  rw [closing.eq_def]
  simp only [Bool.false_eq_true, if_false, if_neg hquote, if_neg hopen, if_neg hclose]

/-- A string begins. -/
theorem closing_beginString (d : Nat) (rest : List Char) :
    closing d false ('"' :: rest) = (closing d true rest).map ('"' :: ·) := by
  cases d <;> rfl

/-- A string goes on or ends. -/
theorem closing_inString (d : Nat) (c : Char) (rest : List Char) :
    closing d true (c :: rest) = (closing d (c != '"' && c != '\n') rest).map (c :: ·) := by
  cases d <;> rfl

/-- Text without quotes and braces is part of the body that it stands in. -/
theorem closing_append {w : List Char} (hw : ∀ c ∈ w, isBodyChar c = true) (d : Nat)
    (rest : List Char) : closing d false (w ++ rest) = (closing d false rest).map (w ++ ·) := by
  induction w with
  | nil => simp
  | cons c w ih =>
      rw [List.cons_append, closing_char (hw c List.mem_cons_self),
        ih fun a ha => hw a (List.mem_cons_of_mem _ ha), Option.map_map]
      rfl

/-- A string is part of the body that it stands in, whatever braces it holds. -/
theorem closing_quote (q : Quote) (d : Nat) (rest : List Char) :
    closing d false ('"' :: (q.chars ++ '"' :: rest))
      = (closing d false rest).map fun tail => '"' :: (q.chars ++ '"' :: tail) := by
  have hinside : ∀ w : List Char, '"' ∉ w → '\n' ∉ w →
      closing d true (w ++ '"' :: rest)
        = (closing d false rest).map fun tail => w ++ '"' :: tail := by
    intro w
    induction w with
    | nil => exact fun _ _ => closing_inString d '"' rest
    | cons c w ih =>
        intro hquote hline
        rw [List.mem_cons, not_or] at hquote hline
        have hc : (c != '"' && c != '\n') = true := by
          rw [Bool.and_eq_true, bne_iff_ne, bne_iff_ne]
          exact ⟨Ne.symm hquote.1, Ne.symm hline.1⟩
        rw [List.cons_append, closing_inString, hc, ih hquote.2 hline.2, Option.map_map]
        rfl
  rw [closing_beginString, hinside _ q.noQuote q.noLineFeed, Option.map_map]
  rfl

/-- A body inside a body. -/
theorem closing_open (d : Nat) (rest : List Char) :
    closing d false ('{' :: rest) = (closing (d + 1) false rest).map ('{' :: ·) :=
  rfl

/-- The body of one string among text without quotes and braces is read to its end. -/
theorem body_written {u v : List Char} (q : Quote) (rest : List Char)
    (hu : ∀ c ∈ u, isBodyChar c = true) (hv : ∀ c ∈ v, isBodyChar c = true) :
    body (u ++ '"' :: q.chars ++ '"' :: v ++ ['}'] ++ rest)
      = '{' :: (u ++ '"' :: q.chars ++ '"' :: v ++ ['}']) := by
  have hclosing : closing 0 false (u ++ '"' :: q.chars ++ '"' :: v ++ ['}'] ++ rest)
      = some (u ++ '"' :: q.chars ++ '"' :: v ++ ['}']) := by
    have hend : closing 0 false ('}' :: rest) = some ['}'] := rfl
    simp only [List.append_assoc, List.cons_append, List.nil_append]
    rw [closing_append hu, closing_quote, closing_append hv, hend]
    simp only [Option.map_some]
  rw [body, hclosing, Option.getD_some]

/-! ### Native calls -/

theorem nested_typeTexts (types : List TypeName) : Nested true (joined (types.map TypeName.text)) :=
  nested_joined (TypeName.texts_eq_map types ▸ TypeName.nested_texts types)

/-- The native call of a method is found in its body. -/
theorem afterCall_written (m : WrittenMethod) (rest : List Char) :
    afterCall (m.returnText ++ "NativeCall<".toList ++ rest) = some rest := by
  rw [WrittenMethod.returnText]
  cases m.returns <;> rfl

/-- **The signature of a native call is its key**, spaces at its ends aside. -/
theorem nativeSignature_written (m : WrittenMethod) (rest : List Char) :
    nativeSignature (m.target ++ '"' :: m.key.chars ++ '"' :: rest) = some (trim m.key.chars) := by
  have hreceiver : ∀ after : List Char, afterReceiver 0
      ((if m.onObject then "this".toList else "nullptr".toList) ++ ", ".toList ++ after)
        = some (' ' :: after) := by
    intro after
    cases m.onObject <;> rfl
  have htypes : ∀ after : List Char,
      afterTypes 0 (joined (m.types.map TypeName.text) ++ ">(".toList ++ after)
        = some ('(' :: after) := by
    intro after
    rw [List.append_assoc, (nested_typeTexts m.types).afterTypes]
    rfl
  have hmark : ∀ after : List Char, afterMark '(' ('(' :: after) = some after := fun _ => rfl
  have hquote : ∀ after : List Char, afterMark '"' (' ' :: '"' :: after) = some after := fun _ => rfl
  rw [nativeSignature, WrittenMethod.target]
  simp only [List.append_assoc, List.cons_append] at hreceiver htypes ⊢
  simp only [htypes, hmark, hreceiver, hquote, Option.bind_eq_bind, Option.bind_some,
    quoted_written]
  rfl

end Header
end NativeHooks
