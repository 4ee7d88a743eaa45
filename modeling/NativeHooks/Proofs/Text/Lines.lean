/-
# Texts and their lines

Code is written line by line and read back line by line.  A line that is written must be a
single one, or it is read as several (`OneLine`); then reading gives back exactly what was
written, whether every line is ended (`readLines_unlines_append`) or line feeds stand between
the lines (`readLines_intercalate`).  A text whose last line is ended has its lines whatever
follows it (`Ended.readLines_append`), so a long text is read part by part.  What is added to
any other text goes to its last line (`readLines_append_oneLine`).
-/

import NativeHooks.Text.Lines

namespace NativeHooks
namespace Text

/-- A text without line feeds. -/
def OneLine (s : String) : Prop := '\n' ∉ s.toList

instance (s : String) : Decidable (OneLine s) := inferInstanceAs (Decidable ('\n' ∉ s.toList))

theorem OneLine.append {s t : String} (hs : OneLine s) (ht : OneLine t) : OneLine (s ++ t) := by
  rw [OneLine, String.toList_append, List.mem_append, not_or]
  exact ⟨hs, ht⟩

/-- What holds of texts and of their concatenations holds of a list with a separator. -/
theorem intercalate_induction {P : String → Prop} {sep : String} {texts : List String}
    (empty : P "") (append : ∀ {s t}, P s → P t → P (s ++ t)) (hsep : P sep)
    (h : ∀ t ∈ texts, P t) : P (sep.intercalate texts) := by
  induction texts with
  | nil => rwa [String.intercalate_nil]
  | cons t texts ih =>
      have ht := h t List.mem_cons_self
      cases texts with
      | nil => rwa [String.intercalate_singleton]
      | cons u more =>
          rw [String.intercalate_cons_cons]
          exact append (append ht hsep) (ih fun v hv => h v (List.mem_cons_of_mem _ hv))

/-- Texts on one line are joined to one line by a separator on one line. -/
theorem OneLine.intercalate {sep : String} {texts : List String} (hsep : OneLine sep)
    (h : ∀ t ∈ texts, OneLine t) : OneLine (sep.intercalate texts) :=
  intercalate_induction List.not_mem_nil OneLine.append hsep h

/-- The last line of the text is ended. -/
def Ended (s : String) : Prop := ∃ lines, s = lines ++ "\n"

theorem ended_append_lineFeed (s : String) : Ended (s ++ "\n") := ⟨s, rfl⟩

theorem Ended.append_left {t : String} (ht : Ended t) (s : String) : Ended (s ++ t) := by
  obtain ⟨lines, rfl⟩ := ht
  exact ⟨s ++ lines, (String.append_assoc ..).symm⟩

/-! ### Reading -/

/-- **An ended text has its lines whatever follows it.** -/
theorem Ended.readLines_append {s : String} (hs : Ended s) (rest : String) :
    readLines (s ++ rest) = readLines s ++ readLines rest := by
  obtain ⟨s, rfl⟩ := hs
  have hsplit : ∀ t : String, (s ++ "\n" ++ t).toList.splitOn '\n'
      = s.toList.splitOn '\n' ++ t.toList.splitOn '\n' := by
    intro t
    rw [String.toList_append, String.toList_append, List.append_assoc]
    exact List.splitOn_append_cons_self s.toList t.toList
  have hended : readLines (s ++ "\n") = (s.toList.splitOn '\n').map String.ofList := by
    have hempty := hsplit ""
    rw [String.append_empty] at hempty
    rw [readLines, hempty, if_pos, String.toList_empty, List.splitOn_nil, List.dropLast_concat]
    exact List.getLast?_concat
  have hne := List.splitOn_ne_nil '\n' rest.toList
  rw [hended, readLines, hsplit, readLines, List.getLast?_append,
    Option.or_of_isSome (List.getLast?_isSome.2 hne), List.dropLast_append_of_ne_nil hne,
    ← List.map_append]
  split <;> rfl

/-- Ended texts are read one after the other. -/
theorem readLines_join_append {texts : List String} (h : ∀ t ∈ texts, Ended t) (rest : String) :
    readLines (String.join texts ++ rest) = texts.flatMap readLines ++ readLines rest := by
  induction texts with
  | nil => rw [String.join_nil, String.empty_append, List.flatMap_nil, List.nil_append]
  | cons t texts ih =>
      rw [String.join_cons, String.append_assoc, (h t List.mem_cons_self).readLines_append,
        ih fun u hu => h u (List.mem_cons_of_mem _ hu), List.flatMap_cons, List.append_assoc]

theorem readLines_oneLine {s : String} (h : OneLine s) : readLines (s ++ "\n") = [s] := by
  rw [readLines, String.toList_append, show "\n".toList = ['\n'] from rfl,
    List.splitOn_append_cons_self_of_not_mem h]
  exact congrArg (fun t => [t]) String.ofList_toList

/-- Texts are made from the front: a text is on one line, or a line comes before it. -/
theorem lines_induction {P : String → Prop} (oneLine : ∀ s, OneLine s → P s)
    (line : ∀ s t, OneLine s → P t → P (s ++ "\n" ++ t)) (text : String) : P text := by
  induction hlen : text.toList.length using Nat.strongRecOn generalizing text with
  | ind n ih =>
      by_cases hfeed : '\n' ∈ text.toList
      · obtain ⟨before, after, hsplit, hbefore⟩ := List.eq_append_cons_of_mem hfeed
        have htext : text = String.ofList before ++ "\n" ++ String.ofList after := by
          refine String.toList_injective ?_
          simp only [hsplit, String.toList_append, String.toList_ofList, List.append_assoc]
          rfl
        rw [htext]
        refine line _ _ (by rwa [OneLine, String.toList_ofList]) (ih _ ?_ _ rfl)
        rw [← hlen, hsplit, String.toList_ofList, List.length_append, List.length_cons]
        omega
      · exact oneLine text hfeed

/-- What is added to a text without a line feed is added to its last line. -/
theorem readLines_append_oneLine (text : String) {added : String} (hadded : OneLine added) :
    ∃ front last, readLines (text ++ added ++ "\n") = front ++ [last ++ added] ∧
      ∀ l ∈ front ++ [last], ∀ c ∈ l.toList, c ∈ text.toList := by
  induction text using lines_induction with
  | oneLine s hs =>
      refine ⟨[], s, readLines_oneLine (hs.append hadded), fun l hl c hc => ?_⟩
      rwa [← List.mem_singleton.1 hl]
  | line s t hs ih =>
      obtain ⟨front, last, hlines, hchars⟩ := ih
      refine ⟨s :: front, last, ?_, ?_⟩
      · have htext : s ++ "\n" ++ t ++ added ++ "\n" = s ++ "\n" ++ (t ++ added ++ "\n") := by
          simp only [String.append_assoc]
        rw [htext, (ended_append_lineFeed s).readLines_append, readLines_oneLine hs, hlines]
        rfl
      · rw [List.cons_append, List.forall_mem_cons, String.toList_append, String.toList_append]
        refine ⟨fun c hc => ?_, fun l hl c hc => List.mem_append_right _ (hchars l hl c hc)⟩
        exact List.mem_append_left _ (List.mem_append_left _ hc)

/-- **Lines that are written are read back,** and then what follows them. -/
theorem readLines_unlines_append {lines : List String} (h : ∀ l ∈ lines, OneLine l)
    (rest : String) : readLines (unlines lines ++ rest) = lines ++ readLines rest := by
  induction lines with
  | nil => rw [unlines_nil, String.empty_append, List.nil_append]
  | cons l lines ih =>
      rw [unlines_cons, String.append_assoc, (ended_append_lineFeed l).readLines_append,
        readLines_oneLine (h l List.mem_cons_self), ih fun m hm => h m (List.mem_cons_of_mem _ hm)]
      rfl

theorem readLines_unlines {lines : List String} (h : ∀ l ∈ lines, OneLine l) :
    readLines (unlines lines) = lines := by
  have hread := readLines_unlines_append h ""
  rwa [String.append_empty, show readLines "" = [] from rfl, List.append_nil] at hread

/-- Lines with line feeds between them are read back if the last one is not empty. -/
theorem readLines_intercalate {lines : List String} (hne : lines ≠ [])
    (h : ∀ l ∈ lines, OneLine l) (hlast : ∀ l ∈ lines.getLast?, l ≠ "") :
    readLines ("\n".intercalate lines) = lines := by
  have hsplit : ("\n".intercalate lines).toList.splitOn '\n' = lines.map String.toList := by
    rw [String.toList_intercalate]
    refine List.splitOn_intercalate '\n' ?_ (by simpa using hne)
    rw [List.forall_mem_map]
    exact h
  rw [readLines, hsplit, if_neg, List.map_map]
  · exact (List.map_congr_left fun l _ => String.ofList_toList).trans (List.map_id _)
  · rw [List.getLast?_map, Option.map_eq_some_iff]
    rintro ⟨l, hl, hnil⟩
    exact hlast l hl (String.toList_eq_nil_iff.1 hnil)

/-! ### Writing -/

theorem unlines_append (lines more : List String) :
    unlines (lines ++ more) = unlines lines ++ unlines more := by
  rw [unlines, List.map_append, String.join_append]
  rfl

/-- Lines that are ended have a line feed between them and one more after the last. -/
theorem unlines_eq_intercalate {lines : List String} (hne : lines ≠ []) :
    unlines lines = "\n".intercalate lines ++ "\n" := by
  induction lines with
  | nil => exact absurd rfl hne
  | cons l lines ih =>
      cases lines with
      | nil => rw [unlines_cons, unlines_nil, String.append_empty, String.intercalate_singleton]
      | cons m more =>
          rw [unlines_cons, ih (List.cons_ne_nil m more), String.intercalate_cons_cons]
          simp only [String.append_assoc]

end Text
end NativeHooks
