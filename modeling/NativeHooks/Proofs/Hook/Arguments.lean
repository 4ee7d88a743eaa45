/-
# The arguments of a hook declaration

A hook declaration is written as a list joined with `, ` between parentheses, and
read back in two steps: the closing parenthesis is looked for, and what stands
before it is split at its commas.  The first step counts parentheses alone and ends
with the line (`argumentsInside_append`); the second one counts angle brackets as
well and is the one that parameter lists are split by.

So a list is read back whole if it is a single line whose parentheses are closed
(`argumentsInside_closed`), and only then: a line break ends the reading, a
parenthesis too many ends the list early, and one too few leaves it open.
-/

import NativeHooks.Hook.Code
import NativeHooks.Hook.Declared
import NativeHooks.Proofs.Text.Nesting

namespace NativeHooks

open Text

/-! ### Parentheses -/

/-- The number of open parentheses at the end of a text that begins inside `d` of
them; none if one is closed that was not opened. -/
def openParens (d : Nat) : List Char → Option Nat
  | [] => some d
  | c :: cs =>
    if c = '(' then openParens (d + 1) cs
    else if c = ')' then
      match d with
      | 0 => none
      | d + 1 => openParens d cs
    else openParens d cs

theorem openParens_append (d : Nat) (u v : List Char) :
    openParens d (u ++ v) = (openParens d u).bind fun e => openParens e v := by
  induction u generalizing d with
  | nil => rfl
  | cons c u ih =>
      rw [List.cons_append, openParens.eq_def, openParens.eq_def d (c :: u)]
      cases d <;> simp only [ih] <;> split_ifs <;> rfl

/-- A text without parentheses opens and closes none. -/
theorem openParens_of_not_mem {w : List Char} (hopen : '(' ∉ w) (hclose : ')' ∉ w) (d : Nat) :
    openParens d w = some d := by
  induction w with
  | nil => rfl
  | cons c w ih =>
      rw [List.mem_cons, not_or] at hopen hclose
      rw [openParens.eq_def]
      simp only [if_neg (Ne.symm hopen.1), if_neg (Ne.symm hclose.1)]
      exact ih hopen.2 hclose.2

/-- A joined list opens and closes what its texts do. -/
theorem openParens_joined {texts : List (List Char)} (h : ∀ t ∈ texts, openParens 0 t = some 0) :
    openParens 0 (joined texts) = some 0 := by
  induction texts with
  | nil => rfl
  | cons t texts ih =>
      have ht := h t List.mem_cons_self
      have hmore := ih fun u hu => h u (List.mem_cons_of_mem _ hu)
      cases texts with
      | nil => rwa [joined_singleton]
      | cons u more =>
          rw [joined_cons_cons, openParens_append, ht]
          exact hmore

/-- If more is closed than was opened, there is a first parenthesis too many. -/
theorem exists_of_openParens_eq_none {d : Nat} {w : List Char} (h : openParens d w = none) :
    ∃ u v, w = u ++ ')' :: v ∧ openParens d u = some 0 := by
  induction w generalizing d with
  | nil => exact absurd h (Option.some_ne_none _)
  | cons c w ih =>
      have hstep : ∀ {e}, openParens e w = none → (∀ u, openParens d (c :: u) = openParens e u) →
          ∃ u v, c :: w = u ++ ')' :: v ∧ openParens d u = some 0 := by
        intro e hw hcons
        obtain ⟨u, v, rfl, hu⟩ := ih hw
        exact ⟨c :: u, v, rfl, (hcons u).trans hu⟩
      by_cases hopen : c = '('
      · subst hopen
        exact hstep (e := d + 1) h fun _ => rfl
      by_cases hclose : c = ')'
      · subst hclose
        cases d with
        | zero => exact ⟨[], w, rfl, rfl⟩
        | succ d => exact hstep (e := d) h fun _ => rfl
      have hcons : ∀ u, openParens d (c :: u) = openParens d u := by
        intro u
        rw [openParens.eq_def]
        simp only [if_neg hopen, if_neg hclose]
      exact hstep (hcons w ▸ h) hcons

/-- The parentheses of a joined list are those of its later texts if there are none in
the texts before. -/
theorem openParens_joined_append {texts : List (List Char)} (h : ∀ t ∈ texts, '(' ∉ t ∧ ')' ∉ t)
    (more : List (List Char)) :
    openParens 0 (joined (texts ++ more)) = openParens 0 (joined more) := by
  induction texts with
  | nil => rfl
  | cons t texts ih =>
      obtain ⟨hopen, hclose⟩ := h t List.mem_cons_self
      have ht := openParens_of_not_mem hopen hclose 0
      have hmore := ih fun u hu => h u (List.mem_cons_of_mem _ hu)
      rcases hrest : texts ++ more with _ | ⟨u, rest⟩
      · obtain ⟨rfl, rfl⟩ := List.append_eq_nil_iff.1 hrest
        rwa [List.cons_append, List.append_nil, joined_singleton, joined_nil]
      · rw [hrest] at hmore
        rw [List.cons_append, hrest, joined_cons_cons, openParens_append, ht, ← hmore]
        rfl

/-! ### The closing parenthesis -/

namespace DeclaredHook

/-- A text on one line belongs to the arguments up to the parenthesis that closes
them. -/
theorem argumentsInside_append {w : List Char} (hline : '\n' ∉ w) {d e : Nat}
    (h : openParens d w = some e) (rest : List Char) :
    argumentsInside d (w ++ rest) = (argumentsInside e rest).map (w ++ ·) := by
  induction w generalizing d with
  | nil =>
      obtain rfl := Option.some.inj h
      cases hrest : argumentsInside d rest <;> simp [hrest]
  | cons c w ih =>
      rw [List.mem_cons, not_or] at hline
      have hstep : ∀ d, openParens d w = some e →
          (argumentsInside d (w ++ rest)).map (c :: ·)
            = (argumentsInside e rest).map (c :: w ++ ·) := by
        intro d hd
        rw [ih hline.2 hd, Option.map_map]
        rfl
      rw [openParens.eq_def] at h
      rw [List.cons_append, argumentsInside.eq_def]
      simp only at h ⊢
      split_ifs at h ⊢ with hopen hclose hbreak
      · exact hstep _ h
      · cases d with
        | zero => exact absurd h.symm (Option.some_ne_none _)
        | succ d => exact hstep _ h
      · exact absurd hbreak.symm hline.1
      · exact hstep _ h

/-- **A list on one line that closes its parentheses is read whole.** -/
theorem argumentsInside_closed {w : List Char} (hline : '\n' ∉ w) (h : openParens 0 w = some 0)
    (rest : List Char) : argumentsInside 0 (w ++ ')' :: rest) = some w := by
  rw [argumentsInside_append hline h]
  show some (w ++ []) = some w
  rw [List.append_nil]

/-- A line break inside the arguments ends the reading. -/
theorem argumentsInside_lineBreak {w : List Char} (hline : '\n' ∉ w) {e : Nat}
    (h : openParens 0 w = some e) (rest : List Char) :
    argumentsInside 0 (w ++ '\n' :: rest) = none := by
  rw [argumentsInside_append hline h]
  rfl

/-- Arguments that leave a parenthesis open have no end on their line. -/
theorem argumentsInside_open {w : List Char} (hline : '\n' ∉ w) {e : Nat}
    (h : openParens 0 w = some (e + 1)) (rest : List Char) :
    argumentsInside 0 (w ++ ')' :: ';' :: '\n' :: rest) = none := by
  rw [argumentsInside_append hline h]
  rfl

/-! ### Reading a declaration -/

/-- The arguments of the declaration that a text begins with. -/
theorem read?_of_toList {text : String} {rest : List Char}
    (h : text.toList = "DECLARE_HOOK(".toList ++ rest) :
    read? text = (argumentsInside 0 rest).bind fun arguments =>
      ofArguments ((splitTopLevel ',' arguments).map trim) := by
  have hfirst : atFirstWord (afterShape openingShape) false text.toList = some rest := by
    rw [h]
    rfl
  rw [read?, hfirst]
  rfl

/-- The pieces of a joined list are its texts, trimmed. -/
theorem map_trim_splitTopLevel {t : List Char} {more : List (List Char)}
    (h : Separable (t :: more)) (ht : t ≠ []) :
    (splitTopLevel ',' (joined (t :: more))).map trim = (t :: more).map trim := by
  have hspace : ∀ u ∈ more, (trim ∘ (' ' :: ·)) u = trim u := fun u _ => rfl
  rw [splitTopLevel_joined h ht, List.map_cons, List.map_cons, List.map_map,
    List.map_congr_left hspace]

end DeclaredHook

/-! ### The text of a declaration -/

namespace Method

/-- The arguments of the declaration of a hook: its name, the return type, and the
types of its parameters. -/
def hookArguments (m : Method) : List (List Char) :=
  m.hookName.toList :: (if isVoid m.returnType then "void" else m.returnType).toList
    :: (m.receiverType?.toList ++ m.parameters.map (·.type)).map String.toList

theorem toList_declareMacro (m : Method) :
    m.declareMacro.toList = "DECLARE_HOOK(".toList ++ (joined m.hookArguments ++ [')', ';']) := by
  rw [declareMacro, String.toList_append, String.toList_append, String.toList_intercalate,
    List.append_assoc, hookArguments, List.append_assoc]
  rfl

/-- Hook code begins with the declaration of the hook. -/
theorem toList_hookCode (m : Method) :
    ∃ rest, (m.hookCode true).toList
      = "DECLARE_HOOK(".toList ++ (joined m.hookArguments ++ ')' :: ';' :: '\n' :: rest) := by
  refine ⟨'\n' :: (m.stub ++ "\n\n" ++ m.registration ++ "\n").toList, ?_⟩
  have hcode : m.hookCode true
      = m.declareMacro ++ ("\n\n" ++ (m.stub ++ "\n\n" ++ m.registration ++ "\n")) := by
    rw [hookCode, if_pos rfl]
    simp only [String.append_assoc]
  rw [hcode, String.toList_append, toList_declareMacro, String.toList_append, List.append_assoc,
    List.append_assoc]
  rfl

/-- The arguments of the declaration of a hook can be read back one by one. -/
structure Legible (m : Method) : Prop where
  oneLine : '\n' ∉ joined m.hookArguments
  closed : openParens 0 (joined m.hookArguments) = some 0
  separable : Separable m.hookArguments

theorem hookName_ne_nil (m : Method) : m.hookName.toList ≠ [] := by
  rw [hookName, String.toList_append, String.toList_append]
  simp

/-- **Legible arguments are read from the declaration, and from hook code** that
begins with it. -/
theorem Legible.read? {m : Method} (h : m.Legible) :
    DeclaredHook.read? m.declareMacro = DeclaredHook.ofArguments (m.hookArguments.map trim) ∧
      DeclaredHook.read? (m.hookCode true)
        = DeclaredHook.ofArguments (m.hookArguments.map trim) := by
  have hread : ∀ (text : String) (rest : List Char),
      text.toList = "DECLARE_HOOK(".toList ++ (joined m.hookArguments ++ ')' :: rest) →
      DeclaredHook.read? text = DeclaredHook.ofArguments (m.hookArguments.map trim) := by
    intro text rest htext
    rw [DeclaredHook.read?_of_toList htext, DeclaredHook.argumentsInside_closed h.oneLine h.closed,
      Option.bind_some]
    exact congrArg _ (DeclaredHook.map_trim_splitTopLevel h.separable m.hookName_ne_nil)
  obtain ⟨rest, hrest⟩ := m.toList_hookCode
  exact ⟨hread _ _ m.toList_declareMacro, hread _ _ hrest⟩

end Method

end NativeHooks
