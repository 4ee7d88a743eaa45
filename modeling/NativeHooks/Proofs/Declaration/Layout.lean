/-
# Parameter lists in any layout

However a parameter list is laid out, over several lines and with any spaces, and whatever its
types and default values nest, it is read as it is meant (`readList_laidOut`).  What stands at
the top level of each parameter is known: no comma, so the list is split between parameters
only; no `=` but the one before the default value; and of the spaces that are left after
trimming, the last one before the name.

The types are given as they are written and read with their words one space apart, since
spaces inside a type may be laid out as well.
-/

import Mathlib.Data.Bool.AllAny
import NativeHooks.Proofs.Declaration.Parameters
import NativeHooks.Proofs.Text.Words

namespace NativeHooks

open Text

/-! ### What is written -/

/-- Spaces, also none. -/
structure Gap where
  chars : List Char
  spaces : ∀ c ∈ chars, isSpace c = true

/-- A type that closes the brackets it opens, without commas or `=` outside them. -/
structure LaidOutType where
  chars : List Char
  ne_nil : chars ≠ []
  head : ∀ c ∈ chars.head?, isSpace c = false
  last : ∀ c ∈ chars.getLast?, isSpace c = false
  closed : depth chars = 0
  commas : Guarded ',' 0 chars
  equals : Guarded '=' 0 chars

/-- A name and the spaces before it, at least one. -/
structure LaidOutName where
  gap : Gap
  gap_ne_nil : gap.chars ≠ []
  chars : List Char
  ne_nil : chars ≠ []
  plain : ∀ c ∈ chars, isSpace c = false ∧ nesting c = 0 ∧ c ≠ ',' ∧ c ≠ '='
  unmarked : ∀ c ∈ chars.head?, Parameter.isIndirection c = false

/-- A default value, without commas outside of brackets, and the spaces before its `=`. -/
structure LaidOutDefault where
  gap : Gap
  value : List Char
  closed : depth value = 0
  commas : Guarded ',' 0 value

/-- A parameter with the spaces around it. -/
structure LaidOutParameter where
  before : Gap
  type : LaidOutType
  name : Option LaidOutName
  default : Option LaidOutDefault
  after : Gap
  /-- Without a name, a space outside of brackets would part the type. -/
  unparted : name = none → ∀ s, isSpace s = true → Guarded s 0 type.chars

namespace LaidOutParameter

/-- The name as it is written, with the spaces before it. -/
def nameText (p : LaidOutParameter) : List Char :=
  p.name.elim [] fun name => name.gap.chars ++ name.chars

/-- What stands before the default value. -/
def head (p : LaidOutParameter) : List Char := p.before.chars ++ p.type.chars ++ p.nameText

/-- The default value as it is written, with its `=` and the spaces before that. -/
def defaultText (p : LaidOutParameter) : List Char :=
  p.default.elim [] fun default => default.gap.chars ++ '=' :: default.value

/-- The parameter as it is written. -/
def text (p : LaidOutParameter) : List Char :=
  p.head ++ p.defaultText ++ p.after.chars

/-- The parameter as the one at `index`. -/
def declared (index : Nat) (p : LaidOutParameter) : Parameter where
  type := String.ofList (spaced (words p.type.chars))
  name := p.name.elim ("arg" ++ toString index) fun name => String.ofList name.chars

end LaidOutParameter

/-! ### What is at the top level -/

theorem Gap.depth_chars (g : Gap) : depth g.chars = 0 :=
  depth_eq_zero fun c hc => nesting_eq_zero_of_isSpace (g.spaces c hc)

theorem Gap.guarded (g : Gap) {sep : Char} (hsep : isSpace sep = false) (d : Int) :
    Guarded sep d g.chars :=
  guarded_of_not_mem (not_mem_of_class g.spaces hsep) d

/-- The words of a type are what is left of it. -/
theorem LaidOutType.collapseFrom_chars (t : LaidOutType) :
    collapseFrom false t.chars = spaced (words t.chars) :=
  collapse_eq_spaced t.head t.last

theorem LaidOutType.tidy (t : LaidOutType) : Tidy (spaced (words t.chars)) := by
  obtain ⟨first, rest, htype⟩ := List.exists_cons_of_ne_nil t.ne_nil
  have hfirst : isSpace first = false := t.head first (by rw [htype]; rfl)
  exact tidy_words (htype ▸ List.mem_cons_self) hfirst

theorem LaidOutType.depth_words (t : LaidOutType) : depth (spaced (words t.chars)) = 0 := by
  rw [← t.collapseFrom_chars, depth_collapseFrom, t.closed]

theorem LaidOutName.depth_chars (name : LaidOutName) : depth name.chars = 0 :=
  depth_eq_zero fun c hc => (name.plain c hc).2.1

theorem LaidOutName.solid (name : LaidOutName) : Solid name.chars :=
  ⟨name.ne_nil, fun c hc => (name.plain c hc).1⟩

namespace LaidOutParameter

/-- Commas and `=` do not stand at the top level before the default value. -/
theorem guarded_head (p : LaidOutParameter) {sep : Char} (hsep : sep = ',' ∨ sep = '=') :
    Guarded sep 0 p.head := by
  have hspace : isSpace sep = false := by
    rcases hsep with rfl | rfl <;> decide
  have htype : Guarded sep 0 p.type.chars := by
    rcases hsep with rfl | rfl
    · exact p.type.commas
    · exact p.type.equals
  have hname : ∀ d, Guarded sep d p.nameText := by
    intro d
    unfold nameText
    rcases p.name with _ | name
    · trivial
    · refine guarded_append.2 ⟨name.gap.guarded hspace d, guarded_of_not_mem (fun hmem => ?_) _⟩
      have hplain := (name.plain sep hmem).2.2
      exact hsep.elim hplain.1 hplain.2
  rw [head, guarded_append, guarded_append, p.before.depth_chars, Int.add_zero]
  exact ⟨⟨p.before.guarded hspace 0, htype⟩, hname _⟩

theorem depth_head (p : LaidOutParameter) : depth p.head = 0 := by
  have hname : depth p.nameText = 0 := by
    unfold nameText
    rcases p.name with _ | name
    · rfl
    · rw [Option.elim_some, depth_append, name.gap.depth_chars, name.depth_chars, Int.add_zero]
  rw [head, depth_append, depth_append, p.before.depth_chars, p.type.closed, hname, Int.add_zero,
    Int.add_zero]

theorem guarded_defaultText (p : LaidOutParameter) : Guarded ',' 0 p.defaultText := by
  unfold defaultText
  rcases p.default with _ | default
  · trivial
  · refine guarded_append.2 ⟨default.gap.guarded rfl 0, ?_⟩
    rw [default.gap.depth_chars]
    exact ⟨fun h => absurd h (by decide), default.commas⟩

theorem depth_defaultText (p : LaidOutParameter) : depth p.defaultText = 0 := by
  unfold defaultText
  rcases p.default with _ | default
  · rfl
  · rw [Option.elim_some, depth_append, depth_cons, default.gap.depth_chars, default.closed]
    rfl

/-- A list of such parameters is split between them only. -/
theorem separable_text (p : LaidOutParameter) : Guarded ',' 0 p.text ∧ depth p.text = 0 := by
  have hdepth : depth (p.head ++ p.defaultText) = 0 := by
    rw [depth_append, p.depth_head, p.depth_defaultText, Int.add_zero]
  constructor
  · rw [text, guarded_append, guarded_append, p.depth_head, hdepth]
    exact ⟨⟨p.guarded_head (.inl rfl), p.guarded_defaultText⟩, p.after.guarded rfl 0⟩
  · rw [text, depth_append, hdepth, p.after.depth_chars, Int.add_zero]

theorem text_ne_nil (p : LaidOutParameter) : p.text ≠ [] := by
  intro hnil
  simp only [text, head, List.append_eq_nil_iff] at hnil
  exact p.type.ne_nil hnil.1.1.1.2

/-! ### One parameter -/

/-- The default value is cut off, and some spaces are left. -/
theorem exists_untilTopLevel (p : LaidOutParameter) :
    ∃ more, (∀ c ∈ more, isSpace c = true) ∧ untilTopLevel '=' 0 p.text = p.head ++ more := by
  have hguarded : ∀ g : Gap, Guarded '=' 0 (p.head ++ g.chars) :=
    fun g => guarded_append.2 ⟨p.guarded_head (.inr rfl), g.guarded rfl _⟩
  rcases hdefault : p.default with _ | default
  · refine ⟨p.after.chars, p.after.spaces, ?_⟩
    rw [text, defaultText, hdefault, Option.elim_none, List.append_nil]
    exact untilTopLevel_eq_self (hguarded p.after)
  · refine ⟨default.gap.chars, default.gap.spaces, ?_⟩
    have hdepth : 0 + depth (p.head ++ default.gap.chars) = 0 := by
      rw [depth_append, p.depth_head, default.gap.depth_chars]
      rfl
    have htext : p.text
        = p.head ++ default.gap.chars ++ '=' :: (default.value ++ p.after.chars) := by
      simp only [text, defaultText, hdefault, Option.elim_some, List.append_assoc, List.cons_append]
    rw [htext]
    exact untilTopLevel_append (hguarded default.gap) hdepth _

/-- Type and name with all gaps one space wide. -/
def tidied (p : LaidOutParameter) : List Char :=
  spaced (words p.type.chars) ++ p.name.elim [] fun name => ' ' :: name.chars

theorem trim_type_nameText (p : LaidOutParameter) :
    trim (p.type.chars ++ p.nameText) = p.type.chars ++ p.nameText := by
  refine trim_eq_self ?_ ?_
  · rw [List.head?_append_of_ne_nil _ p.type.ne_nil]
    exact p.type.head
  · unfold nameText
    rcases p.name with _ | name
    · rw [Option.elim_none, List.append_nil]
      exact p.type.last
    · have hne : name.gap.chars ++ name.chars ≠ [] := List.append_ne_nil_of_right_ne_nil _ name.ne_nil
      rw [Option.elim_some, List.getLast?_append_of_ne_nil _ hne,
        List.getLast?_append_of_ne_nil _ name.ne_nil]
      exact fun c hc => (name.plain c (List.mem_of_getLast? hc)).1

theorem collapse_type_nameText (p : LaidOutParameter) :
    collapse (p.type.chars ++ p.nameText) = p.tidied := by
  rw [collapse, collapseFrom_append_of_last p.type.ne_nil p.type.last, tidied, nameText,
    p.type.collapseFrom_chars]
  congr 1
  rcases p.name with _ | name
  · rfl
  · obtain ⟨first, gap, hgap⟩ := List.exists_cons_of_ne_nil name.gap_ne_nil
    have hspaces : ∀ c ∈ first :: gap, isSpace c = true := hgap ▸ name.gap.spaces
    rw [Option.elim_some, Option.elim_some, hgap, List.cons_append,
      collapseFrom_space (hspaces first List.mem_cons_self),
      collapseFrom_spaces fun c hc => hspaces c (List.mem_cons_of_mem first hc),
      collapseFrom_of_solid name.solid]

theorem tidy_tidied (p : LaidOutParameter) : Tidy p.tidied := by
  unfold tidied
  rcases p.name with _ | name
  · rw [Option.elim_none, List.append_nil]
    exact p.type.tidy
  · exact p.type.tidy.append_space name.solid.tidy

/-- Of a parameter its type and its name are left. -/
theorem tidy_text (p : LaidOutParameter) : Parameter.tidy p.text = p.tidied := by
  obtain ⟨more, hmore, hcut⟩ := p.exists_untilTopLevel
  rw [Parameter.tidy, hcut, trim_append_spaces hmore, head, List.append_assoc,
    trim_spaces_append p.before.spaces, p.trim_type_nameText, p.collapse_type_nameText,
    p.tidy_tidied.trim]

/-- What is left of a parameter declares its type and its name. -/
theorem ofPiece_tidied (index : Nat) (p : LaidOutParameter) :
    Parameter.ofPiece index p.tidied = p.declared index := by
  have htype := p.type.tidy
  rcases hname : p.name with _ | name
  · have hspaces : Guarded ' ' 0 (spaced (words p.type.chars)) := by
      rw [← p.type.collapseFrom_chars]
      exact guarded_space_collapseFrom (p.unparted hname) false
    rw [tidied, declared, hname, Option.elim_none, Option.elim_none, List.append_nil,
      Parameter.ofPiece, splitLastSpace_eq_none hspaces]
  · have hspaces : Guarded ' ' 0 name.chars :=
      guarded_of_not_mem (not_mem_of_outside name.solid.2 rfl) 0
    have hdepth : 0 + depth (spaced (words p.type.chars)) = 0 := by
      rw [p.type.depth_words, Int.add_zero]
    have hmarks : name.chars.dropWhile Parameter.isIndirection = name.chars :=
      dropWhile_eq_self name.unmarked
    rw [tidied, declared, hname, Option.elim_some, Option.elim_some, Parameter.ofPiece,
      splitLastSpace_append hdepth hspaces]
    simp only [List.isEmpty_iff, htype.ne_nil, if_false, htype.trim,
      trim_of_forall name.solid.2, hmarks]

end LaidOutParameter

/-! ### All parameters -/

theorem ofPieces_tidied (index : Nat) (ps : List LaidOutParameter) :
    Parameter.ofPieces index (ps.map LaidOutParameter.tidied)
      = ps.mapIdx fun i p => p.declared (index + i) := by
  induction ps generalizing index with
  | nil => rfl
  | cons p ps ih =>
      have hne : ¬ p.tidied.isEmpty = true := fun h => p.tidy_tidied.ne_nil (List.isEmpty_iff.1 h)
      have hnext : (fun i (q : LaidOutParameter) => q.declared (index + 1 + i))
          = fun i q => q.declared (index + (i + 1)) := by
        funext i q
        rw [Nat.add_assoc, Nat.add_comm 1 i]
      rw [List.map_cons, Parameter.ofPieces, if_neg hne, p.ofPiece_tidied, ih (index + 1), hnext,
        List.mapIdx_cons, Nat.add_zero]

/-- **A parameter list in any layout is read as it is meant.** -/
theorem readList_laidOut (ps : List LaidOutParameter) :
    Parameter.readList ([','].intercalate (ps.map LaidOutParameter.text))
      = ps.mapIdx fun i p => p.declared i := by
  have hseparable : Separable (ps.map LaidOutParameter.text) := by
    refine separable_of_forall fun t ht => ?_
    obtain ⟨p, -, rfl⟩ := List.mem_map.1 ht
    exact p.separable_text
  have hne : ∀ t ∈ ps.map LaidOutParameter.text, t ≠ [] := by
    intro t ht
    obtain ⟨p, -, rfl⟩ := List.mem_map.1 ht
    exact p.text_ne_nil
  have htidy : (ps.map LaidOutParameter.text).map Parameter.tidy
      = ps.map LaidOutParameter.tidied := by
    rw [List.map_map]
    refine List.map_congr_left fun p _ => ?_
    rw [Function.comp_apply, p.tidy_text]
  have hread := ofPieces_tidied 0 ps
  simp only [Nat.zero_add] at hread
  rw [Parameter.readList, splitTopLevel_intercalate hseparable hne, htidy, hread]

/-- A line feed and two spaces. -/
def Gap.line : Gap := ⟨"\n  ".toList, List.all_eq_true.1 rfl⟩

/-- A type on two lines, a name further off, and a default value with a comma. -/
def LaidOutParameter.spread : LaidOutParameter where
  before := .line
  type :=
    { chars := "TMap<FString,\n    int> const\t&".toList
      ne_nil := by decide
      head := by rintro c ⟨⟩; rfl
      last := by rintro c ⟨⟩; rfl
      closed := by decide
      commas := by decide
      equals := by decide }
  name := some
    { gap := ⟨"  ".toList, List.all_eq_true.1 rfl⟩
      gap_ne_nil := by decide
      chars := "map".toList
      ne_nil := by decide
      plain := List.all_iff_forall_prop.1 rfl
      unmarked := by rintro c ⟨⟩; rfl }
  default := some
    { gap := ⟨" ".toList, List.all_eq_true.1 rfl⟩
      value := " Make(1, 2)".toList
      closed := by decide
      commas := by decide }
  after := ⟨[], List.all_eq_true.1 rfl⟩
  unparted h := absurd h (Option.some_ne_none _)

/-- A type with a space inside its brackets, and no name. -/
def LaidOutParameter.unnamed : LaidOutParameter where
  before := .line
  type :=
    { chars := "TFunction<void (int)>*".toList
      ne_nil := by decide
      head := by rintro c ⟨⟩; rfl
      last := by rintro c ⟨⟩; rfl
      closed := by decide
      commas := by decide
      equals := by decide }
  name := none
  default := none
  after := ⟨"\n".toList, List.all_eq_true.1 rfl⟩
  unparted _ s hs := by
    have hspace : ∀ c ∈ "TFunction<void (int)>*".toList, isSpace c = true → c = ' ' :=
      List.all_iff_forall_prop.1 rfl
    by_cases hs' : s = ' '
    · rw [hs']
      decide
    · exact guarded_of_not_mem (fun hmem => hs' (hspace s hmem hs)) 0

/-- Two parameters over several lines, one named and one not. -/
theorem readList_laidOut_lines :
    Parameter.readList ("\n  TMap<FString,\n    int> const\t&  map = Make(1, 2),".toList
        ++ "\n  TFunction<void (int)>*\n".toList)
      = [⟨"TMap<FString, int> const &", "map"⟩, ⟨"TFunction<void (int)>*", "arg1"⟩] := by
  have hread := readList_laidOut [.spread, .unnamed]
  have hdeclared : [LaidOutParameter.spread, .unnamed].mapIdx (fun i p => p.declared i)
      = [⟨"TMap<FString, int> const &", "map"⟩, ⟨"TFunction<void (int)>*", "arg1"⟩] := rfl
  exact hread.trans hdeclared

/-! ### Spaces at the ends of a list -/

theorem guarded_of_spaces {v : List Char} (hv : ∀ c ∈ v, isSpace c = true) {sep : Char}
    (hsep : isSpace sep = false) (d : Int) : Guarded sep d v :=
  guarded_of_not_mem (not_mem_of_class hv hsep) d

/-- Spaces at the start of a piece make no difference. -/
theorem tidy_spaces_append {u : List Char} (hu : ∀ c ∈ u, isSpace c = true) (w : List Char) :
    Parameter.tidy (u ++ w) = Parameter.tidy w := by
  have huntil : untilTopLevel '=' 0 (u ++ w) = u ++ untilTopLevel '=' 0 w := by
    induction u with
    | nil => rfl
    | cons c u ih =>
        have hc : isSpace c = true := hu c List.mem_cons_self
        have hne : c ≠ '=' := ne_of_class hc rfl
        rw [List.cons_append, untilTopLevel, if_neg fun h => hne h.1,
          nesting_eq_zero_of_isSpace hc, Int.add_zero, ih fun a ha => hu a (List.mem_cons_of_mem _ ha)]
        rfl
  rw [Parameter.tidy, huntil, trim_spaces_append hu, Parameter.tidy]

/-- Spaces at its end make no difference either, before a default value or after it. -/
theorem tidy_append_spaces {v : List Char} (hv : ∀ c ∈ v, isSpace c = true) (w : List Char) :
    Parameter.tidy (w ++ v) = Parameter.tidy w := by
  have huntil : ∀ d, ∃ more, (∀ c ∈ more, isSpace c = true) ∧
      untilTopLevel '=' d (w ++ v) = untilTopLevel '=' d w ++ more := by
    induction w with
    | nil => exact fun d => ⟨v, hv, untilTopLevel_eq_self (guarded_of_spaces hv rfl d)⟩
    | cons c w ih =>
        intro d
        rw [List.cons_append, untilTopLevel, untilTopLevel]
        split
        · exact ⟨[], fun c hc => absurd hc List.not_mem_nil, rfl⟩
        · obtain ⟨more, hmore, hread⟩ := ih (d + nesting c)
          exact ⟨more, hmore, by rw [hread, List.cons_append]⟩
  obtain ⟨more, hmore, hread⟩ := huntil 0
  rw [Parameter.tidy, hread, trim_append_spaces hmore, Parameter.tidy]

/-- Spaces at the end of a text belong to its last piece. -/
theorem splitFrom_append_spaces {v : List Char} (hv : ∀ c ∈ v, isSpace c = true) (w : List Char)
    (d : Int) : ∃ first last, (splitFrom ',' d w).1 :: (splitFrom ',' d w).2 = first ++ [last] ∧
      (splitFrom ',' d (w ++ v)).1 :: (splitFrom ',' d (w ++ v)).2 = first ++ [last ++ v] := by
  induction w generalizing d with
  | nil =>
      refine ⟨[], [], rfl, ?_⟩
      rw [List.nil_append, splitFrom_eq_self (guarded_of_spaces hv rfl d)]
      rfl
  | cons c w ih =>
      rw [List.cons_append, splitFrom, splitFrom]
      split
      · obtain ⟨first, last, hw, hv⟩ := ih d
        exact ⟨[] :: first, last, congrArg _ hw, congrArg _ hv⟩
      · obtain ⟨first, last, hw, hv⟩ := ih (d + nesting c)
        cases first with
        | nil =>
            obtain ⟨hpiece, hmore⟩ := List.cons.inj hw
            obtain ⟨hpiece', hmore'⟩ := List.cons.inj hv
            exact ⟨[], c :: last, by simp [hpiece, hmore], by simp [hpiece', hmore']⟩
        | cons piece first =>
            obtain ⟨hpiece, hmore⟩ := List.cons.inj hw
            obtain ⟨hpiece', hmore'⟩ := List.cons.inj hv
            exact ⟨(c :: piece) :: first, last, by simp [hpiece, hmore], by simp [hpiece', hmore']⟩

/-- An empty last piece declares nothing. -/
theorem ofPieces_dropEmptyLast (index : Nat) (pieces : List (List Char)) :
    Parameter.ofPieces index ((dropEmptyLast pieces).map Parameter.tidy)
      = Parameter.ofPieces index (pieces.map Parameter.tidy) := by
  induction pieces generalizing index with
  | nil => rfl
  | cons piece pieces ih =>
      cases pieces with
      | nil =>
          rw [dropEmptyLast]
          split
          · next hempty =>
              rw [List.isEmpty_iff.1 hempty]
              rfl
          · rfl
      | cons next more =>
          rw [dropEmptyLast, List.map_cons, List.map_cons, Parameter.ofPieces, Parameter.ofPieces, ih,
            ih]

/-- **Spaces at the ends of a parameter list make no difference.** -/
theorem readList_spaces {u v : List Char} (hu : ∀ c ∈ u, isSpace c = true)
    (hv : ∀ c ∈ v, isSpace c = true) (w : List Char) :
    Parameter.readList (u ++ w ++ v) = Parameter.readList w := by
  have hread : ∀ w, Parameter.readList w = Parameter.ofPieces 0
      (((splitFrom ',' 0 w).1 :: (splitFrom ',' 0 w).2).map Parameter.tidy) := fun w =>
    ofPieces_dropEmptyLast 0 _
  have hdepth : 0 + depth u = 0 :=
    (Int.zero_add _).trans (depth_eq_zero fun c hc => nesting_eq_zero_of_isSpace (hu c hc))
  have hstart : ∀ w, Parameter.readList (u ++ w) = Parameter.readList w := by
    intro w
    rw [hread, hread, splitFrom_append (guarded_of_spaces hu rfl 0), hdepth, List.map_cons,
      tidy_spaces_append hu, List.map_cons]
  have hend : Parameter.readList (w ++ v) = Parameter.readList w := by
    obtain ⟨first, last, hw, hwv⟩ := splitFrom_append_spaces hv w 0
    rw [hread, hread, hwv, hw, List.map_append, List.map_append, List.map_singleton,
      List.map_singleton, tidy_append_spaces hv]
  rw [List.append_assoc, hstart, hend]

end NativeHooks
