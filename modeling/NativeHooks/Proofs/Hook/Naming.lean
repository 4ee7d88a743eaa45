/-
# Arguments without a name

A hook declares the parameters of its method, receiver first, and passes them on by name.
Every parameter that is read from a list has a type, and no name begins with `&` or `*`; one
that is a type alone gets the name `argN`.  But a name may be empty.  The last space at the
top level of a piece parts the type from the name, and the marks that the name begins with
are dropped: of `int *` this leaves the type `int` and nothing to pass on.

`argumentItems_named_iff` says that there is no other way for an argument to have no name:
all are named exactly if no piece of the list ends in a word of marks alone.
-/

import Mathlib.Data.List.Forall2
import NativeHooks.Hook.Code
import NativeHooks.Proofs.Declaration.Parameters

namespace NativeHooks

open Text

namespace Text

/-- Without a last space every space is guarded. -/
theorem guarded_of_splitLastSpace_eq_none {d : Int} {w : List Char}
    (h : splitLastSpace d w = none) : Guarded ' ' d w := by
  induction w generalizing d with
  | nil => trivial
  | cons c w ih =>
      rw [splitLastSpace] at h
      split at h
      · exact absurd h (Option.some_ne_none _)
      · next hrest =>
          refine ⟨fun hc hd => ?_, ih hrest⟩
          rw [if_pos ⟨hc, hd⟩] at h
          exact absurd h (Option.some_ne_none _)

/-- No space is at the top level after the last one that is. -/
theorem guarded_after_splitLastSpace {d : Int} {w u v : List Char}
    (h : splitLastSpace d w = some (u, v)) : Guarded ' ' 0 v := by
  induction w generalizing d u with
  | nil => exact absurd h.symm (Option.some_ne_none _)
  | cons c w ih =>
      rw [splitLastSpace] at h
      split at h
      · next left right hsplit =>
          obtain ⟨-, rfl⟩ := Prod.mk.inj (Option.some.inj h)
          exact ih hsplit
      · next hrest =>
          split at h
          · next hc =>
              obtain ⟨-, rfl⟩ := Prod.mk.inj (Option.some.inj h)
              have hguarded := guarded_of_splitLastSpace_eq_none hrest
              rwa [hc.1, hc.2] at hguarded
          · exact absurd h.symm (Option.some_ne_none _)

end Text

namespace Parameter

/-! ### The name of one parameter -/

/-- The piece of a list ends, outside brackets, in a word of marks alone, as `int *` does. -/
def EndsInMarks (piece : List Char) : Prop :=
  ∃ type marks, tidy piece = type ++ ' ' :: marks ∧ depth type = 0 ∧
    ∀ c ∈ marks, isIndirection c = true

/-- What a piece of a list says of the name of the parameter at `index`. -/
structure NamedBy (index : Nat) (piece : List Char) (p : Parameter) : Prop where
  type_ne_empty : p.type ≠ ""
  /-- The marks before a name belong to no name. -/
  unmarked : ∀ c ∈ p.name.toList.head?, isIndirection c = false
  /-- A type alone gets a name that counts the parameters before it. -/
  typeAlone : Guarded ' ' 0 (tidy piece) → p.name = "arg" ++ toString index
  name_eq_empty_iff : p.name = "" ↔ EndsInMarks piece

theorem nesting_eq_zero_of_isIndirection {c : Char} (h : isIndirection c = true) :
    nesting c = 0 := by
  rw [isIndirection, Bool.or_eq_true, beq_iff_eq, beq_iff_eq] at h
  rcases h with rfl | rfl <;> rfl

/-- A counted name. -/
theorem head?_arg (index : Nat) : ("arg" ++ toString index).toList.head? = some 'a' := by
  rw [String.toList_append]
  rfl

/-- A piece that ends in marks is parted before the marks. -/
theorem splitLastSpace_marks {type marks : List Char} (hdepth : depth type = 0)
    (hmarks : ∀ c ∈ marks, isIndirection c = true) :
    splitLastSpace 0 (type ++ ' ' :: marks) = some (type, marks) := by
  have hspace : ' ' ∉ marks := not_mem_of_class hmarks rfl
  exact splitLastSpace_append (by rw [hdepth, Int.add_zero]) (guarded_of_not_mem hspace 0)

/-- If marks and spaces are all that follows the last space at the top level, then no
space does. -/
theorem isIndirection_of_mem_name {w type name : List Char} {d : Int}
    (hspaces : ∀ c ∈ w, isSpace c = true → c = ' ')
    (hsplit : splitLastSpace d w = some (type, name))
    (hname : ∀ c ∈ trim name, isIndirection c = true) : ∀ c ∈ name, isIndirection c = true := by
  obtain ⟨u, v, huv, hu, hv⟩ := exists_trim name
  have hall : ∀ c ∈ name, isSpace c = true ∨ isIndirection c = true := by
    intro c hc
    rw [huv] at hc
    rcases List.mem_append.1 hc with hc | hc
    · exact (List.mem_append.1 hc).imp (hu c) (hname c)
    · exact .inl (hv c hc)
  have hzero : ∀ c ∈ name, nesting c = 0 := fun c hc =>
    (hall c hc).elim nesting_eq_zero_of_isSpace nesting_eq_zero_of_isIndirection
  have hnot : ' ' ∉ name := by
    intro hmem
    obtain ⟨before, after, hname⟩ := List.eq_append_cons_of_mem hmem
    have hdepth : depth before = 0 :=
      depth_eq_zero fun c hc => hzero c (hname.1 ▸ List.mem_append_left _ hc)
    have hne := guarded_iff.1 (guarded_after_splitLastSpace hsplit) before after hname.1
    rw [hdepth] at hne
    exact hne rfl
  intro c hc
  refine (hall c hc).resolve_left fun hspace => hnot ?_
  have hw : c ∈ w := by
    rw [(splitLastSpace_spec hsplit).1]
    exact List.mem_append_right _ (List.mem_cons_of_mem _ hc)
  rwa [hspaces c hw hspace] at hc

/-- **The parameter that a piece declares has no name exactly if the piece ends in marks.** -/
theorem namedBy_ofPiece (index : Nat) {piece : List Char} (hne : tidy piece ≠ []) :
    NamedBy index piece (ofPiece index (tidy piece)) := by
  have htrim : trim (tidy piece) = tidy piece := trim_trim _
  have hspaces : ∀ c ∈ tidy piece, isSpace c = true → c = ' ' := fun c hc =>
    eq_space_of_mem_collapseFrom ((trim_sublist _).mem hc)
  have htype : (ofPiece index (tidy piece)).type ≠ "" := by
    intro hempty
    exact type_ofPiece_ne_nil index htrim hne (congrArg String.toList hempty)
  rcases hsplit : splitLastSpace 0 (tidy piece) with _ | ⟨type, name⟩
  · have hpiece : ofPiece index (tidy piece)
        = ⟨String.ofList (tidy piece), "arg" ++ toString index⟩ := by
      rw [ofPiece, hsplit]
    have hhead := head?_arg index
    rw [hpiece] at htype ⊢
    refine ⟨htype, fun c hc => ?_, fun _ => rfl, iff_of_false (fun hempty => ?_) ?_⟩
    · obtain rfl := Option.some.inj (hhead.symm.trans hc)
      rfl
    · have hnil := hhead.symm.trans (congrArg (·.toList.head?) hempty)
      exact absurd hnil (Option.some_ne_none _)
    · rintro ⟨type, marks, heq, hdepth, hmarks⟩
      rw [heq, splitLastSpace_marks hdepth hmarks] at hsplit
      exact absurd hsplit (Option.some_ne_none _)
  · obtain ⟨heq, hdepth⟩ := splitLastSpace_spec hsplit
    rw [Int.zero_add] at hdepth
    have hleft : type ≠ [] := by
      rintro rfl
      have hfirst := (isSpace_ends_trim (tidy piece)).1 ' ' (by rw [htrim, heq]; rfl)
      exact absurd hfirst (by decide)
    have hpiece : ofPiece index (tidy piece)
        = ⟨String.ofList (trim type), String.ofList ((trim name).dropWhile isIndirection)⟩ := by
      simp only [ofPiece, hsplit, List.isEmpty_iff, hleft, if_false]
    rw [hpiece] at htype ⊢
    refine ⟨htype, fun c hc => ?_, fun hguarded => ?_, ⟨fun hempty => ?_, ?_⟩⟩
    · rw [String.toList_ofList] at hc
      have hnot := List.head?_dropWhile_not isIndirection (trim name)
      rw [hc] at hnot
      exact hnot
    · rw [splitLastSpace_eq_none hguarded] at hsplit
      exact absurd hsplit.symm (Option.some_ne_none _)
    · have hnil : (trim name).dropWhile isIndirection = [] := by
        have := congrArg String.toList hempty
        rwa [String.toList_ofList] at this
      have hmarks := isIndirection_of_mem_name hspaces hsplit (List.dropWhile_eq_nil_iff.1 hnil)
      exact ⟨type, name, heq, hdepth, hmarks⟩
    · rintro ⟨left, marks, hleft, hzero, hmarks⟩
      have hsame := splitLastSpace_marks hzero hmarks
      rw [← hleft, hsplit] at hsame
      obtain ⟨-, rfl⟩ := Prod.mk.inj (Option.some.inj hsame)
      have hnil : (trim name).dropWhile isIndirection = [] :=
        List.dropWhile_eq_nil_iff.2 fun c hc => hmarks c ((trim_sublist name).mem hc)
      exact congrArg String.ofList hnil

/-! ### The names of a list -/

/-- Every piece that is not empty declares a parameter. -/
theorem exists_mem_ofPieces (index : Nat) {pieces : List (List Char)} {piece : List Char}
    (hpiece : piece ∈ pieces) (hne : piece ≠ []) :
    ∃ index', ofPiece index' piece ∈ ofPieces index pieces := by
  induction pieces generalizing index with
  | nil => exact absurd hpiece List.not_mem_nil
  | cons q pieces ih =>
      rw [ofPieces]
      rcases List.mem_cons.1 hpiece with rfl | hmore
      · rw [if_neg fun hnil => hne (List.isEmpty_iff.1 hnil)]
        exact ⟨index, List.mem_cons_self⟩
      · split
        · exact ih index hmore
        · obtain ⟨index', hmem⟩ := ih (index + 1) hmore
          exact ⟨index', List.mem_cons_of_mem _ hmem⟩

theorem exists_namedBy {cs : List Char} {i : Nat} {p : Parameter} (h : (readList cs)[i]? = some p) :
    ∃ piece ∈ splitTopLevel ',' cs, p.NamedBy i piece := by
  obtain ⟨clean, hclean, hne, rfl⟩ := exists_piece_of_getElem? h
  obtain ⟨piece, hpiece, rfl⟩ := List.mem_map.1 hclean
  rw [Nat.zero_add]
  exact ⟨piece, hpiece, namedBy_ofPiece i hne⟩

/-- All parameters of a list have names exactly if no piece ends in marks. -/
theorem named_readList_iff {cs : List Char} :
    (∀ p ∈ readList cs, p.name ≠ "") ↔ ∀ piece ∈ splitTopLevel ',' cs, ¬EndsInMarks piece := by
  constructor
  · intro h piece hpiece hmarks
    have hne : tidy piece ≠ [] := by
      obtain ⟨type, marks, heq, -, -⟩ := hmarks
      rw [heq]
      exact List.append_ne_nil_of_right_ne_nil _ (List.cons_ne_nil _ _)
    obtain ⟨index, hmem⟩ := exists_mem_ofPieces 0 (List.mem_map_of_mem hpiece) hne
    exact h _ hmem ((namedBy_ofPiece index hne).name_eq_empty_iff.2 hmarks)
  · intro h p hp hempty
    obtain ⟨i, hi⟩ := List.getElem?_of_mem hp
    obtain ⟨piece, hpiece, hnamed⟩ := exists_namedBy hi
    exact h piece hpiece (hnamed.name_eq_empty_iff.1 hempty)

end Parameter

/-! ### The lists of a stub -/

namespace Method

/-- The parameters of a hook, one by one. -/
def parameterItems (m : Method) : List String :=
  (m.receiverType?.map (· ++ " _this")).toList ++ m.parameters.map Parameter.text

/-- The arguments that a hook passes on, one by one. -/
def argumentItems (m : Method) : List String :=
  (m.receiverType?.map fun _ => "_this").toList ++ m.parameters.map (·.name)

/-- The parameter of a hook has a type, and is what the argument names. -/
def Declares (item argument : String) : Prop := ∃ type, type ≠ "" ∧ item = type ++ " " ++ argument

/-- Parameters and arguments of a hook belong together one by one. -/
theorem declares_items {m : Method} (h : ∀ p ∈ m.parameters, p.type ≠ "") :
    List.Forall₂ Declares m.parameterItems m.argumentItems := by
  have hparameters : ∀ {parameters : List Parameter}, (∀ p ∈ parameters, p.type ≠ "") →
      List.Forall₂ Declares (parameters.map Parameter.text) (parameters.map (·.name)) := by
    intro parameters hall
    rw [List.forall₂_map_left_iff, List.forall₂_map_right_iff, List.forall₂_same]
    exact fun p hp => ⟨p.type, hall p hp, rfl⟩
  unfold parameterItems argumentItems receiverType?
  split
  · exact hparameters h
  · have hreceiver : Declares (m.className ++ "*" ++ " _this") "_this" := by
      refine ⟨m.className ++ "*", fun hempty => ?_, ?_⟩
      · have := congrArg String.toList hempty
        simp at this
      · have hthis : " _this" = " " ++ "_this" := by decide
        rw [hthis]
        exact String.append_assoc.symm
    exact .cons hreceiver (hparameters h)

/-- **When every argument of a hook has a name.**  Each parameter has a type and is declared
as what its argument names; the name has no marks before it, and it is empty exactly if the
parameter is written with a last word of marks. -/
theorem argumentItems_named_iff {m : Method} {cs : List Char}
    (h : m.parameters = Parameter.readList cs) :
    (∀ (i : Nat) (p : Parameter), m.parameters[i]? = some p →
      ∃ piece ∈ splitTopLevel ',' cs, p.NamedBy i piece) ∧
    (m.parameterList = ", ".intercalate m.parameterItems ∧
      m.argumentList = ", ".intercalate m.argumentItems ∧
      List.Forall₂ Declares m.parameterItems m.argumentItems) ∧
    ((∀ argument ∈ m.argumentItems, argument ≠ "") ↔
      ∀ piece ∈ splitTopLevel ',' cs, ¬Parameter.EndsInMarks piece) := by
  have htypes : ∀ p ∈ m.parameters, p.type ≠ "" := by
    intro p hp hempty
    rw [h] at hp
    exact Parameter.type_ne_nil_of_mem_readList hp (congrArg String.toList hempty)
  refine ⟨fun i p hp => ?_, ⟨rfl, rfl, declares_items htypes⟩, ?_⟩
  · rw [h] at hp
    exact Parameter.exists_namedBy hp
  · rw [← Parameter.named_readList_iff, ← h]
    constructor
    · intro hall p hp
      exact hall p.name (List.mem_append_right _ (List.mem_map_of_mem hp))
    · intro hall argument hargument
      rcases List.mem_append.1 hargument with hreceiver | hparameter
      · rw [Option.toList_map, List.mem_map] at hreceiver
        obtain ⟨type, -, rfl⟩ := hreceiver
        decide
      · obtain ⟨p, hp, rfl⟩ := List.mem_map.1 hparameter
        exact hall p hp

/-- A pointer without a name: its argument has none either. -/
theorem argumentItems_named_iff_pointer :
    let m : Method :=
      { className := "A", returnType := "void", name := "F",
        parameters := [⟨"float", "x"⟩, ⟨"int", ""⟩], isStatic := false, isVirtual := false,
        nativeSignature := "A.F", fullText := "", sourceLabel := "" }
    m.parameters = Parameter.readList "float x, int *".toList ∧
      m.stub = "void Hook_A_F(A* _this, float x, int )\n\x7b\n    A_F.original(_this, x, );\n\x7d" ∧
      ¬∀ argument ∈ m.argumentItems, argument ≠ "" := by
  intro m
  have hread : m.parameters = Parameter.readList "float x, int *".toList := by decide +kernel
  refine ⟨hread, by decide +kernel, fun hall => ?_⟩
  have hnone := (argumentItems_named_iff hread).2.2.1 hall
  refine hnone " int *".toList (by decide +kernel) ⟨"int".toList, ['*'], ?_, rfl, ?_⟩
  · decide +kernel
  · intro c hc
    rw [List.mem_singleton.1 hc]
    rfl

end Method

end NativeHooks
