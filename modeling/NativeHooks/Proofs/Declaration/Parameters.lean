/-
# The types of a parameter list

Reading a parameter list never fails, however malformed the list is, and the types
that it yields can always be told apart again: joined with `, ` they are split into
the same types (`separable_readList`).  A list is split at its top level, so no piece
has a comma there and every piece but the last one closes what it opens.  None of
the steps after that changes this: they cut a piece off at its top level, or touch
spaces only, which count for nothing.

Besides, every type is trimmed, and the only space in a type or in a name is the space
character.
-/

import NativeHooks.Declaration.Parameters
import NativeHooks.Proofs.Text.Splitting

namespace NativeHooks

namespace Text

/-! ### Spaces count for nothing -/

theorem depth_trim (w : List Char) : depth (trim w) = depth w := by
  obtain ⟨u, v, hw, hu, hv⟩ := exists_trim w
  have hdu : depth u = 0 := depth_eq_zero fun c hc => nesting_eq_zero_of_isSpace (hu c hc)
  have hdv : depth v = 0 := depth_eq_zero fun c hc => nesting_eq_zero_of_isSpace (hv c hc)
  have hdw := congrArg depth hw
  rw [depth_append, depth_append] at hdw
  omega

theorem Guarded.trim {sep : Char} {w : List Char} (h : Guarded sep 0 w) :
    Guarded sep 0 (Text.trim w) := by
  obtain ⟨u, v, hw, hu, -⟩ := exists_trim w
  have hdu : depth u = 0 := depth_eq_zero fun c hc => nesting_eq_zero_of_isSpace (hu c hc)
  rw [hw, guarded_append, guarded_append, hdu, Int.add_zero] at h
  exact h.1.2

theorem depth_collapseFrom (inRun : Bool) (w : List Char) :
    depth (collapseFrom inRun w) = depth w := by
  induction w generalizing inRun with
  | nil => rfl
  | cons c w ih =>
      rw [collapseFrom, depth_cons]
      split
      · next hc =>
          rw [nesting_eq_zero_of_isSpace hc]
          split
          · rw [ih, Int.zero_add]
          · rw [depth_cons, ih]
            rfl
      · rw [depth_cons, ih]

theorem Guarded.collapseFrom {sep : Char} (hsep : isSpace sep = false) {d : Int} {w : List Char}
    (h : Guarded sep d w) (inRun : Bool) : Guarded sep d (Text.collapseFrom inRun w) := by
  induction w generalizing d inRun with
  | nil => trivial
  | cons c w ih =>
      rw [Text.collapseFrom]
      split
      · next hc =>
          have hw := h.2
          rw [nesting_eq_zero_of_isSpace hc, Int.add_zero] at hw
          split
          · exact ih hw true
          · refine ⟨fun hspace => ?_, ?_⟩
            · rw [← hspace] at hsep
              exact absurd hsep (by decide)
            · rw [show nesting ' ' = 0 from rfl, Int.add_zero]
              exact ih hw true
      · exact ⟨h.1, ih h.2 false⟩

/-- If brackets are around every space, they are around what is left of it. -/
theorem guarded_space_collapseFrom {d : Int} {w : List Char}
    (h : ∀ s, isSpace s = true → Guarded s d w) (inRun : Bool) :
    Guarded ' ' d (collapseFrom inRun w) := by
  induction w generalizing d inRun with
  | nil => trivial
  | cons c w ih =>
      rw [collapseFrom]
      split
      · next hc =>
          have hinside : d ≠ 0 := (h c hc).1 rfl
          have hw : ∀ s, isSpace s = true → Guarded s d w := by
            intro s hs
            have hmore := (h s hs).2
            rwa [nesting_eq_zero_of_isSpace hc, Int.add_zero] at hmore
          split
          · exact ih hw true
          · refine ⟨fun _ => hinside, ?_⟩
            rw [show nesting ' ' = 0 from rfl, Int.add_zero]
            exact ih hw true
      · next hc =>
          refine ⟨fun hspace => ?_, ih (fun s hs => (h s hs).2) false⟩
          rw [hspace] at hc
          exact absurd rfl hc

/-- The only space of a collapsed text is the space character. -/
theorem eq_space_of_mem_collapseFrom {inRun : Bool} {w : List Char} {c : Char}
    (h : c ∈ collapseFrom inRun w) (hc : isSpace c = true) : c = ' ' := by
  induction w generalizing inRun with
  | nil => exact absurd h List.not_mem_nil
  | cons a w ih =>
      rw [collapseFrom] at h
      split at h
      · split at h
        · exact ih h
        · rcases List.mem_cons.1 h with h | h
          · exact h
          · exact ih h
      · next ha =>
          rcases List.mem_cons.1 h with rfl | h
          · exact absurd hc ha
          · exact ih h

/-! ### Cutting at the top level -/

/-- Cutting at a stop leaves the whole text, or what stands before the top level. -/
theorem untilTopLevel_spec (stop : Char) (d : Int) (w : List Char) :
    untilTopLevel stop d w <+: w ∧ (untilTopLevel stop d w = w ∨ d + depth (untilTopLevel stop d w) = 0) := by
  induction w generalizing d with
  | nil => exact ⟨List.prefix_refl _, .inl rfl⟩
  | cons c w ih =>
      rw [untilTopLevel]
      split
      · next hc => exact ⟨List.nil_prefix, .inr (by rw [depth_nil, Int.add_zero]; exact hc.2)⟩
      · obtain ⟨hinitial, hend⟩ := ih (d + nesting c)
        refine ⟨List.cons_prefix_cons.2 ⟨rfl, hinitial⟩, ?_⟩
        rcases hend with hend | hend
        · exact .inl (congrArg _ hend)
        · refine .inr ?_
          rw [depth_cons, ← Int.add_assoc]
          exact hend

/-- What is read before the last space ends at the top level. -/
theorem splitLastSpace_spec {d : Int} {w u v : List Char} (h : splitLastSpace d w = some (u, v)) :
    w = u ++ ' ' :: v ∧ d + depth u = 0 := by
  induction w generalizing d u with
  | nil => exact absurd h.symm (Option.some_ne_none _)
  | cons c w ih =>
      rw [splitLastSpace] at h
      split at h
      · next left right hsplit =>
          obtain ⟨rfl, rfl⟩ := Prod.mk.inj (Option.some.inj h)
          obtain ⟨rfl, hdepth⟩ := ih hsplit
          exact ⟨rfl, by rw [depth_cons, ← Int.add_assoc]; exact hdepth⟩
      · split at h
        · next hc =>
            obtain ⟨rfl, rfl⟩ := Prod.mk.inj (Option.some.inj h)
            obtain ⟨rfl, rfl⟩ := hc
            exact ⟨rfl, rfl⟩
        · exact absurd h.symm (Option.some_ne_none _)

/-! ### Pieces of a list -/

/-- What is done to each piece alone keeps them separable if it keeps commas guarded
and brackets closed. -/
theorem Separable.map {f : List Char → List Char}
    (hguarded : ∀ t, Guarded ',' 0 t → Guarded ',' 0 (f t))
    (hdepth : ∀ t, depth t = 0 → depth (f t) = 0) {texts : List (List Char)}
    (h : Separable texts) : Separable (texts.map f) := by
  induction texts with
  | nil => trivial
  | cons t texts ih =>
      obtain ⟨ht, hclosed, hmore⟩ := separable_cons.1 h
      refine separable_cons.2 ⟨hguarded t ht, fun hne => hdepth t (hclosed fun hnil => ?_), ih hmore⟩
      rw [hnil] at hne
      exact hne rfl

/-- **The pieces of a split list are separable.** -/
theorem separable_splitTopLevel (w : List Char) : Separable (splitTopLevel ',' w) := by
  induction w using split_induction ',' with
  | nil => trivial
  | last w hw hne =>
      rw [splitTopLevel_last hw hne]
      exact hw
  | cut u v hu hdepth ih =>
      rw [splitTopLevel_cut rfl hu hdepth]
      exact separable_cons.2 ⟨hu, fun _ => hdepth, ih⟩

end Text

/-! ### Parameters -/

namespace Parameter

open Text

theorem guarded_tidy {piece : List Char} (h : Guarded ',' 0 piece) : Guarded ',' 0 (tidy piece) := by
  have hcut : Guarded ',' 0 (untilTopLevel '=' 0 piece) := by
    obtain ⟨rest, hrest⟩ := (untilTopLevel_spec '=' 0 piece).1
    rw [← hrest, guarded_append] at h
    exact h.1
  exact (hcut.trim.collapseFrom rfl false).trim

theorem depth_tidy {piece : List Char} (h : depth piece = 0) : depth (tidy piece) = 0 := by
  have hcut : depth (untilTopLevel '=' 0 piece) = 0 := by
    rcases (untilTopLevel_spec '=' 0 piece).2 with hwhole | hdepth
    · rw [hwhole, h]
    · rwa [Int.zero_add] at hdepth
  rw [tidy, depth_trim, collapse, depth_collapseFrom, depth_trim, hcut]

/-- The type of a parameter is its piece, or what stands in it before the last space
at the top level. -/
theorem exists_type_ofPiece (index : Nat) {piece : List Char} (h : trim piece = piece) :
    ∃ u, u <+: piece ∧ (ofPiece index piece).type.toList = trim u ∧ (depth u = 0 ∨ u = piece) := by
  have hwhole : ∀ name, ∃ u, u <+: piece ∧
      (⟨String.ofList piece, name⟩ : Parameter).type.toList = trim u ∧ (depth u = 0 ∨ u = piece) :=
    fun name => ⟨piece, List.prefix_refl _, by rw [h, String.toList_ofList], .inr rfl⟩
  rw [ofPiece]
  split
  · next left right hsplit =>
      obtain ⟨hpiece, hdepth⟩ := splitLastSpace_spec hsplit
      split
      · exact hwhole _
      · refine ⟨left, ⟨' ' :: right, hpiece.symm⟩, String.toList_ofList, .inl ?_⟩
        rwa [Int.zero_add] at hdepth
  · exact hwhole _

/-- A piece that is not empty has a type. -/
theorem type_ofPiece_ne_nil (index : Nat) {piece : List Char} (htrim : trim piece = piece)
    (hne : piece ≠ []) : (ofPiece index piece).type.toList ≠ [] := by
  have hwhole : ∀ name, (⟨String.ofList piece, name⟩ : Parameter).type.toList ≠ [] := by
    intro name
    rwa [String.toList_ofList]
  rw [ofPiece]
  split
  · next left right hsplit =>
      split
      · exact hwhole _
      · next hleft =>
          -- The type begins with the piece, which does not begin with a space.
          have hpiece := (splitLastSpace_spec hsplit).1
          rcases left with _ | ⟨c, left⟩
          · exact absurd rfl hleft
          have hfirst : isSpace c = false := by
            refine (isSpace_ends_trim piece).1 c ?_
            rw [htrim, hpiece]
            rfl
          intro hnil
          rw [String.toList_ofList] at hnil
          have hspace := isSpace_of_trim_eq_nil hnil c List.mem_cons_self
          exact Bool.false_ne_true (hfirst.symm.trans hspace)
  · exact hwhole _

theorem guarded_ofPiece (index : Nat) {piece : List Char} (htrim : trim piece = piece)
    (h : Guarded ',' 0 piece) : Guarded ',' 0 (ofPiece index piece).type.toList := by
  obtain ⟨u, ⟨rest, hrest⟩, htype, -⟩ := exists_type_ofPiece index htrim
  rw [← hrest, guarded_append] at h
  rw [htype]
  exact h.1.trim

theorem depth_ofPiece (index : Nat) {piece : List Char} (htrim : trim piece = piece)
    (h : depth piece = 0) : depth (ofPiece index piece).type.toList = 0 := by
  obtain ⟨u, -, htype, hu | hu⟩ := exists_type_ofPiece index htrim
  · rw [htype, depth_trim, hu]
  · rw [htype, depth_trim, hu, h]

theorem separable_ofPieces (index : Nat) {pieces : List (List Char)}
    (htrim : ∀ p ∈ pieces, trim p = p) (h : Separable pieces) :
    Separable ((ofPieces index pieces).map (·.type.toList)) := by
  induction pieces generalizing index with
  | nil => trivial
  | cons p pieces ih =>
      obtain ⟨hguarded, hdepth, hmore⟩ := separable_cons.1 h
      have hp := htrim p List.mem_cons_self
      have hrest := fun index => ih index (fun q hq => htrim q (List.mem_cons_of_mem _ hq)) hmore
      rw [ofPieces]
      split
      · exact hrest index
      · refine separable_cons.2 ⟨guarded_ofPiece index hp hguarded, fun hne => ?_, hrest _⟩
        refine depth_ofPiece index hp (hdepth fun hnil => hne ?_)
        rw [hnil]
        rfl

/-- **The types of a parameter list are separable,** whatever the list is. -/
theorem separable_readList (cs : List Char) :
    Separable ((readList cs).map (·.type.toList)) := by
  refine separable_ofPieces 0 (fun p hp => ?_)
    ((separable_splitTopLevel cs).map (fun _ => guarded_tidy) fun _ => depth_tidy)
  obtain ⟨piece, -, rfl⟩ := List.mem_map.1 hp
  exact trim_trim _

/-- A parameter is declared by a piece that is not empty, and counted by its place. -/
theorem exists_piece_of_getElem? {index i : Nat} {pieces : List (List Char)} {p : Parameter}
    (h : (ofPieces index pieces)[i]? = some p) :
    ∃ piece ∈ pieces, piece ≠ [] ∧ p = ofPiece (index + i) piece := by
  induction pieces generalizing index i with
  | nil => exact absurd h.symm (Option.some_ne_none _)
  | cons piece pieces ih =>
      have hmore : ∀ {index i}, (ofPieces index pieces)[i]? = some p →
          ∃ q ∈ piece :: pieces, q ≠ [] ∧ p = ofPiece (index + i) q := by
        intro index i h
        obtain ⟨q, hq, hne, hp⟩ := ih h
        exact ⟨q, List.mem_cons_of_mem _ hq, hne, hp⟩
      rw [ofPieces] at h
      split at h
      · exact hmore h
      · next hne =>
          cases i with
          | zero =>
              obtain rfl := Option.some.inj h
              exact ⟨piece, List.mem_cons_self, fun hnil => hne (List.isEmpty_iff.2 hnil), rfl⟩
          | succ i =>
              rw [← Nat.add_assoc, Nat.add_right_comm]
              exact hmore h

theorem exists_piece_of_mem_ofPieces {index : Nat} {pieces : List (List Char)} {p : Parameter}
    (h : p ∈ ofPieces index pieces) :
    ∃ piece ∈ pieces, piece ≠ [] ∧ ∃ index, p = ofPiece index piece := by
  obtain ⟨i, hi⟩ := List.getElem?_of_mem h
  obtain ⟨piece, hpiece, hne, hp⟩ := exists_piece_of_getElem? hi
  exact ⟨piece, hpiece, hne, _, hp⟩

/-- **Every parameter has a type.** -/
theorem type_ne_nil_of_mem_readList {cs : List Char} {p : Parameter} (h : p ∈ readList cs) :
    p.type.toList ≠ [] := by
  obtain ⟨piece, hpiece, hne, index, rfl⟩ := exists_piece_of_mem_ofPieces h
  obtain ⟨raw, -, rfl⟩ := List.mem_map.1 hpiece
  exact type_ofPiece_ne_nil index (trim_trim (collapse _)) hne

/-- The type of a parameter is trimmed, and the only space in it is the space
character. -/
theorem spaces_of_mem_readList {cs : List Char} {p : Parameter} (h : p ∈ readList cs) :
    trim p.type.toList = p.type.toList ∧ ∀ c ∈ p.type.toList, isSpace c = true → c = ' ' := by
  obtain ⟨piece, hpiece, -, index, rfl⟩ := exists_piece_of_mem_ofPieces h
  obtain ⟨raw, -, rfl⟩ := List.mem_map.1 hpiece
  obtain ⟨u, hinitial, htype, -⟩ := exists_type_ofPiece index (trim_trim (collapse _))
  constructor
  · rw [tidy, htype, trim_trim]
  · intro c hc hspace
    rw [tidy, htype] at hc
    have hpiece := hinitial.mem ((trim_sublist u).mem hc)
    exact eq_space_of_mem_collapseFrom ((trim_sublist _).mem hpiece) hspace

/-- The number that counts a parameter without a name has no spaces. -/
theorem isSpace_of_mem_arg {index : Nat} {c : Char} (h : c ∈ ("arg" ++ toString index).toList) :
    isSpace c = false := by
  rw [String.toList_append, List.mem_append, Nat.toString_eq_repr, Nat.toList_repr] at h
  rcases h with h | h
  · have hletter : c ∈ ['a', 'r', 'g'] := h
    simp only [List.mem_cons, List.not_mem_nil, or_false] at hletter
    rcases hletter with rfl | rfl | rfl <;> decide
  · have hdigit := Nat.isDigit_of_mem_toDigits (by omega) (by omega) h
    exact isSpace_eq_false_of_isIdent (by rw [isIdent, Char.isAlphanum, hdigit, Bool.or_true]; rfl)

/-- The only space in the name of a parameter is the space character. -/
theorem eq_space_of_mem_name {cs : List Char} {p : Parameter} (h : p ∈ readList cs) {c : Char}
    (hc : c ∈ p.name.toList) (hspace : isSpace c = true) : c = ' ' := by
  obtain ⟨piece, hpiece, -, index, rfl⟩ := exists_piece_of_mem_ofPieces h
  obtain ⟨raw, -, rfl⟩ := List.mem_map.1 hpiece
  have hcount : c ∉ ("arg" ++ toString index).toList := by
    intro harg
    rw [isSpace_of_mem_arg harg] at hspace
    exact Bool.false_ne_true hspace
  rw [ofPiece] at hc
  split at hc
  · next left right hsplit =>
      split at hc
      · exact absurd hc hcount
      · rw [String.toList_ofList] at hc
        have hright := (trim_sublist right).mem ((List.dropWhile_sublist _).mem hc)
        have hpiece : c ∈ tidy raw := by
          rw [(splitLastSpace_spec hsplit).1]
          exact List.mem_append_right _ (List.mem_cons_of_mem _ hright)
        exact eq_space_of_mem_collapseFrom ((trim_sublist _).mem hpiece) hspace
  · exact absurd hc hcount

end Parameter

end NativeHooks
