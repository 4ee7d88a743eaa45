/-
# Lists by offset agree with lists of characters

Splitting a list, reading its parameters and reading a declared hook go by offsets without
a fault and give what they give from characters (`splitTopLevel_eq`, `readParameters_eq`,
`readHook_eq`).

Each loop is followed character by character, from a place in the midst of the text: what
it has kept so far is what stands before that place, and what it will find is what reading
the characters from there finds (`walk_splitMove`, `walk_spaceMove`, `walk_stopMove`,
`walk_bracketMove`).  Depths fit into 32 bits because a text that has fewer bytes than
that has fewer brackets.
-/

import NativeHooks.Offset.Lists
import NativeHooks.Proofs.Declaration.Layout
import NativeHooks.Proofs.Header.Parts
import NativeHooks.Proofs.Offset.Walks

namespace NativeHooks
namespace Offset

open Text

/-! ### Counting -/

theorem fitting_eq {n : Int} (h : n.natAbs < countLimit) : fitting n = .ok n := by
  rw [fitting, if_pos]
  omega

/-- A character opens a bracket, closes one, or is none. -/
theorem nesting_cases (c : Char) :
    ((c = '<' ∨ c = '(') ∧ nesting c = 1) ∨
      (¬ (c = '<' ∨ c = '(') ∧ (c = '>' ∨ c = ')') ∧ nesting c = -1) ∨
        ¬ (c = '<' ∨ c = '(') ∧ ¬ (c = '>' ∨ c = ')') ∧ nesting c = 0 := by
  by_cases hopen : c = '<' ∨ c = '('
  · exact .inl ⟨hopen, by rw [nesting, if_pos hopen]⟩
  by_cases hclose : c = '>' ∨ c = ')'
  · exact .inr (.inl ⟨hopen, hclose, by rw [nesting, if_neg hopen, if_pos hclose]⟩)
  · exact .inr (.inr ⟨hopen, hclose, by rw [nesting, if_neg hopen, if_neg hclose]⟩)

/-- Number of brackets in a text. -/
def brackets (cs : List Char) : Nat := cs.countP fun c => nesting c != 0

theorem brackets_sublist {u v : List Char} (h : u.Sublist v) : brackets u ≤ brackets v :=
  h.countP_le

theorem brackets_le_size (cs : List Char) : brackets cs ≤ size cs :=
  Nat.le_trans List.countP_le_length (length_le_size cs)

theorem brackets_cons (c : Char) (cs : List Char) :
    brackets (c :: cs) = (nesting c).natAbs + brackets cs := by
  rw [brackets, List.countP_cons, brackets, Nat.add_comm]
  rcases nesting_cases c with ⟨-, h⟩ | ⟨-, -, h⟩ | ⟨-, -, h⟩ <;> simp [h]

theorem brackets_collapse (w : List Char) : brackets (collapse w) = brackets w := by
  have hfrom : ∀ (w : List Char) (inRun : Bool), brackets (collapseFrom inRun w) = brackets w := by
    intro w
    induction w with
    | nil => exact fun _ => rfl
    | cons c w ih =>
        intro inRun
        rw [collapseFrom, brackets_cons]
        split
        · next hc =>
            rw [nesting_eq_zero_of_isSpace hc]
            split
            · rw [ih]; simp
            · rw [brackets_cons, ih]; rfl
        · rw [brackets_cons, ih]
  exact hfrom w false

/-! ### Loops that count brackets -/

section Level

variable {α : Type} {move : Move α} {kept : α} {i : Nat} {c : Char} {d : Int}

/-- A bracket is counted. -/
theorem levelMove_bracket (hc : nesting c ≠ 0) (hfits : (d + nesting c).natAbs < countLimit) :
    levelMove move ⟨d, kept⟩ i c = .ok (.yield ⟨d + nesting c, kept⟩) := by
  rcases nesting_cases c with ⟨hopen, h⟩ | ⟨hopen, hclose, h⟩ | ⟨-, -, h⟩
  · rw [h] at hfits ⊢
    simp only [levelMove, if_pos hopen, fitting_eq hfits]
    rfl
  · rw [h] at hfits ⊢
    simp only [levelMove, if_neg hopen, if_pos hclose, Int.sub_eq_add_neg, fitting_eq hfits]
    rfl
  · exact absurd h hc

/-- Inside brackets nothing else happens. -/
theorem levelMove_inside (hc : nesting c = 0) (hd : d ≠ 0) :
    levelMove move ⟨d, kept⟩ i c = .ok (.yield ⟨d, kept⟩) := by
  rcases nesting_cases c with ⟨-, h⟩ | ⟨-, -, h⟩ | ⟨hopen, hclose, -⟩
  · rw [hc] at h; exact absurd h (by decide)
  · rw [hc] at h; exact absurd h (by decide)
  · simp only [levelMove, if_neg hopen, if_neg hclose, if_neg hd]
    rfl

/-- At the top level the loop goes by what it keeps. -/
theorem levelMove_top (hc : nesting c = 0) {step : ForInStep α} (hstep : move kept i c = .ok step) :
    levelMove move ⟨0, kept⟩ i c = .ok (Level.step 0 step) := by
  rcases nesting_cases c with ⟨-, h⟩ | ⟨-, -, h⟩ | ⟨hopen, hclose, -⟩
  · rw [hc] at h; exact absurd h (by decide)
  · rw [hc] at h; exact absurd h (by decide)
  · simp only [levelMove, if_neg hopen, if_neg hclose, hstep, ok_bind]
    rfl

/-- A loop that passes a character at the top level passes it anywhere. -/
theorem levelMove_pass (hfits : (d + nesting c).natAbs < countLimit)
    (hpass : nesting c = 0 → d = 0 → move kept i c = .ok (.yield kept)) :
    levelMove move ⟨d, kept⟩ i c = .ok (.yield ⟨d + nesting c, kept⟩) := by
  by_cases hc : nesting c = 0
  · rw [hc, Int.add_zero]
    by_cases hd : d = 0
    · rw [hd]
      exact levelMove_top hc (hpass hc hd)
    · exact levelMove_inside hc hd
  · exact levelMove_bracket hc hfits

theorem nesting_of_beyond (hc : 0x80 ≤ c.toNat) : nesting c = 0 := by
  rw [nesting, if_neg, if_neg]
  · exact not_or.2 ⟨ne_of_beyond hc (by decide), ne_of_beyond hc (by decide)⟩
  · exact not_or.2 ⟨ne_of_beyond hc (by decide), ne_of_beyond hc (by decide)⟩

theorem unmoved_levelMove (h : Unmoved move) : Unmoved (levelMove move) := by
  rintro ⟨d, kept⟩ i c hc
  by_cases hd : d = 0
  · subst hd
    exact levelMove_top (nesting_of_beyond hc) (h kept i c hc)
  · exact levelMove_inside (nesting_of_beyond hc) hd

end Level

/-- What is left to be counted fits as well. -/
theorem fits_of_cons {d : Int} {c : Char} {cs : List Char}
    (h : d.natAbs + brackets (c :: cs) < countLimit) :
    (d + nesting c).natAbs < countLimit ∧ (d + nesting c).natAbs + brackets cs < countLimit := by
  rw [brackets_cons] at h
  omega

/-! ### Splitting -/

section Split

variable {sep : Char} {text : List Char}

theorem unmoved_splitMove (hsep : sep.toNat < 0x80) : Unmoved (splitMove sep text) := by
  intro s i c hc
  rw [splitMove, if_neg (ne_of_beyond hc hsep)]
  rfl

/-- The last piece is what is left. -/
def lastPiece (text : List Char) (s : Level Splitting) : Checked (List (List Char)) := do
  if s.kept.start < size text then
    return s.kept.pieces ++ [← slice text s.kept.start (size text)]
  else return s.kept.pieces

/-- The rest `u` of a text is its last piece, unless it is empty. -/
theorem lastPiece_eq {l u : List Char} (htext : text = l ++ u) (d : Int)
    (pieces : List (List Char)) :
    lastPiece text ⟨d, size l, pieces⟩ = .ok (pieces ++ dropEmptyLast [u]) := by
  have hslice : slice text (startOf text u) (size text) = .ok u :=
    slice_startOf ⟨l, htext.symm⟩
  rw [startOf_eq htext] at hslice
  have hsize : size text = size l + size u := by rw [htext, size_append]
  rw [lastPiece, dropEmptyLast]
  rcases u with _ | ⟨c, u⟩
  · rw [if_neg (by simp [hsize])]
    simp
  · have := c.utf8Size_pos
    rw [if_pos (by simp only [hsize, size_cons]; omega), hslice, if_neg (by simp)]
    rfl

/-- At a separator a piece is cut off. -/
theorem splitMove_sep (hsep : sep.toNat < 0x80) {l u cs : List Char}
    (htext : text = l ++ (u ++ sep :: cs)) (pieces : List (List Char)) :
    splitMove sep text ⟨size l, pieces⟩ (startOf text (sep :: cs)) sep
      = .ok (.yield ⟨size (l ++ u ++ [sep]), pieces ++ [u]⟩) := by
  have hplace : startOf text (sep :: cs) = size l + size u := by
    rw [startOf_eq (w := l ++ u) (by rw [htext, List.append_assoc]), size_append]
  have hnext : size (l ++ u ++ [sep]) = size l + size u + 1 := by
    rw [size_append, size_append, size_cons_ascii hsep, size_nil]
  rw [splitMove, if_pos rfl, hplace, slice_eq htext, hnext]
  rfl

/-- **Splitting from any place on,** with the part `u` of a piece before it. -/
theorem walk_splitMove (hsep : sep.toNat < 0x80) {l u cs : List Char}
    (htext : text = l ++ (u ++ cs)) {d : Int} (hfits : d.natAbs + brackets cs < countLimit)
    (pieces : List (List Char)) :
    (walk (encode text) (levelMove (splitMove sep text)) ⟨d, size l, pieces⟩ (startOf text cs)
        >>= lastPiece text)
      = .ok (pieces
        ++ dropEmptyLast ((u ++ (splitFrom sep d cs).1) :: (splitFrom sep d cs).2)) := by
  induction cs generalizing l u d pieces with
  | nil =>
      rw [List.append_nil] at htext
      rw [walk_nil, ok_bind, lastPiece_eq htext, splitFrom, List.append_nil]
  | cons c cs ih =>
      obtain ⟨hfits', hrest⟩ := fits_of_cons hfits
      rw [walk_cons (unmoved_levelMove (unmoved_splitMove hsep))
        ⟨l ++ u, by rw [htext, List.append_assoc]⟩, splitFrom]
      by_cases hcut : c = sep ∧ nesting c = 0 ∧ d = 0
      · obtain ⟨rfl, hc, rfl⟩ := hcut
        have hlater : text = (l ++ u ++ [c]) ++ ([] ++ cs) := by rw [htext]; simp
        rw [hc, Int.add_zero] at hrest
        rw [levelMove_top hc (splitMove_sep hsep htext pieces), ok_bind, Level.step, proceed,
          ih hlater hrest, if_pos ⟨rfl, hc, rfl⟩, List.nil_append, List.append_nil,
          List.append_assoc]
        rfl
      · have hpass : nesting c = 0 → d = 0 →
            splitMove sep text ⟨size l, pieces⟩ (startOf text (c :: cs)) c
              = .ok (.yield ⟨size l, pieces⟩) := by
          intro hc hd
          rw [splitMove, if_neg fun heq => hcut ⟨heq, hc, hd⟩]
          rfl
        have hnext : text = l ++ ((u ++ [c]) ++ cs) := by rw [htext]; simp
        rw [levelMove_pass hfits' hpass, ok_bind, proceed, ih hnext hrest, if_neg hcut,
          List.append_assoc]
        rfl

/-- **A text is split as its characters are.** -/
theorem splitTopLevel_eq (hsep : sep.toNat < 0x80) (hfits : brackets text < countLimit) :
    splitTopLevel sep text = .ok (Text.splitTopLevel sep text) := by
  have htext : text = [] ++ ([] ++ text) := rfl
  have hwalk := walk_splitMove hsep htext (d := 0) (by simpa using hfits) []
  rw [List.nil_append, startOf_self] at hwalk
  exact hwalk

end Split

/-! ### Spaces and stops -/

section Spaces

variable {text : List Char}

theorem unmoved_spaceMove : Unmoved spaceMove := by
  intro s i c hc
  rw [spaceMove, if_neg (ne_of_beyond hc (by decide))]
  rfl

/-- One character: brackets are counted, and a space at the top level is kept. -/
theorem spaceMove_step {c : Char} {d : Int} (hfits : (d + nesting c).natAbs < countLimit)
    (last : Option Nat) (i : Nat) :
    levelMove spaceMove ⟨d, last⟩ i c
      = .ok (.yield ⟨d + nesting c, if c = ' ' ∧ d = 0 then some i else last⟩) := by
  by_cases hspace : c = ' ' ∧ d = 0
  · obtain ⟨rfl, rfl⟩ := hspace
    rfl
  · rw [if_neg hspace]
    refine levelMove_pass hfits fun _ hd => ?_
    rw [spaceMove, if_neg fun hc => hspace ⟨hc, hd⟩]
    rfl

/-- **Looking for the last space from any place on,** with `last` found before it. -/
theorem walk_spaceMove {cs : List Char} (h : cs <:+ text) {d : Int}
    (hfits : d.natAbs + brackets cs < countLimit) (last : Option Nat) :
    walk (encode text) (levelMove spaceMove) ⟨d, last⟩ (startOf text cs)
      = .ok ⟨d + depth cs,
        ((splitLastSpace d cs).map fun r => startOf text (' ' :: r.2)).or last⟩ := by
  induction cs generalizing d last with
  | nil =>
      rw [walk_nil, depth_nil, Int.add_zero]
      rfl
  | cons c cs ih =>
      obtain ⟨hfits', hmore⟩ := fits_of_cons hfits
      rw [walk_cons (unmoved_levelMove unmoved_spaceMove) h, spaceMove_step hfits', ok_bind,
        proceed, ih (suffix_tail h) hmore, depth_cons, Int.add_assoc,
        splitLastSpace]
      rcases splitLastSpace (d + nesting c) cs with _ | ⟨left, right⟩
      · by_cases hspace : c = ' ' ∧ d = 0
        · obtain ⟨rfl, rfl⟩ := hspace
          rfl
        · simp only [if_neg hspace]
      · rfl

theorem lastSpace?_eq (hfits : brackets text < countLimit) :
    lastSpace? text
      = .ok ((splitLastSpace 0 text).map fun r => startOf text (' ' :: r.2)) := by
  have hwalk := walk_spaceMove (d := 0) (List.suffix_refl text) (by simpa using hfits) none
  rw [startOf_self] at hwalk
  rw [lastSpace?, hwalk, ok_bind, Option.or_none]
  rfl

theorem unmoved_stopMove {stop : Char} (hstop : stop.toNat < 0x80) : Unmoved (stopMove stop) := by
  intro s i c hc
  rw [stopMove, if_neg (ne_of_beyond hc hstop)]
  rfl

/-- The text before what was found. -/
def cutAt (text : List Char) (s : Level (Option Nat)) : Checked (List Char) :=
  match s.kept with
  | some i => slice text 0 i
  | none => return text

/-- **Looking for a stop from any place on.** -/
theorem walk_stopMove {stop : Char} (hstop : stop.toNat < 0x80) (hnesting : nesting stop = 0)
    {l cs : List Char} (htext : text = l ++ cs) {d : Int}
    (hfits : d.natAbs + brackets cs < countLimit) :
    (walk (encode text) (levelMove (stopMove stop)) ⟨d, none⟩ (startOf text cs) >>= cutAt text)
      = .ok (l ++ Text.untilTopLevel stop d cs) := by
  induction cs generalizing l d with
  | nil =>
      rw [walk_nil, ok_bind, htext]
      rfl
  | cons c cs ih =>
      have hnext : text = (l ++ [c]) ++ cs := by rw [htext]; simp
      obtain ⟨hfits', hmore⟩ := fits_of_cons hfits
      rw [walk_cons (unmoved_levelMove (unmoved_stopMove hstop)) ⟨l, htext.symm⟩,
        Text.untilTopLevel]
      by_cases hstopped : c = stop ∧ d = 0
      · obtain ⟨rfl, rfl⟩ := hstopped
        have hstep : stopMove c none (startOf text (c :: cs)) c
            = .ok (.done (some (startOf text (c :: cs)))) := by
          rw [stopMove, if_pos rfl]
          rfl
        rw [levelMove_top hnesting hstep, ok_bind, Level.step, proceed, pure_eq_ok, ok_bind, cutAt,
          startOf_eq htext, if_pos ⟨rfl, rfl⟩, List.append_nil]
        exact slice_before htext
      · have hpass : nesting c = 0 → d = 0 →
            stopMove stop none (startOf text (c :: cs)) c = .ok (.yield none) := by
          intro _ hd
          rw [stopMove, if_neg fun heq => hstopped ⟨heq, hd⟩]
          rfl
        rw [levelMove_pass hfits' hpass, ok_bind, proceed, ih hnext hmore, if_neg hstopped,
          List.append_assoc]
        rfl

theorem untilTopLevel_eq {stop : Char} (hstop : stop.toNat < 0x80) (hnesting : nesting stop = 0)
    (hfits : brackets text < countLimit) :
    untilTopLevel stop text = .ok (Text.untilTopLevel stop 0 text) := by
  have htext : text = [] ++ text := rfl
  have hwalk := walk_stopMove hstop hnesting htext (d := 0) (by simpa using hfits)
  rw [startOf_self] at hwalk
  exact hwalk

end Spaces

/-! ### Parameters -/

/-- A piece is read as its characters are. -/
theorem ofPiece_eq (index : Nat) {piece : List Char} (hfits : brackets piece < countLimit) :
    ofPiece index piece = .ok (Parameter.ofPiece index piece) := by
  rw [ofPiece, lastSpace?_eq hfits, ok_bind, Parameter.ofPiece]
  rcases hsplit : splitLastSpace 0 piece with _ | ⟨type, name⟩
  · rfl
  obtain ⟨hpiece, -⟩ := splitLastSpace_spec hsplit
  have hplace : startOf piece (' ' :: name) = size type := startOf_eq hpiece
  rcases type with _ | ⟨c, type⟩
  · simp only [Option.map_some, hplace]
    rfl
  have hpos : 0 < size (c :: type) := by
    have := c.utf8Size_pos
    rw [size_cons]
    omega
  have hname : slice piece (size (c :: type) + 1) (size piece) = .ok name := by
    have hsuffix : ' ' :: name <:+ piece := ⟨c :: type, hpiece.symm⟩
    rw [← hplace, startOf_cons_ascii (by decide) hsuffix]
    exact slice_startOf (suffix_tail hsuffix)
  simp only [Option.map_some, hplace, if_pos hpos, slice_before hpiece, hname, ok_bind, pure_eq_ok]
  rfl

/-- **Pieces are read as their characters are.** -/
theorem ofPieces_eq (index : Nat) {pieces : List (List Char)}
    (hfits : ∀ piece ∈ pieces, brackets piece < countLimit) :
    ofPieces index pieces = .ok (Parameter.ofPieces index (pieces.map Parameter.tidy)) := by
  induction pieces generalizing index with
  | nil => rfl
  | cons piece more ih =>
      have hpiece := hfits piece List.mem_cons_self
      have hmore := fun index => ih index fun p hp => hfits p (List.mem_cons_of_mem _ hp)
      have htidy : brackets (Parameter.tidy piece) < countLimit := by
        have hcut := (untilTopLevel_spec '=' 0 piece).1.sublist
        refine Nat.lt_of_le_of_lt (Nat.le_trans (brackets_sublist (trim_sublist _)) ?_) hpiece
        rw [brackets_collapse]
        exact brackets_sublist ((trim_sublist _).trans hcut)
      rw [ofPieces, untilTopLevel_eq (by decide) rfl hpiece, ok_bind, List.map_cons,
        Parameter.ofPieces]
      show (if (Parameter.tidy piece).isEmpty = true then _ else _) = _
      split
      · exact hmore index
      · have hread := ofPiece_eq index htidy
        rw [Parameter.tidy] at hread
        rw [hread, ok_bind, hmore (index + 1), ok_bind]
        rfl

/-- A blank list declares nothing. -/
theorem readList_of_trim_eq_nil {list : List Char} (h : trim list = []) :
    Parameter.readList list = [] := by
  have hread := readList_spaces (isSpace_of_trim_eq_nil h)
    (fun c hc => absurd hc List.not_mem_nil : ∀ c ∈ [], isSpace c = true) []
  rwa [List.append_nil, List.append_nil] at hread

/-- **A parameter list is read as its characters are.** -/
theorem readParameters_eq {list : List Char} (hfits : brackets list < countLimit) :
    readParameters list = .ok (Parameter.readList list) := by
  rw [readParameters]
  split
  · next hempty =>
      rw [readList_of_trim_eq_nil (List.isEmpty_iff.1 hempty)]
      rfl
  · rw [splitTopLevel_eq (by decide) hfits, ok_bind, Parameter.readList]
    refine ofPieces_eq 0 fun piece hpiece => Nat.lt_of_le_of_lt (brackets_sublist ?_) hfits
    exact (List.sublist_flatten_of_mem hpiece).trans (flatten_splitTopLevel_sublist rfl list)

/-! ### Brackets that belong together -/

section Brackets

variable {first last : Char} {ends : Char → Bool} {text cs before : List Char} {d : Nat}

/-- What stands before and after the bracket `last` that ends what a bracket `first` before
the text began, inside `d` brackets of the text; none if a character of `ends` comes first. -/
def bracketed (first last : Char) (ends : Char → Bool) (d : Nat) :
    List Char → Option (List Char × List Char)
  | [] => none
  | c :: cs =>
    if c = first then Header.extend c (bracketed first last ends (d + 1) cs)
    else if c = last then
      match d with
      | 0 => some ([], cs)
      | d + 1 => Header.extend c (bracketed first last ends d cs)
    else if ends c then none
    else Header.extend c (bracketed first last ends d cs)

/-- The bracket that was looked for parts the text. -/
theorem eq_of_bracketed {inner rest : List Char}
    (h : bracketed first last ends d cs = some (inner, rest)) : cs = inner ++ last :: rest := by
  induction cs generalizing d inner with
  | nil => exact absurd h.symm (Option.some_ne_none _)
  | cons c cs ih =>
      have hread : ∀ {e}, Header.extend c (bracketed first last ends e cs) = some (inner, rest) →
          c :: cs = inner ++ last :: rest := by
        intro e hextend
        obtain ⟨⟨inner', rest'⟩, hmore, heq⟩ := Option.map_eq_some_iff.1 hextend
        obtain ⟨rfl, rfl⟩ := Prod.mk.inj heq
        rw [ih hmore, List.cons_append]
      rw [bracketed.eq_def] at h
      simp only at h
      split at h
      · exact hread h
      split at h
      · next hlast =>
          split at h
          · obtain ⟨rfl, rfl⟩ := Prod.mk.inj (Option.some.inj h)
            rw [hlast, List.nil_append]
          · exact hread h
      split at h
      · exact absurd h.symm (Option.some_ne_none _)
      · exact hread h

/-- Brackets and ends that a search goes by: all of them are ASCII. -/
structure Ascii (first last : Char) (ends : Char → Bool) : Prop where
  first : first.toNat < 0x80
  last : last.toNat < 0x80
  ends : ∀ c : Char, 0x80 ≤ c.toNat → ends c = false

theorem Ascii.unmoved (h : Ascii first last ends) : Unmoved (bracketMove first last ends) := by
  intro s i c hc
  rw [bracketMove, if_neg (ne_of_beyond hc h.first), if_neg (ne_of_beyond hc h.last), h.ends c hc]
  rfl

theorem deeper_eq (hfits : d + 1 < countLimit) (found : Option Nat) :
    Search.deeper ⟨d, found⟩ = .ok ⟨(d + 1 : Nat), found⟩ := by
  have hdepth : ((d : Int) + 1).natAbs < countLimit := by omega
  rw [Search.deeper, fitting_eq hdepth]
  rfl

theorem shallower_eq (hfits : d < countLimit) (found : Option Nat) :
    Search.shallower ⟨(d + 1 : Nat), found⟩ = .ok ⟨d, found⟩ := by
  have hdepth : ((d + 1 : Nat) : Int) - 1 = d := by omega
  simp only [Search.shallower, hdepth]
  rw [fitting_eq (by omega)]
  rfl

/-- One character of a search inside `d` brackets of its own. -/
theorem bracketMove_cases (first last : Char) (ends : Char → Bool) (hfits : d + 2 < countLimit)
    (i : Nat) (c : Char) :
    (c = last ∧ bracketMove first last ends ⟨(d + 1 : Nat), none⟩ i c
        = .ok (.done ⟨0, some i⟩) ∧
      ∀ cs, bracketed first last ends d (c :: cs) = some ([], cs)) ∨
    (bracketMove first last ends ⟨(d + 1 : Nat), none⟩ i c
        = .ok (.done ⟨(d + 1 : Nat), none⟩) ∧
      ∀ cs, bracketed first last ends d (c :: cs) = none) ∨
    ∃ e ≤ d + 1, bracketMove first last ends ⟨(d + 1 : Nat), none⟩ i c
        = .ok (.yield ⟨(e + 1 : Nat), none⟩) ∧
      ∀ cs, bracketed first last ends d (c :: cs)
        = Header.extend c (bracketed first last ends e cs) := by
  by_cases hfirst : c = first
  · refine .inr (.inr ⟨d + 1, Nat.le_refl _, ?_, fun cs => ?_⟩)
    · rw [bracketMove, if_pos hfirst, deeper_eq hfits]
      rfl
    · rw [bracketed.eq_def]
      simp only [if_pos hfirst]
  by_cases hlast : c = last
  · have hmove : bracketMove first last ends ⟨(d + 1 : Nat), none⟩ i c
        = if (d : Int) = 0 then .ok (.done ⟨d, some i⟩) else .ok (.yield ⟨d, none⟩) := by
      rw [bracketMove, if_neg hfirst, if_pos hlast, shallower_eq (by omega)]
      rfl
    cases d with
    | zero =>
        refine .inl ⟨hlast, hmove, fun cs => ?_⟩
        rw [bracketed.eq_def]
        simp only [if_neg hfirst, if_pos hlast]
    | succ d =>
        refine .inr (.inr ⟨d, by omega, ?_, fun cs => ?_⟩)
        · rw [hmove, if_neg (by omega)]
        · rw [bracketed.eq_def]
          simp only [if_neg hfirst, if_pos hlast]
  by_cases hends : ends c = true
  · refine .inr (.inl ⟨?_, fun cs => ?_⟩)
    · rw [bracketMove, if_neg hfirst, if_neg hlast, if_pos hends]
      rfl
    · rw [bracketed.eq_def]
      simp only [if_neg hfirst, if_neg hlast, if_pos hends]
  · refine .inr (.inr ⟨d, Nat.le_succ d, ?_, fun cs => ?_⟩)
    · rw [bracketMove, if_neg hfirst, if_neg hlast, if_neg hends]
      rfl
    · rw [bracketed.eq_def]
      simp only [if_neg hfirst, if_neg hlast, if_neg hends]

/-- **A search finds the bracket that it looks for.** -/
theorem walk_bracketMove (h : Ascii first last ends) (hcs : cs <:+ text)
    (hfits : d + 1 + cs.length < countLimit) :
    (do let s ← walk (encode text) (bracketMove first last ends) ⟨(d + 1 : Nat), none⟩
          (startOf text cs)
        return s.found)
      = .ok ((bracketed first last ends d cs).map fun r => startOf text (last :: r.2)) := by
  induction cs generalizing d with
  | nil =>
      rw [walk_nil]
      rfl
  | cons c cs ih =>
      have hrest := suffix_tail hcs
      rw [List.length_cons] at hfits
      have hstep : d + 2 < countLimit := by omega
      rw [walk_cons h.unmoved hcs]
      rcases bracketMove_cases first last ends hstep (startOf text (c :: cs)) c with
        ⟨rfl, hmove, hread⟩ | ⟨hmove, hread⟩ | ⟨e, he, hmove, hread⟩
      · rw [hmove, hread]
        rfl
      · rw [hmove, hread]
        rfl
      · rw [hmove, ok_bind, proceed, ih hrest (by omega), hread, Header.extend, Option.map_map]
        rfl

/-- The same for a search that goes back. -/
theorem walkBack_bracketMove (h : Ascii first last ends) (hbefore : before.reverse <+: text)
    (hfits : d + 1 + before.length < countLimit) :
    (do let s ← walkBack (encode text) (bracketMove first last ends) ⟨(d + 1 : Nat), none⟩
          (size before)
        return s.found)
      = .ok ((bracketed first last ends d before).map fun r => size r.2) := by
  induction before generalizing d with
  | nil => rfl
  | cons c before ih =>
      have hrest := reverse_tail hbefore
      rw [List.length_cons] at hfits
      have hstep : d + 2 < countLimit := by omega
      rw [walkBack_cons h.unmoved hbefore]
      rcases bracketMove_cases first last ends hstep (size before) c with
        ⟨rfl, hmove, hread⟩ | ⟨hmove, hread⟩ | ⟨e, he, hmove, hread⟩
      · rw [hmove, hread]
        rfl
      · rw [hmove, hread]
        rfl
      · rw [hmove, ok_bind, proceed, ih hrest (by omega), hread, Header.extend, Option.map_map]
        rfl

end Brackets

/-! ### Declared hooks -/

/-- The arguments of a hook are what its parentheses hold on one line. -/
theorem argumentsInside_eq (d : Nat) (cs : List Char) :
    DeclaredHook.argumentsInside d cs = (bracketed '(' ')' (· == '\n') d cs).map Prod.fst := by
  induction cs generalizing d with
  | nil => rfl
  | cons c cs ih =>
      have hextend : ∀ r : Option (List Char × List Char),
          (Header.extend c r).map Prod.fst = (r.map Prod.fst).map (c :: ·) := by
        rintro (_ | r) <;> rfl
      rw [DeclaredHook.argumentsInside.eq_def, bracketed.eq_def]
      simp only [ih, ← hextend, beq_iff_eq]
      split
      · rfl
      split
      · cases d <;> rfl
      split <;> rfl

theorem ascii_arguments : Ascii '(' ')' (· == '\n') where
  first := by decide
  last := by decide
  ends c hc := by simpa using ne_of_beyond hc (by decide)

/-- The parenthesis is found that closes the arguments of a hook. -/
theorem closingParenthesis_eq {text rest : List Char} (h : '(' :: rest <:+ text)
    (hfits : size text < countLimit) :
    closingParenthesis (encode text) (startOf text ('(' :: rest))
      = .ok ((bracketed '(' ')' (· == '\n') 0 rest).map fun r => startOf text (')' :: r.2)) := by
  have hlength : rest.length + 1 ≤ text.length := h.length_le
  have hsize := length_le_size text
  have hstep : bracketMove '(' ')' (· == '\n') {} (startOf text ('(' :: rest)) '('
      = .ok (.yield ⟨(0 + 1 : Nat), none⟩) := rfl
  rw [closingParenthesis, walk_cons ascii_arguments.unmoved h, hstep, ok_bind, proceed]
  exact walk_bracketMove ascii_arguments (suffix_tail h) (by omega)

/-- What follows `DECLARE_HOOK(` follows a parenthesis. -/
theorem paren_of_openingShape {place rest : List Char}
    (h : afterShape DeclaredHook.openingShape place = some rest) : '(' :: rest <:+ place := by
  simp only [DeclaredHook.openingShape, afterShape, Part.after, Option.bind_eq_some_iff,
    Option.some.injEq, List.isPrefixOf?_eq_some_iff_append_eq] at h
  obtain ⟨afterWord, hword, -, rfl, afterMark, hmark, rfl⟩ := h
  rw [← hword, show '(' :: afterMark = "(".toList ++ afterMark from rfl, hmark]
  exact (List.dropWhile_suffix _).trans (List.suffix_append _ _)

/-- **A declared hook is read as its characters are.** -/
theorem readHook_eq {text : String} (hfits : size text.toList < countLimit) :
    readHook text.toList = .ok (DeclaredHook.read? text) := by
  rw [readHook, hookOpening?, DeclaredHook.read?]
  rcases hfound : atFirstWord (afterShape DeclaredHook.openingShape) false text.toList with _ | rest
  · rfl
  obtain ⟨place, hplace, hshape⟩ := Header.exists_of_atFirstWord hfound
  have hrest : '(' :: rest <:+ text.toList := (paren_of_openingShape hshape).trans hplace
  have hopening := startOf_cons_ascii (by decide) hrest
  simp only [Option.map_some, ← hopening, pred, ok_bind, closingParenthesis_eq hrest hfits,
    Option.bind_eq_bind, Option.bind_some, argumentsInside_eq]
  rcases hbracketed : bracketed '(' ')' (· == '\n') 0 rest with _ | ⟨inner, after⟩
  · rfl
  have hinner := eq_of_bracketed hbracketed
  have hinside : inner ++ ')' :: after <:+ text.toList := hinner ▸ suffix_tail hrest
  have hslice : slice text.toList (startOf text.toList ('(' :: rest) + 1)
      (startOf text.toList (')' :: after)) = .ok inner := by
    rw [hopening, hinner]
    exact slice_between hinside
  have hbrackets : brackets inner < countLimit := by
    have hsublist := (List.sublist_append_left inner _).trans hinside.sublist
    exact Nat.lt_of_le_of_lt (Nat.le_trans (brackets_sublist hsublist) (brackets_le_size _)) hfits
  have hsplit : splitTopLevel ',' inner = .ok (Text.splitTopLevel ',' inner) :=
    splitTopLevel_eq (by decide) hbrackets
  simp only [Option.map_some, Option.bind_some, hslice, ok_bind, hsplit]
  rfl

end Offset
end NativeHooks
