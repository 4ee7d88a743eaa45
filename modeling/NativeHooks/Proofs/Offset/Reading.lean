/-
# Reading by offset never fails

Every step of reading a header by offset is one that the text allows, and what is read is
what is read from the characters (`readHeader_eq`).  With the lists and declared hooks this
is `faultless_of_size`: in a text of less than 2³¹ bytes, whatever its characters are, no
reader meets a fault.

A declaration is cut out from the start of its head to the end of its body.  The head ends
where the body begins, so these are in order (`declaration_eq`).
-/

import NativeHooks.Proofs.Offset.Bodies

namespace NativeHooks
namespace Offset

open Text

variable {text : List Char}

/-! ### Declarations -/

/-- **The text of a declaration is cut out.** -/
theorem declaration_eq {o : Header.Opening} (htext : text = o.before.reverse ++ '{' :: o.after)
    (hfits : size text < countLimit) {taken left : List Char} (hbefore : o.before = taken ++ left) :
    declaration text (size left) (size o.before) = .ok (Header.declaration o left) := by
  obtain ⟨⟨more, hmore⟩, hend⟩ := bodyEnd_eq htext hfits
  have hbetween : Header.between o.before left = taken.reverse := by
    have h := Header.between_append taken.reverse left
    rwa [List.reverse_reverse, ← hbefore] at h
  have hparts : text = left.reverse ++ ((taken.reverse ++ Header.body o.after) ++ more) := by
    rw [htext, hbefore, ← hmore]
    simp
  have hslice := slice_eq hparts
  have hsize : size left.reverse + size (taken.reverse ++ Header.body o.after)
      = size o.before + size (Header.body o.after) := by
    rw [hbefore, size_append, size_append, size_reverse, size_reverse]
    omega
  rw [hsize, size_reverse] at hslice
  rw [declaration, hend, ok_bind, hslice, Header.declaration, hbetween]
  rfl

/-- **The plain accessor at a place is read as its characters are.** -/
theorem fieldAt_eq {o : Header.Opening} (htext : text = o.before.reverse ++ '{' :: o.after)
    (hfits : size text < countLimit) (className : String) {rest : List Char}
    (hshape : afterShape Header.fieldShape o.after = some rest) (after : Nat) :
    fieldAt text className (size o.before, after) = .ok (Header.fieldAt className o) := by
  have hbefore : o.before.reverse <+: text := ⟨_, htext.symm⟩
  simp only [fieldAt, accessorHead_eq hbefore hfits, ok_bind, Header.fieldAt, hshape,
    Option.bind_eq_bind, Option.bind_some]
  rcases hhead : Header.accessorHead o.before with _ | head
  · rfl
  obtain ⟨taken, htaken, -⟩ := Header.accessorHead_cut hhead
  simp only [Option.map_some, Option.bind_some]
  by_cases hname : Header.isAccessorName head.name = true
  · simp only [hname, if_true, declaration_eq htext hfits htaken.eq_append]
    rfl
  · simp only [hname]
    rfl

/-- No more brackets stand in a type than before the place that it is read at. -/
theorem brackets_tokenBefore {before token rest : List Char}
    (h : Header.tokenBefore before = some (token, rest)) :
    brackets token + brackets rest ≤ brackets before := by
  have hsplit := congrArg brackets (token_split h)
  have hdrop := brackets_sublist (List.dropWhile_sublist isBlank (l := before))
  rw [brackets, brackets, List.countP_append, List.countP_reverse] at hsplit
  rw [brackets, brackets, brackets] at *
  omega

theorem brackets_append (u v : List Char) : brackets (u ++ v) = brackets u + brackets v :=
  List.countP_append

theorem brackets_of_isIdent {w : List Char} (h : ∀ c ∈ w, isIdent c = true) : brackets w = 0 := by
  rw [brackets, List.countP_eq_zero]
  intro c hc
  simp [nesting_eq_zero_of_isIdent (h c hc)]

theorem brackets_qualified (type before : List Char) :
    brackets (Header.qualified type before).1 = brackets type := by
  induction type, before using Header.qualified.induct with
  | case1 type before word rest hword hqualifier ih =>
      rw [Header.qualified_of_word hword, if_pos hqualifier, ih, brackets_append,
        brackets_of_isIdent (Header.wordOnLine_spec hword).2, brackets_cons, Nat.zero_add]
      exact Nat.zero_add _
  | case2 type before word rest hword hqualifier =>
      rw [Header.qualified_of_word hword, if_neg hqualifier]
  | case3 type before hword => rw [Header.qualified_of_none hword]

theorem brackets_typeBefore {before type rest : List Char}
    (h : Header.typeBefore before = some (type, rest)) : brackets type ≤ brackets before := by
  simp only [Header.typeBefore, Option.bind_eq_bind, Option.bind_eq_some_iff] at h
  obtain ⟨⟨token, left⟩, htoken, h⟩ := h
  have htoken' := brackets_tokenBefore htoken
  split at h
  · obtain ⟨⟨base, left'⟩, hbase, h⟩ := Option.bind_eq_some_iff.1 h
    have hbase' := brackets_tokenBefore hbase
    have hqualified := brackets_qualified (base ++ token) left'
    rw [Option.some.inj h, brackets_append] at hqualified
    simp only at hbase' hqualified
    omega
  · have hqualified := brackets_qualified token left
    rw [Option.some.inj h] at hqualified
    simp only at hqualified
    omega

/-- **The type of a bit-field is read as its characters are.** -/
theorem bitFieldType_eq {type : List Char} (hfits : brackets type < countLimit) :
    bitFieldType type = .ok (Header.bitFieldType type) := by
  simp only [bitFieldType, Header.bitFieldType, Option.bind_eq_bind]
  rcases hrest : "BitFieldValue".toList.isPrefixOf? type with _ | rest
  · rfl
  simp only [Option.bind_some]
  rcases hinner : ['<'].isPrefixOf? (rest.dropWhile isSpace) with _ | inner
  · rfl
  simp only [Option.bind_some]
  by_cases hlast : inner.getLast? = some '>'
  · have hsublist : inner.dropLast.Sublist type := by
      obtain rfl := List.isPrefixOf?_eq_some_iff_append_eq.1 hrest
      have hmark := List.isPrefixOf?_eq_some_iff_append_eq.1 hinner
      refine ((List.dropLast_sublist inner).trans ?_).trans (List.sublist_append_right _ rest)
      exact (hmark ▸ List.sublist_append_right ['<'] inner).trans (List.dropWhile_sublist isSpace)
    have hsplit : splitTopLevel ',' inner.dropLast = .ok (Text.splitTopLevel ',' inner.dropLast) :=
      splitTopLevel_eq (by decide) (Nat.lt_of_le_of_lt (brackets_sublist hsublist) hfits)
    simp only [if_pos hlast, hsplit, ok_bind]
    rcases Text.splitTopLevel ',' inner.dropLast with _ | ⟨first, _ | ⟨second, more⟩⟩
    · simp [hlast]
    · simp [hlast]
    · simp [hlast]
  · simp [hlast]

theorem brackets_accessorHead {before : List Char} {head : Header.AccessorHead}
    (h : Header.accessorHead before = some head) : brackets head.type ≤ brackets before := by
  rw [accessorHead_marks] at h
  obtain ⟨close, hclose, h⟩ := Option.bind_eq_some_iff.1 h
  obtain ⟨opening, hopening, h⟩ := Option.bind_eq_some_iff.1 h
  obtain ⟨⟨name, rest⟩, hname, h⟩ := Option.bind_eq_some_iff.1 h
  obtain ⟨⟨type, left⟩, htype, rfl⟩ := Option.map_eq_some_iff.1 h
  obtain ⟨blanks, hrest, -⟩ := Header.identBefore_eq_some_iff.1 hname
  have hsuffix : rest <:+ before := by
    have hlast : rest <:+ opening.2 := by
      rw [hrest, ← List.append_assoc]
      exact List.suffix_append _ _
    have hinside : '(' :: opening.2 <:+ close.2 :=
      eq_of_markBefore hopening ▸ List.dropWhile_suffix _
    have hclosed : ')' :: close.2 <:+ before := eq_of_markBefore hclose ▸ List.dropWhile_suffix _
    exact hlast.trans ((suffix_tail hinside).trans (suffix_tail hclosed))
  exact Nat.le_trans (brackets_typeBefore htype) (brackets_sublist hsuffix.sublist)

/-- **The accessor of a bit-field at a place is read as its characters are.** -/
theorem bitFieldAt_eq {o : Header.Opening} (htext : text = o.before.reverse ++ '{' :: o.after)
    (hfits : size text < countLimit) (className : String) {path : List Char}
    (hshape : afterShape Header.bitFieldShape o.after = some path) (hpath : path <:+ text) :
    bitFieldAt text className (size o.before, startOf text path)
      = .ok (Header.bitFieldAt className o) := by
  have hbefore : o.before.reverse <+: text := ⟨_, htext.symm⟩
  simp only [bitFieldAt, accessorHead_eq hbefore hfits, ok_bind, Header.bitFieldAt, hshape,
    Option.bind_eq_bind, Option.bind_some]
  rcases hhead : Header.accessorHead o.before with _ | head
  · rfl
  have htype : brackets head.type < countLimit := by
    have hle := brackets_accessorHead hhead
    have hsize := brackets_le_size o.before
    have hwhole := congrArg size htext
    rw [size_append, size_reverse] at hwhole
    omega
  obtain ⟨taken, htaken, -⟩ := Header.accessorHead_cut hhead
  simp only [Option.map_some, Option.bind_some, bitFieldType_eq htype, ok_bind]
  rcases Header.bitFieldType head.type with _ | type
  · rfl
  · simp only [quoted_eq hpath, ok_bind, declaration_eq htext hfits htaken.eq_append]
    rfl

/-- A list that was read can be cut out, and it has no more brackets than the text has bytes. -/
theorem slice_list {inside inner rest : List Char} (h : inside.reverse <+: text)
    (hlist : Header.listInside 0 inside = some (inner, rest)) :
    rest.reverse <+: text ∧ brackets inner.reverse ≤ size text ∧
      slice text (size rest + 1) (size inside) = .ok inner.reverse := by
  rw [listInside_eq] at hlist
  obtain rfl := eq_of_bracketed hlist
  have hslice := slice_back h
  rw [size_cons_ascii (by decide)] at hslice
  have hinner : inner.reverse.Sublist text := by
    rw [List.reverse_append] at h
    exact (List.sublist_append_right _ _).trans h.sublist
  exact ⟨reverse_tail (reverse_left h),
    Nat.le_trans (brackets_sublist hinner) (brackets_le_size text), hslice⟩

/-- **The method at a place is read as its characters are.** -/
theorem methodAt_eq {o : Header.Opening} (htext : text = o.before.reverse ++ '{' :: o.after)
    (hfits : size text < countLimit) (className : String) {call : List Char}
    (hcall : Header.afterCall o.after = some call) (hsuffix : call <:+ o.after) :
    methodAt text className (size o.before, startOf text call)
      = .ok (Header.methodAt className o) := by
  have hbefore : o.before.reverse <+: text := ⟨_, htext.symm⟩
  have hafter : o.after <:+ text := ⟨o.before.reverse ++ ['{'], by rw [htext]; simp⟩
  have hlength : call.length < text.length := by
    have hle := hsuffix.length_le
    rw [htext, List.length_append, List.length_cons]
    omega
  obtain ⟨hend, hdrop⟩ := dropSpecifier_eq hbefore
  simp only [methodAt, hdrop, ok_bind, markBefore_eq hend (c := ')') (by decide), Header.methodAt,
    hcall, Header.listBefore_eq, Option.bind_eq_bind, Option.bind_some]
  rcases hmark : Header.markBefore ')' (Header.dropSpecifier o.before) with _ | ⟨⟨⟩, inside⟩
  · rfl
  rw [eq_of_markBefore hmark] at hend
  simp only [Option.map_some, Option.bind_some, openingParenthesis_eq hend hfits, ok_bind]
  rcases hlist : Header.listInside 0 inside with _ | ⟨inner, rest⟩
  · rfl
  obtain ⟨hrest, hbrackets, hlistText⟩ := slice_list (reverse_tail hend) hlist
  simp only [Option.map_some, Option.bind_some, identBefore_eq hrest, ok_bind]
  rcases hname : Header.identBefore rest with _ | ⟨name, rest'⟩
  · rfl
  obtain ⟨hrest', hnameText⟩ := slice_identBefore hrest hname
  simp only [Option.map_some, Option.bind_some, bounds, hnameText, ok_bind]
  by_cases haccessor : Header.isAccessorName name = true
  · simp [haccessor]
  simp only [haccessor, typeBefore_eq hrest' hfits, ok_bind]
  rcases htype : Header.typeBefore rest' with _ | ⟨type, left⟩
  · rfl
  have hleft : left.reverse <+: text := by
    obtain ⟨taken, rfl, -⟩ := Header.takes_typeBefore htype
    exact reverse_left hrest'
  simp only [Option.map_some, Option.bind_some, keywordsBefore_eq hleft, ok_bind,
    nativeSignature_eq (hsuffix.trans hafter) hfits hlength]
  rcases hkeywords : Header.keywordsBefore {} left with ⟨keywords, far⟩
  rcases Header.nativeSignature call with _ | signature
  · rfl
  have hhead : Header.methodHead o.before
      = some ⟨inner.reverse, name, type, keywords, far⟩ := by
    simp only [Header.methodHead, Header.listBefore_eq, hmark, hlist, hname, htype, hkeywords,
      Option.bind_eq_bind, Option.bind_some, Option.map_some, Option.pure_def]
  obtain ⟨taken, htaken, -⟩ := Header.methodHead_cut hhead
  simp only [declaration_eq htext hfits htaken.eq_append, hlistText,
    readParameters_eq (Nat.lt_of_le_of_lt hbrackets hfits), ok_bind]
  rfl

/-! ### Headers -/

/-- What is read at each place of a text is what is read at its openings. -/
theorem filterMapM_places {α : Type} {after : List Char → Option (List Char)}
    {readAt : Nat × Nat → Checked (Option α)} {read : Header.Opening → Option α}
    (hnone : ∀ o, after o.after = none → read o = none)
    (hsome : ∀ o ∈ Header.openings text, ∀ rest, after o.after = some rest →
      readAt (size o.before, startOf text rest) = .ok (read o)) :
    (places after text).filterMapM readAt = .ok ((Header.openings text).filterMap read) := by
  rw [places]
  generalize Header.openings text = openings at hsome
  induction openings with
  | nil => rfl
  | cons o openings ih =>
      have hmore := ih fun o ho => hsome o (List.mem_cons_of_mem _ ho)
      rcases hafter : after o.after with _ | rest
      · rw [List.filterMap_cons_none (by rw [hafter]; rfl),
          List.filterMap_cons_none (hnone o hafter), hmore]
      · rw [List.filterMap_cons_some (by rw [hafter]; rfl), List.filterMapM_cons,
          hsome o List.mem_cons_self rest hafter, ok_bind, hmore]
        rcases hread : read o with _ | a
        · rw [List.filterMap_cons_none hread]
        · rw [List.filterMap_cons_some hread]
          rfl

/-- **A header is read as its characters are.** -/
theorem readHeader_eq {text : String} (hfits : size text.toList < countLimit) :
    readHeader text.toList = .ok (Declarations.ofHeader text) := by
  have htext : ∀ o ∈ Header.openings text.toList,
      text.toList = o.before.reverse ++ '{' :: o.after :=
    fun o ho => Header.eq_of_mem_openingsAfter ho
  have hafter : ∀ o ∈ Header.openings text.toList, ∀ rest, rest <:+ o.after →
      rest <:+ text.toList := by
    intro o ho rest hrest
    rw [htext o ho]
    exact hrest.trans ((List.suffix_cons _ _).trans (List.suffix_append _ _))
  have hfields : ∀ className,
      (places (afterShape Header.fieldShape) text.toList).filterMapM (fieldAt text.toList className)
        = .ok ((Header.openings text.toList).filterMap (Header.fieldAt className)) := by
    refine fun className => filterMapM_places (fun o hnone => ?_) fun o ho rest hsome => ?_
    · simp [Header.fieldAt, hnone]
    · exact fieldAt_eq (htext o ho) hfits className hsome _
  have hbitFields : ∀ className,
      (places (afterShape Header.bitFieldShape) text.toList).filterMapM
          (bitFieldAt text.toList className)
        = .ok ((Header.openings text.toList).filterMap (Header.bitFieldAt className)) := by
    refine fun className => filterMapM_places (fun o hnone => ?_) fun o ho rest hsome => ?_
    · simp [Header.bitFieldAt, hnone]
    · obtain ⟨c, w, -, -, hsplit, -⟩ := Header.prompt_bitFieldShape _ _ hsome
      exact bitFieldAt_eq (htext o ho) hfits className hsome
        (hafter o ho rest ⟨c :: w, hsplit.symm⟩)
  have hmethods : ∀ className,
      (places Header.afterCall text.toList).filterMapM (methodAt text.toList className)
        = .ok ((Header.openings text.toList).filterMap (Header.methodAt className)) := by
    refine fun className => filterMapM_places (fun o hnone => ?_) fun o ho rest hsome => ?_
    · simp [Header.methodAt, hnone]
    · obtain ⟨c, w, -, -, hsplit, -⟩ := Header.prompt_afterCall _ _ hsome
      exact methodAt_eq (htext o ho) hfits className hsome ⟨c :: w, hsplit.symm⟩
  rw [readHeader, hfields, ok_bind, hbitFields, ok_bind, hmethods]
  rfl

/-- Reading a text by offset meets no fault, and gives what is read from its characters:
as a header, as a list of parameters, as a list with any ASCII character between its items,
and as a declared hook. -/
structure Faultless (text : String) : Prop where
  header : readHeader text.toList = .ok (Declarations.ofHeader text)
  parameters : readParameters text.toList = .ok (Parameter.readList text.toList)
  pieces : ∀ sep : Char, sep.toNat < 0x80 →
    splitTopLevel sep text.toList = .ok (Text.splitTopLevel sep text.toList)
  hook : readHook text.toList = .ok (DeclaredHook.read? text)

/-- **Reading never fails,** in whatever text of less than 2³¹ bytes. -/
theorem faultless_of_size {text : String} (hsize : size text.toList < countLimit) :
    Faultless text := by
  have hbrackets : brackets text.toList < countLimit :=
    Nat.lt_of_le_of_lt (brackets_le_size text.toList) hsize
  exact {
    header := readHeader_eq hsize
    parameters := readParameters_eq hbrackets
    pieces := fun sep hsep => splitTopLevel_eq hsep hbrackets
    hook := readHook_eq hsize }

/-- A method whose name a letter of two bytes cuts short, in a body that is not closed. -/
def cutShort : String :=
  "struct Ñ \x7b\nTArray<é, int> &\tÑame(int ñ) \x7b return NativeCall<int>(this, \"Ñ.ñ\r\n"

/-- It is read by offset as the method whose name is what follows that letter. -/
theorem faultless_of_size_cutShort :
    size cutShort.toList < countLimit ∧
      (Declarations.ofHeader cutShort).methods.map (fun m => (m.name, m.nativeSignature))
        = [("ame", "Ñ.ñ")] ∧ Faultless cutShort :=
  ⟨by decide +kernel, by decide +kernel, faultless_of_size (by decide +kernel)⟩

end Offset
end NativeHooks
