/-
# Type tokens

`Nested inner w` is the shape of a type token: no character that ends a type,
angle brackets well nested, and commas and blanks only inside of them; `inner`
says that the text stands inside angle brackets itself.  A nested text is
passed over by every reader that counts brackets, whatever depth it is at: by
the reader of type tokens, which goes backwards (`Nested.tokenInside`), by the
one that looks for the end of a list of types (`Nested.afterTypes`), and by
splitting at commas (`Nested.guarded`).

What is read of any text says the same by depth.  `Opens d w` is that `w` opens
`d` angle brackets more than it closes, never closes one too many, and has
commas and blanks only where some are open.  One more character at its end
changes that in one way (`opens_concat_iff`), which is the step that the reader
of tokens takes backwards.  So it reads such texts (`Opens.tokenInside`) and no
others (`tokenInside_spec`).
-/

import Mathlib.Data.List.Induction
import NativeHooks.Header.Body
import NativeHooks.Header.Head
import NativeHooks.Proofs.Text.Nesting

namespace NativeHooks
namespace Header

open Text

/-- A character that may stand for itself in a type; commas and blanks may do
so only inside angle brackets. -/
def isTypeChar (inner : Bool) (c : Char) : Bool :=
  !(endsType c || c == '<' || c == '>') && (inner || !(c == ',' || isBlank c))

/-- A text with well-nested angle brackets, as it may stand in a type. -/
inductive Nested : Bool → List Char → Prop
  | nil {inner : Bool} : Nested inner []
  | char {inner : Bool} {c : Char} {w : List Char} :
      isTypeChar inner c = true → Nested inner w → Nested inner (c :: w)
  | group {inner : Bool} {v w : List Char} :
      Nested true v → Nested inner w → Nested inner ('<' :: v ++ '>' :: w)

theorem isTypeChar_iff {inner : Bool} {c : Char} : isTypeChar inner c = true ↔
    (endsType c = false ∧ c ≠ '<' ∧ c ≠ '>') ∧ (inner = false → c ≠ ',' ∧ isBlank c = false) := by
  cases inner <;> simp [isTypeChar, and_assoc]

/-- An identifier character may stand in a type. -/
theorem isTypeChar_of_isIdent {inner : Bool} {c : Char} (h : isIdent c = true) :
    isTypeChar inner c = true := by
  refine isTypeChar_iff.2 ⟨⟨?_, ne_of_class h rfl, ne_of_class h rfl⟩, fun _ =>
    ⟨ne_of_class h rfl, isBlank_eq_false_of_isIdent h⟩⟩
  rw [endsType, List.contains_eq_mem, decide_eq_false_iff_not]
  simp only [List.mem_cons, List.not_mem_nil, or_false, not_or]
  exact ⟨ne_of_class h rfl, ne_of_class h rfl, ne_of_class h rfl, ne_of_class h rfl,
    ne_of_class h rfl, ne_of_class h rfl⟩

namespace Nested

variable {inner : Bool} {u w before rest : List Char} {d : Nat}

theorem append (hu : Nested inner u) (hw : Nested inner w) : Nested inner (u ++ w) := by
  induction hu with
  | nil => exact hw
  | char hc _ ih => exact .char hc (ih hw)
  | @group inner v u' hv _ _ ih =>
      rw [List.append_assoc, List.cons_append]
      exact .group hv (ih hw)

theorem of_chars (h : ∀ c ∈ w, isTypeChar inner c = true) : Nested inner w := by
  induction w with
  | nil => exact .nil
  | cons c w ih =>
      exact .char (h c List.mem_cons_self) (ih fun a ha => h a (List.mem_cons_of_mem _ ha))

/-- What may stand outside angle brackets may stand inside of them. -/
theorem inside (h : Nested inner w) : Nested true w := by
  induction h with
  | nil => exact .nil
  | char hc _ ih =>
      rw [isTypeChar_iff] at hc
      exact .char (isTypeChar_iff.2 ⟨hc.1, fun h => absurd h.symm Bool.false_ne_true⟩) ih
  | group hv _ _ ih => exact .group hv ih

/-- No character of a nested text ends a type. -/
theorem endsType_eq_false (h : Nested inner w) : ∀ c ∈ w, endsType c = false := by
  induction h with
  | nil => exact fun c hc => absurd hc List.not_mem_nil
  | char hc _ ih =>
      intro c hmem
      rcases List.mem_cons.1 hmem with rfl | hmem
      · exact (isTypeChar_iff.1 hc).1.1
      · exact ih c hmem
  | group _ _ ihv ihw =>
      intro c hmem
      simp only [List.cons_append, List.mem_cons, List.mem_append] at hmem
      rcases hmem with rfl | hmem | rfl | hmem
      · rfl
      · exact ihv c hmem
      · rfl
      · exact ihw c hmem

end Nested

/-! ### What a text opens -/

/-- Only angle brackets nest in a type. -/
theorem nesting_eq_zero_of_endsType {c : Char} (h : endsType c = false) (hopen : c ≠ '<')
    (hclose : c ≠ '>') : nesting c = 0 := by
  rw [nesting, if_neg, if_neg]
  · rintro (rfl | rfl)
    · exact hclose rfl
    · exact absurd h (by decide)
  · rintro (rfl | rfl)
    · exact hopen rfl
    · exact absurd h (by decide)

/-- What a type opens that is read inside `d` angle brackets: so many of them, none that
it closes before, and commas and blanks only inside of some. -/
structure Opens (d : Nat) (w : List Char) : Prop where
  endsType_eq_false : ∀ c ∈ w, endsType c = false
  depth_eq : depth w = d
  opened : ∀ u c v, w = u ++ c :: v → 0 ≤ depth u ∧ (c = ',' ∨ isBlank c = true → 0 < depth u)

theorem opens_nil : Opens 0 [] where
  endsType_eq_false c hc := absurd hc List.not_mem_nil
  depth_eq := rfl
  opened u c v h := absurd h.symm (by simp)

/-- Nothing opens nothing. -/
theorem Opens.eq_zero {d : Nat} (h : Opens d []) : d = 0 :=
  (Int.natCast_inj.1 h.depth_eq).symm

/-- One more character at the end of a text stands inside `e` angle brackets. -/
theorem opens_concat_iff {d : Nat} {w : List Char} {c : Char} : Opens d (w ++ [c]) ↔
    ∃ e : Nat, Opens e w ∧ endsType c = false ∧ (e : Int) + nesting c = d ∧
      (e = 0 → c ≠ ',' ∧ isBlank c = false) := by
  constructor
  · intro h
    obtain ⟨hnonneg, hinside⟩ := h.opened w c [] rfl
    obtain ⟨e, he⟩ := Int.eq_ofNat_of_zero_le hnonneg
    refine ⟨e, ⟨fun a ha => h.endsType_eq_false a (List.mem_append_left _ ha), he, ?_⟩,
      h.endsType_eq_false c (by simp), ?_, ?_⟩
    · intro u a v hw
      exact h.opened u a (v ++ [c]) (by rw [hw, List.append_assoc, List.cons_append])
    · have hdepth := h.depth_eq
      rw [depth_append, depth_cons, depth_nil, Int.add_zero, he] at hdepth
      exact hdepth
    · intro hzero
      have hnot : ¬(c = ',' ∨ isBlank c = true) := fun hc => by
        have := hinside hc
        omega
      rwa [not_or, Bool.not_eq_true] at hnot
  · rintro ⟨e, h, hends, hdepth, hzero⟩
    refine ⟨fun a ha => ?_, ?_, fun u a v hw => ?_⟩
    · rcases List.mem_append.1 ha with ha | ha
      · exact h.endsType_eq_false a ha
      · rwa [List.mem_singleton.1 ha]
    · rw [depth_append, depth_cons, depth_nil, Int.add_zero, h.depth_eq, hdepth]
    · rcases List.eq_nil_or_concat' v with rfl | ⟨v, b, rfl⟩
      · obtain ⟨rfl, hc⟩ := List.append_inj' hw rfl
        obtain rfl := List.singleton_inj.1 hc
        rw [h.depth_eq]
        refine ⟨Int.natCast_nonneg e, fun hcomma => Int.natCast_pos.2 (Nat.pos_of_ne_zero ?_)⟩
        intro he
        rcases hcomma with hcomma | hblank
        · exact (hzero he).1 hcomma
        · exact Bool.false_ne_true ((hzero he).2.symm.trans hblank)
      · rw [← List.cons_append, ← List.append_assoc] at hw
        exact h.opened u a v (List.append_inj' hw rfl).1

/-- What follows a text that opens what it closes opens as much as on its own. -/
theorem Opens.append {d : Nat} {u v : List Char} (hu : Opens 0 u) (hv : Opens d v) :
    Opens d (u ++ v) := by
  induction v using List.reverseRecOn generalizing d with
  | nil =>
      rw [hv.eq_zero, List.append_nil]
      exact hu
  | append_singleton v c ih =>
      obtain ⟨e, hinner, hc⟩ := opens_concat_iff.1 hv
      rw [← List.append_assoc]
      exact opens_concat_iff.2 ⟨e, ih hinner, hc⟩

/-! ### Reading a token backwards -/

/-- The text `w` read before a token whose reading gave `r`. -/
def extendBy (w : List Char) (r : Option (List Char × List Char)) :
    Option (List Char × List Char) :=
  r.map fun (token, rest) => (w ++ token, rest)

@[simp] theorem extendBy_nil (r : Option (List Char × List Char)) : extendBy [] r = r := by
  cases r <;> rfl

theorem extend_extendBy (c : Char) (w : List Char) (r : Option (List Char × List Char)) :
    extend c (extendBy w r) = extendBy (c :: w) r := by
  cases r <;> rfl

theorem extendBy_extend (c : Char) (w : List Char) (r : Option (List Char × List Char)) :
    extendBy w (extend c r) = extendBy (w ++ [c]) r := by
  cases r with
  | none => rfl
  | some r => simp [extendBy, extend]

theorem extendBy_extendBy (u w : List Char) (r : Option (List Char × List Char)) :
    extendBy u (extendBy w r) = extendBy (u ++ w) r := by
  cases r with
  | none => rfl
  | some r => simp [extendBy]

/-- A closing angle bracket leads one level further in. -/
theorem tokenInside_close (d : Nat) (before : List Char) :
    tokenInside d ('>' :: before) = extend '>' (tokenInside (d + 1) before) := by
  cases d <;> rfl

/-- An opening angle bracket leads one level further out. -/
theorem tokenInside_open (d : Nat) (before : List Char) :
    tokenInside (d + 1) ('<' :: before) = extend '<' (tokenInside d before) :=
  rfl

/-- A character of a token stands inside as many angle brackets as what is read before it opens. -/
theorem tokenInside_extend {d e : Nat} {c : Char} (hends : endsType c = false)
    (hdepth : (e : Int) + nesting c = d) (hzero : e = 0 → c ≠ ',' ∧ isBlank c = false)
    (before : List Char) : tokenInside d (c :: before) = extend c (tokenInside e before) := by
  by_cases hclose : c = '>'
  · subst hclose
    rw [show nesting '>' = -1 from rfl] at hdepth
    obtain rfl : e = d + 1 := by omega
    exact tokenInside_close d before
  by_cases hopen : c = '<'
  · subst hopen
    rw [show nesting '<' = 1 from rfl] at hdepth
    obtain rfl : d = e + 1 := by omega
    exact tokenInside_open e before
  rw [nesting_eq_zero_of_endsType hends hopen hclose, Int.add_zero, Int.natCast_inj] at hdepth
  subst hdepth
  have hgoes : ¬(e = 0 ∧ (c = ',' ∨ isBlank c = true)) := by
    rintro ⟨he, hc⟩
    simp [hzero he] at hc
  rw [tokenInside.eq_def]
  simp only [if_neg hclose, if_neg hopen, hends, Bool.false_eq_true, if_false, if_neg hgoes]

/-- **One step of reading a token:** what a character does depends on the number `d` of angle
brackets alone.  The token ends before it, there is none, or the character belongs to the
token and stands before what is read inside `e` of them. -/
theorem tokenInside_step (d : Nat) (c : Char) :
    (d = 0 ∧ ∀ before, tokenInside d (c :: before) = some ([], c :: before)) ∨
      (0 < d ∧ ∀ before, tokenInside d (c :: before) = none) ∨
      ∃ e : Nat, endsType c = false ∧ (e : Int) + nesting c = d ∧
        (e = 0 → c ≠ ',' ∧ isBlank c = false) ∧
        ∀ before, tokenInside d (c :: before) = extend c (tokenInside e before) := by
  by_cases hclose : c = '>'
  · subst hclose
    have hdepth : ((d + 1 : Nat) : Int) + nesting '>' = d := by
      rw [show nesting '>' = -1 from rfl]
      omega
    have hzero : d + 1 = 0 → '>' ≠ ',' ∧ isBlank '>' = false := fun h => absurd h (Nat.succ_ne_zero d)
    exact .inr (.inr ⟨d + 1, rfl, hdepth, hzero, tokenInside_extend rfl hdepth hzero⟩)
  by_cases hopen : c = '<'
  · subst hopen
    cases d with
    | zero => exact .inl ⟨rfl, fun before => rfl⟩
    | succ d => exact .inr (.inr ⟨d, rfl, rfl, fun _ => by decide, tokenInside_open d⟩)
  by_cases hends : endsType c = true
  · cases d with
    | zero => exact .inl ⟨rfl, fun before => by rw [tokenInside]; simp [hclose, hopen, hends]⟩
    | succ d =>
        exact .inr (.inl ⟨Nat.succ_pos d, fun before => by
          rw [tokenInside]; simp [hclose, hopen, hends]⟩)
  · rw [Bool.not_eq_true] at hends
    by_cases hstop : d = 0 ∧ (c = ',' ∨ isBlank c = true)
    · refine .inl ⟨hstop.1, fun before => ?_⟩
      rw [tokenInside.eq_def]
      simp [hclose, hopen, hends, hstop]
    · have hdepth : (d : Int) + nesting c = d := by
        rw [nesting_eq_zero_of_endsType hends hopen hclose, Int.add_zero]
      have hzero : d = 0 → c ≠ ',' ∧ isBlank c = false := fun hd => by simpa [hd] using hstop
      exact .inr (.inr ⟨d, hends, hdepth, hzero, tokenInside_extend hends hdepth hzero⟩)

/-- What one step of reading a token has read. -/
theorem tokenInside_cons {d : Nat} {c : Char} {before token rest : List Char}
    (h : tokenInside d (c :: before) = some (token, rest)) :
    (d = 0 ∧ token = [] ∧ rest = c :: before) ∨
      ∃ e inner, tokenInside e before = some (inner, rest) ∧ token = c :: inner ∧
        endsType c = false ∧ (e : Int) + nesting c = d ∧ (e = 0 → c ≠ ',' ∧ isBlank c = false) := by
  rcases tokenInside_step d c with ⟨hd, hread⟩ | ⟨-, hread⟩ | ⟨e, hends, hdepth, hzero, hread⟩
  · rw [hread] at h
    obtain ⟨rfl, rfl⟩ := Prod.mk.inj (Option.some.inj h)
    exact .inl ⟨hd, rfl, rfl⟩
  · rw [hread] at h
    exact absurd h.symm (Option.some_ne_none _)
  · rw [hread] at h
    obtain ⟨⟨inner, left⟩, hinner, heq⟩ := Option.map_eq_some_iff.1 h
    obtain ⟨rfl, rfl⟩ := Prod.mk.inj heq
    exact .inr ⟨e, inner, hinner, rfl, hends, hdepth, hzero⟩

/-- What is read of a token inside `d` angle brackets opens those, though it is read from
where they close. -/
theorem tokenInside_spec {d : Nat} {before token rest : List Char}
    (h : tokenInside d before = some (token, rest)) : Opens d token.reverse := by
  induction before generalizing d token with
  | nil =>
      rw [tokenInside.eq_def] at h
      simp only at h
      split at h
      · next hd =>
          obtain ⟨rfl, -⟩ := Prod.mk.inj (Option.some.inj h)
          rw [hd]
          exact opens_nil
      · exact absurd h.symm (Option.some_ne_none _)
  | cons c before ih =>
      rcases tokenInside_cons h with ⟨rfl, rfl, -⟩ | ⟨e, inner, hinner, rfl, hends, hdepth, hzero⟩
      · exact opens_nil
      · rw [List.reverse_cons]
        exact opens_concat_iff.2 ⟨e, ih hinner, hends, hdepth, hzero⟩

/-- A text is read as a token if it opens what the token does and a token ends before it. -/
theorem Opens.tokenInside {d : Nat} {w before : List Char} (h : Opens d w)
    (hends : tokenInside 0 before = some ([], before)) :
    tokenInside d (w.reverse ++ before) = some (w.reverse, before) := by
  induction w using List.reverseRecOn generalizing d with
  | nil =>
      rw [h.eq_zero]
      exact hends
  | append_singleton w c ih =>
      obtain ⟨e, hw, hc, hdepth, hzero⟩ := opens_concat_iff.1 h
      rw [List.reverse_append, List.reverse_singleton, List.singleton_append, List.cons_append,
        tokenInside_extend hc hdepth hzero, ih hw]
      rfl

/-- A type character is read as part of the token. -/
theorem tokenInside_char {inner : Bool} {c : Char} {d : Nat} (before : List Char)
    (hc : isTypeChar inner c = true) (hd : inner = true → 0 < d) :
    tokenInside d (c :: before) = extend c (tokenInside d before) := by
  obtain ⟨⟨hends, hopen, hclose⟩, hout⟩ := isTypeChar_iff.1 hc
  refine tokenInside_extend hends ?_ (fun hzero => hout ?_) before
  · rw [nesting_eq_zero_of_endsType hends hopen hclose, Int.add_zero]
  · rw [Bool.eq_false_iff]
    exact fun hinner => absurd hzero (Nat.ne_of_gt (hd hinner))

/-- **A nested text is part of the token that it is read in.** -/
theorem Nested.tokenInside {inner : Bool} {w : List Char} (h : Nested inner w) :
    ∀ {d : Nat} (before : List Char), (inner = true → 0 < d) →
      tokenInside d (w.reverse ++ before) = extendBy w.reverse (tokenInside d before) := by
  induction h with
  | nil => exact fun before _ => (extendBy_nil _).symm
  | @char inner c w hc _ ih =>
      intro d before hd
      rw [List.reverse_cons, List.append_assoc, List.singleton_append, ih _ hd,
        tokenInside_char before hc hd, extendBy_extend]
  | @group inner v w _ _ ihv ihw =>
      intro d before hd
      have hgroup : Header.tokenInside d ('>' :: (v.reverse ++ '<' :: before))
          = extendBy ('>' :: v.reverse ++ ['<']) (Header.tokenInside d before) := by
        rw [tokenInside_close, ihv _ fun _ => Nat.succ_pos d, tokenInside_open, extendBy_extend,
          extend_extendBy]
        rfl
      have hrev : ('<' :: v ++ '>' :: w).reverse = w.reverse ++ ('>' :: v.reverse ++ ['<']) := by
        simp
      rw [hrev, List.append_assoc, List.append_assoc, List.cons_append, List.singleton_append,
        ihw _ hd, hgroup, extendBy_extendBy]

/-- A nested text opens the angle brackets that it closes. -/
theorem Nested.opens {w : List Char} (h : Nested false w) : Opens 0 w := by
  have hread : Header.tokenInside 0 (w.reverse ++ []) = some (w.reverse ++ [], []) :=
    h.tokenInside [] fun h => absurd h Bool.false_ne_true
  rw [List.append_nil] at hread
  exact List.reverse_reverse w ▸ tokenInside_spec hread

/-- Outside angle brackets no text ends in a blank that opens what it closes. -/
theorem Opens.isBlank_getLast? {w : List Char} (h : Opens 0 w) :
    ∀ c ∈ w.getLast?, isBlank c = false := by
  rcases List.eq_nil_or_concat' w with rfl | ⟨w, c, rfl⟩
  · exact fun c hc => absurd hc.symm (Option.some_ne_none c)
  · obtain ⟨e, -, -, hdepth, hzero⟩ := opens_concat_iff.1 h
    intro a ha
    obtain rfl : c = a := by simpa using ha
    by_contra hblank
    rw [Bool.not_eq_false] at hblank
    have hnesting : nesting c = 0 := nesting_eq_zero_of_isSpace (isSpace_of_isBlank hblank)
    rw [hnesting, Int.add_zero] at hdepth
    exact Bool.false_ne_true ((hzero (Int.natCast_inj.1 hdepth)).2.symm.trans hblank)

/-- **A token is read behind any blanks,** if one ends before it. -/
theorem Opens.tokenBefore {blanks w before : List Char} (h : Opens 0 w) (hne : w ≠ [])
    (hblanks : ∀ c ∈ blanks, isBlank c = true)
    (hends : Header.tokenInside 0 before = some ([], before)) :
    tokenBefore (blanks ++ (w.reverse ++ before)) = some (w, before) := by
  have hdrop : (blanks ++ (w.reverse ++ before)).dropWhile isBlank = w.reverse ++ before := by
    rw [List.dropWhile_append_of_pos hblanks]
    refine dropWhile_eq_self fun c hc => h.isBlank_getLast? c ?_
    rwa [List.head?_append_of_ne_nil _ (List.reverse_ne_nil_iff.2 hne), List.head?_reverse] at hc
  have hne' : w.reverse.isEmpty = false := by
    rw [List.isEmpty_reverse, List.isEmpty_eq_false_iff]
    exact hne
  rw [Header.tokenBefore, hdrop, h.tokenInside hends]
  simp only [hne', Bool.false_eq_true, if_false, List.reverse_reverse]

/-! ### Reading a nested text forwards -/

/-- An opening angle bracket leads one level further in. -/
theorem afterTypes_open (d : Nat) (rest : List Char) :
    afterTypes d ('<' :: rest) = afterTypes (d + 1) rest := by
  cases d <;> rfl

/-- A closing angle bracket leads one level further out. -/
theorem afterTypes_close (d : Nat) (rest : List Char) :
    afterTypes (d + 1) ('>' :: rest) = afterTypes d rest :=
  rfl

/-- A nested text is passed over on the way to the end of a list of types. -/
theorem Nested.afterTypes {inner : Bool} {w : List Char} (h : Nested inner w) :
    ∀ (d : Nat) (rest : List Char), afterTypes d (w ++ rest) = afterTypes d rest := by
  induction h with
  | nil => exact fun d rest => rfl
  | @char inner c w hc _ ih =>
      intro d rest
      obtain ⟨⟨hends, hopen, hclose⟩, -⟩ := isTypeChar_iff.1 hc
      rw [List.cons_append, Header.afterTypes.eq_def]
      simp only [if_neg hopen, if_neg hclose]
      rw [if_neg, ih]
      rintro (rfl | rfl | rfl | rfl) <;> exact absurd hends (by decide)
  | @group inner v w _ _ ihv ihw =>
      intro d rest
      rw [List.append_assoc, List.cons_append, List.cons_append, afterTypes_open, ihv,
        afterTypes_close, ihw]

/-- A nested text closes the angle brackets that it opens. -/
theorem Nested.depth_eq_zero {inner : Bool} {w : List Char} (h : Nested inner w) : depth w = 0 := by
  induction h with
  | nil => rfl
  | @char inner c w hc _ ih =>
      obtain ⟨⟨hends, hopen, hclose⟩, -⟩ := isTypeChar_iff.1 hc
      rw [depth_cons, ih, nesting_eq_zero_of_endsType hends hopen hclose, Int.add_zero]
  | @group inner v w _ _ ihv ihw =>
      rw [depth_append, depth_cons, depth_cons, ihv, ihw]
      rfl

/-- The commas of a nested text are guarded. -/
theorem Nested.guarded {inner : Bool} {w : List Char} (h : Nested inner w) :
    ∀ {d : Int}, 0 ≤ d → (inner = true → 0 < d) → Guarded ',' d w := by
  induction h with
  | nil => exact fun _ _ => trivial
  | @char inner c w hc hw ih =>
      intro d h0 hd
      have hdepth : nesting c = 0 := by
        have := (Nested.char hc .nil).depth_eq_zero
        rwa [depth_cons, depth_nil, Int.add_zero] at this
      refine ⟨fun hcomma => ?_, by rw [hdepth, Int.add_zero]; exact ih h0 hd⟩
      cases inner with
      | true => exact Int.ne_of_gt (hd rfl)
      | false => exact absurd hcomma ((isTypeChar_iff.1 hc).2 rfl).1
  | @group inner v w hv _ ihv ihw =>
      intro d h0 hd
      rw [guarded_append, depth_cons, hv.depth_eq_zero]
      have h1 : d + nesting '<' = d + 1 := rfl
      have h2 : d + (nesting '<' + 0) + nesting '>' = d := by
        rw [show nesting '<' = 1 from rfl, show nesting '>' = -1 from rfl]; omega
      refine ⟨⟨fun h => absurd h (by decide), ?_⟩, fun h => absurd h (by decide), ?_⟩
      · rw [h1]; exact ihv (by omega) fun _ => by omega
      · rw [h2]; exact ihw h0 hd

end Header
end NativeHooks
