/-
# Reading is local

A fence between two texts keeps apart what they declare.  The openings of the two
texts together are those of the first, which have more text after them, and those
of the second, which have more text before them; by the lemmas about fences neither
makes a difference to what a reader finds.  So whatever stands in the one text,
finished or not, no declaration of the other is hidden, added or altered
(`ofHeader_fence`).

Two things are not local by design: a header has one class, which the first text
names if it names one, and a body that is not closed ends where the text does, or
where the second text happens to close it.
-/

import Mathlib.Data.List.Forall2
import NativeHooks.Proofs.Header.Fence
import NativeHooks.Proofs.Header.Parts

namespace NativeHooks
namespace Header

open Text

/-! ### Kinds of declarations -/

/-- One of the three kinds of declarations: how it is read, and the two things
about a declaration that depend on more than its own text. -/
structure Kind (α : Type) where
  /-- The declaration of this kind at an opening. -/
  readAt : String → Opening → Option α
  /-- The text of a declaration. -/
  fullText : α → String
  /-- The declaration as one of the given class, with the given text. -/
  retell : String → String → α → α

/-- An accessor as one of another class, with another text. -/
def retellAccessor (className fullText : String) (a : Accessor) : Accessor :=
  { a with className, fullText }

def methodKind : Kind Method where
  readAt := methodAt
  fullText := Method.fullText
  retell className fullText m := { m with className, fullText }

def fieldKind : Kind Accessor where
  readAt := fieldAt
  fullText := Accessor.fullText
  retell := retellAccessor

def bitFieldKind : Kind Accessor where
  readAt := bitFieldAt
  fullText := Accessor.fullText
  retell := retellAccessor

section Kind

variable {α : Type} (kind : Kind α)

/-- What is found in a text, each declaration with its opening. -/
def Kind.located (className : String) (cs : List Char) : List (Opening × α) :=
  (openings cs).filterMap fun o => (kind.readAt className o).map (o, ·)

/-- The declaration `d` at an opening is kept as `kept`: it belongs to the class
`className` now, and only if its body is not closed its text may be another. -/
def Kind.Keeps (className : String) (place : Opening × α) (kept : α) : Prop :=
  ∃ fullText, kept = kind.retell className fullText place.2 ∧
    ((closing 0 false place.1.after).isSome → fullText = kind.fullText place.2)

/-- The declarations `whole` are those of two texts: those `given` in the first, at
`places`, are kept, and those `following` come after them.  Those have another class
now, and are the same otherwise. -/
structure Kind.Joined (className : String) (places : List (Opening × α))
    (given following whole : List α) : Prop where
  located : places.map Prod.snd = given
  kept : ∃ kept, List.Forall₂ (kind.Keeps className) places kept ∧
    whole = kept ++ following.map fun d => kind.retell className (kind.fullText d) d

/-- A kind of declarations is *local* if a fence before the head or after the body
makes no difference. -/
structure Kind.Local : Prop where
  fence_before : ∀ (className given : String) (before after rest : List Char),
    kind.readAt className ⟨before ++ fence rest, after⟩
      = (kind.readAt given ⟨before, after⟩).map fun d => kind.retell className (kind.fullText d) d
  fence_after : ∀ (className given : String) (before after rest : List Char),
    Option.Rel (fun d => kind.Keeps className (⟨before, after⟩, d))
      (kind.readAt given ⟨before, after⟩) (kind.readAt className ⟨before, after ++ fence rest⟩)

end Kind

section Located

variable {α : Type} (kind : Kind α) (className : String) (cs : List Char)

theorem Kind.map_snd_located :
    (kind.located className cs).map Prod.snd = (openings cs).filterMap (kind.readAt className) := by
  rw [Kind.located, List.map_filterMap]
  refine congrArg (fun read => (openings cs).filterMap read) (funext fun o => ?_)
  cases kind.readAt className o <;> rfl

theorem Kind.map_fst_located :
    (kind.located className cs).map Prod.fst
      = (openings cs).filter fun o => (kind.readAt className o).isSome := by
  rw [Kind.located, List.map_filterMap, ← List.filterMap_eq_filter]
  refine congrArg (fun read => (openings cs).filterMap read) (funext fun o => ?_)
  cases h : kind.readAt className o <;> simp [Option.guard, h]

end Located

/-! ### Texts of declarations -/

/-- What stands before a fence is no part of a declaration after it. -/
theorem declaration_fence_before (before after rest left : List Char) :
    declaration ⟨before ++ fence rest, after⟩ (left ++ fence rest)
      = declaration ⟨before, after⟩ left := by
  have hlength : (before ++ fence rest).length - (left ++ fence rest).length
      = before.length - left.length := by
    simp only [List.length_append]
    omega
  simp only [declaration, between]
  rw [hlength, List.take_append_of_le_length (Nat.sub_le _ _)]

/-- What stands after a fence is no part of a closed declaration before it. -/
theorem declaration_fence_after (before after rest left : List Char)
    (h : (closing 0 false after).isSome) :
    declaration ⟨before, after ++ fence rest⟩ left = declaration ⟨before, after⟩ left := by
  obtain ⟨inner, hinner⟩ := Option.isSome_iff_exists.1 h
  simp only [declaration, body]
  rw [hinner, closing_of_prefix hinner]
  rfl

/-! ### The three kinds are local -/

theorem methodKind_local : methodKind.Local where
  fence_before className given before after rest := by
    show methodAt _ _ = (methodAt _ _).map _
    simp only [methodAt, listBefore_dropSpecifier_fence]
    rcases afterCall after with _ | call
    · rfl
    rcases listBefore (dropSpecifier before) with _ | ⟨parameters, left⟩
    · rfl
    simp only [further_some, Option.bind_eq_bind, Option.bind_some, identBefore_fence]
    rcases identBefore left with _ | ⟨name, left⟩
    · rfl
    simp only [further_some, Option.bind_some, typeBefore_fence]
    cases isAccessorName name
    · rcases typeBefore left with _ | ⟨returnType, left⟩
      · rfl
      rcases nativeSignature call with _ | signature
      · rfl
      simp only [further_some, Option.bind_some, keywordsBefore_fence, declaration_fence_before]
      rfl
    · rfl
  fence_after className given before after rest := by
    show Option.Rel _ (methodAt _ _) (methodAt _ _)
    simp only [methodAt, afterCall_fence]
    rcases afterCall after with _ | call
    · exact .none
    simp only [Option.map_some, Option.bind_eq_bind, Option.bind_some]
    rcases listBefore (dropSpecifier before) with _ | ⟨parameters, left⟩
    · exact .none
    simp only [Option.bind_some, nativeSignature_fence]
    rcases identBefore left with _ | ⟨name, left⟩
    · exact .none
    simp only [Option.bind_some]
    cases isAccessorName name
    · rcases typeBefore left with _ | ⟨returnType, left⟩
      · exact .none
      rcases nativeSignature call with _ | signature
      · exact .none
      exact .some ⟨_, rfl, declaration_fence_after _ _ _ _⟩
    · exact .none

/-- The body of a plain accessor is told from its beginning. -/
theorem fieldKind_local : fieldKind.Local where
  fence_before className given before after rest := by
    show fieldAt _ _ = (fieldAt _ _).map _
    simp only [fieldAt, accessorHead_fence]
    rcases afterShape fieldShape after with _ | left
    · rfl
    rcases accessorHead before with _ | head
    · rfl
    simp only [Option.map_some, Option.bind_eq_bind, Option.bind_some, declaration_fence_before]
    cases isAccessorName head.name <;> rfl
  fence_after className given before after rest := by
    show Option.Rel _ (fieldAt _ _) (fieldAt _ _)
    simp only [fieldAt, afterShape_fence (by decide : keepsOff fieldShape = true)]
    rcases afterShape fieldShape after with _ | left
    · exact .none
    rcases accessorHead before with _ | head
    · exact .none
    simp only [Option.map_some, Option.bind_eq_bind, Option.bind_some]
    cases isAccessorName head.name
    · exact .none
    · exact .some ⟨_, rfl, declaration_fence_after _ _ _ _⟩

theorem bitFieldKind_local : bitFieldKind.Local where
  fence_before className given before after rest := by
    show bitFieldAt _ _ = (bitFieldAt _ _).map _
    simp only [bitFieldAt, accessorHead_fence]
    rcases afterShape bitFieldShape after with _ | left
    · rfl
    rcases accessorHead before with _ | head
    · rfl
    simp only [Option.map_some, Option.bind_eq_bind, Option.bind_some, declaration_fence_before]
    cases bitFieldType head.type <;> rfl
  fence_after className given before after rest := by
    show Option.Rel _ (bitFieldAt _ _) (bitFieldAt _ _)
    simp only [bitFieldAt, afterShape_fence (by decide : keepsOff bitFieldShape = true)]
    rcases afterShape bitFieldShape after with _ | path
    · exact .none
    rcases accessorHead before with _ | head
    · exact .none
    simp only [Option.map_some, Option.bind_eq_bind, Option.bind_some, trim_quoted_fence]
    rcases bitFieldType head.type with _ | type
    · exact .none
    · exact .some ⟨_, rfl, declaration_fence_after _ _ _ _⟩

/-! ### Openings -/

/-- A fence opens nothing. -/
theorem openings_fence (w v : List Char) :
    openings (w ++ fence ('\n' :: v))
      = (openings w).map (fun o => ⟨o.before, o.after ++ fence ('\n' :: v)⟩)
        ++ (openings v).map fun o => ⟨o.before ++ fence ('\n' :: w.reverse), o.after⟩ := by
  have hsecond : openingsAfter (w.reverse ++ []) (fence ('\n' :: v))
      = openingsAfter ([] ++ fence ('\n' :: w.reverse)) v := by
    rw [List.append_nil]
    rfl
  rw [openings, openingsAfter_append, hsecond, openingsAfter_further]
  rfl

/-! ### The class -/

/-- The name of a class stands before a fence or does not. -/
theorem structName_fence (w rest : List Char) : structName (w ++ fence rest) = structName w := by
  let name : List Char → Option (List Char) := fun cs =>
    if (cs.takeWhile isWord).isEmpty then none else some (cs.takeWhile isWord)
  have hname : ∀ cs, name (cs ++ fence rest) = (name cs).map id := by
    intro cs
    simp only [name, takeWhile_fence (p := isWord) rfl]
    split <;> rfl
  have hgap : ∀ cs, (afterSome isSpace (cs ++ fence rest)).bind name
      = (afterSome isSpace cs).bind name := by
    intro cs
    cases cs with
    | nil => rfl
    | cons c cs =>
        simp only [List.cons_append, afterSome]
        split
        · have hdrop := fence_of_dropWhile (p := isSpace) name rfl rfl rfl rfl hname cs
          rw [Option.map_id] at hdrop
          exact hdrop
        · rfl
  have hstruct : ∀ cs, structName cs
      = ("struct".toList.isPrefixOf? cs).bind fun left => (afterSome isSpace left).bind name := by
    intro cs
    simp only [structName, afterShape, Part.after, Option.bind_eq_bind, Option.bind_assoc,
      Option.bind_some]
    rfl
  rw [hstruct, hstruct, isPrefixOf?_fence (by decide), Option.bind_map]
  exact congrArg _ (funext hgap)

/-- The class of two texts is that of the first, or else that of the second. -/
theorem atFirstWord_fence (inWord : Bool) (w v : List Char) :
    atFirstWord structName inWord (w ++ fence ('\n' :: v))
      = (atFirstWord structName inWord w).or (atFirstWord structName false v) := by
  induction w generalizing inWord with
  | nil => cases inWord <;> rfl
  | cons c w ih =>
      rw [List.cons_append, atFirstWord, atFirstWord, ih, ← List.cons_append, structName_fence]
      split <;> rfl

theorem className_fence (w v : List Char) :
    className (w ++ fence ('\n' :: v)) = if className w = [] then className v else className w := by
  rw [className, atFirstWord_fence, className, className]
  rcases hfirst : atFirstWord structName false w with _ | name
  · rfl
  · obtain ⟨place, -, hplace⟩ := exists_of_atFirstWord hfirst
    exact (if_neg (structName_spec hplace).1).symm

/-! ### Headers -/

theorem rel_map_left {α β γ : Type} {r : β → γ → Prop} {f : α → β} {a : Option α} {b : Option γ}
    (h : Option.Rel (fun x => r (f x)) a b) : Option.Rel r (a.map f) b := by
  cases h with
  | none => exact .none
  | some h => exact .some h

/-- **What a local kind finds in two texts with a fence between them** is what it
finds in each. -/
theorem Kind.Local.joined {α : Type} {kind : Kind α} (h : kind.Local)
    (className given following : String) (w v : List Char) :
    kind.Joined className (kind.located given w) ((openings w).filterMap (kind.readAt given))
      ((openings v).filterMap (kind.readAt following))
      ((openings (w ++ fence ('\n' :: v))).filterMap (kind.readAt className)) := by
  constructor
  · exact kind.map_snd_located given w
  · refine ⟨(openings w).filterMap fun o =>
      kind.readAt className ⟨o.before, o.after ++ fence ('\n' :: v)⟩, ?_, ?_⟩
    · refine List.rel_filterMap (R := Eq) ?_ (List.forall₂_eq_eq_eq ▸ rfl)
      rintro o _ rfl
      exact rel_map_left (h.fence_after className given o.before o.after ('\n' :: v))
    · have hsecond : (openings v).filterMap
          (fun o => kind.readAt className ⟨o.before ++ fence ('\n' :: w.reverse), o.after⟩)
          = ((openings v).filterMap (kind.readAt following)).map
            fun d => kind.retell className (kind.fullText d) d := by
        simp only [h.fence_before className following, List.map_filterMap]
      rw [openings_fence, List.filterMap_append, List.filterMap_map, List.filterMap_map]
      exact congrArg _ hsecond

/-- The declarations `whole` are those `given` in the text `first` and then those
`following` in another.  Their class is that of the first text, or else that of the
second. -/
structure Joined (first : List Char) (given following whole : Declarations) : Prop where
  className : whole.className
    = if given.className = "" then following.className else given.className
  methods : methodKind.Joined whole.className (methodKind.located given.className first)
    given.methods following.methods whole.methods
  fields : fieldKind.Joined whole.className (fieldKind.located given.className first)
    given.fields following.fields whole.fields
  bitFields : bitFieldKind.Joined whole.className (bitFieldKind.located given.className first)
    given.bitFields following.bitFields whole.bitFields

/-- **What two texts declare with a fence between them is what they declare each,**
the first text first.  Of a declaration in the first text whose body is not closed
there, the text may be another; nothing but the class is different otherwise. -/
theorem ofHeader_fence (first second : String) :
    Joined first.toList (Declarations.ofHeader first) (Declarations.ofHeader second)
      (Declarations.ofHeader (first ++ "\n;\n" ++ second)) := by
  have htext : (first ++ "\n;\n" ++ second).toList
      = first.toList ++ fence ('\n' :: second.toList) := by
    rw [String.toList_append, String.toList_append, List.append_assoc]
    rfl
  have hempty : String.ofList (className first.toList) = "" ↔ className first.toList = [] :=
    String.ofList_eq_empty_iff
  rw [Declarations.ofHeader, Declarations.ofHeader, Declarations.ofHeader, htext]
  constructor
  · have hclass : ∀ cs, (read cs).className = String.ofList (className cs) := fun _ => rfl
    rw [hclass, hclass, hclass, className_fence]
    by_cases hnil : className first.toList = []
    · rw [if_pos hnil, if_pos (hempty.2 hnil)]
    · rw [if_neg hnil, if_neg (hempty.not.2 hnil)]
  · exact methodKind_local.joined _ _ _ _ _
  · exact fieldKind_local.joined _ _ _ _ _
  · exact bitFieldKind_local.joined _ _ _ _ _

end Header
end NativeHooks
