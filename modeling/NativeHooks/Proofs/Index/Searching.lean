/-
# What a search finds

The terms of a query are its words in lower case.  A method is found if each of them occurs in
its name, its class, its return type or its source (`Method.Matches`).  The search looks at the
four joined to one text, but a term has no space, so it never reaches from one into the next
(`infix_spaced_iff`).

It follows how queries go together (`foundByTerms`): two in a row find what both find after one
another, terms may be exchanged and repeated, and further terms find less.  Letter case does not
matter where each letter has one small form.  That is every text without a capital sigma, whose
small form depends on what stands beside it.
-/

import NativeHooks.Index.Search
import NativeHooks.Proofs.Text.Lowercase

namespace NativeHooks

open Text

/-- The terms of a query: the words of its lower-case form. -/
def queryTerms (query : String) : List (List Char) := words (lower query.toList)

/-- The texts of a method that terms are looked up in. -/
def Method.searchedTexts (m : Method) : List String :=
  [m.name, m.className, m.returnType, m.sourceLabel]

/-- Every term of the query occurs in one of the texts of the method, in lower case. -/
def Method.Matches (query : String) (m : Method) : Prop :=
  ∀ term ∈ queryTerms query, ∃ text ∈ m.searchedTexts, term <:+: lower text.toList

instance (query : String) (m : Method) : Decidable (m.Matches query) :=
  inferInstanceAs (Decidable (∀ term ∈ queryTerms query, ∃ text ∈ m.searchedTexts, _))

/-- How queries find methods. -/
structure FoundByTerms (methods : List Method) : Prop where
  /-- The first methods that match are found, in their order. -/
  found : ∀ query cap,
    findMethods query cap methods = (methods.filter fun m => m.Matches query).take cap
  /-- Two queries in one find what the second finds in what the first has found. -/
  narrowed : ∀ q r cap, findMethods (q ++ " " ++ r) cap methods
    = findMethods r cap (findMethods q methods.length methods)
  /-- Order and repetition of terms do not matter. -/
  rearranged : ∀ q r cap, (∀ t, t ∈ words q.toList ↔ t ∈ words r.toList) →
    findMethods q cap methods = findMethods r cap methods
  /-- Nor does letter case. -/
  recased : ∀ q r cap, (∀ t ∈ words q.toList, LowersByChar t) →
    (∀ u ∈ words r.toList, LowersByChar u) →
    (∀ t ∈ words q.toList, ∃ u ∈ words r.toList, SameLetters t u) →
    (∀ u ∈ words r.toList, ∃ t ∈ words q.toList, SameLetters t u) →
    findMethods q cap methods = findMethods r cap methods
  /-- Further terms find nothing further. -/
  fewer : ∀ q r, words q.toList ⊆ words r.toList →
    (findMethods r methods.length methods).Sublist (findMethods q methods.length methods)
  /-- A smaller cap cuts off the end. -/
  capped : ∀ query {cap cap'}, cap ≤ cap' →
    findMethods query cap methods <+: findMethods query cap' methods

/-! ### Occurrences -/

section Occurrences

variable {α : Type} {t u v : List α}

theorem occursIn_iff {part w : List Char} : occursIn part w = true ↔ part <:+: w := by
  induction w with
  | nil => rw [occursIn, List.isEmpty_iff, List.infix_nil]
  | cons c w ih =>
      rw [occursIn, Bool.or_eq_true, List.isPrefixOf_iff_prefix, ih, List.infix_cons_iff]

/-- What does not contain a separator occurs before it or after it. -/
theorem infix_append_cons_iff {sep : α} (h : sep ∉ t) :
    t <:+: u ++ sep :: v ↔ t <:+: u ∨ t <:+: v := by
  have hnone : ∀ s, s <+: sep :: v → sep ∉ s → s = [] := by
    intro s hs hsep
    rcases List.prefix_cons_iff.1 hs with rfl | ⟨s', rfl, -⟩
    · rfl
    · exact absurd List.mem_cons_self hsep
  constructor
  · intro ht
    rcases List.infix_append_iff_ne_nil.1 ht with hu | hv | ⟨s, s', -, hne, rfl, -, hs'⟩
    · exact .inl hu
    · rcases List.infix_cons_iff.1 hv with hv | hv
      · exact .inl (hnone t hv h ▸ List.nil_infix)
      · exact .inr hv
    · exact absurd (hnone s' hs' fun hmem => h (List.mem_append_right s hmem)) hne
  · rintro (hu | hv)
    · exact List.infix_append_of_infix_left hu
    · exact List.infix_append_of_infix_right (List.infix_cons hv)

/-- **A term does not reach from one text into the next.** -/
theorem infix_spaced_iff {term : List Char} {texts : List (List Char)} (hterm : Solid term) :
    term <:+: spaced texts ↔ ∃ text ∈ texts, term <:+: text := by
  have hspace : ' ' ∉ term := not_mem_of_outside hterm.2 rfl
  induction texts with
  | nil =>
      have hnone : ¬term <:+: [] := fun h => hterm.1 (List.infix_nil.1 h)
      simpa [spaced] using hnone
  | cons text more ih =>
      rcases more with _ | ⟨next, more⟩
      · simp [spaced]
      · rw [spaced_cons text (List.cons_ne_nil next more), infix_append_cons_iff hspace,
          List.exists_mem_cons_iff]
        exact or_congr_right ih

end Occurrences

/-! ### Terms -/

theorem queryTerms_eq (query : String) : queryTerms query = (words query.toList).map lower :=
  words_lower query.toList

/-- The spaces at the ends of a query do not matter. -/
theorem words_normalQuery (query : String) : words (normalQuery query) = queryTerms query := by
  rw [normalQuery, words_lower, words_trim, queryTerms_eq]

theorem queryTerms_append (q r : String) :
    queryTerms (q ++ " " ++ r) = queryTerms q ++ queryTerms r := by
  have hchars : (q ++ " " ++ r).toList = q.toList ++ ' ' :: r.toList := by simp
  rw [queryTerms_eq, queryTerms_eq, queryTerms_eq, hchars, words_append_space rfl, List.map_append]

theorem searchText_eq (m : Method) :
    m.searchText = spaced (m.searchedTexts.map fun text => lower text.toList) := by
  have hchars : (m.name ++ " " ++ m.className ++ " " ++ m.returnType ++ " " ++ m.sourceLabel).toList
      = m.name.toList ++ ' ' :: (m.className.toList ++ ' ' :: (m.returnType.toList
        ++ ' ' :: m.sourceLabel.toList)) := by
    simp
  have hspace : isSpace ' ' = true := rfl
  simp only [Method.searchText, hchars, lower_append_space hspace, Method.searchedTexts, spaced,
    List.map_cons, List.map_nil, List.intercalate_cons_cons, List.intercalate_singleton,
    List.append_assoc, List.singleton_append]

theorem hasTerms_iff (query : String) (m : Method) :
    m.hasTerms (queryTerms query) = true ↔ m.Matches query := by
  rw [Method.hasTerms, List.all_eq_true]
  refine forall₂_congr fun term hterm => ?_
  rw [occursIn_iff, searchText_eq, infix_spaced_iff (solid_of_mem_words hterm)]
  simp only [List.mem_map, exists_exists_and_eq_and]

theorem findMethods_eq (query : String) (cap : Nat) (methods : List Method) :
    findMethods query cap methods = (methods.filter fun m => m.Matches query).take cap := by
  have hmatch : ∀ m : Method, m.hasTerms (queryTerms query) = decide (m.Matches query) := fun m =>
    Bool.eq_iff_iff.2 ((hasTerms_iff query m).trans decide_eq_true_iff.symm)
  rw [findMethods, words_normalQuery]
  exact congrArg _ (List.filter_congr fun m _ => hmatch m)

/-- Without a cap all methods that match are found. -/
theorem findMethods_length (query : String) (methods : List Method) :
    findMethods query methods.length methods = methods.filter fun m => m.Matches query := by
  rw [findMethods_eq, List.take_of_length_le (List.length_filter_le _ _)]

/-- A method that matches a query matches all that has no other terms. -/
theorem Method.Matches.of_subset {q r : String} {m : Method} (h : m.Matches r)
    (hterms : queryTerms q ⊆ queryTerms r) : m.Matches q := fun term hterm => h term (hterms hterm)

theorem matches_append_iff {q r : String} {m : Method} :
    m.Matches (q ++ " " ++ r) ↔ m.Matches r ∧ m.Matches q := by
  simp only [Method.Matches, queryTerms_append, List.forall_mem_append]
  exact and_comm

/-- Only the set of the terms matters. -/
theorem findMethods_congr {q r : String} (hqr : queryTerms q ⊆ queryTerms r)
    (hrq : queryTerms r ⊆ queryTerms q) (cap : Nat) (methods : List Method) :
    findMethods q cap methods = findMethods r cap methods := by
  have hmatch : ∀ m : Method, m.Matches q ↔ m.Matches r := fun m =>
    ⟨fun h => h.of_subset hrq, fun h => h.of_subset hqr⟩
  simp only [findMethods_eq, hmatch]

theorem queryTerms_subset {q r : String} (h : words q.toList ⊆ words r.toList) :
    queryTerms q ⊆ queryTerms r := by
  rw [queryTerms_eq, queryTerms_eq]
  exact List.map_subset lower h

/-- Words in the same letters are the same terms. -/
theorem queryTerms_subset_of_sameLetters {q r : String} (hq : ∀ t ∈ words q.toList, LowersByChar t)
    (hr : ∀ u ∈ words r.toList, LowersByChar u)
    (h : ∀ t ∈ words q.toList, ∃ u ∈ words r.toList, SameLetters t u) :
    queryTerms q ⊆ queryTerms r := by
  rw [queryTerms_eq, queryTerms_eq]
  intro term hterm
  obtain ⟨t, ht, rfl⟩ := List.mem_map.1 hterm
  obtain ⟨u, hu, hsame⟩ := h t ht
  exact List.mem_map.2 ⟨u, hu, (hsame.lower_eq (hq t ht) (hr u hu)).symm⟩

/-- **What a search finds is decided by its terms,** each looked up in each text on its own. -/
theorem foundByTerms (methods : List Method) : FoundByTerms methods where
  found := fun query cap => findMethods_eq query cap methods
  narrowed := by
    intro q r cap
    rw [findMethods_eq, findMethods_length, findMethods_eq, List.filter_filter]
    simp only [matches_append_iff, Bool.decide_and]
  rearranged := by
    intro q r cap h
    exact findMethods_congr (queryTerms_subset fun t ht => (h t).1 ht)
      (queryTerms_subset fun t ht => (h t).2 ht) cap methods
  recased := by
    intro q r cap hq hr hqr hrq
    refine findMethods_congr (queryTerms_subset_of_sameLetters hq hr hqr)
      (queryTerms_subset_of_sameLetters hr hq fun u hu => ?_) cap methods
    obtain ⟨t, ht, hsame⟩ := hrq u hu
    exact ⟨t, ht, hsame.symm⟩
  fewer := by
    intro q r h
    rw [findMethods_length, findMethods_length]
    refine List.monotone_filter_right methods fun m hm => ?_
    exact decide_eq_true ((of_decide_eq_true hm).of_subset (queryTerms_subset h))
  capped := by
    intro query cap cap' hcap
    rw [findMethods_eq, findMethods_eq]
    exact List.take_prefix_take_left hcap

/-- Terms in another order and case, one of them repeated, and a query that would only match
across the joint of two texts. -/
theorem foundByTerms_recased :
    let method (name : String) : Method :=
      { className := "AActor", returnType := "float", name, parameters := [], isStatic := false,
        isVirtual := false, nativeSignature := "", fullText := "", sourceLabel := "Actor.h" }
    let methods := [method "GetHealth", method "SetHealth", method "GetMaxHealth"]
    (∀ cap, findMethods "FLOAT get Float" cap methods = findMethods "GET float" cap methods) ∧
      findMethods "GET float" 2 methods = [method "GetHealth", method "GetMaxHealth"] ∧
      findMethods "healthaactor" 2 methods = [] := by
  intro method methods
  have hplain : ∀ query ∈ ["FLOAT get Float", "GET float"], ∀ t ∈ words query.toList,
      LowersByChar t := by
    have hsigma : ∀ query ∈ ["FLOAT get Float", "GET float"], ∀ t ∈ words query.toList,
        '\u03a3' ∉ t := by decide
    exact fun query hquery t ht => lowersByChar_of_not_mem (hsigma query hquery t ht)
  refine ⟨fun cap => ?_, by decide +kernel, by decide +kernel⟩
  refine (foundByTerms methods).recased _ _ cap (hplain _ (by simp)) (hplain _ (by simp)) ?_ ?_
  · unfold SameLetters; decide
  · unfold SameLetters; decide

end NativeHooks
