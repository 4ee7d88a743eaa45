/-
# The index does not depend on the order of its sources

Sources are scanned on their own, and what they gave is put together and sorted.  If no
two sources have the same relative location, no two of them give entries or methods that
agree in all that is sorted by.  So the sources may come in any order, and methods that
agree come from one source and stay in the order of its text
(`ofSources_agrees_of_perm`).
-/

import NativeHooks.Index.Build
import NativeHooks.Proofs.Header.Locality
import NativeHooks.Proofs.Text.Order

namespace NativeHooks

open Text

/-! ### Methods in the order of a text -/

/-- The methods that a source with this text gives, each with its place. -/
def Source.placed (s : Source) (text : String) : List (Header.Opening × Method) :=
  (Header.methodKind.located (Declarations.ofHeader text).className text.toList).map fun p =>
    (p.1, { p.2 with sourceLabel := s.label })

/-- These are braces of a text, in its order. -/
structure Header.Ascending (cs : List Char) (places : List Opening) : Prop where
  place : ∀ o ∈ places, cs = o.before.reverse ++ '{' :: o.after
  ascending : places.Pairwise fun a b => a.before.length < b.before.length

/-- The methods of the index that agree with `m` in all that is sorted by are those of one
source, in the order of its text. -/
def Index.TiesInOrder {ε : Type} (index : Index) (sources : List Source)
    (fetch : String → Except ε String) (m : Method) : Prop :=
  ∃ s ∈ sources, ∃ text, fetch s.location = .ok text ∧
    Header.Ascending text.toList ((s.placed text).map Prod.fst) ∧
    index.methods.filter (·.sortKeys = m.sortKeys)
      = ((s.placed text).map Prod.snd).filter (·.sortKeys = m.sortKeys)

/-- The outcomes are the same but for the order in which sources that could not be read
are listed. -/
structure Outcome.Agrees (one other : Outcome) : Prop where
  files : one.index.files = other.index.files
  methods : one.index.methods = other.index.methods
  origin : one.report.origin = other.report.origin
  attempted : one.report.attempted = other.report.attempted
  scanned : one.report.scanned = other.report.scanned
  methodCount : one.report.methodCount = other.report.methodCount
  unavailable : one.report.unavailable.Perm other.report.unavailable

theorem Source.ascending_placed (s : Source) (text : String) :
    Header.Ascending text.toList ((s.placed text).map Prod.fst) := by
  have hplaces : ((s.placed text).map Prod.fst).Sublist (Header.openings text.toList) := by
    rw [Source.placed, List.map_map]
    exact Header.methodKind.map_fst_located _ _ ▸ List.filter_sublist
  constructor
  · intro o ho
    exact Header.eq_of_mem_openingsAfter (hplaces.subset ho)
  · exact (Header.pairwise_openingsAfter [] _).sublist hplaces

/-! ### Scans -/

section Scan

variable {ε : Type} {fetch : String → Except ε String} {s : Source} {m : Method}

theorem Source.scan_relativeLocation (fetch : String → Except ε String) (s : Source) :
    (s.scan fetch).entry.relativeLocation = s.relativeLocation := by
  unfold Source.scan
  split <;> rfl

theorem Source.scan_methods {text : String} (h : fetch s.location = .ok text) :
    (s.scan fetch).methods = (s.placed text).map Prod.snd := by
  have hfound : (Declarations.ofHeader text).methods
      = (Header.methodKind.located (Declarations.ofHeader text).className text.toList).map Prod.snd :=
    (Header.methodKind.map_snd_located _ _).symm
  simp only [Source.scan, h, Source.placed, hfound, List.map_map]
  rfl

/-- A source that gives a method could be read. -/
theorem Source.exists_text_of_mem (h : m ∈ (s.scan fetch).methods) :
    ∃ text, fetch s.location = .ok text := by
  rcases htext : fetch s.location with error | text
  · simp [Source.scan, htext] at h
  · exact ⟨text, rfl⟩

theorem Source.sourceLabel_of_mem (h : m ∈ (s.scan fetch).methods) :
    m.sourceLabel = s.relativeLocation := by
  obtain ⟨text, htext⟩ := Source.exists_text_of_mem h
  simp only [Source.scan, htext] at h
  obtain ⟨found, -, rfl⟩ := List.mem_map.1 h
  rfl

end Scan

/-! ### Sources in any order -/

section Order

variable {ε : Type} {xs ys : List Source} (fetch : String → Except ε String)

theorem apart_entries (h : (xs.map (·.relativeLocation)).Nodup) :
    Apart FileEntry.sortKeys (fun s => [(s.scan fetch).entry]) xs := by
  refine (List.pairwise_map.1 h).imp fun {a b} hne x hx y hy heq => hne ?_
  rw [List.mem_singleton.1 hx, List.mem_singleton.1 hy] at heq
  have hlocation := (List.cons.inj heq).1
  rwa [Source.scan_relativeLocation, Source.scan_relativeLocation] at hlocation

theorem apart_methods (h : (xs.map (·.relativeLocation)).Nodup) :
    Apart Method.sortKeys (fun s => (s.scan fetch).methods) xs := by
  refine (List.pairwise_map.1 h).imp fun {a b} hne x hx y hy heq => hne ?_
  have hlabel : x.sourceLabel = y.sourceLabel := by
    simp only [Method.sortKeys, List.cons.injEq] at heq
    exact heq.2.2.1
  rwa [Source.sourceLabel_of_mem hx, Source.sourceLabel_of_mem hy] at hlabel

theorem files_ofSources (origin : String) (xs : List Source) :
    (Outcome.ofSources origin xs fetch).index.files
      = sortByKeys FileEntry.sortKeys (xs.flatMap fun s => [(s.scan fetch).entry]) := by
  simp only [Outcome.ofSources, Index.ofScanned, ← List.map_eq_flatMap, List.map_map]
  rfl

theorem methods_ofSources (origin : String) (xs : List Source) :
    (Outcome.ofSources origin xs fetch).index.methods
      = sortByKeys Method.sortKeys (xs.flatMap fun s => (s.scan fetch).methods) := by
  simp only [Outcome.ofSources, Index.ofScanned, List.flatMap_map]

theorem unavailable_perm (origin : String) (h : xs.Perm ys) :
    (Outcome.ofSources origin xs fetch).report.unavailable.Perm
      (Outcome.ofSources origin ys fetch).report.unavailable :=
  ((h.map (Source.scan fetch)).filter _).map _

/-- Methods that agree in all that is sorted by come from one source. -/
theorem tiesInOrder_ofSources (origin : String) (hdistinct : (xs.map (·.relativeLocation)).Nodup)
    {m : Method} (hm : m ∈ (Outcome.ofSources origin xs fetch).index.methods) :
    (Outcome.ofSources origin xs fetch).index.TiesInOrder xs fetch m := by
  rw [methods_ofSources, (sortByKeys_perm ..).mem_iff] at hm
  obtain ⟨s, hs, hmem⟩ := List.mem_flatMap.1 hm
  obtain ⟨text, htext⟩ := Source.exists_text_of_mem hmem
  refine ⟨s, hs, text, htext, s.ascending_placed text, ?_⟩
  have hone := (apart_methods fetch hdistinct).pairwise_filter m.sortKeys
  have hne : (s.scan fetch).methods.filter (·.sortKeys = m.sortKeys) ≠ [] :=
    List.ne_nil_of_mem (List.mem_filter.2 ⟨hmem, decide_eq_true rfl⟩)
  rw [methods_ofSources, filter_sortByKeys, List.filter_flatMap, flatMap_eq_of_mem hone hs hne,
    Source.scan_methods htext]

/-- **The index does not depend on the order of its sources** if no two of them have the
same relative location, and methods that agree in all that is sorted by are in the order of
the text that they come from. -/
theorem ofSources_agrees_of_perm (origin : String) (hperm : xs.Perm ys)
    (hdistinct : (xs.map (·.relativeLocation)).Nodup) :
    (Outcome.ofSources origin xs fetch).Agrees (Outcome.ofSources origin ys fetch) ∧
      ∀ m ∈ (Outcome.ofSources origin xs fetch).index.methods,
        (Outcome.ofSources origin xs fetch).index.TiesInOrder xs fetch m := by
  have hmethods : (Outcome.ofSources origin xs fetch).index.methods
      = (Outcome.ofSources origin ys fetch).index.methods := by
    rw [methods_ofSources, methods_ofSources]
    exact sortByKeys_flatMap_of_perm hperm (apart_methods fetch hdistinct)
  have hunavailable := unavailable_perm fetch origin hperm
  refine ⟨⟨?_, hmethods, rfl, hperm.length_eq, ?_, congrArg List.length hmethods, hunavailable⟩, ?_⟩
  · rw [files_ofSources, files_ofSources]
    exact sortByKeys_flatMap_of_perm hperm (apart_entries fetch hdistinct)
  · exact congrArg₂ (· - ·) hperm.length_eq hunavailable.length_eq
  · exact fun m hm => tiesInOrder_ofSources fetch origin hdistinct hm

/-- The same text in two headers, with a method that is declared twice, and a header that
cannot be read. -/
theorem ofSources_agrees_of_perm_ties :
    let text := "struct A\n\x7b\nint F() \x7b return NativeCall<int>(this, \"A.F\"); \x7d\n" ++
      "int E() \x7b return NativeCall<int>(this, \"A.E\"); \x7d\n" ++
      "int F() \x7b return NativeCall<int>(this, \"A.F\"); \x7d\n\x7d;"
    let source (fileName : String) : Source :=
      { location := "/sdk/" ++ fileName, fileName, relativeLocation := fileName, directory := "" }
    let fetch (location : String) : Except String String :=
      if location = "/sdk/gone.h" then .error "gone" else .ok text
    let xs := [source "a.h", source "gone.h", source "b.h"]
    let ys := [source "b.h", source "a.h", source "gone.h"]
    let one := Outcome.ofSources "/sdk" xs fetch
    xs.Perm ys ∧ (xs.map (·.relativeLocation)).Nodup ∧ one.report.methodCount = 6 ∧
      one.Agrees (Outcome.ofSources "/sdk" ys fetch) ∧
      ∀ m ∈ one.index.methods, one.index.TiesInOrder xs fetch m := by
  intro text source fetch xs ys one
  have hperm : xs.Perm ys := by decide
  have hdistinct : (xs.map (·.relativeLocation)).Nodup := by decide
  have hcount : one.report.methodCount = 6 := by
    show one.index.methods.length = 6
    rw [methods_ofSources, (sortByKeys_perm ..).length_eq]
    decide +kernel
  exact ⟨hperm, hdistinct, hcount, ofSources_agrees_of_perm fetch "/sdk" hperm hdistinct⟩

end Order
end NativeHooks
