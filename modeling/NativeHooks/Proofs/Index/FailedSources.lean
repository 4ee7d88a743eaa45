/-
# Sources that cannot be read

A source that cannot be read changes nothing for the others: the index has the methods that
it would have without that source, in the same order, and the entries that it would have,
with one more that names the source and counts nothing (`ofSources_spares_others`).

Nothing is asked of the sources.  Several of them may have the same location, and they may
share it or their relative locations with sources that can be read: what is said of the
failed ones is said of locations, and sorting keeps the order of what is left when some
entries are taken out, before or after it.
-/

import NativeHooks.Proofs.Index.SourceOrder

namespace NativeHooks

open Text

/-- `whole` is an outcome for all `sources`, those at the locations `lost` among them, and
`rest` is one for the others alone. -/
structure Outcome.Spares (lost : String → Prop) [DecidablePred lost] (sources : List Source)
    (whole rest : Outcome) : Prop where
  methods : whole.index.methods = rest.index.methods
  files : whole.index.files.filter (fun e => ¬ lost e.fullLocation) = rest.index.files
  /-- A lost source has one entry, with its names and paths and nothing else. -/
  entries : (whole.index.files.filter fun e => lost e.fullLocation).Perm
    ((sources.filter fun s => lost s.location).map fun s =>
      { fileName := s.fileName, fullLocation := s.location
        relativeLocation := s.relativeLocation, directory := s.directory
        className := "", methodCount := 0, fieldCount := 0 })
  /-- Every lost source is reported, in the order of the sources. -/
  unavailable : whole.report.unavailable.filter (fun location => lost location)
    = (sources.filter fun s => lost s.location).map (·.location)
  /-- So are the others that could not be read. -/
  others : whole.report.unavailable.filter (fun location => ¬ lost location)
    = rest.report.unavailable

section Scan

variable {ε : Type} {f g : String → Except ε String} {s : Source}

theorem Source.scan_fullLocation (f : String → Except ε String) (s : Source) :
    (s.scan f).entry.fullLocation = s.location := by
  unfold Source.scan
  split <;> rfl

theorem Source.scan_error {error : ε} (h : f s.location = .error error) :
    s.scan f = { entry := s.entry, methods := [], wasRead := false } := by
  simp only [Source.scan, h]

/-- A scan depends on the text of its source alone. -/
theorem Source.scan_congr (h : f s.location = g s.location) : s.scan f = s.scan g := by
  simp only [Source.scan, h]

end Scan

section Sources

variable {ε : Type} (f : String → Except ε String) (origin : String) (xs : List Source)

theorem entries_ofSources :
    (Outcome.ofSources origin xs f).index.files
      = sortByKeys FileEntry.sortKeys (xs.map fun s => (s.scan f).entry) := by
  rw [files_ofSources, List.map_eq_flatMap]

theorem unavailable_ofSources :
    (Outcome.ofSources origin xs f).report.unavailable
      = (xs.filter fun s => ! (s.scan f).wasRead).map (·.location) := by
  simp only [Outcome.ofSources, List.filter_map, List.map_map]
  exact List.map_congr_left fun s _ => Source.scan_fullLocation f s

/-- The entries at some of the locations. -/
theorem filter_entries_ofSources (p : String → Bool) :
    (Outcome.ofSources origin xs f).index.files.filter (fun e => p e.fullLocation)
      = sortByKeys FileEntry.sortKeys
          ((xs.filter fun s => p s.location).map fun s => (s.scan f).entry) := by
  have hlocation : ((fun e : FileEntry => p e.fullLocation) ∘ fun s : Source => (s.scan f).entry)
      = fun s => p s.location := by
    funext s
    exact congrArg p (Source.scan_fullLocation f s)
  rw [entries_ofSources, ← sortByKeys_filter, List.filter_map, hlocation]

/-- The sources at some of the locations that could not be read. -/
theorem filter_unavailable_ofSources (p : String → Bool) :
    (Outcome.ofSources origin xs f).report.unavailable.filter p
      = ((xs.filter fun s => p s.location).filter fun s => ! (s.scan f).wasRead).map
          (·.location) := by
  rw [unavailable_ofSources, List.filter_map, List.filter_comm]
  rfl

end Sources

section Failure

variable {ε : Type} {lost : String → Prop} [DecidablePred lost] {f g : String → Except ε String}
  {sources : List Source} {s : Source}

theorem scan_lost (hlost : ∀ location, lost location → ∃ error, g location = .error error)
    (hs : s ∈ sources.filter fun s => lost s.location) :
    s.scan g = { entry := s.entry, methods := [], wasRead := false } := by
  have hs : lost s.location := of_decide_eq_true (List.mem_filter.1 hs).2
  obtain ⟨error, herror⟩ := hlost s.location hs
  exact Source.scan_error herror

theorem scan_kept (hkept : ∀ location, ¬ lost location → f location = g location)
    (hs : s ∈ sources.filter fun s => ¬ lost s.location) : s.scan g = s.scan f := by
  have hs : ¬ lost s.location := of_decide_eq_true (List.mem_filter.1 hs).2
  exact (Source.scan_congr (hkept s.location hs)).symm

/-- **A source that cannot be read affects no other.**  Where `g` fails at the locations
`lost` and gives what `f` gives at all others, the index that `g` leads to has the methods
and the entries that `f` leads to for the sources at the other locations, in the same order,
and besides them one bare entry for every lost source. -/
theorem ofSources_spares_others (origin : String) (sources : List Source)
    (hlost : ∀ location, lost location → ∃ error, g location = .error error)
    (hkept : ∀ location, ¬ lost location → f location = g location) :
    (Outcome.ofSources origin sources g).Spares lost sources
      (Outcome.ofSources origin (sources.filter fun s => ¬ lost s.location) f) := by
  have hbare : ∀ s ∈ sources.filter (fun s => lost s.location),
      s.scan g = { entry := s.entry, methods := [], wasRead := false } :=
    fun _ hs => scan_lost hlost hs
  have hsame : ∀ s ∈ sources.filter (fun s => ¬ lost s.location), s.scan g = s.scan f :=
    fun _ hs => scan_kept hkept hs
  constructor
  case methods =>
    have hnone : ∀ s ∈ sources, decide (¬ lost s.location) = false → (s.scan g).methods = [] := by
      intro s hmem hs
      have hs : lost s.location := not_not.1 (of_decide_eq_false hs)
      rw [hbare s (List.mem_filter.2 ⟨hmem, decide_eq_true hs⟩)]
    have hmethods := List.flatMap_congr fun s hs => congrArg ScannedSource.methods (hsame s hs)
    rw [methods_ofSources, methods_ofSources, ← flatMap_filter_of_eq_nil hnone, hmethods]
  case files =>
    have hentries := List.map_congr_left fun s hs => congrArg ScannedSource.entry (hsame s hs)
    rw [filter_entries_ofSources g origin sources (fun l => ¬ lost l), hentries, entries_ofSources]
  case entries =>
    have hentries := List.map_congr_left fun s hs => congrArg ScannedSource.entry (hbare s hs)
    rw [filter_entries_ofSources g origin sources (fun l => lost l), hentries]
    exact sortByKeys_perm ..
  case unavailable =>
    have hall : ∀ s ∈ sources.filter (fun s => lost s.location), (! (s.scan g).wasRead) = true :=
      fun s hs => congrArg (fun x => ! x.wasRead) (hbare s hs)
    rw [filter_unavailable_ofSources g origin sources (fun l => lost l), List.filter_eq_self.2 hall]
  case others =>
    have hread := List.filter_congr fun s hs => congrArg (fun x => ! x.wasRead) (hsame s hs)
    rw [filter_unavailable_ofSources g origin sources (fun l => ¬ lost l), hread,
      unavailable_ofSources]

/-- A header that cannot be read is listed twice, once under the relative location of
another one, and a second header fails at both readings. -/
theorem ofSources_spares_others_shared :
    let text := "struct A\n\x7b\nint F() \x7b return NativeCall<int>(this, \"A.F\"); \x7d\n\x7d;"
    let source (location relativeLocation : String) : Source :=
      { location, fileName := relativeLocation, relativeLocation, directory := "" }
    let lost (location : String) : Prop := location = "/sdk/gone.h"
    let f (location : String) : Except String String :=
      if location = "/sdk/other.h" then .error "denied" else .ok text
    let g (location : String) : Except String String :=
      if location = "/sdk/gone.h" then .error "gone" else f location
    let sources := [source "/sdk/gone.h" "a.h", source "/sdk/other.h" "b.h",
      source "/sdk/a.h" "a.h", source "/sdk/gone.h" "gone.h"]
    (∀ location, lost location → ∃ error, g location = .error error) ∧
      (∀ location, ¬ lost location → f location = g location) ∧
      (Outcome.ofSources "/sdk" sources g).report.unavailable
        = ["/sdk/gone.h", "/sdk/other.h", "/sdk/gone.h"] ∧
      (Outcome.ofSources "/sdk" sources g).Spares lost sources
        (Outcome.ofSources "/sdk" (sources.filter fun s => ¬ lost s.location) f) := by
  intro text source lost f g sources
  have hlost : ∀ location, lost location → ∃ error, g location = .error error :=
    fun location h => ⟨"gone", if_pos h⟩
  have hkept : ∀ location, ¬ lost location → f location = g location :=
    fun location h => (if_neg h).symm
  have hunavailable : (Outcome.ofSources "/sdk" sources g).report.unavailable
      = ["/sdk/gone.h", "/sdk/other.h", "/sdk/gone.h"] := by
    decide +kernel
  exact ⟨hlost, hkept, hunavailable, ofSources_spares_others "/sdk" sources hlost hkept⟩

end Failure
end NativeHooks
