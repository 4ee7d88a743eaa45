/-
# What an index accounts for

Every source has one entry, and every method that a header declares is in the index once,
under the label of its source.  Both lists are sorted, and the numbers in the entries and in
the report are those of what is there (`ofSources_accounts`).  Sources may share locations
and relative locations: methods and counts are then added up under the label that they share.

A source that cannot be read counts like one whose text declares nothing.
-/

import Mathlib.Algebra.GroupWithZero.Nat
import NativeHooks.Proofs.Index.FailedSources

namespace NativeHooks

open Text

/-! ### What a source gives -/

section Source

variable {ε : Type}

/-- What the text of a source declares; nothing if it cannot be read. -/
def Source.declared (fetch : String → Except ε String) (s : Source) : Declarations :=
  match fetch s.location with
  | .ok text => Declarations.ofHeader text
  | .error _ => {}

/-- The entry of a source: its names and paths, and how much it declares. -/
def Source.summary (fetch : String → Except ε String) (s : Source) : FileEntry :=
  { fileName := s.fileName, fullLocation := s.location
    relativeLocation := s.relativeLocation, directory := s.directory
    className := (s.declared fetch).className
    methodCount := (s.declared fetch).methods.length
    fieldCount := (s.declared fetch).fields.length }

/-- The methods that a source declares, with its relative location as their label. -/
def Source.labelled (fetch : String → Except ε String) (s : Source) : List Method :=
  (s.declared fetch).methods.map fun m => { m with sourceLabel := s.relativeLocation }

theorem Source.scan_eq (fetch : String → Except ε String) (s : Source) :
    s.scan fetch
      = { entry := s.summary fetch, methods := s.labelled fetch
          wasRead := (fetch s.location).isOk } := by
  rcases h : fetch s.location with error | text
  · simp only [Source.scan, h, Source.summary, Source.labelled, Source.declared, List.map_nil]
    rfl
  · simp only [Source.scan, h, Source.summary, Source.labelled, Source.declared]
    rfl

@[simp] theorem Source.length_labelled (fetch : String → Except ε String) (s : Source) :
    (s.labelled fetch).length = (s.summary fetch).methodCount := List.length_map ..

theorem Source.sourceLabel_of_mem_labelled {fetch : String → Except ε String} {s : Source}
    {m : Method} (h : m ∈ s.labelled fetch) : m.sourceLabel = s.relativeLocation := by
  obtain ⟨found, -, rfl⟩ := List.mem_map.1 h
  rfl

end Source

/-! ### Counting by label -/

/-- The entries of groups that have the property `p`, where all of a group have it or none. -/
theorem length_filter_flatMap {α β : Type} {l : List β} {f : β → List α} {p : α → Bool}
    {q : β → Bool} (h : ∀ b ∈ l, ∀ x ∈ f b, p x = q b) :
    ((l.flatMap f).filter p).length = ((l.filter q).map fun b => (f b).length).sum := by
  induction l with
  | nil => rfl
  | cons b l ih =>
      have hrest := ih fun c hc => h c (List.mem_cons_of_mem b hc)
      have hgroup : (f b).filter p = if q b then f b else [] := by
        rw [List.filter_congr (h b List.mem_cons_self)]
        cases q b <;> simp
      rw [List.flatMap_cons, List.filter_append, List.length_append, hrest, hgroup]
      cases hq : q b <;> simp [hq]

/-! ### The account -/

/-- The outcome accounts for all of the sources. -/
structure Outcome.Accounts {ε : Type} (sources : List Source) (fetch : String → Except ε String)
    (outcome : Outcome) : Prop where
  files : outcome.index.files.Perm (sources.map (Source.summary fetch))
  filesSorted : SortedBy (fun e => [e.relativeLocation, e.fullLocation]) outcome.index.files
  methods : outcome.index.methods.Perm (sources.flatMap (Source.labelled fetch))
  methodsSorted :
    SortedBy (fun m => [m.className, m.name, m.sourceLabel, m.fullText]) outcome.index.methods
  attempted : outcome.report.attempted = sources.length
  /-- What was scanned is what could be read. -/
  scanned : outcome.report.scanned = sources.countP fun s => (fetch s.location).isOk
  /-- The rest is reported, in the order of the sources. -/
  unavailable : outcome.report.unavailable
    = (sources.filter fun s => ! (fetch s.location).isOk).map (·.location)
  split : outcome.report.scanned + outcome.report.unavailable.length = sources.length
  methodCount : outcome.report.methodCount = outcome.index.methods.length
  /-- The counts in the entries add up. -/
  total : outcome.index.methods.length = (outcome.index.files.map (·.methodCount)).sum
  /-- They do so for every label, whether or not sources share it. -/
  labels : ∀ label, (outcome.index.methodsFrom label).length
    = ((outcome.index.files.filter (·.relativeLocation = label)).map (·.methodCount)).sum

section Account

variable {ε : Type} (fetch : String → Except ε String) (origin : String) (sources : List Source)

theorem files_perm :
    (Outcome.ofSources origin sources fetch).index.files.Perm
      (sources.map (Source.summary fetch)) := by
  have hentries : (sources.map fun s => (s.scan fetch).entry) = sources.map (Source.summary fetch) :=
    List.map_congr_left fun s _ => congrArg ScannedSource.entry (Source.scan_eq fetch s)
  rw [entries_ofSources, hentries]
  exact sortByKeys_perm ..

theorem methods_perm :
    (Outcome.ofSources origin sources fetch).index.methods.Perm
      (sources.flatMap (Source.labelled fetch)) := by
  have hmethods : (sources.flatMap fun s => (s.scan fetch).methods)
      = sources.flatMap (Source.labelled fetch) :=
    List.flatMap_congr fun s _ => congrArg ScannedSource.methods (Source.scan_eq fetch s)
  rw [methods_ofSources, hmethods]
  exact sortByKeys_perm ..

theorem unread_ofSources :
    (Outcome.ofSources origin sources fetch).report.unavailable
      = (sources.filter fun s => ! (fetch s.location).isOk).map (·.location) := by
  have hread : ∀ s ∈ sources, (! (s.scan fetch).wasRead) = ! (fetch s.location).isOk :=
    fun s _ => congrArg (fun x => ! x.wasRead) (Source.scan_eq fetch s)
  rw [unavailable_ofSources, List.filter_congr hread]

theorem countP_read_add :
    (sources.countP fun s => (fetch s.location).isOk)
      + (Outcome.ofSources origin sources fetch).report.unavailable.length = sources.length := by
  have hunread : (Outcome.ofSources origin sources fetch).report.unavailable.length
      = sources.countP fun s => ¬ (fetch s.location).isOk = true := by
    rw [unread_ofSources, List.length_map, ← List.countP_eq_length_filter]
    exact List.countP_congr fun s _ => by simp
  rw [hunread, ← List.length_eq_countP_add_countP]

/-- The methods with a label are those of the entries with this relative location. -/
theorem length_methodsFrom (label : String) :
    ((Outcome.ofSources origin sources fetch).index.methodsFrom label).length
      = (((Outcome.ofSources origin sources fetch).index.files.filter
          (·.relativeLocation = label)).map (·.methodCount)).sum := by
  have hlabel : ∀ s ∈ sources, ∀ m ∈ s.labelled fetch,
      (m.sourceLabel == label) = decide (s.relativeLocation = label) := by
    intro s _ m hm
    rw [Source.sourceLabel_of_mem_labelled hm]
    rfl
  have hmethods := ((methods_perm fetch origin sources).filter (·.sourceLabel == label)).length_eq
  have hfiles := (((files_perm fetch origin sources).filter (·.relativeLocation = label)).map
    (·.methodCount)).sum_nat
  rw [Index.methodsFrom, hmethods, hfiles, length_filter_flatMap hlabel, List.filter_map,
    List.map_map]
  exact congrArg List.sum (List.map_congr_left fun s _ => Source.length_labelled fetch s)

theorem length_methods :
    (Outcome.ofSources origin sources fetch).index.methods.length
      = ((Outcome.ofSources origin sources fetch).index.files.map (·.methodCount)).sum := by
  have hfiles := ((files_perm fetch origin sources).map (·.methodCount)).sum_nat
  rw [(methods_perm fetch origin sources).length_eq, hfiles, List.length_flatMap, List.map_map]
  exact congrArg List.sum (List.map_congr_left fun s _ => Source.length_labelled fetch s)

/-- **An index accounts for its sources**: nothing is lost, added or mislabelled, and the
numbers agree with what is there. -/
theorem ofSources_accounts : (Outcome.ofSources origin sources fetch).Accounts sources fetch := by
  have hread := countP_read_add fetch origin sources
  have hscanned : (Outcome.ofSources origin sources fetch).report.scanned
      = sources.length - (Outcome.ofSources origin sources fetch).report.unavailable.length := rfl
  constructor
  case files => exact files_perm fetch origin sources
  case filesSorted => exact sortedBy_sortByKeys FileEntry.sortKeys _
  case methods => exact methods_perm fetch origin sources
  case methodsSorted => exact sortedBy_sortByKeys Method.sortKeys _
  case attempted => rfl
  case scanned => omega
  case unavailable => exact unread_ofSources fetch origin sources
  case split => omega
  case methodCount => rfl
  case total => exact length_methods fetch origin sources
  case labels => exact length_methodsFrom fetch origin sources

end Account
end NativeHooks
