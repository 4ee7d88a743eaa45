/-
# Which changes matter

A folder is indexed by a walk that takes the files whose extension is one of a header, and
watched for changes of such files.  The two differ over files without an extension.  The
walk takes the empty one in its place, which settings may name; for a change there is no
extension to compare.  `isRelevant_iff_isHeader` says that this is the only difference, and
for which settings there is none: those in which no extension is made of dots alone.  With
others there are files that are indexed and whose changes go unnoticed.

Only an extension that is text counts; one that is not UTF-8 is none.
-/

import NativeHooks.Index.Folder
import NativeHooks.Live.Change
import NativeHooks.Proofs.Settings.Merging
import NativeHooks.Proofs.Tree.Path

namespace NativeHooks

open Text Toml

/-- The path has an extension that is text. -/
def Path.HasExtension (p : Path) : Prop := ∃ extension, p.extension?.bind Path.text? = some extension

section Paths

variable {s : Settings} {p q : Path}

theorem isHeader_of_extension {extension : String}
    (h : p.extension?.bind Path.text? = some extension) :
    s.isHeader p = s.isHeaderExtension extension := by
  rw [Settings.isHeader, h, Option.getD_some]

/-- Without an extension a file is a header if the empty one is of headers. -/
theorem isHeader_of_not_hasExtension (h : ¬ p.HasExtension) :
    s.isHeader p = s.isHeaderExtension "" := by
  rcases hextension : p.extension?.bind Path.text? with _ | extension
  · rw [Settings.isHeader, hextension, Option.getD_none]
  · exact absurd ⟨extension, hextension⟩ h

theorem any_isHeaderExtension_iff :
    (p.extension?.bind Path.text?).any s.isHeaderExtension = true
      ↔ s.isHeader p = true ∧ p.HasExtension := by
  rcases hextension : p.extension?.bind Path.text? with _ | extension
  · have hnone : ¬ p.HasExtension := by
      rintro ⟨extension, hsome⟩
      exact nomatch hextension.symm.trans hsome
    simp [hnone]
  · rw [isHeader_of_extension hextension, Option.any_some]
    exact (and_iff_left ⟨extension, hextension⟩).symm

/-- A change matters if it is about a header with an extension. -/
theorem isRelevant_iff {c : Change} :
    c.isRelevant s = true ↔ ∃ p ∈ c.paths, s.isHeader p = true ∧ p.HasExtension := by
  simp only [Change.isRelevant, List.any_eq_true, any_isHeaderExtension_iff]

theorem textExtension_join {extension : String} (folder : Path)
    (h : q.extension?.bind Path.text? = some extension) :
    (folder.join q).extension?.bind Path.text? = some extension := by
  obtain ⟨bytes, hbytes, htext⟩ := Option.bind_eq_some_iff.1 h
  rw [Path.extension?_join folder hbytes]
  exact htext

end Paths

/-- The path of a file that a walk finds in a folder. -/
def pathBelow (folder : Path) (names : List FileName) : Path :=
  folder.join ([slash].intercalate names)

/-- A change of an indexed file matters if the file has an extension. -/
theorem isRelevant_of_mem_headers {s : Settings} {t : Tree} {names : List FileName}
    (folder : Path) (hmem : names ∈ t.headers s)
    (hextension : Path.HasExtension ([slash].intercalate names)) :
    (Change.changed (pathBelow folder names)).isRelevant s = true := by
  obtain ⟨extension, htext⟩ := hextension
  have hbelow := textExtension_join folder htext
  have hheader : s.isHeader ([slash].intercalate names) = true := (List.mem_filter.1 hmem).2
  rw [isHeader_of_extension htext] at hheader
  refine isRelevant_iff.2 ⟨pathBelow folder names, List.mem_singleton.2 rfl, ?_, extension, hbelow⟩
  rw [pathBelow, isHeader_of_extension hbelow, hheader]

/-- A file without an extension. -/
def readme : Path := Path.ofString "README"

theorem not_hasExtension_readme : ¬ readme.HasExtension := by
  rintro ⟨extension, h⟩
  have hnone : readme.extension? = none := by decide +kernel
  rw [hnone] at h
  exact nomatch h

theorem not_isRelevant_readme (s : Settings) : ¬ (Change.changed readme).isRelevant s = true := by
  rw [isRelevant_iff]
  rintro ⟨p, hp, -, hextension⟩
  rw [List.mem_singleton.1 hp] at hextension
  exact not_hasExtension_readme hextension

section Tables

variable {parallelism : Nat} {tables : List Table}

theorem isHeader_readme_iff :
    (Settings.ofTables (Settings.default parallelism) tables).isHeader readme = true
      ↔ Settings.AcceptsNoExtension tables := by
  rw [isHeader_of_not_hasExtension not_hasExtension_readme, Settings.isHeaderExtension_empty_iff]

/-- Unless the settings name the empty extension, headers have one. -/
theorem hasExtension_of_isHeader {p : Path} (hnone : ¬ Settings.AcceptsNoExtension tables)
    (h : (Settings.ofTables (Settings.default parallelism) tables).isHeader p = true) :
    p.HasExtension := by
  refine Classical.byContradiction fun hwithout => hnone ?_
  rwa [isHeader_of_not_hasExtension hwithout, Settings.isHeaderExtension_empty_iff] at h

end Tables

/-- **Changes and files are told apart in the same way** except for files without an
extension, which may be indexed but whose changes do not matter.  No change of an indexed
file goes unnoticed exactly if no extension in the settings is made of dots alone. -/
theorem isRelevant_iff_isHeader (parallelism : Nat) (tables : List Table) :
    let s := Settings.ofTables (Settings.default parallelism) tables
    (∀ c : Change, c.isRelevant s = true ↔
      ∃ p ∈ c.paths, s.isHeader p = true ∧ p.HasExtension) ∧
    ((∀ c : Change, c.isRelevant s = true ↔ ∃ p ∈ c.paths, s.isHeader p = true)
      ↔ ¬ Settings.AcceptsNoExtension tables) ∧
    ((∀ (folder : Path) (t : Tree), ∀ names ∈ t.headers s,
        (Change.changed (pathBelow folder names)).isRelevant s = true)
      ↔ ¬ Settings.AcceptsNoExtension tables) := by
  intro s
  have hreadme : Settings.AcceptsNoExtension tables → s.isHeader readme = true :=
    isHeader_readme_iff.2
  -- A file without an extension shows the difference if there is one.
  refine ⟨fun c => isRelevant_iff, ⟨fun hall haccept => ?_, fun hnone c => ?_⟩,
    ⟨fun hall haccept => ?_, fun hnone folder t names hmem => ?_⟩⟩
  · exact not_isRelevant_readme s
      ((hall (.changed readme)).2 ⟨readme, List.mem_singleton.2 rfl, hreadme haccept⟩)
  · rw [isRelevant_iff]
    exact exists_congr fun p =>
      and_congr_right fun _ => and_iff_left_of_imp (hasExtension_of_isHeader hnone)
  · have hmem : [readme] ∈ (Tree.folder [(readme, .file {})]).headers s :=
      List.mem_filter.2 ⟨List.mem_singleton.2 rfl, hreadme haccept⟩
    exact not_isRelevant_readme s (hall [] _ _ hmem)
  · have hheader := (List.mem_filter.1 hmem).2
    exact isRelevant_of_mem_headers folder hmem (hasExtension_of_isHeader hnone hheader)

/-- With a dot among the extensions a file without one is indexed, but changes of it do not
matter. -/
example :
    let s := Settings.ofTables (Settings.default 1)
      [[("extensions", .array [.string "h", .string "."])]]
    s.isHeader readme = true ∧ (Change.changed readme).isRelevant s = false := by
  decide +kernel

end NativeHooks
