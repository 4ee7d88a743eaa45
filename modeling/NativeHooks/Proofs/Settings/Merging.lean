/-
# Settings from several tables

Tables are merged one after another, starting from some settings.  A setting that tables
replace is that of the last table with a value of the right kind, or the one that was there
before (`ofTables_eq`).  So are the extensions of headers (`extensions_ofTables`); as they
are compared without the dots before them, an entry of dots alone stands for no extension
at all (`isHeaderExtension_empty_iff`).
-/

import NativeHooks.Settings.Merge

namespace NativeHooks

open Text Toml

/-! ### Sets of names -/

namespace Text

theorem mem_insertName {name other : String} {names : List String} :
    other ∈ insertName name names ↔ other = name ∨ other ∈ names := by
  induction names with
  | nil => simp [insertName]
  | cons first more ih =>
      unfold insertName
      split
      · simp
      · split
        case isTrue _ heq => simp [heq]
        case isFalse => simp [ih, or_left_comm]

theorem mem_insertNames {added names : List String} {name : String} :
    name ∈ insertNames added names ↔ name ∈ added ∨ name ∈ names := by
  induction added generalizing names with
  | nil => simp [insertNames]
  | cons first more ih =>
      have hmore : name ∈ insertNames more (insertName first names) ↔ _ := ih
      rw [List.mem_cons, or_assoc, or_left_comm, ← mem_insertName, ← hmore]
      rfl

theorem mem_nameSet {names : List String} {name : String} : name ∈ nameSet names ↔ name ∈ names := by
  simp [nameSet, mem_insertNames]

end Text

/-! ### The last table decides -/

namespace Settings

variable {base : Settings} {tables : List Table}

/-- The settings after tables have been merged one after another. -/
def ofTables (base : Settings) (tables : List Table) : Settings := tables.foldl merge base

/-- A setting that tables replace is the one of the last table that has it. -/
theorem ofTables_eq {γ : Type} {setting : Settings → γ} {value? : Table → Option γ}
    (h : ∀ s t, setting (s.merge t) = (value? t).getD (setting s)) :
    setting (ofTables base tables) = ((tables.filterMap value?).getLast?).getD (setting base) := by
  induction tables generalizing base with
  | nil => rfl
  | cons t tables ih =>
      have hmore : setting (ofTables (base.merge t) tables) = _ := ih
      have hcons : ofTables base (t :: tables) = ofTables (base.merge t) tables := rfl
      rw [hcons, hmore, h]
      rcases ht : value? t with _ | value
      · rw [List.filterMap_cons_none ht, Option.getD_none]
      · rw [List.filterMap_cons_some ht, List.getLast?_cons, Option.getD_some, Option.getD_some]

/-- The extensions of the last table that has a list of them, as they are written. -/
def lastExtensions? (tables : List Table) : Option (List String) :=
  (tables.filterMap (strings? · "extensions")).getLast?

theorem extensions_ofTables :
    (ofTables base tables).extensions
      = ((lastExtensions? tables).map fun extensions =>
          nameSet (extensions.map normalExtension)).getD base.extensions := by
  have hmerge : ∀ (s : Settings) (t : Table), (s.merge t).extensions
      = ((strings? t "extensions").map fun extensions =>
          nameSet (extensions.map normalExtension)).getD s.extensions := by
    intro s t
    unfold merge
    cases strings? t "extensions" <;> rfl
  rw [ofTables_eq hmerge, ← List.map_filterMap, List.getLast?_map, lastExtensions?]

theorem isHeaderExtension_iff {s : Settings} {extension : String} :
    s.isHeaderExtension extension = true
      ↔ String.ofList (asciiLower extension.toList) ∈ s.extensions := by
  rw [isHeaderExtension, List.contains_iff_mem]

theorem normalExtension_eq_empty_iff {extension : String} :
    normalExtension extension = "" ↔ ∀ c ∈ extension.toList, c = '.' := by
  rw [normalExtension, String.ofList_eq_empty_iff, asciiLower, List.map_eq_nil_iff]
  generalize extension.toList = cs
  induction cs with
  | nil => simp
  | cons c cs ih =>
      rw [List.dropWhile_cons, List.forall_mem_cons]
      split
      case isTrue hc => rw [ih, and_iff_right (beq_iff_eq.1 hc)]
      case isFalse hc => exact iff_of_false (List.cons_ne_nil c cs) fun h => hc (beq_iff_eq.2 h.1)

/-- The list of extensions that decides has an entry of dots alone. -/
def AcceptsNoExtension (tables : List Table) : Prop :=
  ∃ extensions, lastExtensions? tables = some extensions ∧
    ∃ extension ∈ extensions, ∀ c ∈ extension.toList, c = '.'

/-- Only then are files headers that have no extension. -/
theorem isHeaderExtension_empty_iff (parallelism : Nat) (tables : List Table) :
    (ofTables (default parallelism) tables).isHeaderExtension "" = true
      ↔ AcceptsNoExtension tables := by
  have hempty : String.ofList (asciiLower "".toList) = "" := rfl
  rw [isHeaderExtension_iff, hempty, extensions_ofTables, AcceptsNoExtension]
  rcases lastExtensions? tables with _ | extensions
  · simp [default]
  · simp only [Option.map_some, Option.getD_some, mem_nameSet, List.mem_map, Option.some.injEq,
      exists_eq_left', normalExtension_eq_empty_iff]

end Settings
end NativeHooks
