/-
# What several tables settle

Tables are merged one after another into the defaults, and every key has its policy.  Most
values replace the setting, so the last table that has one decides (`Decides`); a count is
raised to one; and the folders to leave out of all tables come together.  Only values of the
right kind under known keys count, and whatever else a table holds may be left out of it or
put into it (`merge_congr`).

The extensions are kept as they are compared, without dots before them and in lower case, and
the folders in ascending order.  So merging the last table again finds nothing to change
(`merge_merge`).  All of this is `byPolicy_merged`.
-/

import Mathlib.Data.List.Induction
import Mathlib.Data.List.Sort
import NativeHooks.Proofs.Settings.Merging
import NativeHooks.Proofs.Text.Lowercase

namespace NativeHooks

open Text Toml

/-! ### Ascending names -/

namespace Text

/-- The names are in ascending order, each once. -/
def Ascending (names : List String) : Prop := names.Pairwise (· < ·)

theorem ascending_insertName {name : String} {names : List String} (h : Ascending names) :
    Ascending (insertName name names) := by
  induction names with
  | nil => exact List.pairwise_singleton _ _
  | cons first more ih =>
      obtain ⟨hfirst, hmore⟩ := List.pairwise_cons.1 h
      unfold insertName
      split
      case isTrue hlt =>
        refine List.pairwise_cons.2 ⟨List.forall_mem_cons.2 ⟨hlt, fun other hother => ?_⟩, h⟩
        exact String.lt_trans hlt (hfirst other hother)
      case isFalse hge =>
        split
        case isTrue => exact h
        case isFalse hne =>
          have hgt : first < name := (Std.lt_trichotomy name first).resolve_left hge
            |>.resolve_left hne
          refine List.pairwise_cons.2 ⟨fun other hother => ?_, ih hmore⟩
          rcases mem_insertName.1 hother with rfl | hother
          · exact hgt
          · exact hfirst other hother

theorem ascending_insertNames {added names : List String} (h : Ascending names) :
    Ascending (insertNames added names) := by
  induction added generalizing names with
  | nil => exact h
  | cons first more ih => exact ih (ascending_insertName h)

/-- Names that are there already change nothing. -/
theorem insertNames_insertNames {names : List String} (h : Ascending names) (added : List String) :
    insertNames added (insertNames added names) = insertNames added names := by
  have hascending : Ascending (insertNames added names) := ascending_insertNames h
  refine List.Pairwise.eq_of_mem_iff (ascending_insertNames hascending) hascending fun name => ?_
  simp only [mem_insertNames, ← or_assoc, or_self]

end Text

namespace Settings

/-! ### What a table holds -/

/-- Under the key stands an array, and its strings are `names`. -/
def HoldsList (key : String) (t : Table) (names : List String) : Prop :=
  ∃ elements, t.get? key = some (.array elements) ∧ names = elements.filterMap Value.string?

/-- Under the key stands the number `n`. -/
def HoldsNumber (key : String) (t : Table) (n : Nat) : Prop := t.get? key = some (.integer n)

/-- Under the key stands a number, and `n` is that number or at least one. -/
def HoldsCount (key : String) (t : Table) (n : Nat) : Prop :=
  ∃ number, HoldsNumber key t number ∧ n = max 1 number

/-- Under the key stands the text. -/
def HoldsText (key : String) (t : Table) (text : String) : Prop := t.get? key = some (.string text)

/-- The key is known, and the value is of the kind that the key takes. -/
inductive Valid : String → Value → Prop
  | list {key : String} (elements : List Value) :
    key ∈ ["extensions", "skip_dirs", "remote_urls"] → Valid key (.array elements)
  | number {key : String} (n : Nat) : key ∈ numberKeys → Valid key (.integer n)
  | text (text : String) : Valid "remote_label" (.string text)

section Holds

variable {key : String} {t : Table}

theorem strings?_eq_some_iff {names : List String} :
    strings? t key = some names ↔ HoldsList key t names := by
  rw [strings?, HoldsList, Option.bind_eq_some_iff]
  constructor
  · rintro ⟨value, hvalue, hnames⟩
    cases value with
    | array elements =>
      refine ⟨elements, hvalue, (Option.some.inj hnames).symm.trans ?_⟩
      exact List.filterMap_congr fun v _ => by cases v <;> rfl
    | string | integer | float | boolean | datetime | table => exact nomatch hnames
  · rintro ⟨elements, hvalue, rfl⟩
    refine ⟨_, hvalue, congrArg some ?_⟩
    exact List.filterMap_congr fun v _ => by cases v <;> rfl

theorem natural?_eq_some_iff {n : Nat} : natural? t key = some n ↔ HoldsNumber key t n := by
  rw [natural?, HoldsNumber, Option.bind_eq_some_iff]
  constructor
  · rintro ⟨value, hvalue, hn⟩
    cases value with
    | integer i =>
      rw [Value.natural?, Option.ite_none_right_eq_some] at hn
      obtain ⟨hnonneg, hn⟩ := hn
      rw [hvalue, ← Option.some.inj hn, Int.toNat_of_nonneg hnonneg]
    | array | string | float | boolean | datetime | table => exact nomatch hn
  · exact fun hvalue => ⟨_, hvalue, by simp [Value.natural?]⟩

theorem map_max_natural?_eq_some_iff {n : Nat} :
    (natural? t key).map (max 1) = some n ↔ HoldsCount key t n := by
  rw [Option.map_eq_some_iff]
  exact exists_congr fun number => and_congr natural?_eq_some_iff eq_comm

theorem text?_eq_some_iff {text : String} :
    (t.get? key).bind Value.string? = some text ↔ HoldsText key t text := by
  rw [HoldsText, Option.bind_eq_some_iff]
  constructor
  · rintro ⟨value, hvalue, htext⟩
    cases value with
    | string => rw [hvalue, Option.some.inj htext]
    | array | integer | float | boolean | datetime | table => exact nomatch htext
  · exact fun hvalue => ⟨_, hvalue, rfl⟩

end Holds

/-! ### The last table decides -/

/-- The value of the last table that holds one, or `before` if none does. -/
inductive Decides {γ : Type} (holds : Table → γ → Prop) (before : γ) : List Table → γ → Prop
  | none {tables : List Table} :
    (∀ t ∈ tables, ∀ value, ¬ holds t value) → Decides holds before tables before
  | last {earlier later : List Table} {t : Table} {value : γ} :
    holds t value → (∀ u ∈ later, ∀ other, ¬ holds u other) →
      Decides holds before (earlier ++ t :: later) value

variable {γ : Type} {holds : Table → γ → Prop} {base : Settings} {tables : List Table}

/-- A table that holds nothing leaves the decision as it is. -/
theorem Decides.concat {before value : γ} {t : Table} (h : Decides holds before tables value)
    (ht : ∀ other, ¬ holds t other) : Decides holds before (tables ++ [t]) value := by
  cases h with
  | none hnone =>
    refine .none fun u hu => ?_
    rcases List.mem_append.1 hu with hu | hu
    · exact hnone u hu
    · exact List.mem_singleton.1 hu ▸ ht
  | last hholds hlater =>
    rw [List.append_assoc, List.cons_append]
    refine .last hholds fun u hu => ?_
    rcases List.mem_append.1 hu with hu | hu
    · exact hlater u hu
    · exact List.mem_singleton.1 hu ▸ ht

/-- The last of the values that tables hold decides. -/
theorem decides_getLast? {value? : Table → Option γ}
    (hholds : ∀ t value, value? t = some value ↔ holds t value) (before : γ)
    (tables : List Table) :
    Decides holds before tables (((tables.filterMap value?).getLast?).getD before) := by
  induction tables using List.reverseRecOn with
  | nil => exact .none fun t ht => absurd ht List.not_mem_nil
  | append_singleton tables t ih =>
    rw [List.filterMap_append]
    rcases ht : value? t with _ | value
    · rw [List.filterMap_cons_none ht, List.filterMap_nil, List.append_nil]
      exact ih.concat fun other hother => nomatch ht.symm.trans ((hholds t other).2 hother)
    · rw [List.filterMap_cons_some ht, List.filterMap_nil, List.getLast?_concat, Option.getD_some]
      exact .last ((hholds t value).1 ht) fun u hu => absurd hu List.not_mem_nil

/-- **A setting that tables replace is decided by the last one that has it.** -/
theorem decides_ofTables (base : Settings) (tables : List Table) (setting : Settings → γ)
    {value? : Table → Option γ} (hholds : ∀ t value, value? t = some value ↔ holds t value)
    (hmerge : ∀ s t, setting (s.merge t) = (value? t).getD (setting s)) :
    Decides holds (setting base) tables (setting (ofTables base tables)) := by
  rw [ofTables_eq hmerge]
  exact decides_getLast? hholds _ tables

/-- One table of several is merged after those before it. -/
theorem ofTables_append_cons (base : Settings) (earlier : List Table) (t : Table)
    (later : List Table) : ofTables base (earlier ++ t :: later)
      = ofTables ((ofTables base earlier).merge t) later :=
  List.foldl_append

/-! ### What does not count -/

/-- Settings are merged by the valid values of a table, and by nothing else that it holds. -/
theorem merge_congr {t u : Table}
    (h : ∀ key value, Valid key value → (t.get? key = some value ↔ u.get? key = some value))
    (s : Settings) : s.merge t = s.merge u := by
  have hstrings : ∀ key ∈ ["extensions", "skip_dirs", "remote_urls"],
      strings? t key = strings? u key := by
    refine fun key hkey => Option.ext fun names => ?_
    simp only [strings?_eq_some_iff, HoldsList, h key _ (.list _ hkey)]
  have hnatural : ∀ key ∈ numberKeys, natural? t key = natural? u key := by
    refine fun key hkey => Option.ext fun n => ?_
    simp only [natural?_eq_some_iff, HoldsNumber, h key _ (.number n hkey)]
  have htext : (t.get? "remote_label").bind Value.string?
      = (u.get? "remote_label").bind Value.string? := by
    refine Option.ext fun text => ?_
    simp only [text?_eq_some_iff, HoldsText, h _ _ (.text text)]
  simp only [merge, hstrings _ (.head _), hstrings _ (.tail _ (.head _)),
    hstrings _ (.tail _ (.tail _ (.head _))), hnatural _ (.head _),
    hnatural _ (.tail _ (.head _)), hnatural _ (.tail _ (.tail _ (.head _))),
    hnatural _ (.tail _ (.tail _ (.tail _ (.head _)))), htext]

/-- A table without valid values may be left out. -/
theorem merge_eq_self {t : Table} (h : ∀ key value, Valid key value → t.get? key ≠ some value)
    (s : Settings) : s.merge t = s :=
  merge_congr (u := []) (fun key value hvalid => iff_of_false (h key value hvalid) (nomatch ·)) s

/-! ### Folders and extensions -/

theorem ascending_merge {s : Settings} (h : Ascending s.skippedFolders) (t : Table) :
    Ascending (s.merge t).skippedFolders := by
  rw [merge]
  cases strings? t "skip_dirs" with
  | none => exact h
  | some folders => exact ascending_insertNames h

theorem ascending_ofTables (h : Ascending base.skippedFolders) :
    Ascending (ofTables base tables).skippedFolders := by
  induction tables generalizing base with
  | nil => exact h
  | cons t tables ih => exact ih (ascending_merge h t)

/-- **Merging a table twice is merging it once.** -/
theorem merge_merge {s : Settings} (h : Ascending s.skippedFolders) (t : Table) :
    (s.merge t).merge t = s.merge t := by
  have hgetD : ∀ {γ : Type} (value? : Option γ) (before : γ),
      value?.getD (value?.getD before) = value?.getD before := by
    rintro γ (_ | value) before <;> rfl
  have hfolders := insertNames_insertNames h
  simp only [merge, hgetD]
  rcases strings? t "extensions" with _ | extensions <;>
    rcases strings? t "skip_dirs" with _ | folders <;> simp only [hfolders]

/-- The folders left out are those of the settings and of all tables. -/
theorem mem_skippedFolders_ofTables {name : String} :
    name ∈ (ofTables base tables).skippedFolders ↔ name ∈ base.skippedFolders ∨
      ∃ t ∈ tables, ∃ names, HoldsList "skip_dirs" t names ∧ name ∈ names := by
  induction tables using List.reverseRecOn with
  | nil => simp [ofTables]
  | append_singleton tables t ih =>
    have hmerge : name ∈ ((ofTables base tables).merge t).skippedFolders ↔
        name ∈ (ofTables base tables).skippedFolders ∨
          ∃ names, HoldsList "skip_dirs" t names ∧ name ∈ names := by
      simp only [← strings?_eq_some_iff, merge]
      cases strings? t "skip_dirs" with
      | none => simp
      | some folders => simp [mem_insertNames, or_comm]
    have hconcat : ofTables base (tables ++ [t]) = (ofTables base tables).merge t :=
      ofTables_append_cons base tables t []
    rw [hconcat, hmerge, ih, or_assoc]
    simp only [List.mem_append, List.mem_singleton, or_and_right, exists_or, exists_eq_left]

/-- An extension as it is compared has no dot before it. -/
theorem head?_normalExtension (extension : String) :
    (normalExtension extension).toList.head? ≠ some '.' := by
  rw [normalExtension, String.toList_ofList, asciiLower, List.head?_map]
  intro h
  obtain ⟨c, hc, hdot⟩ := Option.map_eq_some_iff.1 h
  obtain rfl := (toLower_eq_iff rfl).1 hdot
  have hne := List.head?_dropWhile_not (· == '.') extension.toList
  rw [hc] at hne
  exact absurd hne (by decide)

theorem isUpper_normalExtension {extension : String} {c : Char}
    (hc : c ∈ (normalExtension extension).toList) : c.isUpper = false := by
  rw [normalExtension, String.toList_ofList] at hc
  exact isUpper_of_mem_asciiLower hc

theorem isHeaderExtension_asciiLower (s : Settings) (extension : String) :
    s.isHeaderExtension (String.ofList (asciiLower extension.toList))
      = s.isHeaderExtension extension := by
  rw [isHeaderExtension, isHeaderExtension, String.toList_ofList, asciiLower_asciiLower]

/-! ### All tables together -/

/-- The settings before any table; `processors?` is the number of processors where it is known. -/
def initial (processors? : Option Nat) : Settings := default (defaultParallelism processors?)

/-- The settings that tables give, merged one after another. -/
def merged (processors? : Option Nat) (tables : List Table) : Settings :=
  ofTables (initial processors?) tables

/-- What the settings have to do with the tables that they were merged from. -/
structure ByPolicy (processors? : Option Nat) (tables : List Table) (s : Settings) : Prop where
  maxParallelism_pos : 1 ≤ s.maxParallelism
  methodCap_pos : 1 ≤ s.methodCap
  /-- Folders are added to the four that are left out anyway. -/
  mem_skippedFolders : ∀ name, name ∈ s.skippedFolders ↔
    name ∈ [".git", "target", "node_modules", "build"] ∨
      ∃ t ∈ tables, ∃ names, HoldsList "skip_dirs" t names ∧ name ∈ names
  extensions : ∃ written, Decides (HoldsList "extensions") ["h", "hpp"] tables written ∧
    ∀ extension, extension ∈ s.extensions ↔ extension ∈ written.map normalExtension
  debounceMs : Decides (HoldsNumber "debounce_ms") 500 tables s.debounceMs
  minReloadIntervalMs : Decides (HoldsNumber "min_reload_interval_ms") 500 tables
    s.minReloadIntervalMs
  maxParallelism : Decides (HoldsCount "max_parallelism") (defaultParallelism processors?) tables
    s.maxParallelism
  methodCap : Decides (HoldsCount "function_filter_cap") 200 tables s.methodCap
  remoteUrls : Decides (HoldsList "remote_urls") defaultRemoteUrls tables s.remoteUrls
  remoteLabel : Decides (HoldsText "remote_label") "AsaApi/ARK" tables s.remoteLabel
  /-- A table may be exchanged for any other with the same valid values under known keys. -/
  exchanged : ∀ earlier t u later, tables = earlier ++ t :: later →
    (∀ key value, Valid key value → (t.get? key = some value ↔ u.get? key = some value)) →
      merged processors? (earlier ++ u :: later) = s
  /-- A table without such values may be left out. -/
  leftOut : ∀ earlier t later, tables = earlier ++ t :: later →
    (∀ key value, Valid key value → t.get? key ≠ some value) →
      merged processors? (earlier ++ later) = s
  normal : ∀ extension ∈ s.extensions, extension.toList.head? ≠ some '.' ∧
    ∀ c ∈ extension.toList, c.isUpper = false
  lower : ∀ extension, s.isHeaderExtension (String.ofList (asciiLower extension.toList))
    = s.isHeaderExtension extension
  again : ∀ t ∈ tables.getLast?, s.merge t = s

theorem one_le_of_decides {key : String} {before n : Nat} (hbefore : 1 ≤ before)
    (h : Decides (HoldsCount key) before tables n) : 1 ≤ n := by
  cases h with
  | none => exact hbefore
  | last hholds =>
    obtain ⟨number, -, rfl⟩ := hholds
    exact le_max_left 1 number

/-- The extensions of headers are those of the last list, as they are compared. -/
theorem mem_extensions_ofTables {tables : List Table} {extension : String}
    (hbase : base.extensions = ["h", "hpp"]) :
    extension ∈ (ofTables base tables).extensions ↔
      extension ∈ ((lastExtensions? tables).getD ["h", "hpp"]).map normalExtension := by
  rw [extensions_ofTables]
  cases lastExtensions? tables with
  | none => rw [Option.map_none, Option.getD_none, Option.getD_none, hbase]; rfl
  | some written => rw [Option.map_some, Option.getD_some, Option.getD_some, mem_nameSet]

/-- **Settings are merged by the policies of their keys,** whatever the tables hold. -/
theorem byPolicy_merged (processors? : Option Nat) (tables : List Table) :
    ByPolicy processors? tables (merged processors? tables) := by
  have hascending : Ascending (initial processors?).skippedFolders := by
    show Ascending [".git", "build", "node_modules", "target"]
    unfold Ascending
    decide
  have hparallelism : Decides (HoldsCount "max_parallelism") (defaultParallelism processors?)
      tables (merged processors? tables).maxParallelism :=
    decides_ofTables (initial _) tables (·.maxParallelism)
      (fun _ _ => map_max_natural?_eq_some_iff) fun _ _ => rfl
  have hcap : Decides (HoldsCount "function_filter_cap") 200 tables
      (merged processors? tables).methodCap :=
    decides_ofTables (initial _) tables (·.methodCap)
      (fun _ _ => map_max_natural?_eq_some_iff) fun _ _ => rfl
  exact {
    maxParallelism_pos := one_le_of_decides (le_max_right _ 1) hparallelism
    methodCap_pos := one_le_of_decides (by decide) hcap
    mem_skippedFolders := fun name => by
      rw [merged, mem_skippedFolders_ofTables]
      refine or_congr_left ?_
      simp [initial, default, or_comm, or_left_comm]
    extensions := ⟨_, decides_getLast? (fun _ _ => strings?_eq_some_iff) _ tables,
      fun extension => mem_extensions_ofTables rfl⟩
    debounceMs :=
      decides_ofTables (initial _) tables (·.debounceMs) (fun _ _ => natural?_eq_some_iff)
        fun _ _ => rfl
    minReloadIntervalMs :=
      decides_ofTables (initial _) tables (·.minReloadIntervalMs) (fun _ _ => natural?_eq_some_iff)
        fun _ _ => rfl
    maxParallelism := hparallelism
    methodCap := hcap
    remoteUrls :=
      decides_ofTables (initial _) tables (·.remoteUrls) (fun _ _ => strings?_eq_some_iff)
        fun _ _ => rfl
    remoteLabel :=
      decides_ofTables (initial _) tables (·.remoteLabel) (fun _ _ => text?_eq_some_iff)
        fun _ _ => rfl
    exchanged := fun earlier t u later htables h => by
      rw [htables, merged, merged, ofTables_append_cons, ofTables_append_cons, merge_congr h]
    leftOut := fun earlier t later htables h => by
      rw [htables, merged, merged, ofTables_append_cons, merge_eq_self h]
      exact List.foldl_append
    normal := fun extension hextension => by
      obtain ⟨written, -, rfl⟩ := List.mem_map.1 ((mem_extensions_ofTables rfl).1 hextension)
      exact ⟨head?_normalExtension written, fun c hc => isUpper_normalExtension hc⟩
    lower := isHeaderExtension_asciiLower _
    again := fun t ht => by
      obtain ⟨earlier, rfl⟩ := List.getLast?_eq_some_iff.1 ht
      rw [merged, ofTables_append_cons]
      exact merge_merge (ascending_ofTables hascending) t }

/-- A negative number does not undo an earlier one, and a count of zero is one. -/
example :
    let s := merged (some 8) [[("debounce_ms", .integer 50)],
      [("debounce_ms", .integer (-5)), ("max_parallelism", .integer 0)]]
    (s.debounceMs, s.maxParallelism) = (50, 1) := by
  decide +kernel

end Settings
end NativeHooks
