/-
# Walks of a folder

A folder is walked in no order that can be foreseen, and the headers that are found are sorted
by relative location alone.  A relative location has `/` for every `\`, so two headers can
share one, and then the walk decides which of them is listed first.

The entries of the index are the same after every walk, and methods and failures are the same
but for their order.  The list of sources is the same exactly if headers that share a relative
location share their location (`Walked.listing`), and the outcome is exactly if such headers
may be exchanged (`Walked.outcome`).  Without a `\` in any name the order of the walk is lost
(`Walked.plain`).
-/

import NativeHooks.Index.Folder
import NativeHooks.Proofs.Index.FailedSources
import NativeHooks.Proofs.Tree.Path
import Mathlib.Data.List.Perm.Basic

namespace NativeHooks

open Text

/-- The byte that a relative location has a slash for. -/
def backslash : UInt8 := 0x5C

/-- A walk of the folder may find its headers in this order. -/
def Disk.Finds (d : Disk) (s : Settings) (folder : Path) (found : List (List FileName)) : Prop :=
  ∃ names t, d.find folder = .ok (names, t) ∧ t.isFolder = true ∧ found.Perm (t.headers s)

/-- The outcome of a walk that finds headers in this order. -/
def Disk.outcome (d : Disk) (folder : Path) (found : List (List FileName)) : Outcome :=
  Outcome.ofSources folder.text (Source.listing folder found) d.fetch

/-- What walks of a folder have in common with one that finds headers in the order `found`. -/
structure Disk.Walked (d : Disk) (s : Settings) (folder : Path) (found : List (List FileName)) :
    Prop where
  /-- The folder is indexed after one of its walks. -/
  run : ∃ order, d.Finds s folder order ∧ d.sources s folder = .ok (Source.listing folder order) ∧
    d.index s folder = .ok (d.outcome folder order)
  files : ∀ order, d.Finds s folder order →
    (d.outcome folder order).index.files = (d.outcome folder found).index.files
  methods : ∀ order, d.Finds s folder order →
    (d.outcome folder order).index.methods.Perm (d.outcome folder found).index.methods
  unavailable : ∀ order, d.Finds s folder order →
    (d.outcome folder order).report.unavailable.Perm (d.outcome folder found).report.unavailable
  listing : (∀ order, d.Finds s folder order →
      Source.listing folder order = Source.listing folder found) ↔
    ∀ a ∈ found.map (Source.inFolder folder), ∀ b ∈ found.map (Source.inFolder folder),
      a.relativeLocation = b.relativeLocation → a.location = b.location
  outcome : (∀ order, d.Finds s folder order → d.outcome folder order = d.outcome folder found) ↔
    ∀ a ∈ found.map (Source.inFolder folder), ∀ b ∈ found.map (Source.inFolder folder),
      a.relativeLocation = b.relativeLocation →
        Outcome.ofSources folder.text [a, b] d.fetch = Outcome.ofSources folder.text [b, a] d.fetch
  plain : (∀ names ∈ found, ∀ name ∈ names, backslash ∉ name) → ∀ order, d.Finds s folder order →
    Source.listing folder order = Source.listing folder found ∧
      d.outcome folder order = d.outcome folder found

/-! ### Sorted sources -/

section Sources

variable {ε : Type} (fetch : String → Except ε String) (origin : String) {xs ys : List Source}

/-- Sources sorted by relative location. -/
def Source.sorted (xs : List Source) : List Source := sortByKeys (fun s => [s.relativeLocation]) xs

/-- What is made of sources is the same in all orders that they are sorted from. -/
def Source.Settled {γ : Type} (made : List Source → γ) (xs : List Source) : Prop :=
  ∀ ys, ys.Perm xs → made (Source.sorted ys) = made (Source.sorted xs)

/-- What is made of two sources is the same in both orders if they share their relative
location. -/
def Source.Exchangeable {γ : Type} (made : List Source → γ) (xs : List Source) : Prop :=
  ∀ a ∈ xs, ∀ b ∈ xs, a.relativeLocation = b.relativeLocation → made [a, b] = made [b, a]

/-- What is put together from the sources in their order. -/
theorem settled_iff_of_flatMap {γ : Type} {made : List Source → List γ} {f : Source → List γ}
    (hmade : ∀ xs, made xs = xs.flatMap f) (xs : List Source) :
    Source.Settled made xs ↔ Source.Exchangeable made xs := by
  have h := flatMap_sortByKeys_perm_iff (fun s => [s.relativeLocation]) f xs
  simp only [Source.Settled, Source.Exchangeable, Source.sorted, hmade, List.flatMap_cons,
    List.flatMap_nil, List.append_nil]
  simpa only [List.singleton_inj] using h

/-- What is put together from the sources and sorted. -/
theorem settled_iff_of_sortByKeys {γ : Type} {made : List Source → List γ} {f : Source → List γ}
    {keys : γ → List String} (hmade : ∀ xs, made xs = sortByKeys keys (xs.flatMap f))
    (xs : List Source) : Source.Settled made xs ↔ Source.Exchangeable made xs := by
  have h := sortByKeys_flatMap_perm_iff keys (fun s => [s.relativeLocation]) f xs
  simp only [Source.Settled, Source.Exchangeable, Source.sorted, hmade, List.flatMap_cons,
    List.flatMap_nil, List.append_nil]
  simpa only [List.singleton_inj] using h

theorem settled_listing_iff (xs : List Source) :
    Source.Settled id xs ↔
      ∀ a ∈ xs, ∀ b ∈ xs, a.relativeLocation = b.relativeLocation → a = b := by
  have hid : ∀ zs : List Source, id zs = zs.flatMap fun s => [s] :=
    fun zs => (List.flatMap_singleton' zs).symm
  rw [settled_iff_of_flatMap hid, Source.Exchangeable]
  have hpair : ∀ a b : Source, id [a, b] = id [b, a] ↔ a = b := by
    intro a b
    constructor
    · exact fun h => (List.cons.inj h).1
    · rintro rfl
      rfl
  simp only [hpair]

theorem unavailable_eq_flatMap (xs : List Source) :
    (Outcome.ofSources origin xs fetch).report.unavailable
      = xs.flatMap fun s => if (s.scan fetch).wasRead then [] else [s.location] := by
  rw [unavailable_ofSources]
  induction xs with
  | nil => rfl
  | cons s xs ih =>
      rw [List.flatMap_cons, ← ih, List.filter_cons]
      rcases (s.scan fetch).wasRead with _ | _
      · rfl
      · rfl

/-- Outcomes of equally many sources differ in what is listed, if at all. -/
theorem ofSources_eq_iff (hlength : xs.length = ys.length) :
    Outcome.ofSources origin xs fetch = Outcome.ofSources origin ys fetch ↔
      (Outcome.ofSources origin xs fetch).index.files
          = (Outcome.ofSources origin ys fetch).index.files ∧
        (Outcome.ofSources origin xs fetch).index.methods
          = (Outcome.ofSources origin ys fetch).index.methods ∧
        (Outcome.ofSources origin xs fetch).report.unavailable
          = (Outcome.ofSources origin ys fetch).report.unavailable := by
  constructor
  · intro h
    rw [h]
    exact ⟨rfl, rfl, rfl⟩
  · rintro ⟨hfiles, hmethods, hunavailable⟩
    have hindex : (Outcome.ofSources origin xs fetch).index
        = (Outcome.ofSources origin ys fetch).index := congrArg₂ Index.mk hfiles hmethods
    have hparts : ∀ zs, Outcome.ofSources origin zs fetch =
        let index := (Outcome.ofSources origin zs fetch).index
        let unavailable := (Outcome.ofSources origin zs fetch).report.unavailable
        { index
          report :=
            { origin, attempted := zs.length, scanned := zs.length - unavailable.length,
              unavailable, methodCount := index.methods.length } } := fun _ => rfl
    rw [hparts xs, hparts ys, hindex, hunavailable, hlength]

theorem settled_files_iff (xs : List Source) :
    Source.Settled (fun xs => (Outcome.ofSources origin xs fetch).index.files) xs ↔
      Source.Exchangeable (fun xs => (Outcome.ofSources origin xs fetch).index.files) xs :=
  settled_iff_of_sortByKeys (files_ofSources fetch origin) xs

/-- **The outcome does not depend on the order before sorting if and only if sources that
share a relative location may be exchanged.** -/
theorem settled_outcome_iff (xs : List Source) :
    Source.Settled (fun xs => Outcome.ofSources origin xs fetch) xs ↔
      Source.Exchangeable (fun xs => Outcome.ofSources origin xs fetch) xs := by
  have hfiles := settled_files_iff fetch origin xs
  have hmethods := settled_iff_of_sortByKeys (methods_ofSources fetch origin) xs
  have hunavailable := settled_iff_of_flatMap (unavailable_eq_flatMap fetch origin) xs
  have hlength : ∀ ys, ys.Perm xs → (Source.sorted ys).length = (Source.sorted xs).length := by
    intro ys hperm
    rw [Source.sorted, Source.sorted, (sortByKeys_perm ..).length_eq, (sortByKeys_perm ..).length_eq,
      hperm.length_eq]
  have hpair : ∀ a b : Source, [a, b].length = [b, a].length := fun _ _ => rfl
  constructor
  · intro h a ha b hb hsame
    have hparts := fun ys hperm => (ofSources_eq_iff fetch origin (hlength ys hperm)).1 (h ys hperm)
    refine (ofSources_eq_iff fetch origin (hpair a b)).2 ⟨?_, ?_, ?_⟩
    · exact hfiles.1 (fun ys hperm => (hparts ys hperm).1) a ha b hb hsame
    · exact hmethods.1 (fun ys hperm => (hparts ys hperm).2.1) a ha b hb hsame
    · exact hunavailable.1 (fun ys hperm => (hparts ys hperm).2.2) a ha b hb hsame
  · intro h ys hperm
    have hparts := fun a ha b hb hsame =>
      (ofSources_eq_iff fetch origin (hpair a b)).1 (h a ha b hb hsame)
    refine (ofSources_eq_iff fetch origin (hlength ys hperm)).2 ⟨?_, ?_, ?_⟩
    · exact hfiles.2 (fun a ha b hb hsame => (hparts a ha b hb hsame).1) ys hperm
    · exact hmethods.2 (fun a ha b hb hsame => (hparts a ha b hb hsame).2.1) ys hperm
    · exact hunavailable.2 (fun a ha b hb hsame => (hparts a ha b hb hsame).2.2) ys hperm

/-- Entries are told apart by relative location and location. -/
theorem settled_files (h : ∀ a ∈ xs, ∀ b ∈ xs, a.relativeLocation = b.relativeLocation →
      a.location = b.location → a = b) :
    Source.Settled (fun xs => (Outcome.ofSources origin xs fetch).index.files) xs := by
  refine (settled_files_iff fetch origin xs).2 fun a ha b hb hsame => ?_
  simp only [files_ofSources]
  by_cases hlocation : a.location = b.location
  · rw [h a ha b hb hsame hlocation]
  · refine sortByKeys_flatMap_of_perm (List.Perm.swap b a []) (List.pairwise_pair.2 ?_)
    intro x hx y hy hkeys
    rw [List.mem_singleton.1 hx, List.mem_singleton.1 hy] at hkeys
    have hfull := (List.cons.inj (List.cons.inj hkeys).2).1
    rw [Source.scan_fullLocation, Source.scan_fullLocation] at hfull
    exact hlocation hfull

end Sources

/-! ### Relative locations -/

section Names

variable {folder : Path} {names : List FileName}

/-- The other parts of a source are read off its relative location. -/
theorem inFolder_eq {xs ys : List FileName}
    (hrelative : (Source.inFolder folder xs).relativeLocation
      = (Source.inFolder folder ys).relativeLocation)
    (hlocation : (Source.inFolder folder xs).location = (Source.inFolder folder ys).location) :
    Source.inFolder folder xs = Source.inFolder folder ys := by
  have hchars := String.ofList_injective hrelative
  simp only [Source.inFolder, Source.mk.injEq] at hlocation ⊢
  rw [hchars]
  exact ⟨hlocation, rfl, rfl, rfl⟩

theorem not_mem_intercalate {sep byte : UInt8} (hsep : byte ≠ sep)
    (h : ∀ name ∈ names, byte ∉ name) : byte ∉ [sep].intercalate names := by
  induction names with
  | nil => exact List.not_mem_nil
  | cons name names ih =>
      have hname := h name List.mem_cons_self
      have hrest := ih fun other hother => h other (List.mem_cons_of_mem name hother)
      rcases names with _ | ⟨second, names⟩
      · rwa [List.intercalate_singleton]
      · rw [List.intercalate_cons_cons, List.mem_append, List.mem_append, List.mem_singleton]
        rintro ((hmem | hmem) | hmem)
        · exact hname hmem
        · exact hsep hmem
        · exact hrest hmem

/-- Without a backslash the relative location is the path below the folder as it is shown. -/
theorem relativeLocation_inFolder (h : ∀ name ∈ names, backslash ∉ name) :
    (Source.inFolder folder names).relativeLocation = Path.text ([slash].intercalate names) := by
  have hbytes := not_mem_intercalate (by decide : backslash ≠ slash) h
  have hchars : ∀ c ∈ decodeLossy ([slash].intercalate names), c ≠ '\\' := by
    rintro c hc rfl
    exact hbytes ((mem_decodeLossy_iff (by decide) (by decide) (by decide) (by decide)).1 hc)
  have hmap : (decodeLossy ([slash].intercalate names)).map
      (fun c => if c == '\\' then '/' else c) = decodeLossy ([slash].intercalate names) :=
    (List.map_congr_left fun c hc => if_neg fun heq => hchars c hc (beq_iff_eq.1 heq)).trans
      (List.map_id _)
  simp only [Source.inFolder, hmap, Path.text]

/-- Headers without a backslash in their names share a relative location only if they share
their location. -/
theorem location_eq_of_plain {xs ys : List FileName} (hx : ∀ name ∈ xs, backslash ∉ name)
    (hy : ∀ name ∈ ys, backslash ∉ name)
    (hsame : (Source.inFolder folder xs).relativeLocation
      = (Source.inFolder folder ys).relativeLocation) :
    (Source.inFolder folder xs).location = (Source.inFolder folder ys).location := by
  rw [relativeLocation_inFolder hx, relativeLocation_inFolder hy] at hsame
  exact Path.text_join_congr hsame folder

end Names

/-! ### Walks -/

section Walk

variable {d : Disk} {s : Settings} {folder : Path} {found order : List (List FileName)}

theorem Disk.Finds.iff_perm (h : d.Finds s folder found) :
    d.Finds s folder order ↔ order.Perm found := by
  obtain ⟨names, t, hfind, hfolder, hfound⟩ := h
  constructor
  · rintro ⟨others, u, hother, -, horder⟩
    obtain ⟨-, rfl⟩ := Prod.mk.inj (Except.ok.inj (hother.symm.trans hfind))
    exact horder.trans hfound.symm
  · intro hperm
    exact ⟨names, t, hfind, hfolder, hperm.trans hfound⟩

/-- Walks in any order, and sources in any order. -/
theorem Disk.Finds.forall_iff (h : d.Finds s folder found) {P : List Source → Prop} :
    (∀ order, d.Finds s folder order → P (order.map (Source.inFolder folder))) ↔
      ∀ ys, ys.Perm (found.map (Source.inFolder folder)) → P ys := by
  constructor
  · intro hall ys hperm
    obtain ⟨order, rfl, horder⟩ :=
      (congrFun₂ (List.eq_map_comp_perm (Source.inFolder folder)) ys found).mpr hperm
    exact hall order (h.iff_perm.2 horder)
  · intro hall order horder
    exact hall _ ((h.iff_perm.1 horder).map _)

theorem Disk.Finds.listing_perm (h : d.Finds s folder found) (horder : d.Finds s folder order) :
    (Source.listing folder order).Perm (Source.listing folder found) := by
  have hsources := (h.iff_perm.1 horder).map (Source.inFolder folder)
  exact ((sortByKeys_perm ..).trans hsources).trans (sortByKeys_perm ..).symm

/-- A folder that can be walked is indexed in the order of a walk. -/
theorem Disk.Finds.exists_run (h : d.Finds s folder found) :
    ∃ order, d.Finds s folder order ∧ d.sources s folder = .ok (Source.listing folder order) ∧
      d.index s folder = .ok (d.outcome folder order) := by
  obtain ⟨names, t, hfind, hfolder, -⟩ := h
  have hsources : d.sources s folder = .ok (Source.listing folder (t.headers s)) := by
    simp only [Disk.sources, hfind, hfolder, if_true]
  refine ⟨t.headers s, ⟨names, t, hfind, hfolder, .refl _⟩, hsources, ?_⟩
  rw [Disk.index, hsources]
  rfl

/-- Sources of a folder are told apart by relative location and location. -/
theorem eq_of_mem_inFolder {a b : Source} (ha : a ∈ found.map (Source.inFolder folder))
    (hb : b ∈ found.map (Source.inFolder folder))
    (hrelative : a.relativeLocation = b.relativeLocation) (hlocation : a.location = b.location) :
    a = b := by
  obtain ⟨xs, -, rfl⟩ := List.mem_map.1 ha
  obtain ⟨ys, -, rfl⟩ := List.mem_map.1 hb
  exact inFolder_eq hrelative hlocation

theorem Disk.Finds.listing_iff (h : d.Finds s folder found) :
    (∀ order, d.Finds s folder order →
      Source.listing folder order = Source.listing folder found) ↔
    ∀ a ∈ found.map (Source.inFolder folder), ∀ b ∈ found.map (Source.inFolder folder),
      a.relativeLocation = b.relativeLocation → a.location = b.location := by
  have hwalks := h.forall_iff (P := fun ys => Source.sorted ys
    = Source.sorted (found.map (Source.inFolder folder)))
  refine (hwalks.trans (settled_listing_iff _)).trans ?_
  constructor
  · intro hall a ha b hb hsame
    rw [hall a ha b hb hsame]
  · intro hall a ha b hb hsame
    exact eq_of_mem_inFolder ha hb hsame (hall a ha b hb hsame)

theorem Disk.Finds.outcome_iff (h : d.Finds s folder found) :
    (∀ order, d.Finds s folder order → d.outcome folder order = d.outcome folder found) ↔
      Source.Exchangeable (fun xs => Outcome.ofSources folder.text xs d.fetch)
        (found.map (Source.inFolder folder)) := by
  have hwalks := h.forall_iff (P := fun ys =>
    Outcome.ofSources folder.text (Source.sorted ys) d.fetch = d.outcome folder found)
  exact hwalks.trans (settled_outcome_iff d.fetch folder.text _)

/-- **What the order of a walk does to the index.** -/
theorem Disk.Finds.walked (h : d.Finds s folder found) : d.Walked s folder found := by
  constructor
  case run => exact h.exists_run
  case files =>
    exact h.forall_iff.2 (settled_files d.fetch folder.text fun a ha b hb => eq_of_mem_inFolder ha hb)
  case methods =>
    intro order horder
    have hmethods := (h.listing_perm horder).flatMap_right fun s => (s.scan d.fetch).methods
    rw [Disk.outcome, Disk.outcome, methods_ofSources, methods_ofSources]
    exact ((sortByKeys_perm ..).trans hmethods).trans (sortByKeys_perm ..).symm
  case unavailable =>
    intro order horder
    exact unavailable_perm d.fetch folder.text (h.listing_perm horder)
  case listing => exact h.listing_iff
  case outcome => exact h.outcome_iff
  case plain =>
    intro hplain order horder
    have hlocation : ∀ a ∈ found.map (Source.inFolder folder),
        ∀ b ∈ found.map (Source.inFolder folder),
        a.relativeLocation = b.relativeLocation → a.location = b.location := by
      intro a ha b hb hsame
      obtain ⟨xs, hxs, rfl⟩ := List.mem_map.1 ha
      obtain ⟨ys, hys, rfl⟩ := List.mem_map.1 hb
      exact location_eq_of_plain (hplain xs hxs) (hplain ys hys) hsame
    have hexchange : Source.Exchangeable (fun xs => Outcome.ofSources folder.text xs d.fetch)
        (found.map (Source.inFolder folder)) := by
      intro a ha b hb hsame
      rw [eq_of_mem_inFolder ha hb hsame (hlocation a ha b hb hsame)]
    exact ⟨h.listing_iff.2 hlocation order horder, h.outcome_iff.2 hexchange order horder⟩

/-- A slash alone leads to the root. -/
theorem Disk.find_root (entries : List (FileName × Tree)) (current : List FileName) :
    Disk.find { root := .folder entries, current } [slash] = .ok ([], .folder entries) := by
  have hnames : Path.names [slash] = [[], []] := by decide
  have hat : (Tree.folder entries).at? [] = some (.folder entries) := rfl
  have hplace : Disk.place { root := .folder entries, current } [slash]
      = .ok (.taken [] (.folder entries)) := by
    rw [Disk.place, if_neg (by decide), if_neg (by decide), if_neg (by decide),
      if_pos (by decide), hnames]
    simp only [Disk.follow, hat, List.isEmpty_nil, Bool.true_or, if_true]
    rfl
  simp only [Disk.find, hplace]
  rfl

/-- A name with a backslash, and a folder in its place. -/
theorem Disk.Finds.walked_backslash :
    let name := Path.ofString
    let s := Settings.default 4
    let d : Disk := { root := .folder [(name "a\\b.h", .file {}),
      (name "a", .folder [(name "b.h", .file {})])] }
    let found := [[name "a\\b.h"], [name "a", name "b.h"]]
    d.Finds s [slash] found ∧ d.Walked s [slash] found ∧
      ∃ order, d.Finds s [slash] order ∧
        Source.listing [slash] order ≠ Source.listing [slash] found := by
  intro name s d found
  have hfinds : d.Finds s [slash] found :=
    ⟨[], d.root, Disk.find_root _ [], rfl, by decide +kernel⟩
  have hwalked : d.Walked s [slash] found := hfinds.walked
  refine ⟨hfinds, hwalked, ?_⟩
  by_contra hnone
  have hsame := hwalked.listing.1 fun order horder => by_contra fun hne => hnone ⟨order, horder, hne⟩
  have hlocation := hsame (Source.inFolder [slash] [name "a\\b.h"]) (by decide)
    (Source.inFolder [slash] [name "a", name "b.h"]) (by decide) (by decide)
  exact absurd hlocation (by decide)

end Walk
end NativeHooks
