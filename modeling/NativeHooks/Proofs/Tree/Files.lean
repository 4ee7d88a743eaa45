/-
# The files of a tree

Which files a tree is listed with depends on its folders alone.  In a tree whose folders have
each name once (`Tree.WellNamed`) the listing holds a row of names exactly if it leads to a file
and every folder on the way may be entered (`mem_files_iff`), and it holds no row twice
(`nodup_files`).  What the last name is plays no part, and neither do links: a row that leads
to a link or over one is not in the listing.
-/

import Mathlib.Data.List.Nodup
import NativeHooks.Tree.Basic

namespace NativeHooks

open Text

/-- A name that an entry of a folder can have: it is not empty, has no slash, and stands for
neither the folder itself nor the one above it. -/
def FileName.Proper (name : FileName) : Prop :=
  name ≠ [] ∧ slash ∉ name ∧ name ≠ [dot] ∧ name ≠ [dot, dot]

instance (name : FileName) : Decidable (FileName.Proper name) :=
  inferInstanceAs (Decidable (name ≠ [] ∧ slash ∉ name ∧ name ≠ [dot] ∧ name ≠ [dot, dot]))

namespace Tree

/-- In every folder of the tree each name is proper and stands once. -/
inductive WellNamed : Tree → Prop
  | file (content : Content) : WellNamed (.file content)
  | link (target : Path) : WellNamed (.link target)
  | folder {entries : List (FileName × Tree)} (nodup : (entries.map Prod.fst).Nodup)
      (proper : ∀ e ∈ entries, FileName.Proper e.1) (inside : ∀ e ∈ entries, WellNamed e.2) :
      WellNamed (.folder entries)

/-! ### Looking up names -/

theorem lookup_eq_some_iff_mem {entries : List (FileName × Tree)}
    (h : (entries.map Prod.fst).Nodup) {name : FileName} {t : Tree} :
    entries.lookup name = some t ↔ (name, t) ∈ entries := by
  constructor
  · intro hlookup
    obtain ⟨before, after, rfl, -⟩ := List.lookup_eq_some_iff.1 hlookup
    exact List.mem_append_right _ List.mem_cons_self
  · intro hmem
    obtain ⟨before, after, rfl⟩ := List.append_of_mem hmem
    refine List.lookup_eq_some_iff.2 ⟨before, after, rfl, fun e he => ?_⟩
    rw [List.map_append, List.nodup_append] at h
    rw [bne_iff_ne]
    exact (h.2.2 e.1 (List.mem_map_of_mem he) name List.mem_cons_self).symm

theorem at?_folder_cons (entries : List (FileName × Tree)) (name : FileName)
    (more : List FileName) :
    (folder entries).at? (name :: more) = (entries.lookup name).bind (·.at? more) := rfl

/-- Nothing stands behind a file or a link. -/
theorem at?_eq_none {t : Tree} (h : t.isFolder = false) (name : FileName) (more : List FileName) :
    t.at? (name :: more) = none := by
  cases t with
  | file => rfl
  | link => rfl
  | folder => exact absurd h.symm Bool.false_ne_true

/-- The names on the way to something below a tree are proper. -/
theorem proper_of_at? {t u : Tree} {names : List FileName} (h : t.WellNamed)
    (hat : t.at? names = some u) : ∀ name ∈ names, FileName.Proper name := by
  induction names generalizing t with
  | nil => exact fun name hname => absurd hname List.not_mem_nil
  | cons name more ih =>
      cases h with
      | file => exact absurd hat (Option.some_ne_none u).symm
      | link => exact absurd hat (Option.some_ne_none u).symm
      | folder nodup proper inside =>
          rw [at?_folder_cons, Option.bind_eq_some_iff] at hat
          obtain ⟨v, hlookup, hat⟩ := hat
          have hmem := (lookup_eq_some_iff_mem nodup).1 hlookup
          exact List.forall_mem_cons.2 ⟨proper _ hmem, ih (inside _ hmem) hat⟩

/-! ### The listing -/

section Files

variable (enters : FileName → Bool)

/-- What one entry of a folder adds to the listing. -/
theorem filesAmong_eq_flatMap (entries : List (FileName × Tree)) :
    filesAmong enters entries = entries.flatMap fun e =>
      if e.2.isFolder && !enters e.1 then [] else (files enters e.2).map (e.1 :: ·) := by
  induction entries with
  | nil => rfl
  | cons e entries ih => rw [List.flatMap_cons, ← ih, filesAmong]

/-- The listing of a folder has the rows below its entries, apart from folders not entered. -/
theorem mem_files_folder {entries : List (FileName × Tree)} {names : List FileName} :
    names ∈ (folder entries).files enters ↔ ∃ name t more, names = name :: more ∧
      (name, t) ∈ entries ∧ (t.isFolder = true → enters name = true) ∧ more ∈ t.files enters := by
  rw [files, filesAmong_eq_flatMap, List.mem_flatMap]
  constructor
  · rintro ⟨⟨name, t⟩, hmem, hnames⟩
    split at hnames
    · exact absurd hnames List.not_mem_nil
    · next henters =>
        obtain ⟨more, hmore, rfl⟩ := List.mem_map.1 hnames
        refine ⟨name, t, more, rfl, hmem, fun hfolder => ?_, hmore⟩
        simpa [hfolder] using henters
  · rintro ⟨name, t, more, rfl, hmem, henters, hmore⟩
    refine ⟨(name, t), hmem, ?_⟩
    rw [if_neg]
    · exact List.mem_map_of_mem hmore
    · simpa using henters

/-- On the way to a file, the names before the last one are those of folders. -/
theorem forall_mem_dropLast_cons {P : FileName → Prop} {t : Tree} {content : Content}
    (name : FileName) {more : List FileName} (hat : t.at? more = some (.file content)) :
    (∀ n ∈ (name :: more).dropLast, P n) ↔
      (t.isFolder = true → P name) ∧ ∀ n ∈ more.dropLast, P n := by
  rcases more with _ | ⟨next, rest⟩
  · obtain rfl := Option.some.inj hat
    simp [isFolder]
  · have hfolder : t.isFolder = true := by
      by_contra hnot
      rw [at?_eq_none (Bool.eq_false_iff.2 hnot)] at hat
      exact Option.some_ne_none _ hat.symm
    rw [List.dropLast_cons_cons, List.forall_mem_cons, imp_iff_right hfolder]

/-- **The files that are listed** are those with nothing but folders that may be entered on the
way. -/
theorem mem_files_iff {t : Tree} (h : t.WellNamed) {names : List FileName} :
    names ∈ t.files enters ↔ (∃ content, t.at? names = some (.file content)) ∧
      ∀ name ∈ names.dropLast, enters name = true := by
  induction names generalizing t with
  | nil =>
      cases t with
      | file content => simp [files, at?]
      | link target => simp [files, at?]
      | folder entries => simp [mem_files_folder, at?]
  | cons name more ih =>
      cases h with
      | file content => simp [files, at?, entry?]
      | link target => simp [files, at?, entry?]
      | folder nodup proper inside =>
          rw [mem_files_folder, at?_folder_cons]
          constructor
          · rintro ⟨first, t, rest, heq, hmem, henters, hmore⟩
            obtain ⟨rfl, rfl⟩ := List.cons.inj heq
            obtain ⟨⟨content, hat⟩, hentered⟩ := (ih (inside _ hmem)).1 hmore
            rw [(lookup_eq_some_iff_mem nodup).2 hmem]
            exact ⟨⟨content, hat⟩, (forall_mem_dropLast_cons name hat).2 ⟨henters, hentered⟩⟩
          · rintro ⟨⟨content, hat⟩, hentered⟩
            obtain ⟨t, hlookup, hat⟩ := Option.bind_eq_some_iff.1 hat
            obtain ⟨henters, hentered⟩ := (forall_mem_dropLast_cons name hat).1 hentered
            have hmem := (lookup_eq_some_iff_mem nodup).1 hlookup
            have hmore := (ih (inside _ hmem)).2 ⟨⟨content, hat⟩, hentered⟩
            exact ⟨name, t, more, rfl, hmem, henters, hmore⟩

/-- **No file is listed twice.** -/
theorem nodup_files {t : Tree} (h : t.WellNamed) : (t.files enters).Nodup := by
  induction h with
  | file content => exact List.nodup_singleton _
  | link target => exact List.nodup_nil
  | folder nodup proper inside ih =>
      rw [files, filesAmong_eq_flatMap, List.nodup_flatMap]
      constructor
      · intro e he
        split
        · exact List.nodup_nil
        · exact (ih e he).map (List.cons_injective)
      · -- Rows from two entries begin with different names.
        refine (List.pairwise_map.1 nodup).imp fun {a b} hne => ?_
        have hhead : ∀ e : FileName × Tree, ∀ names ∈ (if e.2.isFolder && !enters e.1 then []
            else (files enters e.2).map (e.1 :: ·)), names.head? = some e.1 := by
          intro e names hnames
          split at hnames
          · exact absurd hnames List.not_mem_nil
          · obtain ⟨more, -, rfl⟩ := List.mem_map.1 hnames
            rfl
        intro names ha hb
        exact hne (Option.some.inj ((hhead a names ha).symm.trans (hhead b names hb)))

end Files

end Tree
end NativeHooks
