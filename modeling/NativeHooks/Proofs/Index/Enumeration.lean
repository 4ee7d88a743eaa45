/-
# What is listed of a folder

The sources of a folder are the headers in it that no skipped folder is above, each once
(`Disk.enumerates`).  Which files count is decided by the tree alone: what stands behind a link
does not, the name of the folder itself is never looked at, and of the name of a file only the
extension is (`mem_headers_iff`).

A source is listed by its names with slashes between them, and every `\` in that is taken for a
slash as well before it is parted into directory and file name.  So the three fit together,
with one exception: a header directly in the folder whose name begins with its only `\` has a
relative location that begins with a slash, and the directory before that slash is empty
(`LoneBackslash`).
-/

import NativeHooks.Proofs.Index.WalkOrder
import NativeHooks.Proofs.Tree.Files

namespace NativeHooks

open Text

/-- The names lead to a header in the tree, and no folder on the way is left out. -/
def Tree.HasHeader (t : Tree) (s : Settings) (names : List FileName) : Prop :=
  ∃ above name content, names = above ++ [name] ∧ t.at? names = some (.file content) ∧
    s.isHeader name = true ∧ ∀ folder ∈ above, s.skips (Path.text folder) = false

/-- A single name whose first byte is a backslash and whose other bytes are none. -/
def LoneBackslash (names : List FileName) : Prop :=
  ∃ rest, names = [backslash :: rest] ∧ backslash ∉ rest

/-- How a source says where the names lead. -/
structure Source.Placed (names : List FileName) (source : Source) : Prop where
  relativeLocation : source.relativeLocation
    = ("/".intercalate (names.map Path.text)).map fun c => if c == '\\' then '/' else c
  fileName : '/' ∉ source.fileName.toList
  /-- A directory stands before the file name. -/
  parted : source.directory ≠ "" →
    source.relativeLocation = source.directory ++ "/" ++ source.fileName
  whole : source.directory = "" → ¬LoneBackslash names → source.relativeLocation = source.fileName
  lone : LoneBackslash names →
    source.directory = "" ∧ source.relativeLocation = "/" ++ source.fileName

/-- The sources are those of the headers in the tree, which is found at `folder`. -/
structure Enumerates (s : Settings) (folder : Path) (t : Tree) (sources : List Source) : Prop where
  /-- One source for each header, and no others. -/
  once : ∃ found : List (List FileName), found.Nodup ∧
    sources = found.map (Source.inFolder folder) ∧ ∀ names, names ∈ found ↔ t.HasHeader s names
  sorted : sources.Pairwise fun a b => a.relativeLocation ≤ b.relativeLocation
  placed : ∀ names, t.HasHeader s names → Source.Placed names (Source.inFolder folder names)

/-! ### Names and extensions -/

/-- A path ends with the name that its last name is. -/
theorem fileName?_intercalate {name : FileName} (h : FileName.Proper name)
    (above : List FileName) :
    Path.fileName? ([slash].intercalate (above ++ [name])) = some name := by
  induction above with
  | nil =>
      obtain ⟨hne, hslash, hdot, hdots⟩ := h
      have hnames : Path.names name = [name] := List.splitOn_eq_singleton hslash
      rw [List.nil_append, List.intercalate_singleton, Path.fileName?, hnames]
      simp [hne, hdot, hdots]
  | cons folder above ih =>
      rw [List.cons_append, List.intercalate_cons_of_ne_nil (List.concat_ne_nil name above),
        List.append_assoc]
      exact Path.fileName?_append_slash folder ih

/-- Whether a file is a header is told by its own name. -/
theorem isHeader_intercalate (s : Settings) {name : FileName} (h : FileName.Proper name)
    (above : List FileName) :
    s.isHeader ([slash].intercalate (above ++ [name])) = s.isHeader name := by
  have hname := fileName?_intercalate h []
  rw [List.nil_append, List.intercalate_singleton] at hname
  rw [Settings.isHeader, Settings.isHeader, Path.extension?, Path.extension?, hname,
    fileName?_intercalate h above]

/-- **The headers of a folder** are the files with the extension of one and no skipped folder
above. -/
theorem mem_headers_iff {t : Tree} (s : Settings) (h : t.WellNamed) (hfolder : t.isFolder = true)
    {names : List FileName} : names ∈ t.headers s ↔ t.HasHeader s names := by
  rw [Tree.headers, List.mem_filter, Tree.mem_files_iff _ h]
  constructor
  · rintro ⟨⟨⟨content, hat⟩, hentered⟩, hheader⟩
    rcases List.eq_nil_or_concat names with rfl | ⟨above, name, rfl⟩
    · obtain rfl := Option.some.inj hat
      exact absurd hfolder Bool.false_ne_true
    rw [List.concat_eq_append] at hat hentered hheader
    have hname := Tree.proper_of_at? h hat name (List.mem_append_right _ List.mem_cons_self)
    rw [isHeader_intercalate s hname] at hheader
    rw [List.dropLast_concat] at hentered
    refine ⟨above, name, content, List.concat_eq_append, by rwa [List.concat_eq_append], hheader, ?_⟩
    exact fun folder hmem => by simpa using hentered folder hmem
  · rintro ⟨above, name, content, rfl, hat, hheader, hskips⟩
    have hname := Tree.proper_of_at? h hat name (List.mem_append_right _ List.mem_cons_self)
    refine ⟨⟨⟨content, hat⟩, ?_⟩, by rwa [isHeader_intercalate s hname]⟩
    rw [List.dropLast_concat]
    exact fun folder hmem => by simpa using hskips folder hmem

/-! ### Relative locations -/

/-- The character that a relative location has for one of the path. -/
def forwardSlash (c : Char) : Char := if c == '\\' then '/' else c

theorem decodeLossy_intercalate (names : List FileName) :
    decodeLossy ([slash].intercalate names) = ['/'].intercalate (names.map decodeLossy) := by
  induction names with
  | nil => rfl
  | cons name names ih =>
      rw [List.map_cons]
      rcases names with _ | ⟨next, more⟩
      · rw [List.map_nil, List.intercalate_singleton, List.intercalate_singleton]
      · rw [List.intercalate_cons_of_ne_nil (List.cons_ne_nil next more), List.append_assoc,
          List.singleton_append, decodeLossy_append_ascii (by decide), ih,
          List.intercalate_cons_of_ne_nil (by simp), List.append_assoc]
        rfl

theorem forwardSlash_eq_iff {c : Char} : forwardSlash c = '/' ↔ c = '/' ∨ c = '\\' := by
  rw [forwardSlash]
  split
  · next hc => simp [beq_iff_eq.1 hc]
  · next hc => simp [mt beq_iff_eq.2 hc]

/-- A relative location has slashes where the path has slashes or backslashes. -/
theorem mem_map_forwardSlash_iff {bytes : List UInt8} :
    '/' ∈ (decodeLossy bytes).map forwardSlash ↔ slash ∈ bytes ∨ backslash ∈ bytes := by
  have hslash : '/' ∈ decodeLossy bytes ↔ slash ∈ bytes :=
    mem_decodeLossy_iff (by decide) (by decide) (by decide) (by decide)
  have hback : '\\' ∈ decodeLossy bytes ↔ backslash ∈ bytes :=
    mem_decodeLossy_iff (by decide) (by decide) (by decide) (by decide)
  rw [← hslash, ← hback, List.mem_map]
  simp only [forwardSlash_eq_iff]
  constructor
  · rintro ⟨c, hc, rfl | rfl⟩
    · exact .inl hc
    · exact .inr hc
  · rintro (hc | hc)
    · exact ⟨_, hc, .inl rfl⟩
    · exact ⟨_, hc, .inr rfl⟩

/-- A backslash is decoded by itself. -/
theorem decodeLossy_backslash (rest : List UInt8) :
    decodeLossy (backslash :: rest) = '\\' :: decodeLossy rest :=
  decodeLossy_append_ascii (by decide) [] rest

/-- The characters of the relative location that names have. -/
def relativeChars (names : List FileName) : List Char :=
  (decodeLossy ([slash].intercalate names)).map forwardSlash

theorem relativeLocation_eq (folder : Path) (names : List FileName) :
    (Source.inFolder folder names).relativeLocation
      = ("/".intercalate (names.map Path.text)).map fun c => if c == '\\' then '/' else c := by
  have hchars : ("/".intercalate (names.map Path.text)).toList
      = decodeLossy ([slash].intercalate names) := by
    rw [String.toList_intercalate, List.map_map, decodeLossy_intercalate]
    congr 1
    exact List.map_congr_left fun name _ => String.toList_ofList
  rw [← String.toList_inj, String.toList_map, hchars]
  exact String.toList_ofList

/-- A relative location that begins with its only slash belongs to a lone backslash. -/
theorem loneBackslash_of_relativeChars {names : List FileName} {last : List Char}
    (h : ∀ name ∈ names, FileName.Proper name) (hchars : relativeChars names = '/' :: last)
    (hlast : '/' ∉ last) : LoneBackslash names := by
  rcases names with _ | ⟨name, more⟩
  · exact absurd hchars.symm (List.cons_ne_nil _ _)
  obtain ⟨hne, hslash, -⟩ := h name List.mem_cons_self
  rcases name with _ | ⟨first, rest⟩
  · exact absurd rfl hne
  rw [List.mem_cons, not_or] at hslash
  -- What follows the first byte has a slash unless it is the rest of a single name.
  obtain ⟨below, hbelow, hsingle⟩ : ∃ below, [slash].intercalate ((first :: rest) :: more)
      = first :: below ∧ (slash ∉ below → below = rest ∧ more = []) := by
    rcases more with _ | ⟨next, more⟩
    · exact ⟨rest, List.intercalate_singleton, fun _ => ⟨rfl, rfl⟩⟩
    · refine ⟨rest ++ slash :: [slash].intercalate (next :: more), ?_, fun hnone => ?_⟩
      · rw [List.intercalate_cons_cons, List.append_assoc]
        rfl
      · exact absurd (List.mem_append_right _ List.mem_cons_self) hnone
  rw [relativeChars, hbelow, List.map_eq_cons_iff] at hchars
  obtain ⟨c, cs, hdecode, hc, rfl⟩ := hchars
  have hhead : (decodeLossy (first :: below)).head? = some c := by rw [hdecode, List.head?_cons]
  have hfirst : first.toNat = c.toNat := by
    have hascii : c.toNat ≠ 0 ∧ c.toNat < 0x80 := by
      rcases forwardSlash_eq_iff.1 hc with rfl | rfl <;> decide
    obtain ⟨byte, hbyte, heq⟩ := exists_byte_of_head?_decodeLossy hhead hascii.1 hascii.2
    rwa [Option.some.inj hbyte]
  rcases forwardSlash_eq_iff.1 hc with rfl | rfl
  · exact absurd (UInt8.toNat_inj.1 hfirst).symm hslash.1
  · obtain rfl : first = backslash := UInt8.toNat_inj.1 hfirst
    rw [decodeLossy_backslash] at hdecode
    rw [← (List.cons.inj hdecode).2, mem_map_forwardSlash_iff, not_or] at hlast
    obtain ⟨rfl, rfl⟩ := hsingle hlast.1
    exact ⟨below, rfl, hlast.2⟩

/-- A lone backslash gives a relative location that begins with its only slash. -/
theorem relativeChars_loneBackslash {rest : FileName} (hslash : slash ∉ rest)
    (hback : backslash ∉ rest) :
    ∃ last, relativeChars [backslash :: rest] = '/' :: last ∧ '/' ∉ last := by
  refine ⟨(decodeLossy rest).map forwardSlash, ?_, ?_⟩
  · rw [relativeChars, List.intercalate_singleton, decodeLossy_backslash]
    rfl
  · rw [mem_map_forwardSlash_iff, not_or]
    exact ⟨hslash, hback⟩

/-- **The parts of a source fit together,** whatever its names are. -/
theorem placed_inFolder {names : List FileName} (h : ∀ name ∈ names, FileName.Proper name)
    (folder : Path) : Source.Placed names (Source.inFolder folder names) := by
  have hrelative : (Source.inFolder folder names).relativeLocation
      = String.ofList (relativeChars names) := rfl
  have hfile : (Source.inFolder folder names).fileName
      = String.ofList (afterLast '/' (relativeChars names)) := rfl
  have hdirectory : (Source.inFolder folder names).directory
      = String.ofList ((beforeLast? '/' (relativeChars names)).getD []) := rfl
  refine ⟨relativeLocation_eq folder names, ?_, ?_, ?_, ?_⟩
  · rw [hfile, String.toList_ofList]
    exact not_mem_afterLast '/' _
  · intro hne
    rcases afterLast_cases '/' (relativeChars names) with ⟨-, hbefore, -⟩ | ⟨before, hbefore, heq⟩
    · rw [hdirectory, hbefore] at hne
      exact absurd rfl hne
    · rw [hrelative, hdirectory, hfile, hbefore, Option.getD_some, ← String.toList_inj]
      simpa using heq
  · intro hempty hlone
    rcases afterLast_cases '/' (relativeChars names) with ⟨-, -, hlast⟩ | ⟨before, hbefore, heq⟩
    · rw [hrelative, hfile, hlast]
    · rw [hdirectory, hbefore, Option.getD_some] at hempty
      obtain rfl : before = [] := String.ofList_injective hempty
      exact absurd (loneBackslash_of_relativeChars h heq (not_mem_afterLast '/' _)) hlone
  · rintro ⟨rest, rfl, hback⟩
    obtain ⟨-, hslash, -⟩ := h _ List.mem_cons_self
    rw [List.mem_cons, not_or] at hslash
    obtain ⟨last, hchars, hlast⟩ := relativeChars_loneBackslash hslash.2 hback
    obtain ⟨hafter, hbefore⟩ := afterLast_append [] hlast
    rw [List.nil_append, ← hchars] at hafter hbefore
    constructor
    · rw [hdirectory, hbefore]
      rfl
    · rw [hrelative, hfile, hafter, hchars, ← String.toList_inj]
      simp

/-! ### The listing of a folder -/

/-- A listing is sorted by relative location. -/
theorem sorted_listing (folder : Path) (found : List (List FileName)) :
    (Source.listing folder found).Pairwise fun a b => a.relativeLocation ≤ b.relativeLocation := by
  refine (pairwise_sortByKeys _ _).imp fun {a b} hle => String.not_lt.1 fun hgt => ?_
  rcases keysLe_cons_cons.1 hle with hlt | ⟨heq, -⟩
  · exact String.lt_irrefl _ (String.lt_trans hlt hgt)
  · rw [heq] at hgt
    exact String.lt_irrefl _ hgt

/-- The sources of the headers in a tree, found in any order. -/
theorem enumerates_listing {t : Tree} (s : Settings) (h : t.WellNamed)
    (hfolder : t.isFolder = true) (folder : Path) {found : List (List FileName)}
    (hfound : found.Perm (t.headers s)) :
    Enumerates s folder t (Source.listing folder found) where
  once := by
    obtain ⟨order, hlisting, horder⟩ := (congrFun₂ (List.eq_map_comp_perm (Source.inFolder folder))
      (Source.listing folder found) found).mpr (sortByKeys_perm ..)
    have hheaders := horder.trans hfound
    refine ⟨order, ?_, hlisting, fun names => ?_⟩
    · exact hheaders.nodup_iff.2 ((Tree.nodup_files _ h).filter _)
    · rw [hheaders.mem_iff, mem_headers_iff s h hfolder]
  sorted := sorted_listing folder found
  placed names hnames := by
    obtain ⟨-, -, content, -, hat, -⟩ := hnames
    exact placed_inFolder (Tree.proper_of_at? h hat) folder

/-- **A folder is listed exactly:** whatever order its headers are found in, there is one source
for each, and nothing else. -/
theorem Disk.enumerates {d : Disk} {folder : Path} {base : List FileName} {t : Tree}
    (s : Settings) (hfind : d.find folder = .ok (base, t)) (hfolder : t.isFolder = true)
    (h : t.WellNamed) :
    (∃ order, d.Finds s folder order ∧ d.sources s folder = .ok (Source.listing folder order)) ∧
      ∀ order, d.Finds s folder order → Enumerates s folder t (Source.listing folder order) := by
  have hfinds : d.Finds s folder (t.headers s) := ⟨base, t, hfind, hfolder, .refl _⟩
  constructor
  · obtain ⟨order, horder, hsources, -⟩ := hfinds.exists_run
    exact ⟨order, horder, hsources⟩
  · intro order horder
    exact enumerates_listing s h hfolder folder (hfinds.iff_perm.1 horder)

/-- A folder with a header, a skipped folder, and a link that is named like a header. -/
theorem Disk.enumerates_skipped :
    let name := Path.ofString
    let s := Settings.default 4
    let root : Tree := .folder
      [(name "src", .folder [(name "build", .file {}), (name "a.h", .file {})]),
       (name "build", .folder [(name "b.h", .file {})]), (name "c.h", .link (name "src"))]
    let d : Disk := { root }
    d.find [slash] = .ok ([], root) ∧ root.isFolder = true ∧ root.WellNamed ∧
      (∃ order, d.Finds s [slash] order ∧ d.sources s [slash] = .ok (Source.listing [slash] order)) ∧
      ∀ order, d.Finds s [slash] order →
        Enumerates s [slash] root (Source.listing [slash] order) := by
  intro name s root d
  have hsrc : Tree.WellNamed (.folder [(name "build", .file {}), (name "a.h", .file {})]) := by
    refine .folder (by decide) (by decide) ?_
    simp only [List.forall_mem_cons]
    exact ⟨.file _, .file _, fun e he => absurd he List.not_mem_nil⟩
  have hbuild : Tree.WellNamed (.folder [(name "b.h", .file {})]) := by
    refine .folder (by decide) (by decide) ?_
    simp only [List.forall_mem_cons]
    exact ⟨.file _, fun e he => absurd he List.not_mem_nil⟩
  have hnamed : root.WellNamed := by
    refine .folder (by decide) (by decide) ?_
    simp only [List.forall_mem_cons]
    exact ⟨hsrc, hbuild, .link _, fun e he => absurd he List.not_mem_nil⟩
  have hfind : d.find [slash] = .ok ([], root) := Disk.find_root _ []
  exact ⟨hfind, rfl, hnamed, Disk.enumerates s hfind rfl hnamed⟩

/-- A header directly in the folder, with its only backslash in front: the directory is empty,
but the relative location is more than the file name. -/
theorem Disk.sources_loneBackslash :
    let d : Disk := { root := .folder [(Path.ofString "\\x.h", .file {})] }
    d.hasFolder [slash] = true ∧ ∃ source,
      d.sources (Settings.default 4) [slash] = .ok [source] ∧ source.directory = "" ∧
        source.relativeLocation ≠ source.fileName := by
  intro d
  have hfind : d.find [slash] = .ok ([], d.root) := Disk.find_root _ []
  have hlisting : Source.listing [slash] (d.root.headers (Settings.default 4))
      = [Source.inFolder [slash] [Path.ofString "\\x.h"]] := by decide +kernel
  refine ⟨?_, Source.inFolder [slash] [Path.ofString "\\x.h"], ?_, by decide, by decide⟩
  · rw [Disk.hasFolder, hfind]
    rfl
  · rw [Disk.sources, hfind, ← hlisting]
    rfl

end NativeHooks
