/-
# Building file trees

Folders are made along a path where they are missing, links are set and whole
trees are removed.
-/

import NativeHooks.Tree.Access

namespace NativeHooks
namespace Disk

open Text

/-- Makes the missing folders on the way along `todo`, from the folder at `names`
on; gives the tree and the names on the way to the last folder. -/
def foldersAlong (root : Tree) (names : List FileName) :
    List FileName → Except AccessError (Tree × List FileName)
  | [] => .ok (root, names)
  | name :: todo => do
    match ← follow root maxLinks names [name] with
    | .taken names (.folder _) => foldersAlong root names todo
    | .taken _ _ => .error .notFolder
    | .free names => foldersAlong (root.put names (.folder [])) names todo

/-- The names from which a path is followed. -/
def start (d : Disk) (p : Path) : List FileName := if p.isAbsolute then [] else d.current

/-- The disk with all folders on a path, the last one included. -/
def makeFolders (d : Disk) (p : Path) : Except AccessError Disk := do
  let (root, _) ← foldersAlong d.root (d.start p) p.names
  return { d with root }

/-- The disk with a tree at the end of a path, in place of what was there; missing
folders on the way are made, and a link at the end is not followed. -/
def set (d : Disk) (p : Path) (t : Tree) : Except AccessError Disk := do
  let (root, names) ← foldersAlong d.root (d.start p) p.names.dropLast
  return { d with root := root.put (names ++ (p.names.getLast?).toList) t }

/-- The disk with a file written at the end of a path; missing folders on the way
are made, and a link at the end is followed. -/
def setFile (d : Disk) (p : Path) (content : Content) : Except AccessError Disk := do
  let (root, _) ← foldersAlong d.root (d.start p) p.names.dropLast
  { d with root }.write p content

/-- The disk without what is at the end of a path, a link not followed, and the
files that were there. -/
def remove (d : Disk) (p : Path) : Except AccessError (List Path × Disk) := do
  match p.names.reverse with
  | [] => .error .notFound
  | name :: folder =>
    match ← follow d.root maxLinks (d.start p) folder.reverse with
    | .free _ => .error .notFound
    | .taken names t =>
      match t.entry? name with
      | none => .error .notFound
      | some gone =>
        let files := (gone.files fun _ => true).map fun below =>
          [slash].intercalate (p :: below)
        return (files, { d with root := d.root.erase (names ++ [name]) })

end Disk
end NativeHooks
