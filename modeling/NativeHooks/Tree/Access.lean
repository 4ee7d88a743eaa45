/-
# Reaching files

How a path is followed through a file tree, and the ways in which that fails.
A link on the way is replaced by its target, at most forty times for a path, and
a name behind anything but a folder leads nowhere.  A path that ends with a
slash must lead to a folder.
-/

import NativeHooks.Tree.Basic

namespace NativeHooks

open Text

/-- Why a file cannot be reached, read or written. -/
inductive AccessError where
  /-- Nothing has the name. -/
  | notFound
  /-- A folder where a file is needed. -/
  | isFolder
  /-- A name is looked up in what is no folder. -/
  | notFolder
  /-- A name or the path has too many bytes. -/
  | nameTooLong
  /-- More than forty links on the way. -/
  | tooManyLinks
  /-- The path has a zero byte. -/
  | zeroInPath
  /-- The content is to be text and is none. -/
  | notText
  /-- The file has more bytes than are read. -/
  | tooLarge (size limit : Nat)
  deriving DecidableEq, Repr, Inhabited

/-- The error in words. -/
def AccessError.message : AccessError → String
  | notFound => "No such file or directory (os error 2)"
  | isFolder => "Is a directory (os error 21)"
  | notFolder => "Not a directory (os error 20)"
  | nameTooLong => "File name too long (os error 36)"
  | tooManyLinks => "Too many levels of symbolic links (os error 40)"
  | zeroInPath => "file name contained an unexpected NUL byte"
  | notText => "stream did not contain valid UTF-8"
  | tooLarge size limit =>
    toString size ++ " bytes exceeds the " ++ toString limit ++ " byte limit"

/-- A file tree together with the folder that relative paths start from, which
is given by the names on the way to it. -/
structure Disk where
  root : Tree := .folder []
  current : List FileName := []
  deriving Inhabited

/-- What is at the end of a path. -/
inductive Place where
  /-- Something exists there. -/
  | taken (names : List FileName) (tree : Tree)
  /-- The folder exists, the last name does not. -/
  | free (names : List FileName)
  deriving Inhabited

namespace Disk

/-- The most links that a path may lead over. -/
def maxLinks : Nat := 40

/-- The most bytes of a name. -/
def maxNameBytes : Nat := 255

/-- The most bytes of a path. -/
def maxPathBytes : Nat := 4095

/-- Follows names from the folder at `names`; `links` more links may be crossed. -/
def follow (root : Tree) (links : Nat) (names : List FileName) :
    List FileName → Except AccessError Place
  | [] => (root.at? names).elim (.error .notFound) fun t => .ok (.taken names t)
  | name :: todo =>
    match root.at? names with
    | none => .error .notFound
    | some (.file _) => .error .notFolder
    | some (.link _) => .error .notFolder
    | some (.folder entries) =>
      if name.isEmpty || name = [dot] then follow root links names todo
      else if name = [dot, dot] then follow root links names.dropLast todo
      else if maxNameBytes < name.length then .error .nameTooLong
      else
        match entries.lookup name with
        | none => if todo.isEmpty then .ok (.free (names ++ [name])) else .error .notFound
        | some (.link target) =>
          match links with
          | 0 => .error .tooManyLinks
          | links + 1 =>
            follow root links (if Path.isAbsolute target then [] else names)
              (Path.names target ++ todo)
        | some _ => follow root links (names ++ [name]) todo
  termination_by todo => (links, todo.length)

/-- What is at the end of a path, links followed. -/
def place (d : Disk) (p : Path) : Except AccessError Place :=
  if p.contains 0 then .error .zeroInPath
  else if p.isEmpty then .error .notFound
  else if maxPathBytes < p.length then .error .nameTooLong
  else follow d.root maxLinks (if p.isAbsolute then [] else d.current) p.names

/-- The tree at the end of a path, with the names on the way to it. -/
def find (d : Disk) (p : Path) : Except AccessError (List FileName × Tree) := do
  match ← d.place p with
  | .taken names t => .ok (names, t)
  | .free _ => .error .notFound

/-- Something is at the end of the path. -/
def has (d : Disk) (p : Path) : Bool := (d.find p).isOk

/-- A folder is at the end of the path. -/
def hasFolder (d : Disk) (p : Path) : Bool :=
  match d.find p with
  | .ok (_, t) => t.isFolder
  | .error _ => false

/-- The path from the root, without links, to what a path leads to. -/
def realPath (d : Disk) (p : Path) : Except AccessError Path :=
  (d.find p).map fun (names, _) => Path.ofNames names

/-- The content of the file that a path leads to. -/
def read (d : Disk) (p : Path) : Except AccessError Content := do
  match ← d.find p with
  | (_, .file content) => .ok content
  | _ => .error .isFolder

/-- The text of the file that a path leads to. -/
def readText (d : Disk) (p : Path) : Except AccessError String := do
  match (← d.read p).text? with
  | some text => .ok text
  | none => .error .notText

/-- The disk after a file has been written.  A link at the end of the path is
followed even if nothing is there yet, but a folder is never made: a path that
ends with a slash asks for one. -/
def write (d : Disk) (p : Path) (content : Content) : Except AccessError Disk := do
  let bare := dropEndWhile (· == slash) p
  match ← d.place (if bare.isEmpty then p else bare) with
  | .taken _ (.folder _) => .error .isFolder
  | .taken names _ | .free names =>
    if bare.length < p.length then .error .isFolder
    else .ok { d with root := d.root.put names (.file content) }

end Disk
end NativeHooks
