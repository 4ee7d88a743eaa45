/-
# Changes

What happens to the files of a watched folder comes in as *notices*, each about
a number of paths.  A notice becomes *changes*, one for every path, except that
a rename that names both its paths is one change.  Notices of mere access become
nothing.  Only changes of headers matter.
-/

import NativeHooks.Settings.Basic
import NativeHooks.Tree.Path

namespace NativeHooks

/-- A change of a file. -/
inductive Change where
  | created (path : Path)
  | changed (path : Path)
  | deleted (path : Path)
  | renamed (old new : Path)
  deriving DecidableEq, Repr, Inhabited

namespace Change

/-- The paths that a change is about. -/
def paths : Change → List Path
  | created path => [path]
  | changed path => [path]
  | deleted path => [path]
  | renamed old new => [old, new]

/-- The change is about a header; a rename is if either of its paths is one. -/
def isRelevant (s : Settings) (c : Change) : Bool :=
  c.paths.any fun p => (p.extension?.bind Path.text?).any s.isHeaderExtension

end Change

/-- Which of the two paths of a rename a notice gives. -/
inductive RenameSide where
  | unspecified
  | other
  /-- Old and new path. -/
  | both
  /-- The old path. -/
  | old
  /-- The new path. -/
  | new
  deriving DecidableEq, Repr

/-- How a file was modified. -/
inductive Modification where
  | unspecified
  | other
  | data
  | metadata
  | name (side : RenameSide)
  deriving DecidableEq, Repr

/-- What a notice tells. -/
inductive NoticeKind where
  | unspecified
  | other
  | access
  | create
  | modify (how : Modification)
  | remove
  deriving DecidableEq, Repr

/-- News of the files of a watched folder. -/
structure Notice where
  kind : NoticeKind
  paths : List Path
  deriving DecidableEq, Repr

/-- The changes that a notice tells of. -/
def Notice.changes (n : Notice) : List Change :=
  match n.kind with
  | .unspecified | .other | .access => []
  | .create => n.paths.map .created
  | .remove => n.paths.map .deleted
  | .modify (.name .both) =>
    match n.paths with
    | [old, new] => [.renamed old new]
    | paths => paths.map .changed
  | .modify (.name .old) => n.paths.map .deleted
  | .modify (.name .new) => n.paths.map .created
  | .modify _ => n.paths.map .changed

end NativeHooks
