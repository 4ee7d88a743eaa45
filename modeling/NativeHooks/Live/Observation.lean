/-
# Observing a folder

Two looks at a folder show which files have come, gone or got another content in
between.  A file that was renamed shows as one gone and one come.
-/

import NativeHooks.Live.Change
import NativeHooks.Tree.Basic

namespace NativeHooks
namespace Tree

/-- The content of the file at the end of a row of names. -/
def contentAt? (t : Tree) (names : List FileName) : Option Content :=
  match t.at? names with
  | some (.file content) => some content
  | _ => none

/-- What happened to the file at the end of a row of names below `folder`. -/
def changeAt? (folder : Path) (old new : Tree) (names : List FileName) : Option Change :=
  let path := folder.join ([slash].intercalate names)
  match old.contentAt? names, new.contentAt? names with
  | none, some _ => some (.created path)
  | some _, none => some (.deleted path)
  | some a, some b => if a = b then none else some (.changed path)
  | none, none => none

/-- The changes that led from the old look of a folder to the new one. -/
def changes (folder : Path) (old new : Tree) : List Change :=
  let everywhere : FileName → Bool := fun _ => true
  let gone := (old.files everywhere).filter fun names => (new.contentAt? names).isNone
  (gone ++ new.files everywhere).filterMap (changeAt? folder old new)

end Tree
end NativeHooks
