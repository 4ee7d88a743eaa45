/-
# File trees

A file tree holds files, folders and symbolic links.  A folder lists its entries
by name, each name once; a link holds the path it stands for, which may lead
nowhere.
-/

import NativeHooks.Tree.Path

namespace NativeHooks

open Text

/-- What a file holds.  Zero bytes at the end are counted rather than listed, so
that a long run of them takes no room. -/
structure Content where
  bytes : List UInt8 := []
  /-- The number of zero bytes after `bytes`. -/
  zeros : Nat := 0
  deriving DecidableEq, Repr, Inhabited

namespace Content

/-- The content that is the UTF-8 form of a text. -/
def ofString (s : String) : Content := { bytes := encode s.toList }

/-- The number of bytes. -/
def size (c : Content) : Nat := c.bytes.length + c.zeros

/-- The content as text, with replacement characters for what is no UTF-8. -/
def text (c : Content) : String := (String.ofList (decodeLossy c.bytes)).pushn '\x00' c.zeros

/-- The text of a content that is UTF-8. -/
def text? (c : Content) : Option String :=
  (decode? c.bytes).map fun cs => (String.ofList cs).pushn '\x00' c.zeros

end Content

/-- A file, link or folder with all that is in it. -/
inductive Tree where
  | file (content : Content)
  | link (target : Path)
  | folder (entries : List (FileName × Tree))
  deriving Inhabited

namespace Tree

/-- The tree is a folder. -/
def isFolder : Tree → Bool
  | .folder _ => true
  | _ => false

/-- The entry of that name in a folder. -/
def entry? : Tree → FileName → Option Tree
  | .folder entries, name => entries.lookup name
  | _, _ => none

/-- The tree at the end of a row of names. -/
def at? (t : Tree) : List FileName → Option Tree
  | [] => some t
  | name :: more => (t.entry? name).bind (·.at? more)

/-- The entries with the one of that name replaced or added. -/
def setEntry (name : FileName) (t : Tree) : List (FileName × Tree) → List (FileName × Tree)
  | [] => [(name, t)]
  | (other, u) :: more =>
    if other = name then (name, t) :: more else (other, u) :: setEntry name t more

/-- The tree with `new` at the end of a row of names, all but the last of which
must be folders on the way. -/
def put : Tree → List FileName → Tree → Tree
  | _, [], new => new
  | .folder entries, name :: more, new =>
    match entries.lookup name with
    | some t => .folder (setEntry name (t.put more new) entries)
    | none => if more.isEmpty then .folder (setEntry name new entries) else .folder entries
  | t, _ :: _, _ => t

/-- The tree without what stands at the end of a row of names. -/
def erase : Tree → List FileName → Tree
  | .folder entries, [name] => .folder (entries.filter (·.1 != name))
  | .folder entries, name :: more =>
    match entries.lookup name with
    | some t => .folder (setEntry name (t.erase more) entries)
    | none => .folder entries
  | t, _ => t

mutual

/-- The files in a tree, each as the names on the way to it.  Links are not
followed, and of folders inside only those are entered that `enters` allows. -/
def files (enters : FileName → Bool) : Tree → List (List FileName)
  | .file _ => [[]]
  | .link _ => []
  | .folder entries => filesAmong enters entries

/-- The files among entries and in the folders among them. -/
def filesAmong (enters : FileName → Bool) : List (FileName × Tree) → List (List FileName)
  | [] => []
  | (name, t) :: more =>
    (if t.isFolder && !enters name then [] else (files enters t).map (name :: ·))
      ++ filesAmong enters more

end

end Tree
end NativeHooks
