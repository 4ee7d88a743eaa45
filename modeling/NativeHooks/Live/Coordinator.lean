/-
# Keeping an index up to date

A coordinator publishes the index of a folder.  It reloads on demand, and while
a session watches the folder also when changes have settled.  A reload replaces
the published index as a whole or, if it fails, leaves everything as it was.

What the coordinator asks of the outside are arguments: whether a path is a
folder, whether watching could be started, and what a scan of a folder gives.
-/

import NativeHooks.Index.Folder
import NativeHooks.Live.Published
import NativeHooks.Live.Session

namespace NativeHooks

/-- Why a folder is not watched. -/
inductive WatchError where
  /-- There is no such folder. -/
  | folder (error : FolderError)
  /-- Changes of files cannot be observed at all. -/
  | noObserver (reason : String)
  /-- Changes in this folder cannot be observed. -/
  | notObservable (path : Path) (reason : String)
  /-- The worker cannot be started. -/
  | noWorker (reason : String)
  deriving DecidableEq, Repr

/-- The error in words. -/
def WatchError.message : WatchError → String
  | folder error => error.message
  | noObserver reason => "Failed to create file watcher: " ++ reason
  | notObservable path reason => "Failed to watch " ++ path.text ++ ": " ++ reason
  | noWorker reason => "Failed to start watch worker: " ++ reason

/-- Why a reload gives nothing. -/
inductive ReloadError where
  /-- No folder has been selected. -/
  | noFolder
  /-- The folder cannot be indexed. -/
  | folder (error : FolderError)
  deriving DecidableEq, Repr

/-- The error in words. -/
def ReloadError.message : ReloadError → String
  | noFolder => "No folder selected"
  | folder error => error.message

/-- What a scan of a folder gives. -/
abbrev Scan := Path → Except FolderError Outcome

/-- Keeps the index of a folder up to date. -/
structure Coordinator where
  settings : Settings
  published : Published := {}
  /-- How many reloads succeeded. -/
  reloads : Nat := 0
  /-- The folder selected last. -/
  root : Option Path := none
  session : Option Session := none
  deriving DecidableEq, Repr, Inhabited

namespace Coordinator

/-- A session watches the folder. -/
def isWatching (c : Coordinator) : Bool := c.session.isSome

/-! ### Folders and sessions -/

/-- Ends the session, if there is one, and with it all that waits in it. -/
def stop (c : Coordinator) : Coordinator := { c with session := none }

/-- Selects a folder for reloads; a session ends whether the folder exists or not. -/
def select (c : Coordinator) (isFolder : Path → Bool) (root : Path) :
    Except FolderError Unit × Coordinator :=
  if isFolder root then (.ok (), { c.stop with root := some root })
  else (.error (.notFound root), c.stop)

/-- Selects a folder and watches it.  If watching cannot be started the folder
stays selected. -/
def watch (c : Coordinator) (isFolder : Path → Bool) (start : Path → Except WatchError Unit)
    (root : Path) : Except WatchError Unit × Coordinator :=
  match c.select isFolder root with
  | (.error e, c) => (.error (.folder e), c)
  | (.ok (), c) =>
    match start root with
    | .error e => (.error e, c)
    | .ok () => (.ok (), { c with session := some (Session.start c.settings root) })

/-- Sends a change to the session; says whether there is one. -/
def notify (c : Coordinator) (change : Change) : Bool × Coordinator :=
  (c.isWatching, { c with session := c.session.map (·.send change) })

/-! ### Reloads -/

/-- Publishes what a scan gave, if it gave anything. -/
def publish (c : Coordinator) :
    Except FolderError Outcome → Except FolderError Report × Coordinator
  | .error e => (.error e, c)
  | .ok outcome =>
    (.ok outcome.report,
      { c with published := c.published.replace outcome.index, reloads := c.reloads + 1 })

/-- Reloads the selected folder on demand. -/
def reloadNow (c : Coordinator) (scan : Scan) : Except ReloadError Report × Coordinator :=
  match c.root with
  | none => (.error .noFolder, c)
  | some root =>
    let (result, c) := c.publish (scan root)
    (result.mapError .folder, c)

/-! ### The worker -/

/-- The coordinator with its session changed. -/
def onSession (c : Coordinator) (f : Session → Session) : Coordinator :=
  { c with session := c.session.map f }

/-- The worker looks at the clock and reloads if that is due; a reload that is
begun at `now` has finished at `done`. -/
def poll (c : Coordinator) (scan : Scan) (now done : Nat) : Coordinator :=
  match c.session with
  | none => c
  | some session =>
    let (tick, debouncer) := session.debouncer.poll now
    let c := { c with session := some { session with debouncer } }
    match tick with
    | .reload =>
      (c.publish (scan session.root)).2.onSession fun x =>
        { x with debouncer := x.debouncer.finish done }
    | _ => c

/-- The worker receives one change and looks at the clock. -/
def turn (c : Coordinator) (scan : Scan) (now done : Nat) : Coordinator :=
  (c.onSession fun x => x.receive c.settings now).poll scan now done

/-- The worker receives so many changes, all at once. -/
def turns (c : Coordinator) (scan : Scan) (now : Nat) : Nat → Coordinator
  | 0 => c
  | count + 1 => (c.turn scan now now).turns scan now count

/-- The worker receives all changes that were sent, and looks at the clock. -/
def catchUp (c : Coordinator) (scan : Scan) (now : Nat) : Coordinator :=
  (c.turns scan now (c.session.elim 0 (·.channel.length))).poll scan now now

/-- The time at which the next reload is due. -/
def deadline? (c : Coordinator) : Option Nat := c.session.bind (·.deadline?)

/-- The coordinator at `now`, when nothing came in since the worker last caught
up: a reload that fell due meanwhile was made at its time. -/
def advance (c : Coordinator) (scan : Scan) (now : Nat) : Coordinator :=
  match c.deadline? with
  | some deadline => if deadline ≤ now then c.poll scan deadline deadline else c
  | none => c

end Coordinator
end NativeHooks
