/-
# The program

What a request may need is read from the operating system into a disk, the
request is carried out on that, and what it says and writes is passed on.  A
watched folder is looked at four times a second.
-/

import NativeHooks.Command.Run
import NativeHooks.Live.Observation
import NativeHooks.Tree.Building

namespace NativeHooks
namespace Program

/-- Which folders are entered, and of which files the content is wanted. -/
structure Interest where
  enters : String → Bool := fun _ => true
  reads : String → Bool := fun _ => true

/-- Nothing but whether there is a file or a folder. -/
def Interest.none : Interest := { enters := fun _ => false, reads := fun _ => false }

/-- What the settings ask to be indexed. -/
def Interest.headers (s : Settings) : Interest :=
  { enters := fun name => !s.skips name
    reads := fun name => name == settingsFileName || s.isHeader (Path.ofString name) }

/-- The content of a file; one that is too long to be scanned is not read. -/
def content (path : String) (size : Nat) : IO Content := do
  if maxSourceBytes < size then return { zeros := size }
  else return { bytes := (← IO.FS.readBinFile path).toList }

/-- What is at a path, as far as it is of interest. -/
partial def look (interest : Interest) (path : String) : IO Tree := do
  let real ← IO.FS.realPath path
  let info ← real.metadata
  match info.type with
  | .dir =>
    let mut entries := []
    for entry in ← real.readDir do
      let name := Path.ofString entry.fileName
      let info ← entry.path.symlinkMetadata
      match info.type with
      | .dir =>
        if interest.enters entry.fileName then
          entries := (name, ← look interest entry.path.toString) :: entries
      | .file =>
        let found ←
          if interest.reads entry.fileName then
            content entry.path.toString info.byteSize.toNat
          else pure {}
        entries := (name, .file found) :: entries
      | _ => pure ()
    return .folder entries
  | _ => return .file (← content real.toString info.byteSize.toNat)

/-- The disk with what the operating system has at a path, or at the nearest
folder above it. -/
partial def mount (interest : Interest) (d : Disk) (path : Path) : IO Disk := do
  match ← (IO.FS.realPath path.text).toBaseIO with
  | .ok real =>
    let real := Path.ofString real.toString
    let d := ((d.set real (← look interest real.text)).toOption).getD d
    match d.realPath path with
    | .ok _ => return d
    | .error _ => return ((d.set path (.link real)).toOption).getD d
  | .error _ =>
    let above : Path := [slash].intercalate path.names.dropLast
    if above.isEmpty || d.has above then return d else mount .none d above

/-- The disk before anything has been looked at. -/
def bareDisk : IO Disk := do
  let current := Path.ofString (← IO.currentDir).toString
  let d : Disk := { current := current.names.filter (! ·.isEmpty) }
  return ((d.makeFolders current).toOption).getD d

/-- The settings of a folder that has no settings file. -/
def defaults : Settings := Settings.default 1

/-- The disk with what indexing a folder needs.  The settings decide what of the
folder is read, and their file may be in it. -/
def folderDisk (d : Disk) (settingsFile folder : Option Path) : IO Disk := do
  let path := folder.getD (Path.ofNames d.current)
  let file := settingsFile.getD (path.join (Path.ofString settingsFileName))
  let first ← mount {} (← mount .none d path) file
  let root := (first.folderPath folder).toOption
  let s := ((first.settings defaults settingsFile root).toOption).getD defaults
  mount {} (← mount (.headers s) first path) file

/-- The disk with what a request needs. -/
def diskFor (r : Request) : IO Disk := do
  let d ← bareDisk
  match r.command with
  | .scan file _ => mount {} d file
  | .generate file _ _ output =>
    let d ← match output with
      | some path => mount .none d path
      | none => pure d
    mount {} d file
  | .index (.folder folder) .. => folderDisk d r.settingsFile folder
  | .index .remote .. =>
    match r.settingsFile with
    | some file => mount {} d file
    | none => pure d
  | .watch folder => folderDisk d r.settingsFile folder

/-- Writes to the channel that says how it goes. -/
def say (text : String) : IO Unit := do (← IO.getStderr).putStr text

/-- What comes of a command line on a disk, when nothing is entered. -/
def ending (words : List String) (d : Disk) : Ending :=
  CommandLine.run words
    { disk := d, defaults, input := ""
      fetchRemote := fun _ => .error "there is no access to the network" }

/-- Says how it ended. -/
def conclude (e : Ending) : IO UInt32 := do
  say e.notes
  (← IO.getStdout).putStr e.output
  return e.code.toUInt32

/-- Carries out a request that needs no input.  A file that it writes is written
before anything is said. -/
def carryOut (words : List String) (r : Request) : IO UInt32 := do
  let e := ending words (← diskFor r)
  if let .generate _ _ _ (some output) := r.command then
    if e.code = 0 then
      if let .ok written := e.disk.read output then
        IO.FS.writeBinFile output.text ⟨written.bytes.toArray⟩
  conclude e

/-- A watched folder: the coordinator and the last look at the folder. -/
structure Watched where
  coordinator : Coordinator
  disk : Disk
  ended : Bool := false

namespace Watched

/-- The scan of the folder as it was last seen. -/
def scan (w : Watched) : Scan := w.disk.index w.coordinator.settings

/-- The folder has been looked at again. -/
def refresh (w : Watched) (root : Path) (disk : Disk) (now : Nat) : Watched :=
  let changes :=
    match w.disk.find root, disk.find root with
    | .ok (_, old), .ok (_, new) => old.changes root new
    | _, _ => []
  let w := { w with disk }
  let told := changes.foldl (fun c change => (c.notify change).2) w.coordinator
  { w with coordinator := (told.advance w.scan now).catchUp w.scan now }

end Watched

/-- Looks at a watched folder again and again until the watch has ended. -/
partial def observe (state : IO.Ref Watched) (root : Path) : IO Unit := do
  IO.sleep 250
  if (← state.get).ended then return
  let s := (← state.get).coordinator.settings
  if let .ok disk ← (mount (.headers s) (← state.get).disk root).toBaseIO then
    let now ← IO.monoMsNow
    state.modify fun w => w.refresh root disk now
  observe state root

/-- Answers the lines that are entered while a folder is watched. -/
partial def converse (state : IO.Ref Watched) (root : Path) (input : IO.FS.Stream) : IO Unit := do
  let line ← input.getLine
  if line.isEmpty then return
  let s := (← state.get).coordinator.settings
  let disk ← mount (.headers s) (← state.get).disk root
  let answer ← state.modifyGet fun w =>
    match w.coordinator.answer (disk.index s) line with
    | none => (none, { w with ended := true })
    | some (coordinator, answer) => (some answer, { w with coordinator })
  if let some answer := answer then
    say (answer ++ "\n")
    converse state root input

/-- Watches a folder. -/
def watch (r : Request) (folder : Option Path) : IO UInt32 := do
  let d ← diskFor r
  let opened := do
    let root ← d.folderPath folder
    let s ← d.settings defaults r.settingsFile (some root)
    let (c, lines) ← openWatch s d.hasFolder (fun _ => .ok ()) (d.index s) root
    return (root, c, lines)
  match opened with
  | .error e =>
    say e.line
    return 1
  | .ok (root, coordinator, lines) =>
    say (Text.unlines lines)
    let state ← IO.mkRef { coordinator, disk := d : Watched }
    let _ ← IO.asTask (observe state root)
    converse state root (← IO.getStdin)
    state.modify fun w => { w with ended := true, coordinator := w.coordinator.stop }
    say ((← state.get).coordinator.farewell ++ "\n")
    return 0

/-- Carries out a command line. -/
def run (words : List String) : IO UInt32 := do
  match CommandLine.request words with
  | .error _ => conclude (ending words {})
  | .ok request =>
    match request.command with
    | .watch folder => watch request folder
    | _ => carryOut words request

end Program
end NativeHooks

/-- Carries out the words after the name of the program. -/
def main (words : List String) : IO UInt32 := NativeHooks.Program.run words
