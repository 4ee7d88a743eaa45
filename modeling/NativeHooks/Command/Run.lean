/-
# Carrying out commands

A command sees a disk and may change it; it says what it found on one channel
and how it went on another.  It fails with an error, which is said on the second
channel too.
-/

import NativeHooks.Command.Listing
import NativeHooks.Command.Request
import NativeHooks.Hook.Bundle
import NativeHooks.Index.Folder
import NativeHooks.Index.Remote
import NativeHooks.Index.Search
import NativeHooks.Live.Coordinator

namespace NativeHooks

open Text

/-- Why a command fails. -/
inductive CommandError where
  /-- The header cannot be read. -/
  | header (file : Path) (cause : AccessError)
  /-- The folder does not exist. -/
  | noFolder (path : Path)
  | settings (error : SettingsError)
  | folder (error : FolderError)
  /-- There are no URLs in the settings. -/
  | noUrls
  /-- The header declares no methods. -/
  | noMethods (file : Path)
  /-- No method of the header has the name. -/
  | noMethod (name : String) (file : Path)
  /-- No accessor of the header is meant by the name. -/
  | noAccessor (name : String) (file : Path)
  /-- The file cannot be written. -/
  | unwritable (file : Path) (cause : AccessError)
  | reload (error : ReloadError)
  deriving DecidableEq, Repr

/-- The error in words. -/
def CommandError.message : CommandError → String
  | header file cause => file.text ++ ": " ++ cause.message
  | noFolder path => "Folder not found: " ++ path.text
  | settings error => error.message
  | folder error => error.message
  | noUrls => "No remote header URLs configured"
  | noMethods file => "No native-call functions in " ++ file.text
  | noMethod name file => "No function '" ++ name ++ "' in " ++ file.text
  | noAccessor name file => "No field '" ++ name ++ "' in " ++ file.text
  | unwritable file cause => "Could not write " ++ file.text ++ ": " ++ cause.message
  | reload error => error.message

/-- The line that is written when a command fails. -/
def CommandError.line (e : CommandError) : String := "error: " ++ e.message ++ "\n"

/-- What a command finds when it starts. -/
structure Surroundings where
  disk : Disk
  /-- The settings of a folder without a settings file. -/
  defaults : Settings
  /-- The text at a URL. -/
  fetchRemote : String → Except String String
  /-- What is entered while the command runs. -/
  input : String

/-- What a command says and leaves. -/
structure Reply where
  /-- What was asked for. -/
  output : String := ""
  /-- How it went. -/
  notes : String := ""
  disk : Disk

/-- What the program says and leaves. -/
structure Ending extends Reply where
  /-- Zero if all went well, one if the command failed, two if there was none. -/
  code : Nat

/-! ### One header -/

/-- What the header in a file declares. -/
def Disk.declarations (d : Disk) (file : Path) : Except CommandError Declarations :=
  match d.fetch file.text with
  | .ok text => .ok (Declarations.ofHeader text)
  | .error cause => .error (.header file cause)

/-- Lists what a header declares. -/
def scanCommand (d : Disk) (file : Path) (query : String) (json : Bool) :
    Except CommandError String := do
  let found ← d.declarations file
  let methods := found.findMethods query
  let accessors := found.findAccessors query
  return if json then found.jsonListing methods accessors else found.listing methods accessors

/-- The accessor is meant by its own name or the name of its field. -/
def Accessor.answersTo (a : Accessor) (name : String) : Bool :=
  a.name == name || a.fieldName? == some name

/-- The code for a target in a header. -/
def Declarations.codeFor (d : Declarations) (file : Path) (options : CodeOptions) :
    Target → Except CommandError String
  | .bundle =>
    if d.methods.isEmpty then .error (.noMethods file)
    else .ok (classBundle d.className d.methods options)
  | .accessor name =>
    match d.accessors.find? (·.answersTo name) with
    | some accessor => .ok accessor.usage
    | none => .error (.noAccessor name file)
  | .method name kind =>
    match d.methods.filter (·.name == name) with
    | [] => .error (.noMethod name file)
    | methods => .ok ("\n\n".intercalate (methods.map (·.code options kind)))

/-- The text with a line feed at its end. -/
def endLine (s : String) : String := if s.toList.getLast? = some '\n' then s else s ++ "\n"

/-- Generates code from a header. -/
def generateCommand (d : Disk) (file : Path) (target : Target) (options : CodeOptions)
    (output : Option Path) : Except CommandError Reply := do
  let found ← d.declarations file
  let code ← found.codeFor file options target
  match output with
  | none => return { output := endLine code, disk := d }
  | some path =>
    match d.write path (Content.ofString code) with
    | .ok disk => return { notes := "Wrote " ++ path.text ++ "\n", disk }
    | .error cause => .error (.unwritable path cause)

/-! ### Many headers -/

/-- The path from the root of a folder, by default the current one. -/
def Disk.folderPath (d : Disk) (folder : Option Path) : Except CommandError Path :=
  let path := folder.getD (Path.ofNames d.current)
  (d.realPath path).mapError fun _ => .noFolder path

/-- The settings of the file asked for, otherwise those of the folder. -/
def Disk.settings (d : Disk) (defaults : Settings) (file folder : Option Path) :
    Except CommandError Settings :=
  match file, folder with
  | some file, _ =>
    ((Settings.ofFile defaults d file).map (·.settings)).mapError .settings
  | none, some folder => .ok (Settings.ofFolder defaults d folder).settings
  | none, none => .ok defaults

/-- The settings for some headers and their index. -/
def indexOf (w : Surroundings) (settingsFile : Option Path) :
    Headers → Except CommandError (Settings × Outcome)
  | .remote => do
    let s ← w.disk.settings w.defaults settingsFile none
    match Outcome.ofRemote s.remoteLabel s.remoteUrls w.fetchRemote with
    | some outcome => return (s, outcome)
    | none => .error .noUrls
  | .folder folder => do
    let root ← w.disk.folderPath folder
    let s ← w.disk.settings w.defaults settingsFile (some root)
    return (s, ← (w.disk.index s root).mapError .folder)

/-- The entries or methods that are searched for. -/
def Index.listing (index : Index) (query : String) (entries : Bool) (cap : Nat) (json : Bool) :
    String :=
  if entries then
    let found := findFiles query index.files
    if json then jsonArray FileEntry.json found else unlines (found.map FileEntry.line)
  else
    let found := findMethods query cap index.methods
    if json then jsonArray Method.json found else unlines (found.map Method.indexLine)

/-- The report in full: the sources that could not be read have lines of their own. -/
def Report.lines (r : Report) : List String :=
  r.status :: r.unavailable.map ("  unavailable: " ++ ·)

/-- Indexes headers and lists what is searched for. -/
def indexCommand (w : Surroundings) (settingsFile : Option Path) (headers : Headers)
    (query : String) (entries : Bool) (limit : Option Nat) (json : Bool) :
    Except CommandError Reply := do
  let (s, outcome) ← indexOf w settingsFile headers
  return {
    output := outcome.index.listing query entries (limit.getD s.methodCap) json
    notes := unlines outcome.report.lines
    disk := w.disk }

/-! ### Watching -/

/-- A coordinator that watches a folder, with the first index; `start` says
whether watching can be started, and if not the folder is indexed all the same. -/
def openWatch (s : Settings) (isFolder : Path → Bool) (start : Path → Except WatchError Unit)
    (scan : Scan) (root : Path) : Except CommandError (Coordinator × List String) := do
  let fresh : Coordinator := { settings := s }
  match fresh.select isFolder root with
  | (.error e, _) => .error (.folder e)
  | (.ok (), selected) =>
    match (selected.watch isFolder start root).2.reloadNow scan with
    | (.error e, _) => .error (.reload e)
    | (.ok report, c) =>
      let verb := if c.isWatching then "Watching " else "Indexed "
      return (c, [report.status, verb ++ root.text ++ " (enter 'r' to reload, 'q' to quit)"])

/-- What is entered while a folder is watched. -/
inductive WatchInput where
  | quit
  | reload
  /-- Anything else asks how large the index is. -/
  | size
  deriving DecidableEq, Repr

/-- The input that a line gives. -/
def WatchInput.ofLine (line : String) : WatchInput :=
  let line := String.ofList (trim line.toList)
  if line = "q" || line = "quit" then .quit
  else if line = "r" || line = "reload" then .reload
  else .size

/-- The answer to a line that is entered; none ends the watch. -/
def Coordinator.answer (c : Coordinator) (scan : Scan) (line : String) :
    Option (Coordinator × String) :=
  match WatchInput.ofLine line with
  | .quit => none
  | .reload =>
    match c.reloadNow scan with
    | (.ok report, c) => some (c, report.status)
    | (.error e, c) => some (c, "error: " ++ e.message)
  | .size =>
    some (c, toString c.published.current.files.length ++ " files, "
      ++ toString c.published.current.methods.length ++ " functions")

/-- The answers to lines that are entered, and the coordinator after them. -/
def Coordinator.answers (c : Coordinator) (scan : Scan) : List String → Coordinator × List String
  | [] => (c, [])
  | line :: more =>
    match c.answer scan line with
    | none => (c, [])
    | some (c, answer) =>
      let (c, answers) := c.answers scan more
      (c, answer :: answers)

/-- The last line of a watch. -/
def Coordinator.farewell (c : Coordinator) : String :=
  "Stopped after " ++ toString c.reloads ++ " reloads"

/-- Watches a folder whose files do not change, until the input ends. -/
def watchCommand (w : Surroundings) (settingsFile folder : Option Path) :
    Except CommandError Reply := do
  let root ← w.disk.folderPath folder
  let s ← w.disk.settings w.defaults settingsFile (some root)
  let scan := w.disk.index s
  let (c, first) ← openWatch s w.disk.hasFolder (fun _ => .ok ()) scan root
  let (c, answers) := c.answers scan (readLines w.input)
  return { notes := unlines (first ++ answers ++ [c.farewell]), disk := w.disk }

/-! ### All commands -/

/-- Carries out a request. -/
def Request.run (r : Request) (w : Surroundings) : Except CommandError Reply :=
  match r.command with
  | .scan file query => do
    return { output := ← scanCommand w.disk file query r.json, disk := w.disk }
  | .generate file target options output => generateCommand w.disk file target options output
  | .index headers query entries limit =>
    indexCommand w r.settingsFile headers query entries limit r.json
  | .watch folder => watchCommand w r.settingsFile folder

/-- Carries out a command line. -/
def CommandLine.run (words : List String) (w : Surroundings) : Ending :=
  match CommandLine.request words with
  | .error .misuse => { notes := Stop.misuse.text, disk := w.disk, code := 2 }
  | .error stop => { output := stop.text, disk := w.disk, code := 0 }
  | .ok request =>
    match request.run w with
    | .error e => { notes := e.line, disk := w.disk, code := 1 }
    | .ok reply => { reply with code := 0 }

end NativeHooks
