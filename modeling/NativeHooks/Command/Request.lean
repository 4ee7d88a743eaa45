/-
# Commands

What the program can be asked to do, and how a command line asks for it.
-/

import NativeHooks.Command.Arguments
import NativeHooks.Hook.Code
import NativeHooks.Tree.Path

namespace NativeHooks

/-- What code is generated for. -/
inductive Target where
  /-- Every method of that name. -/
  | method (name : String) (kind : CodeKind)
  /-- An accessor by its name or the name of its field. -/
  | accessor (name : String)
  /-- All methods of the header. -/
  | bundle
  deriving DecidableEq, Repr

/-- Where headers are indexed. -/
inductive Headers where
  /-- In a folder, by default the current one. -/
  | folder (path : Option Path)
  /-- At the URLs of the settings. -/
  | remote
  deriving DecidableEq, Repr

/-- A command. -/
inductive Command where
  /-- List what a header declares. -/
  | scan (file : Path) (query : String)
  /-- Generate code from a header, into a file or for all to see. -/
  | generate (file : Path) (target : Target) (options : CodeOptions) (output : Option Path)
  /-- Index headers and search for methods or, if `entries`, for headers. -/
  | index (headers : Headers) (query : String) (entries : Bool) (limit : Option Nat)
  /-- Keep the index of a folder up to date. -/
  | watch (folder : Option Path)
  deriving DecidableEq, Repr

/-- A command and how to carry it out. -/
structure Request where
  command : Command
  /-- List as JSON. -/
  json : Bool
  /-- The settings file instead of that of the folder. -/
  settingsFile : Option Path
  deriving DecidableEq, Repr

/-- The kind of code that goes by a name. -/
def CodeKind.ofName? : String → Option CodeKind
  | "declare" => some .declaration
  | "stub" => some .stub
  | "pre" => some .preHook
  | "post" => some .postHook
  | "register" => some .registration
  | "unregister" => some .removal
  | "all" => some .all
  | "with-unregister" => some .allWithRemoval
  | _ => none

namespace CommandLine

/-- The number of at most 64 bits that a text gives in decimal. -/
def natural? (s : String) : Option Nat :=
  let digits := match s.toList with
    | '+' :: cs => cs
    | cs => cs
  if digits.isEmpty || !digits.all Char.isDigit then none
  else
    let n := digits.foldl (fun n c => 10 * n + (c.toNat - '0'.toNat)) 0
    if n < Nat.pow 2 64 then some n else none

/-- Any text. -/
def anyText : String → Bool := fun _ => true

/-- A path, which is not empty. -/
def isPath (s : String) : Bool := !s.isEmpty

/-- The options of a command. -/
def forms (command : String) : List OptionForm :=
  commonForms ++
    match command with
    | "scan" => [{ name := "query", value := some anyText }]
    | "generate" =>
      [{ name := "function", value := some anyText }, { name := "field", value := some anyText },
       { name := "all-functions" },
       { name := "mode", value := some fun s => (CodeKind.ofName? s).isSome },
       { name := "no-original" }, { name := "no-declare" },
       { name := "output", letter := some 'o', value := some isPath }]
    | "index" =>
      [{ name := "root", value := some isPath }, { name := "remote" },
       { name := "query", value := some anyText }, { name := "files" },
       { name := "limit", value := some fun s => (natural? s).isSome }]
    | "watch" => [{ name := "root", value := some isPath }]
    | _ => []

/-- The one operand, which is a path. -/
def operand (w : Words) : Except Stop Path :=
  match w.operands with
  | [file] => if isPath file then .ok (Path.ofString file) else .error .misuse
  | _ => .error .misuse

/-- The path that an option gives. -/
def path? (w : Words) (name : String) : Option Path := (w.get? name).map Path.ofString

/-- The target of `generate`; exactly one is given. -/
def target (w : Words) : Except Stop Target :=
  match w.get? "function", w.get? "field", w.has "all-functions" with
  | some name, none, false =>
    .ok (.method name (((w.get? "mode").bind CodeKind.ofName?).getD .all))
  | none, some name, false => .ok (.accessor name)
  | none, none, true => .ok .bundle
  | _, _, _ => .error .misuse

/-- The command of that name with these words. -/
def command (name : String) (w : Words) : Except Stop Command :=
  match name with
  | "scan" => do return .scan (← operand w) ((w.get? "query").getD "")
  | "generate" => do
    let options := { callsMethod := !w.has "no-original", declares := !w.has "no-declare" }
    return .generate (← operand w) (← target w) options (path? w "output")
  | "index" =>
    if w.has "root" && w.has "remote" then .error .misuse
    else
      let headers := if w.has "remote" then .remote else .folder (path? w "root")
      .ok (.index headers ((w.get? "query").getD "") (w.has "files")
        ((w.get? "limit").bind natural?))
  | "watch" => .ok (.watch (path? w "root"))
  | _ => .error .misuse

/-- The number of operands that a command takes. -/
def operandCount (command : String) : Nat :=
  if command = "scan" || command = "generate" then 1 else 0

/-- The names of the commands. -/
def commandNames : List String := ["scan", "generate", "index", "watch"]

/-- What asking for help with these words comes to: they may name one command. -/
def helpOn (words : List String) : Stop :=
  match words with
  | [] => .help
  | [name] => if (["help", "completions"] ++ commandNames).contains name then .help else .misuse
  | _ => .misuse

/-- The request that a command line makes.  An option that every command has and
that is given both before and after the name of the command counts as it is given
after it. -/
def request (words : List String) : Except Stop Request := do
  let (before, rest) ← readWords (commonForms ++ [{ name := "version", letter := some 'V' }]) 0
    {} none words
  match rest with
  | [] => .error .misuse
  | name :: words =>
    if name = "help" then .error (helpOn words)
    else if !commandNames.contains name then .error .misuse
    else
      let (w, rest) ← readWords (forms name) (operandCount name) {} none words
      if !rest.isEmpty then .error .misuse
      else
        let command ← command name w
        return { command, json := before.has "json" || w.has "json"
                 settingsFile := path? w "config" <|> path? before "config" }

end CommandLine
end NativeHooks
