/-
# Reading a command line

A command line names a command, before it options that every command has and
after it the options and operands of the command.  An option is written
`--name value` or `--name=value`, some also with one dash and one letter; a word
that starts with a dash is never taken as the value of the word before it.
After `--` all words are operands.  No option may be given twice.
-/

namespace NativeHooks
namespace CommandLine

/-- Why a command line is not carried out. -/
inductive Stop where
  /-- It asks for help. -/
  | help
  /-- It asks for the version. -/
  | version
  /-- It is no command line. -/
  | misuse
  deriving DecidableEq, Repr, Inhabited

/-- The name of the program and its version. -/
def versionText : String := "hookgen 0.1.0\n"

/-- How the program is used. -/
def helpText : String :=
  "\n".intercalate
    ["Usage: hookgen [--json] [--config <CONFIG>] <COMMAND>", "",
     "Commands:",
     "  scan <FILE> [--query <QUERY>]",
     "  generate <FILE> (--function <NAME> | --field <NAME> | --all-functions)",
     "           [--mode <MODE>] [--no-original] [--no-declare] [-o <OUTPUT>]",
     "  index [--root <ROOT> | --remote] [--query <QUERY>] [--files] [--limit <LIMIT>]",
     "  watch [--root <ROOT>]", "",
     "Modes: declare, stub, pre, post, register, unregister, all, with-unregister", ""]

/-- What is written instead of carrying out a command. -/
def Stop.text : Stop → String
  | .help => helpText
  | .version => versionText
  | .misuse => helpText

/-- An option that may be given. -/
structure OptionForm where
  name : String
  /-- The letter it is written with after one dash. -/
  letter : Option Char := none
  /-- Whether it has a value, and which. -/
  value : Option (String → Bool) := none

/-- What a command line has been found to hold: names of options with their
values, empty for those that have none, and operands. -/
structure Words where
  options : List (String × String) := []
  operands : List String := []
  deriving DecidableEq, Repr

namespace Words

/-- An option with that name is given. -/
def has (w : Words) (name : String) : Bool := w.options.any fun o => o.1 == name

/-- The value of an option. -/
def get? (w : Words) (name : String) : Option String := w.options.lookup name

/-- The words with an option added, which must not be there yet. -/
def add (w : Words) (form : OptionForm) (value : String) : Except Stop Words :=
  if w.has form.name || !form.value.all (· value) then .error .misuse
  else .ok { w with options := w.options ++ [(form.name, value)] }

end Words

/-- A word by its form. -/
inductive WordKind where
  /-- The word `--` alone. -/
  | escape
  /-- An option, and what is written behind it in the same word. -/
  | option (form : OptionForm) (attached : Option String)
  /-- Something that looks like an option. -/
  | unknown
  | operand

/-- What stands before and after the first `=`. -/
def splitAtEquals (cs : List Char) : List Char × Option (List Char) :=
  match cs.dropWhile (· != '=') with
  | [] => (cs, none)
  | _ :: value => (cs.takeWhile (· != '='), some value)

/-- The form of a word. -/
def wordKind (forms : List OptionForm) (word : String) : WordKind :=
  match word.toList with
  | ['-', '-'] => .escape
  | '-' :: '-' :: cs =>
    let (name, value) := splitAtEquals cs
    match forms.find? fun f => f.name.toList = name with
    | some form => .option form (value.map String.ofList)
    | none => .unknown
  | '-' :: c :: cs =>
    match forms.find? fun f => f.letter = some c with
    | some form =>
      .option form
        (match form.value, cs with
          | none, _ => none
          | some _, [] => none
          | some _, '=' :: value => some (String.ofList value)
          | some _, value => some (String.ofList value))
    | none => .unknown
  | _ => .operand

/-- A word that may be the value of the option before it. -/
def mayBeValue (word : String) : Bool :=
  match word.toList with
  | '-' :: _ :: _ => false
  | _ => true

/-- The options that every command has. -/
def commonForms : List OptionForm :=
  [{ name := "json" }, { name := "config", value := some (! ·.isEmpty) },
   { name := "help", letter := some 'h' }]

/-- Reads words.  At most `limit` operands may come; with none allowed the first
one ends the options, and it is returned with the words after it.  `waiting` is
an option whose value comes next. -/
def readWords (forms : List OptionForm) (limit : Nat) (found : Words)
    (waiting : Option OptionForm) : List String → Except Stop (Words × List String)
  | [] => if waiting.isSome then .error .misuse else .ok (found, [])
  | word :: words =>
    match waiting with
    | some form =>
      if mayBeValue word then do
        readWords forms limit (← found.add form word) none words
      else .error .misuse
    | none =>
      match wordKind forms word with
      | .escape =>
        if limit < found.operands.length + words.length then .error .misuse
        else .ok ({ found with operands := found.operands ++ words }, [])
      | .operand =>
        if limit = 0 then .ok (found, word :: words)
        else if limit ≤ found.operands.length then .error .misuse
        else readWords forms limit { found with operands := found.operands ++ [word] } none words
      | .unknown => .error .misuse
      | .option form attached =>
        match form.value, attached with
        | some _, some value => do readWords forms limit (← found.add form value) none words
        | some _, none => readWords forms limit found (some form) words
        | none, some _ => .error .misuse
        | none, none =>
          if form.name = "help" then .error .help
          else if form.name = "version" then .error .version
          else do readWords forms limit (← found.add form "") none words

end CommandLine
end NativeHooks
