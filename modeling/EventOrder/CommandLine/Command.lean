import EventOrder.CommandLine.Options
import EventOrder.Number.Power
import EventOrder.Search.Basic

/-!
# Commands

What can be asked for on the command line: to explore a program, to validate it or to format it.
-/

namespace EventOrder.CommandLine

/-- What a command may be told. -/
structure Settings where
  /-- The program's file. -/
  file : String := ""
  /-- How to explore. -/
  config : ExploreConfig := {}
  /-- How many events may be executed; 0 for any number. -/
  limit : Nat := Search.defaultLimit
  /-- Whether the figures are written as JSON. -/
  asJson : Bool := false
  /-- Whether every execution is listed. -/
  verbose : Bool := false
  /-- Whether the file is replaced. -/
  inPlace : Bool := false
deriving DecidableEq, Repr, Inhabited

/-- A command. -/
inductive Command where
  /-- Explores a program. -/
  | run
  /-- Validates a program. -/
  | validate
  /-- Formats a program. -/
  | format
deriving DecidableEq, Repr, Inhabited

/-- What is asked for. -/
inductive Request where
  /-- A command is to be carried out. -/
  | perform (command : Command) (settings : Settings)
  /-- The version is to be shown. -/
  | version
  /-- The usage is to be shown. -/
  | help
deriving DecidableEq, Repr, Inhabited

/-- An unsigned number of 64 bits, in decimal digits and possibly with a plus sign. -/
def readUnsigned (text : String) : Option Nat :=
  let digits :=
    match text.toList with
    | '+' :: rest => rest
    | all => all
  let value := digits.foldl (fun value c => value * 10 + (c.toNat - '0'.toNat)) 0
  if !digits.isEmpty && digits.all Char.isDigit && value < 2 ^ 64 then some value else none

/-- A path, which is not empty. -/
def readPath (text : String) : Option String := if text.isEmpty then none else some text

namespace Settings

/-- Every command can be asked for help. -/
def helpOption : OptionSpec Settings := ⟨"help", some 'h', .help⟩

/-- The options of an exploration. -/
def runOptions : List (OptionSpec Settings) := [
  ⟨"no-reduction", none,
    .flag fun settings =>
      { settings with config := { settings.config with stateReduction := false } }⟩,
  ⟨"max-time", none, .value fun text settings => do
    let maxTimeSeconds ← readUnsigned text
    return { settings with config := { settings.config with maxTimeSeconds } }⟩,
  ⟨"max-depth", none, .value fun text settings => do
    let maxDepth ← readUnsigned text
    return { settings with config := { settings.config with maxDepth } }⟩,
  ⟨"max-transitions", none, .value fun text settings => do
    return { settings with limit := ← readUnsigned text }⟩,
  ⟨"report", none, .value fun text settings => do
    let path ← readPath text
    return { settings with config := { settings.config with reportPath := some path } }⟩,
  ⟨"json", none, .flag fun settings => { settings with asJson := true }⟩,
  ⟨"verbose", some 'v', .flag fun settings => { settings with verbose := true }⟩,
  helpOption]

/-- The options of formatting. -/
def formatOptions : List (OptionSpec Settings) :=
  [⟨"write", some 'w', .flag fun settings => { settings with inPlace := true }⟩, helpOption]

/-- A command with the given options and a file. -/
def shape (options : List (OptionSpec Settings)) : CommandShape Settings :=
  ⟨options, "FILE", fun text settings => do return { settings with file := ← readPath text }⟩

end Settings

namespace Command

/-- Every command. -/
def all : List Command := [.run, .validate, .format]

/-- The word for a command. -/
def name : Command → String
  | .run => "run"
  | .validate => "validate"
  | .format => "format"

/-- The command for a word. -/
def ofName? (name : String) : Option Command := all.find? (·.name == name)

/-- What a command may be given. -/
def shape : Command → CommandShape Settings
  | .run => Settings.shape Settings.runOptions
  | .validate => Settings.shape [Settings.helpOption]
  | .format => Settings.shape Settings.formatOptions

end Command

namespace Request

/-- Understands the words after a command. -/
def ofWords (command : Command) (words : List String) : Except UsageError Request :=
  match command.shape.read {} words with
  | .ok settings => .ok (.perform command settings)
  | .error .help => .ok .help
  | .error (.misused error) => .error error

/-- Understands a request for help, which may name a command. -/
def ofHelpTopic : List String → Except UsageError Request
  | [] => .ok .help
  | [topic] =>
    if topic = "help" || (Command.ofName? topic).isSome then .ok .help
    else .error (.unknownCommand topic)
  | _ :: extra :: _ => .error (.unknownCommand extra)

/-- Understands a command line. -/
def ofArguments : List String → Except UsageError Request
  | [] => .error .commandMissing
  | word :: words =>
    match Word.ofText word with
    | .option "version" none => .ok .version
    | .option "help" none => .ok .help
    | .option name (some _) =>
      if name = "version" || name = "help" then .error (.unexpectedValue name)
      else .error (.unknownOption word)
    | .letters ('V' :: _) => .ok .version
    | .letters ('h' :: _) => .ok .help
    | .option _ none => .error (.unknownOption word)
    | .letters _ => .error (.unknownOption word)
    | .divider => .error .commandMissing
    | .argument "help" => ofHelpTopic words
    | .argument name =>
      match Command.ofName? name with
      | some command => ofWords command words
      | none => .error (.unknownCommand name)

end Request

end EventOrder.CommandLine
