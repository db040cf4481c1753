/-!
# Options

How the words after a command are understood. A word that starts with two dashes is an option,
which may carry its value after an equals sign; one that starts with a single dash is a group of
one-letter options; any other word, a lone dash included, is an argument. After a word of two
dashes all words are arguments. No option may be given twice.
-/

namespace EventOrder.CommandLine

/-- Why a command line is not understood. -/
inductive UsageError where
  /-- There is no command. -/
  | commandMissing
  /-- There is no command of that name. -/
  | unknownCommand (name : String)
  /-- There is no such option. -/
  | unknownOption (option : String)
  /-- There is one argument too many. -/
  | extraArgument (argument : String)
  /-- An argument is not given. -/
  | missingArgument (label : String)
  /-- An option lacks its value. -/
  | missingValue (option : String)
  /-- An option that takes no value was given one. -/
  | unexpectedValue (option : String)
  /-- An option is given twice. -/
  | repeatedOption (option : String)
  /-- A value is not allowed. -/
  | badValue (label value : String)
deriving DecidableEq, Repr, Inhabited

/-- The wording of a usage error. -/
def UsageError.message : UsageError → String
  | .commandMissing => "a command is required"
  | .unknownCommand name => "unrecognized command '" ++ name ++ "'"
  | .unknownOption option => "unexpected option '" ++ option ++ "'"
  | .extraArgument argument => "unexpected argument '" ++ argument ++ "'"
  | .missingArgument label => "the argument <" ++ label ++ "> is required"
  | .missingValue option => "a value is required for '--" ++ option ++ "'"
  | .unexpectedValue option => "'--" ++ option ++ "' takes no value"
  | .repeatedOption option => "'--" ++ option ++ "' cannot be used multiple times"
  | .badValue label value => "invalid value '" ++ value ++ "' for '" ++ label ++ "'"

/-- Why the reading of words stops early. -/
inductive Stop where
  /-- Help is asked for. -/
  | help
  /-- The words are not understood. -/
  | misused (error : UsageError)
deriving DecidableEq, Repr, Inhabited

/-- A word of a command line. -/
inductive Word where
  /-- An option by its name, with the value after its equals sign. -/
  | option (name : String) (value : Option String)
  /-- A group of one-letter options. -/
  | letters (letters : List Char)
  /-- The mark after which all words are arguments. -/
  | divider
  /-- An argument. -/
  | argument (text : String)
deriving DecidableEq, Repr, Inhabited

namespace Word

/-- An option without its dashes: its name ends at the first equals sign. -/
def ofOption (text : List Char) : Word :=
  .option (String.ofList (text.takeWhile (· != '=')))
    (match text.dropWhile (· != '=') with
    | [] => none
    | _ :: value => some (String.ofList value))

/-- What a word is. -/
def ofText (text : String) : Word :=
  match text.toList with
  | ['-', '-'] => .divider
  | '-' :: '-' :: rest => ofOption rest
  | '-' :: letter :: rest => .letters (letter :: rest)
  | _ => .argument text

end Word

/-- What an option does to settings of type `δ`. -/
inductive OptionAction (δ : Type) where
  /-- Asks for help. -/
  | help
  /-- Changes the settings. -/
  | flag (set : δ → δ)
  /-- Takes a value into the settings, if it is allowed. -/
  | value (set : String → δ → Option δ)

/-- An option of a command. -/
structure OptionSpec (δ : Type) where
  /-- The name, which is written after two dashes. -/
  name : String
  /-- The letter that a flag may be given by. -/
  letter : Option Char
  /-- What the option does. -/
  action : OptionAction δ

/-- What a command may be given: options and one argument. -/
structure CommandShape (δ : Type) where
  /-- The options. -/
  options : List (OptionSpec δ)
  /-- What the argument is called. -/
  label : String
  /-- Takes the argument into the settings, if it is allowed. -/
  set : String → δ → Option δ

/-- The settings read so far. -/
structure Progress (δ : Type) where
  /-- The settings. -/
  settings : δ
  /-- The names of the options given. -/
  given : List String
  /-- Whether the argument was given. -/
  hasArgument : Bool

namespace CommandShape

variable {δ : Type}

/-- Notes that an option was given and takes over the settings that it makes. -/
def note (name : String) (settings : δ) (progress : Progress δ) : Except Stop (Progress δ) :=
  if progress.given.contains name then .error (.misused (.repeatedOption name))
  else .ok { progress with settings, given := name :: progress.given }

/-- Takes the value of an option. -/
def takeValue (name : String) (set : String → δ → Option δ) (value : String)
    (progress : Progress δ) : Except Stop (Progress δ) :=
  match set value progress.settings with
  | some settings => note name settings progress
  | none => .error (.misused (.badValue ("--" ++ name) value))

/-- Takes an option that stands without a value. -/
def takeFlag (spec : OptionSpec δ) (progress : Progress δ) : Except Stop (Progress δ) :=
  match spec.action with
  | .help => .error .help
  | .flag set => note spec.name (set progress.settings) progress
  | .value _ => .error (.misused (.missingValue spec.name))

/-- Takes a group of one-letter options. -/
def takeLetters (shape : CommandShape δ) : List Char → Progress δ → Except Stop (Progress δ)
  | [], progress => .ok progress
  | letter :: letters, progress =>
    match shape.options.find? (·.letter == some letter) with
    | none => .error (.misused (.unknownOption (String.ofList ['-', letter])))
    | some spec => do takeLetters shape letters (← takeFlag spec progress)

/-- Takes the argument. -/
def takeArgument (shape : CommandShape δ) (argument : String) (progress : Progress δ) :
    Except Stop (Progress δ) :=
  if progress.hasArgument then .error (.misused (.extraArgument argument))
  else
    match shape.set argument progress.settings with
    | some settings => .ok { progress with settings, hasArgument := true }
    | none => .error (.misused (.badValue shape.label argument))

/-- Takes words that are all arguments. -/
def takeArguments (shape : CommandShape δ) : List String → Progress δ → Except Stop (Progress δ)
  | [], progress => .ok progress
  | word :: words, progress => do takeArguments shape words (← shape.takeArgument word progress)

/-- Takes the words after a command. An option that takes a value takes the next word when it has
no value of its own and that word is an argument. -/
def takeWords (shape : CommandShape δ) : List String → Progress δ → Except Stop (Progress δ)
  | [], progress => .ok progress
  | word :: words, progress =>
    match Word.ofText word with
    | .divider => shape.takeArguments words progress
    | .letters letters => do takeWords shape words (← shape.takeLetters letters progress)
    | .argument argument => do takeWords shape words (← shape.takeArgument argument progress)
    | .option name value? =>
      match shape.options.find? (·.name == name) with
      | none => .error (.misused (.unknownOption word))
      | some spec =>
        match spec.action, value? with
        | .value set, some value => do takeWords shape words (← takeValue name set value progress)
        | .value set, none =>
          match words with
          | [] => .error (.misused (.missingValue name))
          | next :: rest =>
            match Word.ofText next with
            | .argument value => do takeWords shape rest (← takeValue name set value progress)
            | _ => .error (.misused (.missingValue name))
        | _, some _ => .error (.misused (.unexpectedValue name))
        | _, none => do takeWords shape words (← takeFlag spec progress)

/-- The settings that the words after a command make; the argument has to be given. -/
def read (shape : CommandShape δ) (settings : δ) (words : List String) : Except Stop δ := do
  let progress ← shape.takeWords words ⟨settings, [], false⟩
  if progress.hasArgument then return progress.settings
  else throw (.misused (.missingArgument shape.label))

end CommandShape

end EventOrder.CommandLine
