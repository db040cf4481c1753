import EventOrder.Clock
import EventOrder.CommandLine.Response
import EventOrder.Program.Printer
import EventOrder.Search.Run

/-!
# Carrying out commands

The commands on a store of files with a clock.
-/

namespace EventOrder.CommandLine

/-- The version, as it is shown. -/
def versionText : String := "evdpor 0.1.0"

/-- How the program is used. -/
def usageLines : List String := [
  "Usage:",
  "  evdpor run [OPTIONS] <FILE>      Explore a program",
  "  evdpor validate <FILE>           Validate a program file",
  "  evdpor format [OPTIONS] <FILE>   Format a program file",
  "",
  "Options of run:",
  "      --no-reduction         Run the exhaustive search",
  "      --max-time <N>         Wall-clock budget in seconds (0 = unlimited)",
  "      --max-depth <N>        Maximum transitions per execution (0 = unlimited)",
  "      --max-transitions <N>  Maximum events executed over the whole search (0 = unlimited)",
  "      --report <PATH>        Append the search summary to this file",
  "      --json                 Print the summary as JSON",
  "  -v, --verbose              Show verbose output",
  "",
  "Options of format:",
  "  -w, --write                Write output to file instead of stdout"]

/-- How an outcome is shown. -/
def outcomeText : Outcome → String
  | .complete => "COMPLETE"
  | .limitReached => "TRANSITION LIMIT REACHED"

/-- How an event is shown: by its name. -/
def eventText (program : Program) (event : Event) : String :=
  match program.events[event.number]? with
  | some body => body.name
  | none => event.text

/-- The lines that list the executions: the state and the order that each started with. -/
def executionLines (program : Program) (history : Array ExecutionStart) : List String :=
  history.toList.zipIdx.map fun (start, index) =>
    "  execution " ++ toString index ++ ": " ++ start.state.text ++ " [" ++
      ", ".intercalate (start.schedule.map (eventText program)) ++ "]"

/-- The figures as JSON, the fields in the order of their names. -/
def figuresTree (result : SearchResult) (states : Nat) : Json.Tree :=
  let summary := result.summary
  .object [
    ("backtrack_points", .ofInt summary.backtrackPoints),
    ("events", .ofInt summary.events),
    ("executions", .ofInt summary.executions),
    ("result", .text (outcomeText result.outcome)),
    ("state_reduction", .boolean summary.stateReduction),
    ("states", .ofInt states),
    ("transitions", .ofInt summary.transitions),
    ("unique_transitions", .ofInt summary.uniqueTransitions)]

/-- The lines that show the figures. -/
def figureLines (result : SearchResult) (states elapsed : Nat) : List String :=
  ["", "Result: " ++ outcomeText result.outcome] ++
    result.summary.lines.map ("  " ++ ·) ++
    ["  States seen: " ++ toString states, "  Time: " ++ secondsText elapsed ++ "s"]

variable {m : Type → Type} [Monad m] [FileStore m]

/-- Loads the program in a file. -/
def load (file : String) : m (Except Failure Program) := do
  match ← FileStore.read? file with
  | none => return .error (.unreadable file)
  | some source =>
    match Program.load source with
    | .ok program => return .ok program
    | .error (.unreadable fault) => return .error (.unparsable file source fault)
    | .error (.illFormed violation) => return .error (.invalid violation)

/-- The response to an exploration that was run to its end. -/
def explored (program : Program) (settings : Settings) (search : Search) (result : SearchResult)
    (elapsed : Nat) : Response where
  lines :=
    let states := search.machine.statesSeen
    (if settings.verbose then executionLines program search.explorer.history else []) ++
      if settings.asJson then [(figuresTree result states).compact]
      else figureLines result states elapsed
  status :=
    match result.outcome with
    | .complete => .done
    | .limitReached => .cutShort

/-- Explores a program. -/
def explore [Clock m] (settings : Settings) (program : Program) : m Response := do
  match Search.start program settings.config settings.limit with
  | .error violation => return (Failure.invalid violation).response
  | .ok search =>
    let started ← Clock.now
    match ← search.run with
    | (_, .error error) => return (Failure.stopped error).response
    | (search, .ok result) =>
      return explored program settings search result ((← Clock.now) - started)

/-- Says that a program is well formed. -/
def validated (program : Program) : Response where
  lines := [
    "program " ++ program.name ++ ": " ++ toString program.declarations.length ++ " variables, " ++
      toString program.eventCount ++ " events",
    "validate: ok"]
  status := .done

/-- Formats a program. -/
def formatted (settings : Settings) (program : Program) : m Response := do
  if settings.inPlace then
    if ← FileStore.write settings.file (program.pretty ++ "\n") then return ⟨[], .done⟩
    else return (Failure.unwritable settings.file).response
  else return ⟨[program.pretty], .done⟩

/-- Carries out a command. -/
def Command.perform [Clock m] (command : Command) (settings : Settings) : m Response := do
  match ← load settings.file with
  | .error failure => return failure.response
  | .ok program =>
    match command with
    | .run => explore settings program
    | .validate => return validated program
    | .format => formatted settings program

/-- Answers a command line. -/
def respond [Clock m] (arguments : List String) : m Response := do
  match Request.ofArguments arguments with
  | .error error => return (Failure.usage error).response
  | .ok .version => return ⟨[versionText], .done⟩
  | .ok .help => return ⟨usageLines, .done⟩
  | .ok (.perform command settings) => command.perform settings

end EventOrder.CommandLine
