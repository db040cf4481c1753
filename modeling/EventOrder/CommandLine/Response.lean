import EventOrder.CommandLine.Command
import EventOrder.CommandLine.Location
import EventOrder.Program.Reader

/-!
# Responses

What comes of a command line: lines for standard output, and how the command ended.
-/

namespace EventOrder.CommandLine

/-- Why a command fails. -/
inductive Failure where
  /-- The command line is not understood. -/
  | usage (error : UsageError)
  /-- A file cannot be read. -/
  | unreadable (file : String)
  /-- A file cannot be written. -/
  | unwritable (file : String)
  /-- A file holds no program. -/
  | unparsable (file source : String) (fault : Json.Fault)
  /-- The program is not well formed. -/
  | invalid (violation : Violation)
  /-- The exploration was stopped. -/
  | stopped (error : ExplorationError)
deriving DecidableEq, Repr, Inhabited

namespace Failure

/-- The code that a failure is shown with. -/
def code? : Failure → Option String
  | .usage _ => none
  | .unreadable _ => none
  | .unwritable _ => none
  | .unparsable _ _ _ => some "evdpor::parse_error"
  | .invalid _ => some "evdpor::invalid_program"
  | .stopped _ => some "evdpor::explore_error"

/-- The stretch of the file's text that a failure is pointed at. -/
def span? : Failure → Option Span
  | .unparsable _ source fault => some (Span.ofPosition source fault.position)
  | _ => none

/-- Where a failure is pointed at. -/
def location? (failure : Failure) : Option String :=
  match failure with
  | .unparsable file source _ => failure.span?.map (locationText file source)
  | _ => none

/-- The wording of a failure. -/
def message : Failure → String
  | .usage error => error.message
  | .unreadable file => "failed to read file: " ++ file
  | .unwritable file => "failed to write file: " ++ file
  | .unparsable _ _ fault => "parse error: " ++ fault.message
  | .invalid violation => "invalid program: " ++ violation.message
  | .stopped error => "exploration error: " ++ error.message

/-- The lines that show a failure: its code, its wording and where it is. -/
def lines (failure : Failure) : List String :=
  failure.code?.toList ++ ["error: " ++ failure.message] ++
    (failure.location?.map ("at " ++ ·)).toList

end Failure

/-- How a command ended. -/
inductive Status where
  /-- It did what was asked for. -/
  | done
  /-- The exploration was cut short by its limit. -/
  | cutShort
  /-- It failed. -/
  | failed (failure : Failure)
deriving DecidableEq, Repr, Inhabited

/-- The exit code: 0 for success, 2 for a command line that is not understood and for an
exploration that was cut short, and 1 for any other failure. -/
def Status.exitCode : Status → Nat
  | .done => 0
  | .cutShort => 2
  | .failed (.usage _) => 2
  | .failed _ => 1

/-- What comes of a command line. -/
structure Response where
  /-- The lines for standard output. -/
  lines : List String
  /-- How the command ended. -/
  status : Status
deriving DecidableEq, Repr, Inhabited

/-- The response to something that failed. -/
def Failure.response (failure : Failure) : Response := ⟨[], .failed failure⟩

end EventOrder.CommandLine
