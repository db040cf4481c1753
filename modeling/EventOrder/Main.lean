import EventOrder.CommandLine.Perform

/-!
# The program

The command line on the files of the system.
-/

namespace EventOrder

/-- Whether an action went through. -/
def succeeds (action : IO Unit) : IO Bool := do
  match ← action.toBaseIO with
  | .ok () => return true
  | .error _ => return false

instance : FileStore IO where
  read? path := do
    match ← (IO.FS.readFile path).toBaseIO with
    | .ok text => return some text
    | .error _ => return none
  write path text := succeeds (IO.FS.writeFile path text)
  append path text := succeeds do
    let handle ← IO.FS.Handle.mk path .append
    handle.putStr text

instance : Clock IO := ⟨IO.monoNanosNow⟩

end EventOrder

/-- Answers the command line: the lines go to standard output, a failure to standard error. -/
def main (arguments : List String) : IO UInt32 := do
  let response : EventOrder.CommandLine.Response ← EventOrder.CommandLine.respond arguments
  for line in response.lines do
    IO.println line
  match response.status with
  | .failed failure =>
    for line in failure.lines do
      IO.eprintln line
  | _ => pure ()
  return response.status.exitCode.toUInt32
