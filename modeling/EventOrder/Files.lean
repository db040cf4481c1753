import EventOrder.Error
import EventOrder.Statistics

/-!
# Files

The operations on files that a search and the command line need, and a flat directory held in memory
that provides them.
-/

namespace EventOrder

/-- Actions that can read and write named texts. -/
class FileStore (m : Type → Type) where
  /-- The text of a file, when it can be read. -/
  read? : String → m (Option String)
  /-- Replaces the text of a file; answers whether that was possible. -/
  write : String → String → m Bool
  /-- Adds to the end of a file, which is created when there is none; answers whether that was
  possible. -/
  append : String → String → m Bool

/-- A directory without subdirectories. -/
structure Directory where
  /-- The text of each file. -/
  files : Std.ExtTreeMap String String
deriving DecidableEq, Inhabited

namespace Directory

/-- The directory without files. -/
def empty : Directory := ⟨∅⟩

/-- A file has a name of 1 to 255 bytes, none of them zero, and it is not a step between
directories. -/
def isFileName (name : String) : Bool :=
  0 < name.utf8ByteSize && name.utf8ByteSize ≤ 255 && !name.toList.contains '\x00' &&
    name != "." && name != ".."

/-- A path takes at most this many bytes. -/
def longestPath : Nat := 4095

/-- The file that a path leads to. Steps that stay in the directory are passed over; there is
nothing beyond it. -/
def fileNamed? (path : String) : Option String :=
  match path.splitOn "/" with
  | [] => none
  | first :: steps =>
    let name := (first :: steps).getLast?.getD first
    let inside := (first :: steps).dropLast.all fun step => step = "." || step = ""
    if path.utf8ByteSize ≤ longestPath && inside && (first != "" || steps.isEmpty) &&
        isFileName name then
      some name
    else none

/-- The text that a path leads to. -/
def read? (directory : Directory) (path : String) : Option String :=
  (fileNamed? path).bind (directory.files[·]?)

/-- The directory with another text for a file. -/
def write? (directory : Directory) (path text : String) : Option Directory :=
  (fileNamed? path).map fun name => ⟨directory.files.insert name text⟩

/-- The directory with more text at the end of a file. -/
def append? (directory : Directory) (path text : String) : Option Directory :=
  (fileNamed? path).map fun name =>
    ⟨directory.files.insert name (directory.files[name]?.getD "" ++ text)⟩

/-- Makes a change when it is possible; answers whether it was. -/
def attempt (change : Directory → Option Directory) : StateM Directory Bool := fun directory =>
  match change directory with
  | some changed => (true, changed)
  | none => (false, directory)

instance : FileStore (StateM Directory) where
  read? path := fun directory => (directory.read? path, directory)
  write path text := attempt (·.write? path text)
  append path text := attempt (·.append? path text)

end Directory

/-- Appends the report to a file. -/
def SearchSummary.appendTo {m : Type → Type} [Monad m] [FileStore m] (summary : SearchSummary)
    (path : String) : m (Except ExplorationError Unit) := do
  if ← FileStore.append path (summary.text ++ "\n") then return .ok ()
  else return .error (.unwritableReport path)

end EventOrder
