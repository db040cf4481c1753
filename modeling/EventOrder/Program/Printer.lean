import EventOrder.Json.Printer
import EventOrder.Program.Basic

/-!
# Writing programs

A program has one canonical text: all fields are written in the order of their declaration, an
operation's kind first. Pattern lists without patterns are left out, and so is a filter without
lists.
-/

namespace EventOrder

open Json

/-- A variable as a tree. -/
def Variable.tree (shared : Variable) : Tree :=
  .object [("name", .text shared.name), ("owner", .ofInt shared.owner.number),
    ("initial", .ofInt shared.initial.toInt)]

mutual

/-- An operation as a tree. -/
def Operation.tree : Operation → Tree
  | .read name => .object [("kind", .text "Read"), ("var", .text name)]
  | .write name value =>
    .object [("kind", .text "Write"), ("var", .text name), ("value", .ofInt value.toInt)]
  | .increment name modulus =>
    .object [("kind", .text "Increment"), ("var", .text name), ("modulus", .ofInt modulus.toInt)]
  | .copy source target =>
    .object [("kind", .text "Copy"), ("from", .text source), ("to", .text target)]
  | .nested body => .object [("kind", .text "Nested"), ("ops", .list (Operation.trees body))]

/-- Operations as trees. -/
def Operation.trees : List Operation → List Tree
  | [] => []
  | operation :: operations => operation.tree :: Operation.trees operations

end

/-- An event as a tree. -/
def EventBody.tree (event : EventBody) : Tree :=
  .object [("name", .text event.name), ("ops", .list (Operation.trees event.operations))]

/-- A list of patterns as a field, unless it is empty. -/
def PatternLists.field (name : String) (patterns : List String) : List (String × Tree) :=
  if patterns.isEmpty then [] else [(name, .list (patterns.map .text))]

/-- The patterns of a filter as a tree. -/
def PatternLists.tree (patterns : PatternLists) : Tree :=
  .object (field "starts_with" patterns.startsWith ++ field "ends_with" patterns.endsWith ++
    field "contains" patterns.contains ++ field "write_starts_with" patterns.writeStartsWith)

namespace Program

/-- A program as a tree. -/
def tree (program : Program) : Tree :=
  .object ([("name", .text program.name),
    ("variables", .list (program.declarations.map Variable.tree)),
    ("events", .list (program.events.map EventBody.tree))] ++
    if program.filter.isEmpty then [] else [("filter", program.filter.tree)])

/-- The canonical text of a program, without a line end after its last line. -/
def pretty (program : Program) : String := program.tree.pretty

end Program

end EventOrder
