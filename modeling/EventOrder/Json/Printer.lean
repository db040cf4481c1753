import EventOrder.Json.Tree

/-!
# Writing JSON

A tree is written either with one item a line, each line indented by its depth, or without any
blanks. The two differ only in what stands before an item and after a colon. Lists and objects
without items are written as a pair of brackets in both.
-/

namespace EventOrder.Json

/-- A digit of an escape. -/
def hexDigit (value : Nat) : Char := Nat.digitChar value

/-- A character inside a string: quotes, backslashes and control characters are escaped, control
characters that have no short escape by their four-digit number. -/
def escapedChar (c : Char) : List Char :=
  match c with
  | '"' => ['\\', '"']
  | '\\' => ['\\', '\\']
  | '\x08' => ['\\', 'b']
  | '\x0c' => ['\\', 'f']
  | '\n' => ['\\', 'n']
  | '\r' => ['\\', 'r']
  | '\t' => ['\\', 't']
  | c =>
    if isControl c then ['\\', 'u', '0', '0', hexDigit (c.toNat / 16), hexDigit (c.toNat % 16)]
    else [c]

/-- A string with its quotes. -/
def textChars (text : String) : List Char := '"' :: (text.toList.flatMap escapedChar ++ ['"'])

/-- A whole number in decimal digits, with a sign if it is negative. -/
def wholeChars (value : Int) : List Char :=
  if value < 0 then '-' :: Nat.toDigits 10 value.natAbs else Nat.toDigits 10 value.natAbs

/-- A number: whole as its digits, a double by the fewest digits that read back. -/
def Number.chars : Number → List Char
  | .whole value => wholeChars value
  | .floating negative magnitude => (floatingText negative magnitude).toList

/-- Where blanks are put. -/
structure Spacing where
  /-- What stands before an item, or a closing bracket, at a depth. -/
  lineStart : Nat → List Char
  /-- What stands after the colon of a field. -/
  afterColon : List Char

namespace Spacing

/-- One item a line, indented by two blanks for each level. -/
def indented : Spacing := ⟨fun depth => '\n' :: List.replicate (2 * depth) ' ', [' ']⟩

/-- No blanks. -/
def tight : Spacing := ⟨fun _ => [], []⟩

end Spacing

namespace Tree

mutual

/-- The text of a tree that stands at a depth. -/
def chars (spacing : Spacing) (depth : Nat) : Tree → List Char
  | .null => ['n', 'u', 'l', 'l']
  | .boolean true => ['t', 'r', 'u', 'e']
  | .boolean false => ['f', 'a', 'l', 's', 'e']
  | .number value => value.chars
  | .text value => textChars value
  | .list [] => ['[', ']']
  | .list (item :: items) =>
    '[' :: (spacing.lineStart (depth + 1) ++ chars spacing (depth + 1) item ++
      itemChars spacing (depth + 1) items ++ spacing.lineStart depth ++ [']'])
  | .object [] => ['\x7b', '\x7d']
  | .object ((key, value) :: fields) =>
    '\x7b' :: (spacing.lineStart (depth + 1) ++ textChars key ++ ':' :: spacing.afterColon ++
      chars spacing (depth + 1) value ++ fieldChars spacing (depth + 1) fields ++
      spacing.lineStart depth ++ ['\x7d'])

/-- The text of the items after the first of a list. -/
def itemChars (spacing : Spacing) (depth : Nat) : List Tree → List Char
  | [] => []
  | item :: items =>
    ',' :: (spacing.lineStart depth ++ chars spacing depth item ++ itemChars spacing depth items)

/-- The text of the fields after the first of an object. -/
def fieldChars (spacing : Spacing) (depth : Nat) : List (String × Tree) → List Char
  | [] => []
  | (key, value) :: fields =>
    ',' :: (spacing.lineStart depth ++ textChars key ++ ':' :: spacing.afterColon ++
      chars spacing depth value ++ fieldChars spacing depth fields)

end

/-- A tree on indented lines. -/
def pretty (tree : Tree) : String := String.ofList (tree.chars .indented 0)

/-- A tree on one line. -/
def compact (tree : Tree) : String := String.ofList (tree.chars .tight 0)

end Tree

end EventOrder.Json
