import EventOrder.Json.Value

/-!
# Ignored values

A value that nothing asks for is passed over. It has to be JSON, but it may be nested as deep as
it likes, its numbers need not fit anything and its strings need not name characters.
-/

namespace EventOrder.Json

/-- A kind of bracket. -/
inductive Bracket where
  | list
  | object
deriving DecidableEq, Repr, Inhabited

namespace Bracket

/-- The bracket that ends it. -/
def closing : Bracket → Char
  | .list => ']'
  | .object => '\x7d'

/-- The fault when the text ends inside. -/
def endFault : Bracket → SyntaxFault
  | .list => .endInList
  | .object => .endInObject

/-- The fault when neither a comma nor the end follows a value inside. -/
def commaFault : Bracket → SyntaxFault
  | .list => .expectedListCommaOrEnd
  | .object => .expectedObjectCommaOrEnd

end Bracket

namespace Reader

/-- Passes over an exponent from its letter on. -/
def ignoredExponent : Reader Unit := do
  skip
  match ← peek with
  | some '+' | some '-' => skip
  | _ => pure ()
  if (← allDigits) = 0 then failAhead .invalidNumber

/-- Passes over a fraction from its point on. -/
def ignoredFraction : Reader Unit := do
  skip
  if (← allDigits) = 0 then failAhead .invalidNumber
  match ← peek with
  | some 'e' | some 'E' => ignoredExponent
  | _ => pure ()

/-- Passes over a number from its first digit on. -/
def ignoredNumber : Reader Unit := do
  match ← peek with
  | some '0' =>
    skip
    if (← peek).any Char.isDigit then failAhead .invalidNumber
  | _ => if (← allDigits) = 0 then failAhead .invalidNumber
  match ← peek with
  | some '.' => ignoredFraction
  | some 'e' | some 'E' => ignoredExponent
  | _ => pure ()

/-- Passes over a value that is neither a list nor an object. -/
def ignoredScalar (first : Char) : Reader Unit :=
  match first with
  | 'n' => do skip; letters ['u', 'l', 'l']
  | 't' => do skip; letters ['r', 'u', 'e']
  | 'f' => do skip; letters ['a', 'l', 's', 'e']
  | '-' => do skip; ignoredNumber
  | '"' => skipQuotedText
  | c => if c.isDigit then ignoredNumber else failAhead .expectedValue

/-- Passes over a key and its colon inside an object. -/
def ignoredKey : Reader Unit := do
  match ← peekPastBlanks with
  | some '"' => skipQuotedText
  | some _ => failAhead .keyNotString
  | none => failAhead .endInObject
  colon

/-- What comes next while values are passed over. -/
inductive Ahead where
  /-- A value. -/
  | value
  /-- The end of the innermost bracket, or else a value with its key. -/
  | endOrValue
  /-- The end of the innermost bracket, or else a comma. -/
  | endOrComma
deriving DecidableEq, Repr, Inhabited

/-- Passes over what is left of a value within open brackets, in at most so many steps. -/
def ignoredFrom : Nat → Ahead → List Bracket → Reader Unit
  | 0, _, _ => fail .endInValue
  | steps + 1, .value, opened => do
    match ← peekPastBlanks with
    | none => failAhead .endInValue
    | some '[' => skip; ignoredFrom steps .endOrValue (.list :: opened)
    | some '\x7b' => skip; ignoredFrom steps .endOrValue (.object :: opened)
    | some c => ignoredScalar c; ignoredFrom steps .endOrComma opened
  | _ + 1, _, [] => pure ()
  | steps + 1, ahead, bracket :: opened => do
    match ← peekPastBlanks with
    | none => failAhead bracket.endFault
    | some c =>
      if c = bracket.closing then skip; ignoredFrom steps .endOrComma opened
      else
        if ahead = .endOrComma then
          if c = ',' then skip else failAhead bracket.commaFault
        if bracket = .object then ignoredKey
        ignoredFrom steps .value (bracket :: opened)

/-- Passes over a value of a text of at most so many characters. -/
def ignored (most : Nat) : Reader Unit := ignoredFrom (2 * most + 2) .value []

end Reader

end EventOrder.Json
