import PatternRules.Grammar.Parse

/-!
The smallest parts of a document: identifiers, string literals and numbers.
-/

namespace PatternRules

/-- How many characters of a string literal follow its opening quote, and whether it is closed. A
backslash keeps the next character from closing it; a line end leaves it open. -/
def stringTail : List Char → Nat × Bool
  | [] => (0, false)
  | ['\\'] => (1, false)
  | '\\' :: c :: cs =>
    if c = '\n' then (1, false)
    else
      let (n, closed) := stringTail cs
      (n + 2, closed)
  | c :: cs =>
    if c = '"' then (1, true)
    else if c = '\n' ∨ c = '\r' then (0, false)
    else
      let (n, closed) := stringTail cs
      (n + 1, closed)

/-- The number written by decimal digits. -/
def decimalValue (digits : List Char) : Nat :=
  digits.foldl (fun n c => 10 * n + (c.toNat - '0'.toNat)) 0

namespace Parse

/-- An identifier, if one comes next. -/
def identifier : Parse (Option Node) := do
  let c ← cursor
  if c.peek.any isIdentStart then
    return some (← takeLeaf .identifier (c.run isWordChar).length)
  else
    return none

/-- A string literal with its quotes, if one comes next. One that is not closed goes to the end of
its line and is reported. -/
def string : Parse (Option Node) := do
  let start ← cursor
  if start.peek = some '"' then
    let (n, closed) := stringTail start.rest.tail
    move (·.advanceBy (n + 1))
    if !closed then
      report .stringUnterminated (← spanFrom start)
    return some (← textNodeFrom .string start [])
  else
    return none

/-- A number, if one comes next. One that is too large is reported and becomes the largest. -/
def number : Parse (Option Node) := do
  let start ← cursor
  let digits := start.run Char.isDigit
  if digits.isEmpty then
    return none
  else
    move (·.advanceBy digits.length)
    let span ← spanFrom start
    let value := decimalValue digits
    if value ≤ Value.maxNumber then
      return some (.number value span)
    else
      report (.numberTooLarge (String.ofList digits)) span
      return some (.number Value.maxNumber span)

end Parse

end PatternRules
