import PatternRules.Analysis.Region
import PatternRules.Tree.Query
import PatternRules.Diagnostic

/-!
Quantifiers without an upper bound. A range may lack its second number, which the tree shows. The
signs `+` and `*` do not belong to the grammar at all, so they are looked for in the text.
-/

namespace PatternRules

/-- What is said about a range without an upper bound. -/
def unboundedMessage : String := "Unbounded quantifiers are not allowed in OMG."

/-- The diagnostic for a range without an upper bound. -/
def unboundedRange (range : Node) : Diagnostic :=
  let least := (range.children.head?.bind Node.number?).getD 0
  let most := min (least + 1) Value.maxNumber
  (Diagnostic.error .unboundedQuantifier unboundedMessage range.span).suggest
    ("give the range an upper bound, e.g. \x7b" ++ toString least ++ "," ++ toString most ++ "\x7d")

/-- A diagnostic for every range that has only one bound. -/
def unboundedRanges (root : Node) : List Diagnostic :=
  ((root.nodesOfKind .range).filter (·.children.length == 1)).map unboundedRange

/-- Whether a sign behind this character would repeat something. -/
def isRepeatable (c : Char) : Bool :=
  Text.isAlphanumeric c || c == ']' || c == ')' || c == '}' || c == '.'

/-- A bounded quantifier in place of a sign. -/
def boundedInstead (sign : Char) : String := if sign = '+' then "\x7b1,n\x7d" else "\x7b0,n\x7d"

/-- The diagnostic for a sign that repeats what is in front of it without a bound. -/
def openEnded (number : Nat) (sign : ScannedChar) : Diagnostic :=
  let name := "'" ++ sign.char.toString ++ "'"
  (Diagnostic.error .openEndedQuantifier
      ("Open-ended quantifier " ++ name ++ " is not allowed in OMG.")
      ⟨number, sign.column, 1⟩).suggest
    ("replace " ++ name ++ " with a bounded quantifier such as " ++ boundedInstead sign.char)

/-- Whether a sign in code follows something it could repeat that is no comment. -/
def isOpenEnded (before sign : ScannedChar) : Bool :=
  sign.region == .code && (sign.char == '+' || sign.char == '*') &&
    before.region != .comment && isRepeatable before.char

/-- A diagnostic for every such sign of a line. -/
def openEndedInLine (line : ScannedLine) : List Diagnostic :=
  ((line.chars.zip line.chars.tail).filter fun (before, sign) => isOpenEnded before sign).map
    fun (_, sign) => openEnded line.number sign

/-- A diagnostic for every such sign of a text. -/
def openEndedQuantifiers (lines : List ScannedLine) : List Diagnostic :=
  lines.flatMap openEndedInLine

end PatternRules
