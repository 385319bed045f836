import PatternRules.Json.Decode
import PatternRules.Tree.Node

/-!
Positions, spans and trees as JSON. A value that is not there and children that are not there are
left out.
-/

namespace PatternRules

/-- A line, a column or a length from JSON. -/
def placeNumber? (j : Json) : Option Nat := j.nat? Span.maxColumn

def Position.ofJson? (levels : Nat) (j : Json) : Option Position :=
  match levels, Json.record? ["line", "column"] j with
  | _ + 1, some [some line, some column] => do
    return ⟨← placeNumber? line, ← placeNumber? column⟩
  | _, _ => none

namespace Span

/-- The members of a span in JSON. -/
def members (s : Span) : List (String × Json) :=
  [("line", .nat s.line), ("column", .nat s.column), ("length", .nat s.length)]

def toJson (s : Span) : Json := .ofMembers s.members

def ofJson? (levels : Nat) (j : Json) : Option Span :=
  match levels, Json.record? ["line", "column", "length"] j with
  | _ + 1, some [some line, some column, some length] => do
    return ⟨← placeNumber? line, ← placeNumber? column, ← placeNumber? length⟩
  | _, _ => none

end Span

namespace Value

def toJson : Value → Json
  | text s => .text s
  | number n => .nat n

def ofJson? (j : Json) : Option Value :=
  match j.text? with
  | some s => some (.text s)
  | none => (j.nat? maxNumber).map .number

end Value

namespace Node

mutual

/-- A tree in JSON. -/
def toJson : Node → Json
  | ⟨kind, value, children, span⟩ =>
    .ofMembers <|
      [("type", .text kind.tag)] ++
      (value.toList.map fun v => ("value", v.toJson)) ++
      (if children.isEmpty then [] else [("children", .array (childrenToJson children))]) ++
      [("span", span.toJson)]

def childrenToJson : List Node → List Json
  | [] => []
  | node :: rest => toJson node :: childrenToJson rest

end

/-- A tree from JSON. A node takes two levels: its own and that of its span and its children. -/
def ofJson? : Nat → Json → Option Node
  | 0, _ => none
  | 1, _ => none
  | levels + 2, j =>
    match Json.record? ["type", "value", "children", "span"] j with
    | some [some kind, value, children, some span] => do
      let kind ← (← kind.tag? (levels + 1)) |> Kind.ofTag?
      let value ← Json.optional? Value.ofJson? value
      let children ← match children with
        | none => some []
        | some j => do (← j.items? (levels + 1)).mapM (ofJson? levels)
      return ⟨kind, value, children, ← Span.ofJson? (levels + 1) span⟩
    | _ => none

end Node

end PatternRules
