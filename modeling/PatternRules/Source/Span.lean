/-!
Places in a source text: positions, and spans that lie on one line. Lines and columns count from
one, columns count characters. A column has to fit in thirty-two bits; the end of a span is the one
sum that can leave that range, so every question that needs it may fail with `Span.Fault`.
-/

namespace PatternRules

/-- A line and a column, both counted from one. -/
structure Position where
  line : Nat
  column : Nat
deriving DecidableEq, Inhabited

namespace Position

/-- Positions are ordered by line, then by column. -/
def compare (a b : Position) : Ordering :=
  (Ord.compare a.line b.line).then (Ord.compare a.column b.column)

/-- The text `line:column`. -/
def render (p : Position) : String := toString p.line ++ ":" ++ toString p.column

end Position

/-- `length` characters of line `line`, the first of them at `column`. -/
structure Span where
  line : Nat
  column : Nat
  length : Nat
deriving DecidableEq, Inhabited

namespace Span

/-- Why a question about a span has no answer. -/
inductive Fault where
  /-- The column behind the span does not fit in thirty-two bits. -/
  | endColumnTooLarge
deriving DecidableEq

/-- The largest column there is. -/
def maxColumn : Nat := 4294967295

def start (s : Span) : Position := ⟨s.line, s.column⟩

/-- The empty span at a position. -/
def point (p : Position) : Span := ⟨p.line, p.column, 0⟩

/-- The span from `first` up to `last`. If `last` is on a later line, the span ends with the line of
`first`, at column `lineEnd`. -/
def between (first last : Position) (lineEnd : Nat) : Span :=
  let stop := if last.line = first.line then last.column else lineEnd
  ⟨first.line, first.column, stop - first.column⟩

/-- The column behind the last character. -/
def endColumn (s : Span) : Except Fault Nat :=
  if s.column + s.length ≤ maxColumn then .ok (s.column + s.length) else .error .endColumnTooLarge

/-- Whether a position lies in the span. The end column is only asked for on the span's own line,
at or behind its first column. -/
def contains (s : Span) (p : Position) : Except Fault Bool :=
  if s.line = p.line ∧ s.column ≤ p.column then do
    return decide (p.column < (← s.endColumn))
  else
    .ok false

/-- Whether `inner` lies within the span. The end columns are only asked for if both spans share a
line and `inner` does not start first. -/
def encloses (s inner : Span) : Except Fault Bool :=
  if s.line = inner.line ∧ s.column ≤ inner.column then do
    let innerEnd ← inner.endColumn
    return decide (innerEnd ≤ (← s.endColumn))
  else
    .ok false

/-- Spans are ordered by line, then by column, then by length. -/
def compare (a b : Span) : Ordering :=
  (a.start.compare b.start).then (Ord.compare a.length b.length)

/-- The text `line:column` of the first character. -/
def render (s : Span) : String := s.start.render

end Span

end PatternRules
