import PatternRules.Source.Span
import PatternRules.Text.Unicode

/-!
The lines of a source text. A text always has at least one line; newlines separate lines and belong
to none of them. The content of a line leaves out the carriage returns at its end.
-/

namespace PatternRules

/-- The pieces of a text between its newlines. -/
def splitLines : List Char → List (List Char)
  | [] => [[]]
  | c :: cs =>
    if c = '\n' then [] :: splitLines cs
    else
      match splitLines cs with
      | [] => [[c]]
      | line :: lines => (c :: line) :: lines

theorem splitLines_ne_nil (cs : List Char) : splitLines cs ≠ [] := by
  cases cs with
  | nil => simp [splitLines]
  | cons c cs =>
    unfold splitLines
    split
    · simp
    · split <;> simp

/-- There is one line more than there are newlines. -/
theorem length_splitLines (cs : List Char) : (splitLines cs).length = cs.count '\n' + 1 := by
  induction cs with
  | nil => rfl
  | cons c cs ih =>
    by_cases h : c = '\n'
    · simp [splitLines, h, ih]
    · have hne := splitLines_ne_nil cs
      cases hl : splitLines cs with
      | nil => exact absurd hl hne
      | cons line lines =>
        rw [hl] at ih
        simpa [splitLines, h, hl, List.count_cons] using ih

/-- The lines with newlines between them are the text again. -/
theorem intercalate_splitLines (cs : List Char) : ['\n'].intercalate (splitLines cs) = cs := by
  induction cs with
  | nil => rfl
  | cons c cs ih =>
    have hne := splitLines_ne_nil cs
    cases hl : splitLines cs with
    | nil => exact absurd hl hne
    | cons line lines =>
      rw [hl] at ih
      by_cases h : c = '\n'
      · simp only [splitLines, h, hl, if_true]
        rw [← ih]
        simp [List.intercalate]
      · simp only [splitLines, h, hl, if_false]
        rw [← ih]
        cases lines <;> simp [List.intercalate]

/-- A line without the carriage returns at its end. -/
def dropReturns (line : List Char) : List Char :=
  (line.reverse.dropWhile (· == '\r')).reverse

/-- How many characters make up the first `offset` bytes, if that offset lies between two
characters. -/
def charsBefore? : List Char → Nat → Option Nat
  | _, 0 => some 0
  | [], _ + 1 => none
  | c :: cs, offset =>
    if c.utf8Size ≤ offset then (charsBefore? cs (offset - c.utf8Size)).map (· + 1) else none

/-- The contents of the lines of a text, first line first. -/
def lineContents (text : List Char) : List (List Char) := (splitLines text).map dropReturns

/-- Each line with its number. -/
def numberedLines (text : List Char) : List (Nat × List Char) :=
  (lineContents text).zipIdx.map fun (line, index) => (index + 1, line)

/-- The content of a line, given its number. -/
def line? (text : List Char) : Nat → Option (List Char)
  | 0 => none
  | index + 1 => (lineContents text)[index]?

def lineCount (text : List Char) : Nat := (splitLines text).length

/-- The span of the bytes from `start` up to `stop` of a line. Offsets behind the line mean its
end; an offset inside a character has no span. -/
def spanForBytes? (text : List Char) (number start stop : Nat) : Option Span := do
  let line ← line? text number
  let size := byteLength line
  let start := min start size
  let stop := min (max stop start) size
  let before ← charsBefore? line start
  let upTo ← charsBefore? line stop
  return ⟨number, before + 1, upTo - before⟩

end PatternRules
