import PatternRules.Source.Lines

/-!
What the characters of a line belong to: a comment, an escape, a string, a list match, a character
class, or none of these. Nothing of the kind goes on over the end of a line, so each line is
looked at by itself. A line falls into pieces from left to right; every piece lies in one region,
an escape excepted, whose backslash counts as code.
-/

namespace PatternRules

/-- What a character belongs to. -/
inductive Region where
  | code
  | escaped
  | string
  | comment
  | charClass
  | listMatch
deriving DecidableEq, Inhabited

/-- The name of a region. -/
def Region.name : Region → String
  | code => "Code"
  | escaped => "Escaped"
  | string => "String"
  | comment => "Comment"
  | charClass => "CharClass"
  | listMatch => "ListMatch"

/-- The number of characters up to and including `close`, or up to the end of the line. A
backslash keeps the next character from closing. -/
def lengthToClose (close : Char) : List Char → Nat
  | [] => 0
  | ['\\'] => 1
  | '\\' :: _ :: cs => lengthToClose close cs + 2
  | c :: cs => if c = close then 1 else lengthToClose close cs + 1

/-- The number of characters up to and including two closing brackets, or up to the end of the
line. -/
def lengthToBrackets : List Char → Nat
  | [] => 0
  | ']' :: ']' :: _ => 2
  | _ :: cs => lengthToBrackets cs + 1

/-- The regions of the piece a line starts with. -/
def pieceRegions : List Char → List Region
  | [] => []
  | c :: cs =>
    if c = '#' then List.replicate (cs.length + 1) .comment
    else if c = '\\' then .code :: (cs.take 1).map fun _ => .escaped
    else if c = '"' then List.replicate (lengthToClose '"' cs + 1) .string
    else if c = '[' then
      if cs.head? = some '[' then List.replicate (lengthToBrackets cs + 1) .listMatch
      else List.replicate (lengthToClose ']' cs + 1) .charClass
    else [.code]

/-- The regions of a line that falls into at most `fuel` pieces. -/
def regionsWithin : Nat → List Char → List Region
  | 0, _ => []
  | fuel + 1, line =>
    match pieceRegions line with
    | [] => []
    | piece => piece ++ regionsWithin fuel (line.drop piece.length)

/-- The regions of the characters of a line. -/
def lineRegions (line : List Char) : List Region := regionsWithin line.length line

theorem lengthToClose_le (close : Char) (cs : List Char) :
    lengthToClose close cs ≤ cs.length := by
  fun_induction lengthToClose close cs <;> simp_all

theorem lengthToBrackets_le (cs : List Char) : lengthToBrackets cs ≤ cs.length := by
  fun_induction lengthToBrackets cs <;> simp_all

/-- A piece is no longer than the line. -/
theorem length_pieceRegions_le (line : List Char) : (pieceRegions line).length ≤ line.length := by
  cases line with
  | nil => simp [pieceRegions]
  | cons c cs =>
    have hstring := lengthToClose_le '"' cs
    have hclass := lengthToClose_le ']' cs
    have hlist := lengthToBrackets_le cs
    simp only [pieceRegions]
    split
    · simp
    · split
      · simp only [List.length_cons, List.length_map, List.length_take]; omega
      · split
        · simp; omega
        · split
          · split <;> simp <;> omega
          · simp

/-- A line that is not empty starts with a piece that is not empty. -/
theorem pieceRegions_cons_ne_nil (c : Char) (cs : List Char) : pieceRegions (c :: cs) ≠ [] := by
  simp only [pieceRegions]
  repeat' split
  all_goals simp [List.replicate_succ]

/-- With fuel enough, each character has one region. -/
theorem length_regionsWithin {fuel : Nat} {line : List Char} (h : line.length ≤ fuel) :
    (regionsWithin fuel line).length = line.length := by
  induction fuel generalizing line with
  | zero => simp_all [regionsWithin]
  | succ fuel ih =>
    cases line with
    | nil => simp [regionsWithin, pieceRegions]
    | cons c cs =>
      have hle := length_pieceRegions_le (c :: cs)
      have hne := pieceRegions_cons_ne_nil c cs
      rw [regionsWithin]
      split
      · next hp => exact absurd hp hne
      · next piece hp =>
        have hpos : 0 < (pieceRegions (c :: cs)).length := List.length_pos_iff.2 hne
        rw [List.length_append,
          ih (by simp only [List.length_drop, List.length_cons] at h ⊢; omega), List.length_drop]
        omega

/-- Each character of a line has one region. -/
theorem length_lineRegions (line : List Char) : (lineRegions line).length = line.length :=
  length_regionsWithin (Nat.le_refl _)

/-- A character of a line with its column, its byte offset and its region. -/
structure ScannedChar where
  char : Char
  column : Nat
  offset : Nat
  region : Region
deriving DecidableEq, Inhabited

/-- A line with its number. -/
structure ScannedLine where
  number : Nat
  chars : List ScannedChar
deriving DecidableEq, Inhabited

/-- Numbers the characters of a line, the first of which has the given column and offset. -/
def placeChars (column offset : Nat) : List Char → List Region → List ScannedChar
  | c :: cs, r :: rs =>
    ⟨c, column, offset, r⟩ :: placeChars (column + 1) (offset + c.utf8Size) cs rs
  | _, _ => []

/-- The characters of a line with what they belong to. -/
def classifyLine (line : List Char) : List ScannedChar := placeChars 1 0 line (lineRegions line)

/-- The lines of a text with what their characters belong to. -/
def scanText (text : List Char) : List ScannedLine :=
  (numberedLines text).map fun (number, line) => ⟨number, classifyLine line⟩

namespace ScannedLine

/-- The region of the character at a byte offset. -/
def regionAt? (line : ScannedLine) (offset : Nat) : Option Region :=
  (line.chars.find? (·.offset == offset)).map (·.region)

/-- The characters of the line. -/
def content (line : ScannedLine) : List Char := line.chars.map (·.char)

end ScannedLine

end PatternRules
