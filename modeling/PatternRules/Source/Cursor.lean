import PatternRules.Source.Lines

/-!
A cursor over a source text. It knows what is left to read and where it stands; every operation that
moves it does so one character at a time, through `Cursor.advance`. Blanks are space, tab, carriage
return and newline; a comment runs from `#` to the end of its line and counts as blank.
-/

namespace PatternRules

/-- Characters of words: ASCII letters and digits, `_` and `-`. -/
def isWordChar (c : Char) : Bool := c.isAlphanum || c == '_' || c == '-'

/-- Characters an identifier may start with: ASCII letters and `_`. -/
def isIdentStart (c : Char) : Bool := c.isAlpha || c == '_'

/-- Blanks that do not end a line. -/
def isInlineBlank (c : Char) : Bool := c == ' ' || c == '\t'

/-- Blanks. -/
def isBlank (c : Char) : Bool := isInlineBlank c || c == '\r' || c == '\n'

/-- The column behind the content of each line, where content stops at the first carriage return. -/
def lineEndColumns (text : List Char) : List Nat :=
  (splitLines text).map fun line => (line.takeWhile (· != '\r')).length + 1

/-- A text with the end columns of its lines. -/
structure SourceText where
  chars : List Char
  lineEnds : Array Nat
  lineEnds_eq : lineEnds = (lineEndColumns chars).toArray

/-- The text with its line ends worked out. -/
def SourceText.ofChars (chars : List Char) : SourceText :=
  ⟨chars, (lineEndColumns chars).toArray, rfl⟩

/-- A remembered place of a cursor. -/
structure Mark where
  pos : Nat
  line : Nat
  column : Nat
deriving DecidableEq, Inhabited

def Mark.position (m : Mark) : Position := ⟨m.line, m.column⟩

/-- A place in a source text: what is left to read, how many characters were read, and the
position. Lines and columns are counted without a bound; that they fit in thirty-two bits for a text of
fewer than `2 ^ 32 - 2` characters is shown in `reported_located` for whatever reading comes by and
reports, and in `Cursor.performAll_consistent` for every use of a cursor. -/
structure Cursor where
  source : SourceText
  rest : List Char
  pos : Nat
  line : Nat
  column : Nat

/-- The number of characters of blanks and comments at the front; `inComment` tells that a comment
is under way. -/
def blankRun (inComment : Bool) : List Char → Nat
  | [] => 0
  | c :: cs =>
    if inComment then blankRun (c != '\n') cs + 1
    else if isBlank c then blankRun false cs + 1
    else if c = '#' then blankRun true cs + 1
    else 0

/-- Whether a single `=` comes next. -/
def startsAssignment : List Char → Bool
  | '=' :: '=' :: _ => false
  | '=' :: _ => true
  | _ => false

/-- Whether an identifier comes next and a single `=` behind it on the same line: the start of a
rule. -/
def startsRule (cs : List Char) : Bool :=
  cs.head?.any isIdentStart && startsAssignment ((cs.dropWhile isWordChar).dropWhile isInlineBlank)

namespace Cursor

/-- The cursor in front of the first character. -/
def ofChars (chars : List Char) : Cursor := ⟨.ofChars chars, chars, 0, 1, 1⟩

def ofString (text : String) : Cursor := ofChars text.toList

def position (c : Cursor) : Position := ⟨c.line, c.column⟩

def atEnd (c : Cursor) : Bool := c.rest.isEmpty

/-- The next character. -/
def peek (c : Cursor) : Option Char := c.rest.head?

/-- The character `offset` places behind the next one. -/
def peekAt (c : Cursor) (offset : Nat) : Option Char := c.rest[offset]?

/-- Reads one character; at the end of the text nothing happens. -/
def advance (c : Cursor) : Cursor :=
  match c.rest with
  | [] => c
  | ch :: rest =>
    if ch = '\n' then { c with rest, pos := c.pos + 1, line := c.line + 1, column := 1 }
    else { c with rest, pos := c.pos + 1, column := c.column + 1 }

/-- Reads up to `n` characters. -/
def advanceBy : Nat → Cursor → Cursor
  | 0, c => c
  | n + 1, c => advanceBy n c.advance

/-! ## Marks -/

def mark (c : Cursor) : Mark := ⟨c.pos, c.line, c.column⟩

/-- Goes to a mark. A mark of another text is moved to the end of this one if it lies behind it. -/
def reset (c : Cursor) (m : Mark) : Cursor :=
  { c with
    rest := c.source.chars.drop m.pos
    pos := min m.pos c.source.chars.length
    line := m.line
    column := m.column }

/-- The text between a mark and the cursor; empty if the mark lies behind the cursor. -/
def sliceFrom (c : Cursor) (m : Mark) : List Char :=
  (c.source.chars.drop m.pos).take (c.pos - m.pos)

/-- The text between an earlier state of the cursor and now. -/
def textSince (c start : Cursor) : List Char := start.rest.take (c.pos - start.pos)

/-- The column behind the content of the line of a mark, and never one in front of the mark. -/
def lineEndColumn (c : Cursor) (m : Mark) : Nat :=
  max (c.source.lineEnds[m.line - 1]?.getD m.column) m.column

/-- The span from a mark to the cursor, cut off at the end of the mark's line. -/
def spanFrom (c : Cursor) (m : Mark) : Span :=
  .between m.position c.position (c.lineEndColumn m)

/-- The span of the next character; empty at the end of a line. -/
def nextSpan (c : Cursor) : Span :=
  ⟨c.line, c.column, match c.peek with
    | none => 0
    | some ch => if ch = '\n' then 0 else 1⟩

/-! ## Matching -/

/-- Reads the next character if it is `ch`. -/
def consume? (c : Cursor) (ch : Char) : Option Cursor :=
  if c.peek = some ch then some c.advance else none

/-- Whether `literal` comes next. -/
def checkLiteral (c : Cursor) (literal : String) : Bool := literal.toList.isPrefixOf c.rest

/-- Reads `literal` if it comes next. -/
def consumeLiteral? (c : Cursor) (literal : String) : Option Cursor :=
  if c.checkLiteral literal then some (c.advanceBy literal.length) else none

/-- Whether `word` comes next and no longer word does. -/
def checkWord (c : Cursor) (word : String) : Bool :=
  c.checkLiteral word && !(c.peekAt word.length).any isWordChar

/-- Reads `word` if it comes next and no longer word does. -/
def consumeWord? (c : Cursor) (word : String) : Option Cursor :=
  if c.checkWord word then c.consumeLiteral? word else none

/-- The characters that come next and satisfy `p`. -/
def run (c : Cursor) (p : Char → Bool) : List Char := c.rest.takeWhile p

/-- Reads all characters that come next and satisfy `p`. -/
def skipWhile (c : Cursor) (p : Char → Bool) : Cursor := c.advanceBy (c.run p).length

/-- The word that comes next. -/
def peekWord? (c : Cursor) : Option String :=
  match c.run isWordChar with
  | [] => none
  | word => some (String.ofList word)

/-! ## Blanks, lines and rules -/

/-- Reads blanks and comments. -/
def skipBlank (c : Cursor) : Cursor := c.advanceBy (blankRun false c.rest)

/-- Reads blanks, staying on the line. -/
def skipInlineBlank (c : Cursor) : Cursor := c.skipWhile isInlineBlank

/-- Reads the rest of the line and its newline. -/
def skipLine (c : Cursor) : Cursor := (c.skipWhile (· != '\n')).advance

def atRuleStart (c : Cursor) : Bool := startsRule c.rest

/-- Whether `word` comes next as a keyword and not as the name of a rule. -/
def atKeyword (c : Cursor) (word : String) : Bool := c.checkWord word && !c.atRuleStart

/-- Skips blanks and whole lines until a rule starts or the text ends, at most `fuel` times. -/
def seekRule : Nat → Cursor → Cursor
  | 0, c => c
  | fuel + 1, c =>
    let c := c.skipBlank
    if c.atEnd || c.atRuleStart then c else seekRule fuel c.skipLine

/-- Leaves the current line and goes to the next line that starts a rule, or to the end of the
text. -/
def synchronize (c : Cursor) : Cursor :=
  let c := c.skipLine
  c.seekRule (c.rest.length + 1)

end Cursor

end PatternRules
