import PatternRules.Source.Cursor
import PatternRules.Diagnostic
import PatternRules.Grammar.Complaint

/-!
Reading with a cursor: a `Parse` reads from the cursor of its state and records complaints. What
is not found is reported where the blanks in front of it begin, so a parse that fails behind
blanks puts the cursor back (`afterBlank`). All repetition goes through `many`.
-/

namespace PatternRules

/-- How deep expressions may nest and how many errors are recorded. -/
structure Limits where
  depth : Nat
  errors : Nat
deriving DecidableEq

/-- The limits for documents. -/
def Limits.standard : Limits := ⟨64, 100⟩

/-- The state of a reading: the cursor, the errors recorded so far, oldest first, and whether too
deep a nesting has been reported. -/
structure ParseState where
  cursor : Cursor
  errors : List SyntaxError
  nestingReported : Bool

/-- A computation that reads a document under some limits. -/
abbrev Parse := ReaderT Limits (StateM ParseState)

namespace Parse

variable {α : Type}

/-! ## The cursor -/

def cursor : Parse Cursor := return (← get).cursor

/-- Puts the cursor somewhere else. -/
def moveTo (c : Cursor) : Parse Unit := modify fun s => { s with cursor := c }

/-- Moves the cursor. -/
def move (f : Cursor → Cursor) : Parse Unit := modify fun s => { s with cursor := f s.cursor }

def peek : Parse (Option Char) := return (← cursor).peek

def skipBlank : Parse Unit := move Cursor.skipBlank

def skipInlineBlank : Parse Unit := move Cursor.skipInlineBlank

/-- The span from a place to the cursor. -/
def spanFrom (start : Cursor) : Parse Span := return (← cursor).spanFrom start.mark

/-- The text from a place to the cursor. -/
def textFrom (start : Cursor) : Parse String := return String.ofList ((← cursor).textSince start)

/-! ## Errors -/

def errorCount : Parse Nat := return (← get).errors.length

/-- Whether no more errors are recorded. -/
def errorsFull : Parse Bool := return decide ((← read).errors ≤ (← errorCount))

/-- Records a complaint about a span, unless there are too many errors already. -/
def report (complaint : Complaint) (span : Span) : Parse Unit := do
  if ← errorsFull then
    return ()
  else
    modify fun s => { s with errors := s.errors ++ [⟨complaint.message, span⟩] }

/-- Records a complaint about the next character. -/
def reportHere (complaint : Complaint) : Parse Unit := do
  report complaint (← cursor).nextSpan

/-- Records a complaint if nothing was found. -/
def orReport (complaint : Complaint) (p : Parse (Option α)) : Parse (Option α) := do
  let result ← p
  if result.isNone then
    reportHere complaint
  return result

/-! ## Matching -/

/-- Takes the cursor that a match gives, if it gives one. -/
def accept (match? : Cursor → Option Cursor) : Parse Bool := do
  match match? (← cursor) with
  | some c =>
    moveTo c
    return true
  | none => return false

def eatChar (c : Char) : Parse Bool := accept (·.consume? c)

def eatLiteral (literal : String) : Parse Bool := accept (·.consumeLiteral? literal)

def eatWord (word : String) : Parse Bool := accept (·.consumeWord? word)

/-- Reads blanks and then `p`. If `p` finds nothing, the cursor is put back in front of the
blanks. -/
def afterBlank (p : Parse (Option α)) : Parse (Option α) := do
  let start ← cursor
  skipBlank
  match ← p with
  | some result => return some result
  | none =>
    moveTo start
    return none

/-- Finds `()` if a match succeeds. -/
def found (p : Parse Bool) : Parse (Option Unit) := return if ← p then some () else none

/-- Reads blanks and a character, or nothing. -/
def eatCharAfterBlank (c : Char) : Parse Bool := return (← afterBlank (found (eatChar c))).isSome

/-- Reads blanks and a word, or nothing. -/
def eatWordAfterBlank (word : String) : Parse Bool :=
  return (← afterBlank (found (eatWord word))).isSome

/-! ## Nodes -/

/-- A node that spans the text from a place to the cursor. -/
def branchFrom (kind : Kind) (start : Cursor) (children : List Node) : Parse Node :=
  return .branch kind children (← spanFrom start)

/-- A node that spans the text from a place to the cursor and has that text as its value. -/
def textNodeFrom (kind : Kind) (start : Cursor) (children : List Node) : Parse Node :=
  return ⟨kind, some (.text (← textFrom start)), children, ← spanFrom start⟩

/-- Reads `n` characters as a node whose value they are. -/
def takeLeaf (kind : Kind) (n : Nat) : Parse Node := do
  let start ← cursor
  move (·.advanceBy n)
  textNodeFrom kind start []

/-! ## Repetition -/

/-- Repeats a step until it finds nothing, at most `fuel` times. -/
def manyFuel (step : Parse (Option α)) : Nat → Parse (List α)
  | 0 => return []
  | fuel + 1 => do
    match ← step with
    | none => return []
    | some item => return item :: (← manyFuel step fuel)

/-- Repeats a step until it finds nothing. A step that finds something has to read at least one
character. -/
def many (step : Parse (Option α)) : Parse (List α) := do
  manyFuel step ((← cursor).rest.length + 1)

/-- Items with commas between them. An item that is not there ends the list, also behind a comma. -/
def commaList (item : Parse (Option α)) : Parse (List α) := do
  match ← item with
  | none => return []
  | some first =>
    let further ← many do
      if ← eatCharAfterBlank ',' then item else return none
    return first :: further

end Parse

end PatternRules
