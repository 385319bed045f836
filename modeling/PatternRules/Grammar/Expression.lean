import PatternRules.Grammar.Leaf

/-!
Expressions. An alternation has branches between bars, a branch is a concatenation of items, an
item is a primary with perhaps a quantifier. What comes next decides which primary is read, and
that choice is final. An expression ends silently where nothing that could belong to it follows:
at the word `uses`, at the start of a rule, at any other character no primary starts with.

Groups and captures contain expressions; they take the parser for what they contain as an argument,
and `expression` closes the circle with one level less at each turn.
-/

namespace PatternRules

/-- The characters up to and including the closing brace, or up to the end of the line. -/
def untilBrace : List Char → Nat
  | [] => 0
  | c :: cs => if c = '\n' then 0 else if c = '}' then 1 else untilBrace cs + 1

/-- The characters up to and including two closing brackets, or up to the end of the line. -/
def untilBrackets : List Char → Nat
  | [] => 0
  | ']' :: ']' :: _ => 2
  | c :: cs => if c = '\n' then 0 else untilBrackets cs + 1

namespace Parse

/-! ## Atoms -/

/-- An escape: a backslash and the character behind it. -/
def escape : Parse Node := do
  let start ← cursor
  move Cursor.advance
  match ← peek with
  | none => report .escapeIncomplete (← spanFrom start)
  | some c =>
    if c = '\n' ∨ c = '\r' then
      report .escapeIncomplete (← spanFrom start)
    else
      move Cursor.advance
  textNodeFrom .escape start []

/-- A single character of a class, or an escape. At the end of the text, where no class asks for one, there
is a NUL instead. -/
def classChar : Parse Node := do
  match ← peek with
  | none => return .leaf .char "\x00" (← spanFrom (← cursor))
  | some c => if c = '\\' then escape else takeLeaf .char 1

/-- Whether a hyphen comes next that stands between the two ends of a range. -/
def atRangeHyphen : Parse Bool := do
  let c ← cursor
  return c.peek = some '-' && (c.peekAt 1).any fun next => next != ']' && next != '\n'

/-- A member of a class: a character or a range of characters. -/
def classItem : Parse Node := do
  let start ← cursor
  let low ← classChar
  if ← atRangeHyphen then
    move Cursor.advance
    let high ← classChar
    textNodeFrom .charRange start [low, high]
  else
    return low

/-- The next member of a class. A closing bracket ends the class, and so does the end of the line,
which is reported. -/
def nextClassItem : Parse (Option Node) := do
  match ← peek with
  | none =>
    reportHere .classUnclosed
    return none
  | some c =>
    if c = '\n' then
      reportHere .classUnclosed
      return none
    else if c = ']' then
      move Cursor.advance
      return none
    else
      return some (← classItem)

/-- A character class. -/
def charClass : Parse Node := do
  let start ← cursor
  move Cursor.advance
  let items ← many nextClassItem
  textNodeFrom .charClass start items

/-- An escape, an anchor, a dot, a character class, a string or an identifier. -/
def atom : Parse (Option Node) := do
  match ← peek with
  | none => return none
  | some c =>
    if c = '\\' then return some (← escape)
    else if c = '^' ∨ c = '$' then return some (← takeLeaf .anchor 1)
    else if c = '.' then return some (← takeLeaf .dot 1)
    else if c = '[' then return some (← charClass)
    else if c = '"' then string
    else identifier

/-! ## List matches -/

/-- The argument of a filter and the parenthesis behind it. -/
def filterArgument : Parse (List Node) := do
  skipInlineBlank
  let argument ← orReport .filterArgumentMissing string
  skipInlineBlank
  if !(← eatChar ')') then
    reportHere .filterUnclosed
  return argument.toList

/-- A filter: its name and an argument in parentheses. -/
def filter : Parse (Option Node) := do
  let start ← cursor
  match ← orReport .filterNameMissing identifier with
  | none => return none
  | some name =>
    if ← eatChar '(' then
      let argument ← filterArgument
      return some (← branchFrom .filter start (name :: argument))
    else
      reportHere .filterOpenMissing
      return some (← branchFrom .filter start [name])

/-- Leaves a broken list match behind. -/
def skipListMatch : Parse Unit := move fun c => c.advanceBy (untilBrackets c.rest)

/-- The filter of a list match, if a colon announces one. -/
def listFilter : Parse (List Node) := do
  if ← eatChar ':' then
    skipInlineBlank
    let filter ← filter
    skipInlineBlank
    return filter.toList
  else
    return []

/-- A list match: a list name and perhaps a filter between double brackets. -/
def listMatch : Parse Node := do
  let start ← cursor
  move (·.advanceBy 2)
  skipInlineBlank
  match ← orReport .listNameMissing identifier with
  | none =>
    skipListMatch
    branchFrom .listMatch start []
  | some name =>
    skipInlineBlank
    let filter ← listFilter
    if !(← eatLiteral "]]") then
      reportHere .listUnclosed
      skipListMatch
    branchFrom .listMatch start (name :: filter)

/-! ## Groups and captures -/

/-- Records a complaint about the next character, unless nesting went too deep, which explains
it. -/
def reportUnlessNested (complaint : Complaint) : Parse Unit := do
  if !(← get).nestingReported then
    reportHere complaint

/-- The expression in a pair of parentheses and the closing one. -/
def enclosed (missing : Complaint) (inner : Parse (Option Node)) : Parse (List Node) := do
  let body ← afterBlank inner
  if body.isNone then
    reportUnlessNested missing
  if !(← eatCharAfterBlank ')') then
    reportUnlessNested .parenthesisUnclosed
  return body.toList

/-- A group. -/
def group (inner : Parse (Option Node)) : Parse Node := do
  let start ← cursor
  move Cursor.advance
  let body ← enclosed .groupBodyMissing inner
  branchFrom .group start body

/-- What follows the opening of a named capture: its name and what it contains. -/
def captureParts (inner : Parse (Option Node)) : Parse (List Node) := do
  match ← orReport .captureNameMissing identifier with
  | none => return []
  | some name =>
    if ← eatChar '>' then
      return name :: (← enclosed .captureBodyMissing inner)
    else
      reportHere .captureNameUnclosed
      return [name]

/-- A named capture. -/
def namedCapture (inner : Parse (Option Node)) : Parse Node := do
  let start ← cursor
  move (·.advanceBy 4)
  let parts ← captureParts inner
  branchFrom .namedCapture start parts

/-! ## Quantifiers -/

/-- The bounds of a quantifier and the closing brace. -/
def quantifierBounds (start : Cursor) (least : Node) : Parse Node := do
  skipInlineBlank
  let (kind, most) ←
    if ← eatChar ',' then do
      skipInlineBlank
      pure (Kind.range, (← number).toList)
    else
      pure (Kind.exactRange, [])
  skipInlineBlank
  if !(← eatChar '}') then
    reportHere .quantifierUnclosed
  branchFrom kind start (least :: most)

/-- A quantifier, if one comes next. One without a number is reported, read and dropped. -/
def quantifier : Parse (Option Node) := do
  let start ← cursor
  if ← eatChar '?' then
    return some (← branchFrom .questionMark start [])
  else if ← eatChar '{' then
    skipInlineBlank
    match ← number with
    | some least => return some (← quantifierBounds start least)
    | none =>
      reportHere .quantifierNumberMissing
      move fun c => c.advanceBy (untilBrace c.rest)
      return none
  else
    return none

/-! ## Expressions -/

/-- A named capture, a group, a list match or an atom. -/
def primary (inner : Parse (Option Node)) : Parse (Option Node) := do
  let c ← cursor
  if c.checkLiteral "(?P<" then return some (← namedCapture inner)
  else if c.peek = some '(' then return some (← group inner)
  else if c.checkLiteral "[[" then return some (← listMatch)
  else atom

/-- A primary with its quantifier, if it has one. -/
def quantified (inner : Parse (Option Node)) : Parse (Option Node) := do
  let start ← cursor
  match ← primary inner with
  | none => return none
  | some subject =>
    match ← quantifier with
    | none => return some subject
    | some quantifier => return some (← branchFrom .quantified start [subject, quantifier])

/-- Whether something comes next that no expression continues with: `uses` or a rule. -/
def atBoundary : Parse Bool := do
  let c ← cursor
  return c.atKeyword "uses" || c.atRuleStart

/-- An item of a concatenation. -/
def item (inner : Parse (Option Node)) : Parse (Option Node) := do
  if ← atBoundary then return none else quantified inner

/-- One node for one part, a node above them for several. -/
def joined (kind : Kind) (start : Cursor) (first : Node) (further : List Node) :
    Parse (Option Node) := do
  if further.isEmpty then
    return some first
  else
    return some (← branchFrom kind start (first :: further))

/-- Items with blanks between them. -/
def concatenation (inner : Parse (Option Node)) : Parse (Option Node) := do
  let start ← cursor
  match ← item inner with
  | none => return none
  | some first =>
    let further ← many (afterBlank (item inner))
    joined .concatenation start first further

/-- A bar and the branch behind it. A bar without a branch is reported. -/
def nextBranch (inner : Parse (Option Node)) : Parse (Option Node) := do
  if ← eatCharAfterBlank '|' then
    orReport .branchMissing (afterBlank (concatenation inner))
  else
    return none

/-- Concatenations with bars between them. -/
def alternation (inner : Parse (Option Node)) : Parse (Option Node) := do
  let start ← cursor
  match ← concatenation inner with
  | none => return none
  | some first =>
    let further ← many (nextBranch inner)
    joined .alternation start first further

/-- Reports, once, that expressions nest too deep. -/
def reportNesting : Parse Unit := do
  if !(← get).nestingReported then
    modify fun s => { s with nestingReported := true }
    reportHere (.nestingTooDeep (← read).depth)

/-- An expression in which groups and captures nest less than `levels` deep. -/
def expressionWithin : Nat → Parse (Option Node)
  | 0 => do
    reportNesting
    return none
  | levels + 1 => alternation (expressionWithin levels)

/-- An expression, if one comes next. -/
def expression : Parse (Option Node) := do
  expressionWithin (← read).depth

end Parse

end PatternRules
