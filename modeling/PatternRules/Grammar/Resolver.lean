import PatternRules.Grammar.Leaf

/-!
The `uses` clause, which says how the matches of a rule are resolved: perhaps a scope, perhaps a
method with arguments, perhaps options behind `with`.
-/

namespace PatternRules

/-- The words that scope a resolver. -/
def resolverScopes : List String := ["default", "local"]

/-- The resolver options that are a single word. -/
def resolverFlags : List String := ["ignore-case", "ignore-punctuation"]

/-- The resolver option that takes a list of files. -/
def optionalTokensWord : String := "optional-tokens"

namespace Parse

/-! ## Options -/

/-- Goes to the next item of a list of options. If a rule or the end of the text comes first, that
is reported where the blanks begin. -/
def seekListItem (missing : Complaint) : Parse (Option Unit) :=
  orReport missing <| afterBlank do
    let c ← cursor
    return if c.atEnd || c.atRuleStart then none else some ()

/-- The word at the cursor, which is no known option: it is read and reported. -/
def unknownWord (complaint : String → Complaint) (word : String) : Parse Unit := do
  let start ← cursor
  move (·.skipWhile isWordChar)
  report (complaint word) (← spanFrom start)

/-- A file name in the parentheses behind `optional-tokens`. -/
def tokensFile : Parse (Option Node) := do
  skipBlank
  orReport .tokensFileMissing string

/-- The file names behind `optional-tokens`. -/
def optionalTokens : Parse Node := do
  let start ← cursor
  if ← eatCharAfterBlank '(' then
    let files ← commaList tokensFile
    if !(← eatCharAfterBlank ')') then
      reportHere .tokensUnclosed
    branchFrom .optionalTokens start files
  else
    reportHere .tokensOpenMissing
    branchFrom .optionalTokens start []

/-- A resolver option. A word that is none is read and reported. -/
def resolverFlag : Parse (List Node) := do
  let start ← cursor
  match start.peekWord? with
  | none =>
    reportHere .resolverFlagMissing
    return []
  | some word =>
    if word ∈ resolverFlags then
      return [← takeLeaf .resolverFlag word.length]
    else if word = optionalTokensWord then
      move (·.advanceBy word.length)
      let files ← optionalTokens
      return [← textNodeFrom .resolverFlag start [files]]
    else
      unknownWord .resolverFlagUnknown word
      return []

/-- The next resolver option, which may turn out to be none. -/
def nextResolverFlag : Parse (Option (List Node)) := do
  match ← seekListItem .resolverFlagMissing with
  | none => return none
  | some _ => return some (← resolverFlag)

/-- The resolver options behind `with`. -/
def resolverOptions : Parse Node := do
  skipInlineBlank
  let start ← cursor
  let flags ← commaList nextResolverFlag
  branchFrom .resolverOptions start flags.flatten

/-! ## Methods -/

/-- An argument: a string, perhaps with a name and `=` in front. A name without a `=` is reported
and kept; a name without a string is reported and dropped. -/
def resolverArgument : Parse (Option Node) := do
  let start ← cursor
  match ← identifier with
  | none =>
    match ← string with
    | none => return none
    | some value => return some (← branchFrom .resolverArgument start [value])
  | some name =>
    if ← eatCharAfterBlank '=' then
      skipBlank
      match ← orReport .argumentValueMissing string with
      | none => return none
      | some value => return some (← branchFrom .resolverArgument start [name, value])
    else
      reportHere .argumentEqualsMissing
      return some (← branchFrom .resolverArgument start [name])

/-- The next argument of a method. -/
def nextArgument : Parse (Option Node) := do
  skipBlank
  orReport .argumentMissing resolverArgument

/-- The arguments of a method, in parentheses. -/
def resolverArguments : Parse Node := do
  let start ← cursor
  move Cursor.advance
  let arguments ← commaList nextArgument
  if !(← eatCharAfterBlank ')') then
    reportHere .argumentsUnclosed
  branchFrom .resolverArguments start arguments

/-- A method: its name and perhaps arguments. -/
def resolverMethod : Parse (Option Node) := do
  let start ← cursor
  match ← identifier with
  | none => return none
  | some name =>
    if (← peek) = some '(' then
      let arguments ← resolverArguments
      return some (← branchFrom .resolverMethod start [name, arguments])
    else
      return some (← branchFrom .resolverMethod start [name])

/-! ## The clause -/

/-- A scope, if one comes next. -/
def resolverScope : Parse (Option Node) := do
  match (← cursor).peekWord? with
  | none => return none
  | some word =>
    if word ∈ resolverScopes then
      return some (← takeLeaf .resolverScope word.length)
    else
      return none

/-- A method, unless options or a rule come next. -/
def methodBeforeOptions : Parse (Option Node) := do
  let c ← cursor
  if c.checkWord "with" || c.atRuleStart then return none else resolverMethod

/-- The options, if the word `with` announces them. -/
def optionsBehindWith : Parse (List Node) := do
  if ← eatWordAfterBlank "with" then
    return [← resolverOptions]
  else
    return []

/-- What follows the word `uses`, which stands at `start`. There has to be a scope or a method. -/
def usesClause (start : Cursor) : Parse Node := do
  let scope ← afterBlank resolverScope
  let method ← afterBlank methodBeforeOptions
  if scope.isNone && method.isNone then
    reportHere .methodMissing
    branchFrom .usesClause start []
  else
    let options ← optionsBehindWith
    branchFrom .usesClause start (scope.toList ++ method.toList ++ options)

end Parse

end PatternRules
