import PatternRules.Grammar.Statement

/-!
Whole documents: a version, imports, a default resolver and rules, in this order, each part
optional. Reading goes on after an error: behind a broken import with the next line, behind a
broken default resolver or rule with the next line that starts a rule. It ends at the first thing
that is no rule, at the end of the text, or when enough errors have been recorded.
-/

namespace PatternRules

namespace Parse

/-- The version, if the document states one. -/
def versionSection : Parse (List Node) := do
  if (← cursor).atKeyword "version" then
    let node ← versionStatement
    skipBlank
    return [node]
  else
    return []

/-- The next import. -/
def nextImport : Parse (Option Node) := do
  if (← cursor).atKeyword "import" then
    if ← errorsFull then
      return none
    else
      let before ← errorCount
      let node ← importStatement
      if before < (← errorCount) then
        move Cursor.skipLine
      skipBlank
      return some node
  else
    return none

/-- The default resolver, if the document has one. -/
def resolverSection : Parse (List Node) := do
  if ← atResolverDefault then
    let before ← errorCount
    let node ← resolverDefault
    if before < (← errorCount) then
      move Cursor.synchronize
    skipBlank
    return [node]
  else
    return []

/-- The next rule. -/
def nextRule : Parse (Option Node) := do
  if (← cursor).atEnd || (← errorsFull) then
    return none
  else
    match ← rule with
    | none => return none
    | some rule =>
      if !rule.clean then
        move Cursor.synchronize
      skipBlank
      return some rule.node

/-- A document. -/
def document : Parse Node := do
  let start ← cursor
  skipBlank
  let version ← versionSection
  let imports ← many nextImport
  let resolver ← resolverSection
  let rules ← many nextRule
  branchFrom .root start (version ++ imports ++ resolver ++ rules)

end Parse

/-- Reads a document under some limits: its tree, and the state in which reading ended. -/
def readWithin (limits : Limits) (text : List Char) : Node × ParseState :=
  (Parse.document.run limits).run ⟨.ofChars text, [], false⟩

/-- Reads a document. Every text has a reading. -/
def readDocument (text : String) : Reading :=
  let (tree, state) := readWithin .standard text.toList
  ⟨tree, state.errors⟩

end PatternRules
