import PatternRules.Grammar.Expression
import PatternRules.Grammar.Resolver

/-!
The statements of a document: the version, imports, the default resolver and rules.
-/

namespace PatternRules

/-- The options an import may have. -/
def importFlags : List String :=
  ["word-boundary", "word-prefix", "word-suffix", "ignore-case", "ignore-punctuation",
   "elide-whitespace", "line-start", "line-end"]

/-- The length of a version literal: digits, and more digits behind single dots. -/
def versionLength : List Char → Nat
  | [] => 0
  | c :: cs =>
    if c.isDigit || (c == '.' && cs.head?.any Char.isDigit) then versionLength cs + 1 else 0

namespace Parse

/-! ## Version -/

/-- A version literal, if a digit comes next. -/
def versionLiteral : Parse (Option Node) := do
  let c ← cursor
  if c.peek.any Char.isDigit then
    return some (← takeLeaf .versionLiteral (versionLength c.rest))
  else
    return none

/-- The word `version` and a version literal. -/
def versionStatement : Parse Node := do
  let start ← cursor
  move (·.advanceBy "version".length)
  let literal ← orReport .versionNumberMissing (afterBlank versionLiteral)
  branchFrom .versionStatement start literal.toList

/-! ## Imports -/

/-- The next option of an import. A word that is none is read and reported. -/
def nextImportFlag : Parse (Option (List Node)) := do
  match ← seekListItem .importFlagMissing with
  | none => return none
  | some _ =>
    match (← cursor).peekWord? with
    | none =>
      reportHere .importFlagMissing
      return none
    | some word =>
      if word ∈ importFlags then
        return some [← takeLeaf .importFlag word.length]
      else
        unknownWord .importFlagUnknown word
        return some []

/-- The options of an import behind `with`. -/
def importOptions : Parse Node := do
  skipInlineBlank
  let start ← cursor
  let flags ← commaList nextImportFlag
  branchFrom .importOptions start flags.flatten

/-- A name that does not start a rule. -/
def aliasName : Parse (Option Node) := do
  if (← cursor).atRuleStart then return none else identifier

/-- The parts of an import behind its path. -/
def importTail : Parse (List Node) := do
  if ← eatWordAfterBlank "as" then
    match ← orReport .aliasMissing (afterBlank aliasName) with
    | none => return []
    | some name =>
      if ← eatWordAfterBlank "with" then
        return [name, ← importOptions]
      else
        return [name]
  else
    reportHere .asMissing
    return []

/-- The word `import`, a path, `as`, a name, and perhaps options. -/
def importStatement : Parse Node := do
  let start ← cursor
  move (·.advanceBy "import".length)
  match ← orReport .importPathMissing (afterBlank string) with
  | none => branchFrom .importStatement start []
  | some path =>
    let tail ← importTail
    branchFrom .importStatement start (path :: tail)

/-! ## The default resolver -/

/-- Whether the words `resolver default` come next, and not a rule with the first of them as its
name. -/
def atResolverDefault : Parse Bool := do
  let c ← cursor
  return c.atKeyword "resolver" &&
    ((c.advanceBy "resolver".length).skipBlank).checkWord "default"

/-- The word `uses` and its clause. -/
def usesWithClause : Parse (Option Node) := do
  let start ← cursor
  if ← eatWord "uses" then
    return some (← usesClause start)
  else
    return none

/-- The words `resolver default` and a `uses` clause. -/
def resolverDefault : Parse Node := do
  let start ← cursor
  move fun c => ((c.advanceBy "resolver".length).skipBlank).advanceBy "default".length
  let clause ← orReport .usesMissing (afterBlank usesWithClause)
  branchFrom .resolverDefault start clause.toList

/-! ## Rules -/

/-- A `=` that is not the first of two. -/
def singleEquals : Parse (Option Unit) := do
  if startsAssignment (← cursor).rest then
    move Cursor.advance
    return some ()
  else
    return none

/-- The `uses` clause of a rule, unless the word is the name of the next rule. -/
def ruleUses : Parse (Option Node) := do
  if (← cursor).atKeyword "uses" then usesWithClause else return none

/-- A rule and whether it was read without complaint. -/
structure Rule where
  node : Node
  clean : Bool

/-- What follows the name of a rule: `=`, an expression and perhaps a `uses` clause. The second
result tells whether all that has to be there was found. -/
def ruleTail (name : String) : Parse (List Node × Bool) := do
  match ← orReport (.equalsMissing name) (afterBlank singleEquals) with
  | none => return ([], false)
  | some _ =>
    match ← orReport (.ruleBodyMissing name) (afterBlank expression) with
    | none => return ([], false)
    | some body =>
      let clause ← afterBlank ruleUses
      return (body :: clause.toList, true)

/-- A rule: a name, `=`, an expression and perhaps a `uses` clause. Nothing but the name has to be
found. -/
def rule : Parse (Option Rule) := do
  let start ← cursor
  let before ← errorCount
  match ← identifier with
  | none => return none
  | some name =>
    let (parts, complete) ← ruleTail (name.text?.getD "")
    let node ← branchFrom .ruleDefinition start (name :: parts)
    return some ⟨node, complete && (← errorCount) == before⟩

end Parse

end PatternRules
