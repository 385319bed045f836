import PatternRules.Analysis.Region
import PatternRules.Files.Probe
import PatternRules.Tree.Query
import PatternRules.Diagnostic

/-!
The files that a document names: the paths of its imports and the file names behind
`optional-tokens`. They are taken from the tree and, for statements that reading never reached, from
the text. A file that is known to be missing is reported.
-/

namespace PatternRules

/-- Why a document names a file. -/
inductive FilePurpose where
  | importPath
  | optionalTokens
deriving DecidableEq, Inhabited

namespace FilePurpose

def code : FilePurpose → Code
  | importPath => .missingImportFile
  | optionalTokens => .missingOptionalTokensFile

/-- What is said if the file is missing. -/
def message (purpose : FilePurpose) (path : String) : String :=
  match purpose with
  | importPath => "Import file not found: " ++ path
  | optionalTokens => "Optional-tokens file not found: " ++ path

end FilePurpose

/-- A file name in a document, as it is written. -/
structure FileReference where
  purpose : FilePurpose
  literal : String
  span : Span
deriving DecidableEq, Inhabited

namespace FileReference

/-! ## From the tree -/

/-- A node with a text as a file name. -/
def ofNode? (purpose : FilePurpose) (node : Node) : Option FileReference :=
  node.text?.map fun literal => ⟨purpose, literal, node.span⟩

/-- Whether a text occurs in another. -/
def occursIn (part : List Char) : List Char → Bool
  | [] => part.isEmpty
  | c :: cs => part.isPrefixOf (c :: cs) || occursIn part cs

/-- Whether a node is a resolver flag that mentions `optional-tokens`. -/
def isOptionalTokensFlag (node : Node) : Bool :=
  node.kind == .resolverFlag &&
    node.text?.any fun text => occursIn "optional-tokens".toList text.toList

/-- The path of an import. -/
def ofImport? (statement : Node) : Option FileReference := do
  let path ← statement.children.head?
  if statement.kind = .importStatement ∧ path.kind = .string then
    ofNode? .importPath path
  else
    none

/-- The file names in a tree: the paths of imports, then the strings below `optional-tokens`. -/
def inTree (root : Node) : List FileReference :=
  root.children.filterMap ofImport? ++
    (root.nodes.filter isOptionalTokensFlag).flatMap fun flag =>
      (flag.nodesOfKind .string).filterMap (ofNode? .optionalTokens)

/-! ## From the text -/

/-- What follows a literal. -/
def dropLiteral? (literal text : List Char) : Option (List Char) :=
  if literal.isPrefixOf text then some (text.drop literal.length) else none

/-- The quoted text, quotes included, that comes first. -/
def quotedFirst? : List Char → Option (List Char)
  | '"' :: cs =>
    let body := cs.takeWhile fun c => c != '"' && c != '\n'
    if cs[body.length]? = some '"' then some ('"' :: body ++ ['"']) else none
  | _ => none

/-- The quoted text behind the word `import` with which a line begins, and how many characters are
in front of it. -/
def importLiteral? (line : List Char) : Option (Nat × List Char) := do
  let behindWord ← dropLiteral? "import".toList (line.dropWhile Text.isWhite)
  let rest := behindWord.dropWhile Text.isWhite
  if rest.length < behindWord.length then
    let literal ← quotedFirst? rest
    return (line.length - rest.length, literal)
  else
    none

/-- The text between the parentheses behind the words `optional-tokens` that come first, and how
many characters are in front of it. -/
def optionalTokensFirst? (text : List Char) : Option (Nat × List Char) := do
  let behindWord ← dropLiteral? "optional-tokens".toList text
  let rest ← dropLiteral? ['('] (behindWord.dropWhile Text.isWhite)
  let arguments := rest.takeWhile (· != ')')
  if arguments.length < rest.length then
    return (text.length - rest.length, arguments)
  else
    none

/-- The matches in a text, from left to right and without overlap, each with the number of
characters in front of it. `first?` gives the match that a text begins with and its length; `skip`
characters belong to the match before. -/
def matchesFrom {α : Type} (first? : List Char → Option (α × Nat)) (skip index : Nat) :
    List Char → List (Nat × α)
  | [] => []
  | c :: cs =>
    match skip with
    | skip + 1 => matchesFrom first? skip (index + 1) cs
    | 0 =>
      match first? (c :: cs) with
      | some (found, length) => (index, found) :: matchesFrom first? (length - 1) (index + 1) cs
      | none => matchesFrom first? 0 (index + 1) cs

/-- The quoted texts in a text. -/
def quotedTexts (text : List Char) : List (Nat × List Char) :=
  matchesFrom (fun cs => (quotedFirst? cs).map fun literal => (literal, literal.length)) 0 0 text

/-- The uses of `optional-tokens` in a text: for each, how many characters of it are in front of the
text between the parentheses, and that text. -/
def optionalTokensUses (text : List Char) : List (Nat × Nat × List Char) :=
  matchesFrom (fun cs => (optionalTokensFirst? cs).map fun (before, arguments) =>
    ((before, arguments), before + arguments.length + 1)) 0 0 text

/-- A file name at an index of a line. -/
def atIndex (purpose : FilePurpose) (number index : Nat) (literal : List Char) : FileReference :=
  ⟨purpose, String.ofList literal, ⟨number, index + 1, literal.length⟩⟩

/-- The file names in a line. A use of `optional-tokens` counts if it starts in code, which is asked by the
offset of its first byte. -/
def inLine (line : ScannedLine) : List FileReference :=
  let text := line.content
  let imports := (importLiteral? text).toList.map fun (index, literal) =>
    atIndex .importPath line.number index literal
  let uses := (optionalTokensUses text).filter fun (index, _) =>
    line.regionAt? (byteLength (text.take index)) == some .code
  imports ++ uses.flatMap fun (index, before, arguments) =>
    (quotedTexts arguments).map fun (inner, literal) =>
      atIndex .optionalTokens line.number (index + before + inner) literal

/-- The file names in a text. -/
def inText (lines : List ScannedLine) : List FileReference := lines.flatMap inLine

/-! ## Missing files -/

/-- The name without its quotes. -/
def path (reference : FileReference) : String :=
  String.ofList (unquote reference.literal.toList)

/-- Whether the name has both its quotes. -/
def isComplete (reference : FileReference) : Bool := isClosedLiteral reference.literal.toList

/-- The diagnostic for a file that is known to be missing. -/
def missing? (place : Surroundings) (reference : FileReference) : Option Diagnostic := do
  let path ← place.resolve? reference.literal
  if reference.isComplete ∧ place.probe path = .missing then
    return (Diagnostic.error reference.purpose.code (reference.purpose.message reference.path)
      reference.span).suggest ("looked for " ++ path)
  else
    none

end FileReference

end PatternRules
