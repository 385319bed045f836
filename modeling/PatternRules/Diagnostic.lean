import PatternRules.Tree.Node

/-!
What is said about a document: syntax errors, found while reading it, and diagnostics, the form in
which every finding is handed on.
-/

namespace PatternRules

/-- A place where a document leaves the grammar. -/
structure SyntaxError where
  message : String
  span : Span
deriving DecidableEq, Inhabited

/-- The text `line:column: message`. -/
def SyntaxError.render (e : SyntaxError) : String := e.span.render ++ ": " ++ e.message

/-- What reading a document gives: a tree, whatever the text, and the errors met on the way. -/
structure Reading where
  tree : Node
  errors : List SyntaxError
deriving DecidableEq, Inhabited

namespace Reading

/-- The reading of a document that could not be read at all: an empty tree and one error. -/
def fallback (message : String) : Reading := ⟨.emptyRoot, [⟨message, .point ⟨1, 1⟩⟩]⟩

def hasErrors (r : Reading) : Bool := !r.errors.isEmpty

end Reading

/-- How grave a diagnostic is. -/
inductive Severity where
  | error
  | warning
deriving DecidableEq, Inhabited

namespace Severity

def tag : Severity → String
  | error => "error"
  | warning => "warning"

def all : List Severity := [error, warning]

def ofTag? (tag : String) : Option Severity := all.find? (·.tag == tag)

theorem ofTag?_tag (s : Severity) : ofTag? s.tag = some s := by cases s <;> decide

end Severity

/-- Groups of diagnostic codes. -/
inductive Category where
  | grammar
  | reference
  | quantifier
  | resource
  | internal
deriving DecidableEq, Inhabited

def Category.tag : Category → String
  | grammar => "syntax"
  | reference => "reference"
  | quantifier => "quantifier"
  | resource => "resource"
  | internal => "internal"

/-- What a diagnostic is about. -/
inductive Code where
  | syntaxError
  | internalError
  | undefinedReference
  | unboundedQuantifier
  | openEndedQuantifier
  | missingImportFile
  | missingOptionalTokensFile
deriving DecidableEq, Inhabited

namespace Code

def tag : Code → String
  | syntaxError => "syntax-error"
  | internalError => "internal-error"
  | undefinedReference => "undefined-reference"
  | unboundedQuantifier => "unbounded-quantifier"
  | openEndedQuantifier => "open-ended-quantifier"
  | missingImportFile => "missing-import-file"
  | missingOptionalTokensFile => "missing-optional-tokens-file"

def all : List Code :=
  [syntaxError, internalError, undefinedReference, unboundedQuantifier, openEndedQuantifier,
   missingImportFile, missingOptionalTokensFile]

def ofTag? (tag : String) : Option Code := all.find? (·.tag == tag)

theorem ofTag?_tag (c : Code) : ofTag? c.tag = some c := by cases c <;> decide

def category : Code → Category
  | syntaxError => .grammar
  | internalError => .internal
  | undefinedReference => .reference
  | unboundedQuantifier | openEndedQuantifier => .quantifier
  | missingImportFile | missingOptionalTokensFile => .resource

end Code

/-- A finding, ready for an editor. -/
structure Diagnostic where
  span : Span
  message : String
  severity : Severity
  code : Code
  source : String
  suggestion : Option String
deriving DecidableEq, Inhabited

namespace Diagnostic

/-- The source named by every diagnostic made here. -/
def toolName : String := "omg"

/-- A diagnostic of severity `error`. -/
def error (code : Code) (message : String) (span : Span) : Diagnostic :=
  ⟨span, message, .error, code, toolName, none⟩

/-- The diagnostic with a way out suggested. -/
def suggest (d : Diagnostic) (suggestion : String) : Diagnostic :=
  { d with suggestion := some suggestion }

/-- A syntax error as a diagnostic. -/
def ofSyntaxError (e : SyntaxError) : Diagnostic := error .syntaxError e.message e.span

def isError (d : Diagnostic) : Bool := d.severity == .error

/-- The text `line:column: code [category] message`. -/
def render (d : Diagnostic) : String :=
  d.span.render ++ ": " ++ d.code.tag ++ " [" ++ d.code.category.tag ++ "] " ++ d.message

/-- The part of a diagnostic that tells whether another one repeats it. -/
def key (d : Diagnostic) : Span × Code × String := (d.span, d.code, d.message)

/-- Drops every diagnostic that repeats the span, code and message of an earlier one. -/
def dropRepeats : List Diagnostic → List Diagnostic
  | [] => []
  | d :: rest => d :: (dropRepeats rest).filter (·.key != d.key)

/-- Puts a diagnostic in front of those that do not stand before it. -/
def insertByPosition (d : Diagnostic) : List Diagnostic → List Diagnostic
  | [] => [d]
  | other :: rest =>
    if (d.span.start.compare other.span.start).isLE then d :: other :: rest
    else other :: insertByPosition d rest

/-- Sorts by line and column; diagnostics at one position keep their order. -/
def sortByPosition (diagnostics : List Diagnostic) : List Diagnostic :=
  diagnostics.foldr insertByPosition []

end Diagnostic

end PatternRules
