import PatternRules.Analysis.FileReference
import PatternRules.Analysis.Quantifier
import PatternRules.Analysis.Reference
import PatternRules.Grammar.Document

/-!
The validator: every check that the configuration asks for, over the tree and over the text. Where
both see the same thing, the repetition is dropped. Diagnostics come in the order of their
positions; those at one position in the order of the checks.
-/

namespace PatternRules

/-- The lines that are scanned, if the configuration asks for it. -/
def scannedLines (config : Config) (text : List Char) : List ScannedLine :=
  if config.scanText then scanText text else []

/-- The diagnostics for missing files. Without a directory nothing can be told. -/
def missingFiles (config : Config) (place : Surroundings) (root : Node)
    (lines : List ScannedLine) : List Diagnostic :=
  if config.checkFiles then
    (FileReference.inTree root ++ FileReference.inText lines).filterMap
      (FileReference.missing? place)
  else
    []

/-- The diagnostics of all checks, one check after the other. -/
def findings (config : Config) (place : Surroundings) (root : Node) (text : List Char) :
    List Diagnostic :=
  let lines := scannedLines config text
  undefinedReferences config root ++ unboundedRanges root ++ openEndedQuantifiers lines ++
    missingFiles config place root lines

/-- The diagnostics about a tree and its text. -/
def validate (config : Config) (place : Surroundings) (root : Node) (text : List Char) :
    List Diagnostic :=
  let all := findings config place root text
  Diagnostic.sortByPosition (if config.dropRepeats then Diagnostic.dropRepeats all else all)

/-- The syntax errors of a reading and the diagnostics about it. -/
def diagnose (config : Config) (place : Surroundings) (reading : Reading) (text : List Char) :
    List Diagnostic :=
  Diagnostic.sortByPosition
    (reading.errors.map Diagnostic.ofSyntaxError ++ validate config place reading.tree text)

/-- A document that was read and validated. -/
structure Analysis where
  reading : Reading
  diagnostics : List Diagnostic

namespace Analysis

def errorCount (a : Analysis) : Nat := (a.diagnostics.filter Diagnostic.isError).length

def isClean (a : Analysis) : Bool := a.diagnostics.isEmpty

end Analysis

/-- Reads and validates a document. -/
def analyze (config : Config) (place : Surroundings) (text : String) : Analysis :=
  let reading := readDocument text
  ⟨reading, diagnose config place reading text.toList⟩

end PatternRules
