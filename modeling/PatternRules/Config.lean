/-!
The configuration of the validator.
-/

namespace PatternRules

/-- The resolver methods that are defined everywhere. -/
def builtinResolvers : List String := ["exact", "fuzzy", "phonetic", "semantic", "regex", "custom"]

/-- What the validator does. -/
structure Config where
  /-- Names that may be used without a definition. -/
  builtins : List String
  /-- Whether the raw text is scanned beside the tree. -/
  scanText : Bool
  /-- Whether files that a document names have to exist. -/
  checkFiles : Bool
  /-- Whether repeated diagnostics are dropped. -/
  dropRepeats : Bool
deriving DecidableEq, Inhabited

namespace Config

/-- Every check is on. -/
def standard : Config := ⟨builtinResolvers, true, true, true⟩

def isBuiltin (config : Config) (name : String) : Bool := config.builtins.contains name

end Config

end PatternRules
