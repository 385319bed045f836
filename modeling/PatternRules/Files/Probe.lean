import PatternRules.Files.Path

/-!
What a document can know about files. The state of the files is asked from a `FileProbe`; the names
in a document are literals, texts between double quotes, and start from the directory of the document.
-/

namespace PatternRules

/-! ## Literals -/

/-- A literal without the double quotes around it. A missing closing quote is allowed. -/
def unquote (literal : List Char) : List Char :=
  match literal with
  | '"' :: rest => if rest.getLast? = some '"' then rest.dropLast else rest
  | _ => literal

/-- Whether a literal has both its quotes. -/
def isClosedLiteral (literal : List Char) : Bool :=
  2 ≤ literal.length && literal.head? == some '"' && literal.getLast? == some '"'

/-- A text between quotes loses just them. -/
theorem unquote_quoted (body : List Char) : unquote ('"' :: body ++ ['"']) = body := by
  simp [unquote]

/-! ## Files -/

/-- What is known about a file. -/
inductive FileStatus where
  /-- There is a file at the path. -/
  | found
  /-- There is none. -/
  | missing
  /-- It cannot be told. -/
  | unknown
deriving DecidableEq, Inhabited

/-- What is known about the file at each path. -/
abbrev FileProbe := String → FileStatus

/-- Where a document stands: what is known about files, and the directory its file names start
from, if there is one. -/
structure Surroundings where
  probe : FileProbe
  baseDir : Option String

namespace Surroundings

/-- The path that a file name in a document stands for. -/
def resolve? (place : Surroundings) (literal : String) : Option String :=
  place.baseDir.map fun baseDir => Path.join baseDir (String.ofList (unquote literal.toList))

/-- What is known about the file that a document names. -/
def status (place : Surroundings) (literal : String) : FileStatus :=
  match place.resolve? literal with
  | none => .unknown
  | some path => place.probe path

end Surroundings

end PatternRules
