/-!
Paths, as text and as what that text means. Components are separated by slashes. Empty components
and dots mean nothing, except for a dot in front.
-/

namespace PatternRules.Path

/-- A path with another one behind it. A rooted path stands for itself. -/
def join (base path : String) : String :=
  if path.toList.head? = some '/' then path
  else if base.isEmpty || base.toList.getLast? = some '/' then base ++ path
  else base ++ "/" ++ path

/-- The pieces of a text between slashes. -/
def pieces : List Char → List (List Char)
  | [] => [[]]
  | c :: cs =>
    if c = '/' then [] :: pieces cs
    else
      match pieces cs with
      | [] => [[c]]
      | piece :: rest => (c :: piece) :: rest

/-- The components of a path, those that mean nothing among them. -/
def components (path : String) : List String := (pieces path.toList).map String.ofList

/-- What a path means: whether it is rooted, and the components that mean something. -/
structure Meaning where
  rooted : Bool
  components : List String
deriving DecidableEq

/-- Whether a component that is not the first means nothing. -/
def isIdle (name : String) : Bool := name == "" || name == "."

/-- The meaning of a path. -/
def meaning (path : String) : Meaning :=
  match components path with
  | [] => ⟨false, []⟩
  | first :: rest =>
    let further := rest.filter (!isIdle ·)
    if first == "" then ⟨!rest.isEmpty, further⟩ else ⟨false, first :: further⟩

/-- Whether two paths, either of which may be missing, mean the same. -/
def same (a b : Option String) : Bool := a.map meaning == b.map meaning

end PatternRules.Path
