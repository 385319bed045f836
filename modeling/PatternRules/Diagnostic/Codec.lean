import PatternRules.Diagnostic
import PatternRules.Tree.Codec

/-!
Syntax errors and readings as JSON. The span of a syntax error lies flat among its members.
-/

namespace PatternRules

namespace SyntaxError

def toJson (e : SyntaxError) : Json := .ofMembers (("message", .text e.message) :: e.span.members)

/-- A syntax error from JSON. It is an object, and its other members have to be readable. -/
def ofJson? (levels : Nat) (j : Json) : Option SyntaxError :=
  match levels, j with
  | levels + 1, .object members =>
    if members.all fun (_, value) => value.isReadable levels then do
      match ← Json.fields? ["message", "line", "column", "length"] members with
      | [some message, some line, some column, some length] =>
        return ⟨← message.text?, ← placeNumber? line, ← placeNumber? column, ← placeNumber? length⟩
      | _ => none
    else
      none
  | _, _ => none

end SyntaxError

namespace Reading

def toJson (r : Reading) : Json :=
  .ofMembers [("ast", r.tree.toJson), ("errors", .array (r.errors.map SyntaxError.toJson))]

def ofJson? (levels : Nat) (j : Json) : Option Reading :=
  match levels, Json.record? ["ast", "errors"] j with
  | levels + 2, some [some tree, some errors] => do
    let tree ← Node.ofJson? (levels + 1) tree
    let errors ← (← errors.items? (levels + 1)).mapM (SyntaxError.ofJson? levels)
    return ⟨tree, errors⟩
  | _, _ => none

end Reading

end PatternRules
