import PatternRules.Json.Basic

/-!
Records in JSON: an object with named members, or an array with the same values in a fixed order.
Members with other names are not looked at. Arrays and objects that are looked at nest only so deep,
which the decoders count in `levels`.
-/

namespace PatternRules.Json

/-- The values of the members with the given names. None if one of them is repeated, or if a name
has no text. -/
def fields? (names : List String) (members : List (Option String × Json)) :
    Option (List (Option Json)) :=
  if members.any (·.1.isNone) then none
  else names.mapM fun name =>
    match members.filter (·.1 == some name) with
    | [] => some none
    | [(_, value)] => some (some value)
    | _ => none

/-- The values of a record with the given names. As an array it has to be complete. -/
def record? (names : List String) : Json → Option (List (Option Json))
  | .object members => fields? names members
  | .array items => if items.length = names.length then some (items.map some) else none
  | _ => none

/-- A tag: a text, or an object with the tag as its only name and null as its value. -/
def tag? (levels : Nat) : Json → Option String
  | .string s => s
  | .object [(name, .null)] => if 0 < levels then name else none
  | _ => none

/-- The items of an array. -/
def items? (levels : Nat) : Json → Option (List Json)
  | .array items => if 0 < levels then some items else none
  | _ => none

/-- A value that may be null or missing. -/
def optional? {α : Type} (decode : Json → Option α) : Option Json → Option (Option α)
  | none => some none
  | some .null => some none
  | some j => (decode j).map some

end PatternRules.Json
