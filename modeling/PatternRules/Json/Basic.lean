import PatternRules.Json.Numeral

/-!
JSON values as they are written: the members of an object in order, repeated names included, and
numbers as numerals. A string in which an escape names only half of a character has no text; such a
string may stand where nobody looks at it.
-/

namespace PatternRules

/-- A JSON value. -/
inductive Json where
  | null
  | bool (value : Bool)
  | number (numeral : Json.Numeral)
  | string (text : Option String)
  | array (items : List Json)
  | object (members : List (Option String × Json))
deriving Inhabited

namespace Json

/-- A string with a text. -/
def text (s : String) : Json := .string (some s)

/-- A natural number. -/
def nat (n : Nat) : Json := .number (.ofNat n)

/-- An integer. -/
def int (i : Int) : Json := .number (.ofInt i)

/-- An object with the given members. -/
def ofMembers (members : List (String × Json)) : Json :=
  .object (members.map fun (name, value) => (some name, value))

/-- A text, or null. -/
def optionalText : Option String → Json
  | none => .null
  | some s => text s

/-- The text of a string. -/
def text? : Json → Option String
  | .string s => s
  | _ => none

/-- A natural number up to `most`. -/
def nat? (most : Nat) : Json → Option Nat
  | .number n =>
    match n.toInt? with
    | some (.ofNat k) => if k ≤ most then some k else none
    | _ => none
  | _ => none

/-- The last member with a name. -/
def lastMember? (name : String) : Json → Option Json
  | .object members => (members.reverse.find? (·.1 == some name)).map (·.2)
  | _ => none

mutual

/-- Whether every string has a text, every number is in range, and arrays and objects nest at most
`levels` deep. -/
def isReadable (levels : Nat) : Json → Bool
  | .null => true
  | .bool _ => true
  | .number n => n.number?.isSome
  | .string s => s.isSome
  | .array items => 0 < levels && areReadable (levels - 1) items
  | .object members => 0 < levels && areMembersReadable (levels - 1) members

def areReadable (levels : Nat) : List Json → Bool
  | [] => true
  | item :: rest => isReadable levels item && areReadable levels rest

def areMembersReadable (levels : Nat) : List (Option String × Json) → Bool
  | [] => true
  | (name, value) :: rest =>
    name.isSome && isReadable levels value && areMembersReadable levels rest

end

/-- Puts a member in order of names, in place of an earlier one with its name. -/
def insertMember (name : String) (value : Json) :
    List (Option String × Json) → List (Option String × Json)
  | [] => [(some name, value)]
  | (none, other) :: rest => (none, other) :: insertMember name value rest
  | (some n, other) :: rest =>
    if name = n then (some name, value) :: rest
    else if name < n then (some name, value) :: (some n, other) :: rest
    else (some n, other) :: insertMember name value rest

mutual

/-- The same value with the members of objects in order of their names, each name once with the last
value given to it, and with numbers in their shortest form. -/
def normal : Json → Json
  | .number n => .number n.normal
  | .array items => .array (normalItems items)
  | .object members => .object (normalMembers [] members)
  | j => j

def normalItems : List Json → List Json
  | [] => []
  | item :: rest => normal item :: normalItems rest

def normalMembers (done : List (Option String × Json)) :
    List (Option String × Json) → List (Option String × Json)
  | [] => done
  | (name, value) :: rest => normalMembers (insertMember (name.getD "") (normal value) done) rest

end

end Json

end PatternRules
