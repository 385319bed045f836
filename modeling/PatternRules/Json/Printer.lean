import PatternRules.Json.Basic

/-!
JSON text. The compact form has no blanks; the indented form puts every item and member on a line
of its own, two spaces deeper than what holds it. Quotes, backslashes and control characters are
escaped, everything else stands for itself.
-/

namespace PatternRules.Json

/-- A number below sixteen as a digit in lower case. -/
def hexDigit (n : Nat) : Char := Nat.digitChar n

/-- A character inside a string. -/
def escapeChar (c : Char) : List Char :=
  if c = '"' then ['\\', '"']
  else if c = '\\' then ['\\', '\\']
  else if c = '\x08' then ['\\', 'b']
  else if c = '\x0c' then ['\\', 'f']
  else if c = '\n' then ['\\', 'n']
  else if c = '\r' then ['\\', 'r']
  else if c = '\t' then ['\\', 't']
  else if c.toNat < 32 then ['\\', 'u', '0', '0', hexDigit (c.toNat / 16), hexDigit (c.toNat % 16)]
  else [c]

/-- A text as a JSON string. -/
def quote (s : String) : String :=
  "\"" ++ String.ofList (s.toList.flatMap escapeChar) ++ "\""

/-- A string as it is written; one without a text is written empty. -/
def quoteOptional (s : Option String) : String := quote (s.getD "")

mutual

/-- The text of a value without blanks. -/
def compact : Json → String
  | .null => "null"
  | .bool true => "true"
  | .bool false => "false"
  | .number n => n.render
  | .string s => quoteOptional s
  | .array [] => "[]"
  | .array (item :: rest) => "[" ++ compact item ++ compactItems rest
  | .object [] => "\x7b\x7d"
  | .object ((name, value) :: rest) =>
    "\x7b" ++ quoteOptional name ++ ":" ++ compact value ++ compactMembers rest

/-- The items of an array behind the first, and its closing bracket. -/
def compactItems : List Json → String
  | [] => "]"
  | item :: rest => "," ++ compact item ++ compactItems rest

/-- The members of an object behind the first, and its closing brace. -/
def compactMembers : List (Option String × Json) → String
  | [] => "\x7d"
  | (name, value) :: rest =>
    "," ++ quoteOptional name ++ ":" ++ compact value ++ compactMembers rest

end

/-- A line break and the blanks of `depth` levels. -/
def newline (depth : Nat) : String := "\n" ++ String.ofList (List.replicate (2 * depth) ' ')

mutual

/-- The text of a value over several lines, `depth` levels deep. -/
def indentedAt (depth : Nat) : Json → String
  | .array [] => "[]"
  | .array (item :: rest) =>
    "[" ++ newline (depth + 1) ++ indentedAt (depth + 1) item ++ indentedItems depth rest
  | .object [] => "\x7b\x7d"
  | .object ((name, value) :: rest) =>
    "\x7b" ++ newline (depth + 1) ++ quoteOptional name ++ ": " ++ indentedAt (depth + 1) value ++
      indentedMembers depth rest
  | .null => "null"
  | .bool true => "true"
  | .bool false => "false"
  | .number n => n.render
  | .string s => quoteOptional s

/-- The items of an array behind the first, and its closing bracket. -/
def indentedItems (depth : Nat) : List Json → String
  | [] => newline depth ++ "]"
  | item :: rest =>
    "," ++ newline (depth + 1) ++ indentedAt (depth + 1) item ++ indentedItems depth rest

/-- The members of an object behind the first, and its closing brace. -/
def indentedMembers (depth : Nat) : List (Option String × Json) → String
  | [] => newline depth ++ "\x7d"
  | (name, value) :: rest =>
    "," ++ newline (depth + 1) ++ quoteOptional name ++ ": " ++ indentedAt (depth + 1) value ++
      indentedMembers depth rest

end

/-- The text of a value over several lines. -/
def indented (j : Json) : String := indentedAt 0 j

end PatternRules.Json
