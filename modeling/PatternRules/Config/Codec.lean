import PatternRules.Config
import PatternRules.Json.Printer
import PatternRules.Json.Reader
import PatternRules.Text.Quoted

/-!
Configurations as JSON text. A configuration is an object that may leave out any field, or an
array that may leave out the last ones; what is left out keeps its standard value. The text is
read from left to right and the first fault decides: a name that is not a field and a repeated
name are faults as soon as they are read, a value of the wrong type is read first unless it is an
array or an object.
-/

namespace PatternRules

/-- What a value turned out to be. -/
inductive FoundType where
  | null
  | boolean (value : Bool)
  | integer (value : Int)
  | real (shortest : Json.Numeral)
  | string (text : String)
  | sequence
  | map
deriving DecidableEq

/-- What a value should have been. -/
inductive WantedType where
  | config
  | boolean
  | sequence
  | string
deriving DecidableEq

/-- The fields of a configuration. -/
inductive ConfigField where
  | builtins
  | scanText
  | checkFiles
  | dropRepeats
deriving DecidableEq

/-- Why a text is no configuration. -/
inductive ConfigFault where
  | unreadable (fault : Json.Fault)
  | unknownField (name : String)
  | repeatedField (field : ConfigField)
  | wrongType (found : FoundType) (wanted : WantedType)
deriving DecidableEq

namespace ConfigField

def name : ConfigField → String
  | builtins => "builtin_resolvers"
  | scanText => "raw_text_fallback"
  | checkFiles => "check_files"
  | dropRepeats => "deduplicate"

/-- The fields in the order in which they are written. -/
def all : List ConfigField := [builtins, scanText, checkFiles, dropRepeats]

def ofName? (name : String) : Option ConfigField := all.find? (·.name == name)

end ConfigField

/-! ## Messages -/

/-- A name as it is shown in a message. -/
def inBackticks (s : String) : String := "`" ++ s ++ "`"

def FoundType.describe : FoundType → String
  | null => "null"
  | boolean b => "boolean " ++ inBackticks (if b then "true" else "false")
  | integer i => "integer " ++ inBackticks (toString i)
  | real n => "floating point " ++ inBackticks n.render
  | string s => "string " ++ Text.quoted s
  | sequence => "sequence"
  | map => "map"

def WantedType.describe : WantedType → String
  | config => "struct ValidatorConfig"
  | boolean => "a boolean"
  | sequence => "a sequence"
  | string => "a string"

/-- What is said about a fault in the data; a text that is no JSON has no such message. -/
def ConfigFault.message? : ConfigFault → Option String
  | unreadable _ => none
  | unknownField name =>
    let names := ConfigField.all.map (inBackticks ·.name)
    some ("invalid validator config: unknown field " ++ inBackticks name ++ ", expected one of " ++
      ", ".intercalate names)
  | repeatedField field =>
    some ("invalid validator config: duplicate field " ++ inBackticks field.name)
  | wrongType found wanted =>
    some ("invalid validator config: invalid type: " ++ found.describe ++ ", expected " ++
      wanted.describe)

namespace Config

/-! ## Writing -/

def toJson (c : Config) : Json :=
  .ofMembers
    [(ConfigField.builtins.name, .array (c.builtins.map .text)),
     (ConfigField.scanText.name, .bool c.scanText),
     (ConfigField.checkFiles.name, .bool c.checkFiles),
     (ConfigField.dropRepeats.name, .bool c.dropRepeats)]

/-- The text of a configuration. -/
def render (c : Config) : String := c.toJson.indented

/-! ## Reading -/

/-- A fault of the JSON text as a fault of the configuration. -/
def liftFault {α : Type} (r : Except Json.Fault α) : Except ConfigFault α :=
  r.mapError .unreadable

/-- The fault that ends the reading. -/
def unreadable {α : Type} (fault : Json.Fault) : Except ConfigFault α := .error (.unreadable fault)

/-- What a number is. -/
def foundNumber (n : Json.Numeral) : Except ConfigFault FoundType :=
  match n.number? with
  | some (.integer i) => .ok (.integer i)
  | some (.real x) => .ok (.real (.ofFloat x))
  | none => unreadable .malformed

/-- What comes next, where it is not what is wanted. -/
def foundInstead : List Char → Except ConfigFault FoundType
  | [] => unreadable .endOfText
  | c :: cs =>
    if c = 'n' then do
      let _ ← liftFault (Json.expectWord ['u', 'l', 'l'] cs)
      return .null
    else if c = 't' then do
      let _ ← liftFault (Json.expectWord ['r', 'u', 'e'] cs)
      return .boolean true
    else if c = 'f' then do
      let _ ← liftFault (Json.expectWord ['a', 'l', 's', 'e'] cs)
      return .boolean false
    else if c = '-' || c.isDigit then do
      let (n, _) ← liftFault (Json.numeral (c :: cs))
      foundNumber n
    else if c = '"' then do
      let (s, _) ← liftFault (Json.wantedString cs)
      return .string s
    else if c = '[' then return .sequence
    else if c = '{' then return .map
    else unreadable .malformed

/-- The fault of a value of the wrong type. -/
def wrongType {α : Type} (wanted : WantedType) (cs : List Char) : Except ConfigFault α := do
  .error (.wrongType (← foundInstead cs) wanted)

/-- Blanks and a boolean. -/
def readBool (cs : List Char) : Except ConfigFault (Bool × List Char) :=
  match Json.skipBlank cs with
  | 't' :: rest => do return (true, ← liftFault (Json.expectWord ['r', 'u', 'e'] rest))
  | 'f' :: rest => do return (false, ← liftFault (Json.expectWord ['a', 'l', 's', 'e'] rest))
  | cs => wrongType .boolean cs

/-- Blanks and a string. -/
def readString (cs : List Char) : Except ConfigFault (String × List Char) :=
  match Json.skipBlank cs with
  | '"' :: rest => liftFault (Json.wantedString rest)
  | cs => wrongType .string cs

/-- What follows an item of an array: the closing bracket (`false`), or a comma and another item. -/
def afterItem (cs : List Char) : Except ConfigFault (Bool × List Char) :=
  match Json.skipBlank cs with
  | [] => unreadable .endOfText
  | c :: rest =>
    if c = ']' then .ok (false, rest)
    else if c = ',' then
      if (Json.skipBlank rest).head? = some ']' then unreadable .malformed else .ok (true, rest)
    else unreadable .malformed

/-- A string, further strings behind commas, and the closing bracket. -/
def readStringsFrom : Nat → List Char → Except ConfigFault (List String × List Char)
  | 0, _ => unreadable .malformed
  | fuel + 1, cs => do
    let (s, cs) ← readString cs
    let (more, cs) ← afterItem cs
    if more then
      let (strings, cs) ← readStringsFrom fuel cs
      return (s :: strings, cs)
    else
      return ([s], cs)

/-- Blanks and an array of strings. -/
def readStrings (cs : List Char) : Except ConfigFault (List String × List Char) :=
  match Json.skipBlank cs with
  | '[' :: rest =>
    match Json.skipBlank rest with
    | ']' :: rest => .ok ([], rest)
    | _ => readStringsFrom (rest.length + 1) rest
  | cs => wrongType .sequence cs

/-- Reads the value of a field into a configuration. -/
def readField (c : Config) (field : ConfigField) (cs : List Char) :
    Except ConfigFault (Config × List Char) := do
  match field with
  | .builtins =>
    let (builtins, rest) ← readStrings cs
    return ({ c with builtins }, rest)
  | .scanText =>
    let (scanText, rest) ← readBool cs
    return ({ c with scanText }, rest)
  | .checkFiles =>
    let (checkFiles, rest) ← readBool cs
    return ({ c with checkFiles }, rest)
  | .dropRepeats =>
    let (dropRepeats, rest) ← readBool cs
    return ({ c with dropRepeats }, rest)

/-- Reads the name of a field, which must not be among those `seen`. -/
def readFieldName (seen : List ConfigField) (cs : List Char) :
    Except ConfigFault (ConfigField × List Char) := do
  let cs ← liftFault (Json.expectChar '"' cs)
  let (name, cs) ← liftFault (Json.wantedString cs)
  match ConfigField.ofName? name with
  | none => .error (.unknownField name)
  | some field => if field ∈ seen then .error (.repeatedField field) else return (field, cs)

/-- A member, further members behind commas, and the closing brace. -/
def readMembers (c : Config) (seen : List ConfigField) :
    Nat → List Char → Except ConfigFault (Config × List Char)
  | 0, _ => unreadable .malformed
  | fuel + 1, cs => do
    let (field, cs) ← readFieldName seen cs
    let cs ← liftFault (Json.expectChar ':' cs)
    let (c, cs) ← readField c field cs
    match Json.skipBlank cs with
    | [] => unreadable .endOfText
    | ch :: rest =>
      if ch = '}' then return (c, rest)
      else if ch = ',' then readMembers c (field :: seen) fuel rest
      else unreadable .malformed

/-- What closes an array that has a value for every field. -/
def closeArray (c : Config) (cs : List Char) : Except ConfigFault (Config × List Char) :=
  match Json.skipBlank cs with
  | [] => unreadable .endOfText
  | ch :: rest => if ch = ']' then .ok (c, rest) else unreadable .malformed

/-- A value for the first of some fields, values for further ones behind commas, and the closing
bracket. -/
def readItems (c : Config) : List ConfigField → List Char → Except ConfigFault (Config × List Char)
  | [], cs => closeArray c cs
  | field :: fields, cs => do
    let (c, cs) ← readField c field cs
    if fields.isEmpty then
      closeArray c cs
    else
      let (more, cs) ← afterItem cs
      if more then readItems c fields cs else return (c, cs)

/-- Blanks and a configuration. -/
def readConfig (cs : List Char) : Except ConfigFault (Config × List Char) :=
  match Json.skipBlank cs with
  | '{' :: rest =>
    match Json.skipBlank rest with
    | '}' :: rest => .ok (standard, rest)
    | _ => readMembers standard [] 5 rest
  | '[' :: rest =>
    match Json.skipBlank rest with
    | ']' :: rest => .ok (standard, rest)
    | _ => readItems standard ConfigField.all rest
  | cs => wrongType .config cs

/-- Reads a configuration from a text. -/
def ofText (text : List Char) : Except ConfigFault Config := do
  let (c, rest) ← readConfig text
  liftFault (Json.expectEnd rest)
  return c

end Config

end PatternRules
