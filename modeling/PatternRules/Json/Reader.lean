import PatternRules.Json.Basic
import PatternRules.Text.Unicode

/-!
Reading JSON text. Every reader takes the characters that are left and gives back a result and the
characters behind it. A text that ends too early is told apart from one that goes on wrongly.
-/

namespace PatternRules.Json

/-- Why a text is no JSON. -/
inductive Fault where
  | endOfText
  | malformed
deriving DecidableEq

def isBlank (c : Char) : Bool := c == ' ' || c == '\t' || c == '\n' || c == '\r'

def skipBlank (cs : List Char) : List Char := cs.dropWhile isBlank

/-- Reads a word, and gives back what is left. -/
def expectWord : List Char → List Char → Except Fault (List Char)
  | [], cs => .ok cs
  | _ :: _, [] => .error .endOfText
  | w :: ws, c :: cs => if w = c then expectWord ws cs else .error .malformed

/-- Reads blanks and a character. -/
def expectChar (expected : Char) (cs : List Char) : Except Fault (List Char) :=
  match skipBlank cs with
  | [] => .error .endOfText
  | c :: cs => if c = expected then .ok cs else .error .malformed

/-! ## Numbers -/

/-- One digit or more. -/
def someDigits (cs : List Char) : Except Fault (List Char × List Char) :=
  match cs.span Char.isDigit with
  | ([], []) => .error .endOfText
  | ([], _) => .error .malformed
  | (digits, rest) => .ok (digits, rest)

/-- The digits in front of the point: a zero stands alone. -/
def wholePart (cs : List Char) : Except Fault (List Char × List Char) := do
  let (digits, rest) ← someDigits cs
  if digits.head? = some '0' ∧ digits.length ≠ 1 then .error .malformed else .ok (digits, rest)

/-- A point and digits, or nothing. -/
def fractionPart : List Char → Except Fault (List Char × List Char)
  | '.' :: cs => someDigits cs
  | cs => .ok ([], cs)

/-- A sign, or nothing; the result tells whether it was a minus. -/
def signPart : List Char → Bool × List Char
  | '+' :: cs => (false, cs)
  | '-' :: cs => (true, cs)
  | cs => (false, cs)

/-- An exponent, or nothing. -/
def exponentPart : List Char → Except Fault (Option Int × List Char)
  | [] => .ok (none, [])
  | c :: cs =>
    if c = 'e' ∨ c = 'E' then do
      let (negative, cs) := signPart cs
      let (digits, rest) ← someDigits cs
      let value : Int := digitsValue digits
      return (some (if negative then -value else value), rest)
    else
      .ok (none, c :: cs)

/-- A number. -/
def numeral (cs : List Char) : Except Fault (Numeral × List Char) := do
  let (negative, cs) := match cs with
    | '-' :: rest => (true, rest)
    | _ => (false, cs)
  let (whole, cs) ← wholePart cs
  let (fraction, cs) ← fractionPart cs
  let (exponent, cs) ← exponentPart cs
  return (⟨negative, whole, fraction, exponent⟩, cs)

/-! ## Strings -/

/-- The value of a hexadecimal digit. -/
def hexValue? (c : Char) : Option Nat :=
  if c.isDigit then some (c.toNat - '0'.toNat)
  else if 'a' ≤ c ∧ c ≤ 'f' then some (c.toNat - 'a'.toNat + 10)
  else if 'A' ≤ c ∧ c ≤ 'F' then some (c.toNat - 'A'.toNat + 10)
  else none

/-- The value of four hexadecimal digits. -/
def hexValue4? (a b c d : Char) : Option Nat := do
  return ((16 * (← hexValue? a) + (← hexValue? b)) * 16 + (← hexValue? c)) * 16 + (← hexValue? d)

/-- Why no four hexadecimal digits could be read: there are fewer than four bytes left, or other
characters. -/
def hexFault (cs : List Char) : Fault :=
  if byteLength cs < 4 then .endOfText else .malformed

/-- The character an escape letter stands for. -/
def escapeLetter? (c : Char) : Option Char :=
  if c = '"' ∨ c = '\\' ∨ c = '/' then some c
  else if c = 'b' then some '\x08'
  else if c = 'f' then some '\x0c'
  else if c = 'n' then some '\n'
  else if c = 'r' then some '\r'
  else if c = 't' then some '\t'
  else none

/-- Whether a number is the first half of a character outside the basic plane. -/
def isHighHalf (n : Nat) : Bool := 0xD800 ≤ n && n ≤ 0xDBFF

/-- Whether a number is the second half of a character outside the basic plane. -/
def isLowHalf (n : Nat) : Bool := 0xDC00 ≤ n && n ≤ 0xDFFF

/-- The character with two halves. -/
def joinHalves (high low : Nat) : Char :=
  Char.ofNat (0x10000 + (high - 0xD800) * 0x400 + (low - 0xDC00))

/-- What four hexadecimal digits add to a string. -/
inductive Unit16 where
  /-- A character. -/
  | char (c : Char)
  /-- The first half of a character. -/
  | half
  /-- Half a character whose other half is not there. -/
  | lone

/-- What a number adds to a string in which a first half may be `pending`. -/
def unit16 (pending : Option Nat) (n : Nat) : Unit16 :=
  match pending with
  | some high => if isLowHalf n then .char (joinHalves high n) else .lone
  | none => if isLowHalf n then .lone else if isHighHalf n then .half else .char (Char.ofNat n)

/-- Puts a character in front of the text read. -/
def consText (c : Char) : Option (List Char) × List Char → Option (List Char) × List Char
  | (text, rest) => (text.map (c :: ·), rest)

/-- Puts half a character in front of the text read, which leaves no text. -/
def loseText : Option (List Char) × List Char → Option (List Char) × List Char
  | (_, rest) => (none, rest)

/-- The rest of a string behind its opening quote. If the string is wanted (`strict`), half a
character is a fault; otherwise the string is read to its end and has no text. -/
def stringTail (strict : Bool) (pending : Option Nat) :
    List Char → Except Fault (Option (List Char) × List Char)
  | [] => .error .endOfText
  | ['\\'] => .error .endOfText
  | '\\' :: 'u' :: a :: b :: c :: d :: rest =>
    match hexValue4? a b c d with
    | none => .error .malformed
    | some n =>
      match unit16 pending n with
      | .char ch => (stringTail strict none rest).map (consText ch)
      | .half => stringTail strict (some n) rest
      | .lone =>
        if strict then .error .malformed
        else (stringTail strict (if isHighHalf n then some n else none) rest).map loseText
  | '\\' :: 'u' :: short => .error (hexFault short)
  | '\\' :: c :: cs =>
    match escapeLetter? c with
    | none => .error .malformed
    | some e =>
      if pending.isNone then (stringTail strict none cs).map (consText e)
      else if strict then .error .malformed
      else (stringTail strict none cs).map loseText
  | c :: cs =>
    if strict && pending.isSome then .error .malformed
    else if c = '"' then .ok (if pending.isNone then some [] else none, cs)
    else if c.toNat < 32 then .error .malformed
    else if pending.isNone then (stringTail strict none cs).map (consText c)
    else (stringTail strict none cs).map loseText

/-- The rest of a string that is wanted, behind its opening quote. -/
def wantedString (cs : List Char) : Except Fault (String × List Char) := do
  let (text, rest) ← stringTail true none cs
  return (String.ofList (text.getD []), rest)

/-- The rest of a string that may go unread, behind its opening quote. -/
def anyString (cs : List Char) : Except Fault (Option String × List Char) := do
  let (text, rest) ← stringTail false none cs
  return (text.map String.ofList, rest)

/-! ## Values -/

/-- A word, a number or a string. -/
def scalar : List Char → Except Fault (Json × List Char)
  | [] => .error .endOfText
  | c :: cs =>
    if c = 'n' then (expectWord ['u', 'l', 'l'] cs).map (.null, ·)
    else if c = 't' then (expectWord ['r', 'u', 'e'] cs).map (.bool true, ·)
    else if c = 'f' then (expectWord ['a', 'l', 's', 'e'] cs).map (.bool false, ·)
    else if c = '-' || c.isDigit then do
      let (n, rest) ← numeral (c :: cs)
      return (.number n, rest)
    else if c = '"' then do
      let (s, rest) ← anyString cs
      return (.string s, rest)
    else .error .malformed

mutual

/-- Blanks and a value; arrays and objects nest at most as deep as there is fuel. -/
def value : Nat → List Char → Except Fault (Json × List Char)
  | 0, _ => .error .malformed
  | fuel + 1, cs =>
    match skipBlank cs with
    | [] => .error .endOfText
    | c :: cs =>
      if c = '[' then do
        let (items, rest) ← arrayTail fuel cs
        return (.array items, rest)
      else if c = '{' then do
        let (members, rest) ← objectTail fuel cs
        return (.object members, rest)
      else scalar (c :: cs)

/-- The rest of an array behind its opening bracket. -/
def arrayTail : Nat → List Char → Except Fault (List Json × List Char)
  | 0, _ => .error .malformed
  | fuel + 1, cs =>
    match skipBlank cs with
    | ']' :: rest => .ok ([], rest)
    | _ => itemsFrom fuel cs

/-- An item, further items behind commas, and the closing bracket. -/
def itemsFrom : Nat → List Char → Except Fault (List Json × List Char)
  | 0, _ => .error .malformed
  | fuel + 1, cs => do
    let (item, cs) ← value fuel cs
    match skipBlank cs with
    | [] => .error .endOfText
    | c :: rest =>
      if c = ']' then return ([item], rest)
      else if c = ',' then
        let (items, rest) ← itemsFrom fuel rest
        return (item :: items, rest)
      else .error .malformed

/-- The rest of an object behind its opening brace. -/
def objectTail : Nat → List Char → Except Fault (List (Option String × Json) × List Char)
  | 0, _ => .error .malformed
  | fuel + 1, cs =>
    match skipBlank cs with
    | '}' :: rest => .ok ([], rest)
    | _ => membersFrom fuel cs

/-- A member, further members behind commas, and the closing brace. -/
def membersFrom : Nat → List Char → Except Fault (List (Option String × Json) × List Char)
  | 0, _ => .error .malformed
  | fuel + 1, cs => do
    let cs ← expectChar '"' cs
    let (name, cs) ← anyString cs
    let cs ← expectChar ':' cs
    let (item, cs) ← value fuel cs
    match skipBlank cs with
    | [] => .error .endOfText
    | c :: rest =>
      if c = '}' then return ([(name, item)], rest)
      else if c = ',' then
        let (members, rest) ← membersFrom fuel rest
        return ((name, item) :: members, rest)
      else .error .malformed

end

/-- Nothing but blanks is left. -/
def expectEnd (cs : List Char) : Except Fault Unit :=
  if (skipBlank cs).isEmpty then .ok () else .error .malformed

/-- A text that is one value. -/
def parse (text : List Char) : Except Fault Json := do
  let (j, rest) ← value (2 * text.length + 2) text
  expectEnd rest
  return j

/-- How deep arrays and objects may nest in a text whose values are looked at. -/
def maxLevels : Nat := 127

end PatternRules.Json
