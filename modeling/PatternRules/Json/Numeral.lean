import PatternRules.Decimal.Shortest

/-!
Numbers as JSON writes them, and what they stand for. A numeral without fraction and exponent is
an integer if it fits in sixty-four bits, signed or unsigned; every other numeral, minus zero
among them, is a floating-point number, provided it is not too large for one.
-/

namespace PatternRules.Json

/-- A number as it is written: sign, digits, digits behind the point, exponent. -/
structure Numeral where
  negative : Bool
  whole : List Char
  fraction : List Char
  exponent : Option Int
deriving DecidableEq, Inhabited

/-- What a numeral stands for. -/
inductive Number where
  | integer (value : Int)
  | real (value : Float)

/-- The value of a decimal digit. -/
def digitValue (c : Char) : Nat := c.toNat - '0'.toNat

/-- The value of decimal digits. -/
def digitsValue (digits : List Char) : Nat := digits.foldl (fun n c => 10 * n + digitValue c) 0

namespace Numeral

/-- The numeral of a natural number. -/
def ofNat (n : Nat) : Numeral := ⟨false, Nat.toDigits 10 n, [], none⟩

def ofInt (i : Int) : Numeral := ⟨i < 0, Nat.toDigits 10 i.natAbs, [], none⟩

/-- An exponent with its sign, which is always there. -/
def renderExponent (e : Int) : String :=
  "e" ++ (if e < 0 then "-" else "+") ++ String.ofList (Nat.toDigits 10 e.natAbs)

/-- The written form. -/
def render (n : Numeral) : String :=
  let sign := if n.negative then "-" else ""
  let fraction := if n.fraction.isEmpty then "" else "." ++ String.ofList n.fraction
  let exponent := match n.exponent with
    | none => ""
    | some e => renderExponent e
  sign ++ String.ofList n.whole ++ fraction ++ exponent

/-! ## Reading a numeral as a floating-point number -/

/-- The largest number that fits in sixty-four bits. -/
def maxUnsigned : Nat := 18446744073709551615

/-- The largest amount of a negative number that fits in sixty-four bits, which is also the weight
of the highest of sixty-four bits. -/
def maxNegative : Nat := 9223372036854775808

/-- Appends digits to a significand as long as it fits in sixty-four bits, and gives back the
digits for which there was no room. -/
def appendDigits : Nat → List Char → Nat × List Char
  | significand, [] => (significand, [])
  | significand, c :: cs =>
    let longer := 10 * significand + digitValue c
    if longer ≤ maxUnsigned then appendDigits longer cs else (significand, c :: cs)

/-- The significand and the power of ten of a numeral. Digits of the whole part without room count
in the power, digits of the fraction without room are left out. -/
def parts (n : Numeral) : Nat × Int :=
  let (significand, unread) := appendDigits 0 n.whole
  let (significand', unread') := appendDigits significand n.fraction
  let read := n.fraction.length - unread'.length
  (significand', (unread.length : Int) - read + n.exponent.getD 0)

/-- Scales a number by a power of ten, in steps that the table of powers reaches. Too large a
result is none. -/
def scale? : Nat → Float → Int → Option Float
  | 0, x, _ => some x
  | fuel + 1, x, exponent =>
    if exponent.natAbs ≤ 308 then
      let power := Float.ofScientific 1 false exponent.natAbs
      if 0 ≤ exponent then
        let y := x * power
        if y.isInf then none else some y
      else
        some (x / power)
    else if x == 0 then some x
    else if 0 ≤ exponent then none
    else scale? fuel (x / Float.ofScientific 1 false 308) (exponent + 308)

/-- The floating-point number of a numeral, if it is not too large. -/
def toFloat? (n : Numeral) : Option Float := do
  let (significand, exponent) := n.parts
  let x ← scale? 4 significand.toUInt64.toFloat exponent
  return if n.negative then -x else x

/-- The integer of a numeral, if it is one. -/
def toInt? (n : Numeral) : Option Int :=
  if n.fraction.isEmpty && n.exponent.isNone then
    let value := digitsValue n.whole
    if n.negative then
      if 0 < value ∧ value ≤ maxNegative then some (-value) else none
    else if value ≤ maxUnsigned then some value
    else none
  else
    none

/-- What a numeral stands for; none if it is too large. -/
def number? (n : Numeral) : Option Number :=
  match n.toInt? with
  | some i => some (.integer i)
  | none => n.toFloat?.map .real

/-! ## Writing a floating-point number -/

/-- Writes a decimal. The point stands among the digits if it falls within the first sixteen
places or at most four zeros follow it; otherwise there is an exponent. -/
def ofScaled (negative : Bool) (d : Decimal.Scaled) : Numeral :=
  let digits := Nat.toDigits 10 d.digits
  let point := digits.length + d.exponent
  if 0 < point ∧ point ≤ 16 then
    let whole := digits.take point.toNat ++ List.replicate d.exponent.toNat '0'
    let fraction := digits.drop point.toNat
    ⟨negative, whole, if fraction.isEmpty then ['0'] else fraction, none⟩
  else if -5 < point ∧ point ≤ 0 then
    ⟨negative, ['0'], List.replicate (-point).toNat '0' ++ digits, none⟩
  else
    ⟨negative, digits.take 1, digits.drop 1, some (point - 1)⟩

/-- The shortest numeral of a finite floating-point number. -/
def ofFloat (x : Float) : Numeral :=
  let negative := x.toBits.toNat ≥ maxNegative
  if x == 0 then ⟨negative, ['0'], ['0'], none⟩ else ofScaled negative (Decimal.shortest x.abs)

/-- The numeral that would be written for what a numeral stands for. -/
def normal (n : Numeral) : Numeral :=
  match n.number? with
  | some (.integer i) => ofInt i
  | some (.real x) => ofFloat x
  | none => n

end Numeral

end PatternRules.Json
