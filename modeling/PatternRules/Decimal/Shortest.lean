/-!
The shortest decimal of a floating-point number. Among the decimals that read back as the number,
the ones with the fewest digits are taken, and of these the nearest to it. All comparisons are
made between natural numbers.
-/

namespace PatternRules.Decimal

/-- The decimal `digits · 10 ^ exponent`. -/
structure Scaled where
  digits : Nat
  exponent : Int
deriving DecidableEq

/-- The reals that round to a number: from `low` to `high`, in units of `2 ^ scale`, where `mid`
is the number itself and `closed` tells whether the ends belong to them. -/
structure RoundingInterval where
  low : Nat
  mid : Nat
  high : Nat
  scale : Int
  closed : Bool

/-- The weight of the bit in front of the fifty-two bits of a fraction, which is not written. -/
def hiddenBit : Nat := 4503599627370496

/-- The rounding interval of a positive finite number, from its sixty-four bits. -/
def RoundingInterval.ofBits (bits : Nat) : RoundingInterval :=
  let field : Nat := bits / hiddenBit % 2048
  let fraction : Nat := bits % hiddenBit
  let (m, q) : Nat × Int :=
    if field = 0 then (fraction, -1074) else (fraction + hiddenBit, (field : Int) - 1075)
  let below := if fraction = 0 ∧ 1 < field then 1 else 2
  ⟨4 * m - below, 4 * m, 4 * m + 2, q - 2, m % 2 = 0⟩

/-- The interval with its ends and its middle brought to whole numbers on the grid of
`10 ^ exponent`: the factor of the grid and the three numbers. -/
def RoundingInterval.onGrid (r : RoundingInterval) (exponent : Int) : Nat × Nat × Nat × Nat :=
  let unit := Nat.pow 10 (-exponent).toNat * Nat.pow 2 r.scale.toNat
  let grid := Nat.pow 10 exponent.toNat * Nat.pow 2 (-r.scale).toNat
  (grid, r.low * unit, r.mid * unit, r.high * unit)

/-- The exponent of the first digit: the least one from `exponent` on, going down, at which the
grid has a point not above the middle. -/
def firstDigitExponent (r : RoundingInterval) : Nat → Int → Int
  | 0, exponent => exponent
  | fuel + 1, exponent =>
    let (grid, _, mid, _) := r.onGrid exponent
    if grid ≤ mid then exponent else firstDigitExponent r fuel (exponent - 1)

/-- The nearest point of a grid that lies in the interval; of two equally near ones the even one. -/
def gridPoint? (r : RoundingInterval) (exponent : Int) : Option Nat :=
  let (grid, low, mid, high) := r.onGrid exponent
  let inside (d : Nat) : Bool :=
    if r.closed then low ≤ d * grid && d * grid ≤ high else low < d * grid && d * grid < high
  let down := mid / grid
  let up := down + 1
  match inside down, inside up with
  | true, true =>
    let belowBy := mid - down * grid
    let aboveBy := up * grid - mid
    if belowBy < aboveBy ∨ (belowBy = aboveBy ∧ down % 2 = 0) then some down else some up
  | true, false => some down
  | false, true => some up
  | false, false => none

/-- The first grid, from coarse to fine, with a point in the interval. -/
def searchGrids (r : RoundingInterval) : Nat → Int → Scaled
  | 0, exponent => ⟨r.mid, exponent⟩
  | fuel + 1, exponent =>
    match gridPoint? r exponent with
    | some digits => ⟨digits, exponent⟩
    | none => searchGrids r fuel (exponent - 1)

/-- The same decimal without zeros at the end of its digits. -/
def dropZeros : Nat → Scaled → Scaled
  | 0, d => d
  | fuel + 1, d =>
    if d.digits ≠ 0 ∧ d.digits % 10 = 0 then dropZeros fuel ⟨d.digits / 10, d.exponent + 1⟩ else d

/-- The shortest decimal that reads back as a positive finite number. -/
def shortest (x : Float) : Scaled :=
  let r := RoundingInterval.ofBits x.toBits.toNat
  dropZeros 20 (searchGrids r 18 (firstDigitExponent r 640 309))

end PatternRules.Decimal
