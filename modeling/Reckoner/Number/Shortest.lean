import Reckoner.Number.Binary64

/-!
# Shortest decimal digits

The reals nearest to a binary64 number `m * 2 ^ q` fill an interval around it; its ends
belong to it exactly if `m` is even. Among the decimals in that interval those with the
fewest digits are taken, of these the nearest to the number, and of two equally near ones
the one whose last digit is even. All comparisons are between naturals.
-/

namespace Reckoner.Number

/-- The decimal `digits * 10 ^ exponent`. -/
structure Decimal where
  digits : Nat
  exponent : Int
  deriving DecidableEq, Repr

/-- A fraction `scaled / unit` with the bounds of its interval over the same unit. -/
structure Neighbourhood where
  low : Nat
  scaled : Nat
  high : Nat
  unit : Nat
  closed : Bool
  deriving DecidableEq, Repr

namespace Neighbourhood

/-- The interval of `m * 2 ^ q`. Below a power of two the numbers are twice as dense, so there
the lower bound is a quarter of a unit away and not a half. -/
def ofNumber (m : Nat) (q : Int) : Neighbourhood :=
  let gap := if m = Nat.pow 2 52 ∧ q ≠ -1074 then 1 else 2
  let up := Nat.pow 2 q.toNat
  ⟨(4 * m - gap) * up, 4 * m * up, (4 * m + 2) * up, 4 * Nat.pow 2 (-q).toNat, m % 2 == 0⟩

/-- Orders the decimal `count * 10 ^ exponent` against `bound / unit`. -/
def compareAt (exponent : Int) (count : Nat) (bound unit : Nat) : Ordering :=
  compare (count * Nat.pow 10 exponent.toNat * unit) (bound * Nat.pow 10 (-exponent).toNat)

/-- The decimal lies in the interval. -/
def contains (area : Neighbourhood) (d : Decimal) : Bool :=
  let atLow := compareAt d.exponent d.digits area.low area.unit
  let atHigh := compareAt d.exponent d.digits area.high area.unit
  (atLow == .gt || (area.closed && atLow == .eq)) &&
    (atHigh == .lt || (area.closed && atHigh == .eq))

/-- The number of digits before the decimal point; not positive for fractions below a tenth. -/
def pointPosition (area : Neighbourhood) : Int :=
  ((area.scaled * Nat.pow 10 324 / area.unit).repr.length : Int) - 324

/-- The greatest multiple of `10 ^ exponent` not above the number. -/
def floorAt (area : Neighbourhood) (exponent : Int) : Nat :=
  area.scaled * Nat.pow 10 (-exponent).toNat / (area.unit * Nat.pow 10 exponent.toNat)

/-- Of the two multiples of `10 ^ exponent` around the number the better one inside, if any. -/
def onGrid (area : Neighbourhood) (exponent : Int) : Option Decimal :=
  let below : Decimal := ⟨area.floorAt exponent, exponent⟩
  let above : Decimal := ⟨below.digits + 1, exponent⟩
  match area.contains below, area.contains above with
  | false, false => none
  | true, false => some below
  | false, true => some above
  | true, true =>
    match compareAt exponent (2 * below.digits + 1) (2 * area.scaled) area.unit with
    | .gt => some below
    | .lt => some above
    | .eq => some (if below.digits % 2 = 0 then below else above)

/-- Seventeen digits always suffice to tell two numbers apart. -/
def shortest (area : Neighbourhood) : Decimal :=
  let point := area.pointPosition
  let grids := (List.range 17).map fun n => point - 1 - Int.ofNat n
  (grids.findSome? area.onGrid).getD ⟨area.floorAt (point - 17), point - 17⟩

end Neighbourhood

/-- The shortest decimal that reads back as the positive number `m * 2 ^ q`. -/
def shortest (m : Nat) (q : Int) : Decimal :=
  (Neighbourhood.ofNumber m q).shortest

end Reckoner.Number
