import Reckoner.Number.Remainder

/-!
# Powers

Among finite numbers `x ^ y` is the power of the machine's mathematical library. That one is
close to the real power but need not be the number nearest to it: ten to the twenty-third can
come out one place too high. Where the library gives no finite number there is no result.
Infinite operands and nan never give trouble, and their powers are exact.
-/

namespace Reckoner.Number

/-- The power of two finite numbers. A power that is no number is outside the domain, and so is an
infinite power of zero; any other infinite power is out of range. -/
def finitePower (x y : Float) : Except Trouble Float :=
  let result := Float.pow x y
  if result.isNaN then .error .domain
  else if result.isInf then .error (if x == 0.0 then .domain else .range)
  else .ok result

/-- The exponent `n * 2 ^ r` is an odd integer. -/
def isOdd (n : Nat) (r : Int) : Bool :=
  let unit := Nat.pow 2 (-r).toNat
  n % unit == 0 && n * Nat.pow 2 r.toNat / unit % 2 == 1

/-- Orders the magnitude `m * 2 ^ q` against one. -/
def compareOne (m : Nat) (q : Int) : Ordering :=
  compare (m * Nat.pow 2 q.toNat) (Nat.pow 2 (-q).toNat)

/-- The power of an infinite base to a finite exponent. -/
def powerOfInfinite (negative down : Bool) (n : Nat) (r : Int) : Float :=
  let flips := negative && isOdd n r
  if n = 0 then 1.0 else signed flips (if down then 0.0 else infinity)

/-- The power of a magnitude to an infinite exponent. -/
def powerToInfinite (size : Ordering) (down : Bool) : Float :=
  match size, down with
  | .eq, _ => 1.0
  | .gt, false => infinity
  | .lt, true => infinity
  | _, _ => 0.0

/-- The power `x ^ y`. -/
def power (x y : Float) : Except Trouble Float :=
  match meaning x, meaning y with
  | .nan, exponent =>
    .ok (match exponent with
      | .finite _ 0 _ => 1.0
      | _ => nan)
  | _, .nan => .ok (if x == 1.0 then 1.0 else nan)
  | .infinite _, .infinite down => .ok (powerToInfinite .gt down)
  | .infinite negative, .finite down n r => .ok (powerOfInfinite negative down n r)
  | .finite _ m q, .infinite down => .ok (powerToInfinite (compareOne m q) down)
  | .finite .., .finite .. => finitePower x y

end Reckoner.Number
