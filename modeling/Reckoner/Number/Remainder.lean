import Reckoner.Number.Binary64

/-!
# Truncated remainder

The remainder of `x` by `y` is `x - y * n`, where `n` is the quotient cut off towards zero,
so it has the sign of `x` and is smaller than `y`. It is computed exactly: both numbers are
brought to the lower of their exponents and the naturals are divided.
-/

namespace Reckoner.Number

/-- Why an operation on numbers has no result. -/
inductive Trouble where
  /-- No real number is the result. -/
  | domain
  /-- The result is too large for a finite number. -/
  | range
  deriving DecidableEq, Repr

/-- What is said about the trouble. -/
def Trouble.text : Trouble → String
  | .domain => "math domain error"
  | .range => "math range error"

/-- The remainder by a number other than zero; an infinite number has none. -/
def remainder (x y : Float) : Except Trouble Float :=
  match meaning x, meaning y with
  | .nan, _ => .ok nan
  | _, .nan => .ok nan
  | .infinite _, _ => .error .domain
  | .finite .., .infinite _ => .ok x
  | .finite negative m q, .finite _ n r =>
    let low := min q r
    let left := m * Nat.pow 2 (q - low).toNat
    let right := n * Nat.pow 2 (r - low).toNat
    if right = 0 then .error .domain
    else .ok (signed negative (nearest (left % right) low))

end Reckoner.Number
