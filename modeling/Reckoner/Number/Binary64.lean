/-!
# Binary64 numbers as exact rationals

A finite number is `± significand * 2 ^ exponent`; the exponent may be taken as low as
one likes, so two numbers can always be brought to one exponent. Everything that must be
exact (shortest text, remainder) works on these naturals and integers. Powers of
naturals are written `Nat.pow`: which power `^` stands for depends on what is imported.
-/

namespace Reckoner.Number

/-- What the bits of a number stand for. -/
inductive Meaning where
  | nan
  | infinite (negative : Bool)
  | finite (negative : Bool) (significand : Nat) (exponent : Int)
  deriving DecidableEq, Repr

/-- Reads the sign, the eleven exponent bits and the fifty-two fraction bits. -/
def meaning (x : Float) : Meaning :=
  let bits := x.toBits.toNat
  let negative := bits / Nat.pow 2 63 == 1
  let scale : Nat := bits / Nat.pow 2 52 % Nat.pow 2 11
  let fraction : Nat := bits % Nat.pow 2 52
  if scale = 2047 then
    if fraction = 0 then .infinite negative else .nan
  else if scale = 0 then
    .finite negative fraction (-1074)
  else
    .finite negative (Nat.pow 2 52 + fraction) ((scale : Int) - 1075)

/-- Gives a number the sign asked for. -/
def signed (negative : Bool) (x : Float) : Float :=
  if negative then -x else x

/-- The number nearest to `significand * 2 ^ exponent`, ties to even, infinite if that is too
large. A negative power of two is the same power of five over a power of ten. -/
def nearest (significand : Nat) (exponent : Int) : Float :=
  match exponent with
  | .ofNat up => Float.ofNat (significand * Nat.pow 2 up)
  | .negSucc down => Float.ofScientific (significand * Nat.pow 5 (down + 1)) true (down + 1)

/-- The infinite number of either sign. -/
def infinity : Float := 1.0 / 0.0

/-- The number that compares with none. -/
def nan : Float := 0.0 / 0.0

end Reckoner.Number
