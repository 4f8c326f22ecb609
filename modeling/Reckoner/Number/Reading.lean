import Reckoner.Number.Binary64
import Reckoner.Text.Blank
import Reckoner.Text.Numeral

/-!
# Reading a number

A written number is a decimal with an optional sign, an optional point and an optional
exponent, or one of the words `inf`, `infinity` and `nan` in either case. Blanks may
surround it, the digits may be those of any script, and a single underscore may stand
between two digits. The result is the binary64 number nearest to what is written.
-/

namespace Reckoner.Number

open Reckoner.Text

/-- Drops the blanks at both ends. -/
def trimMargin (cs : List Char) : List Char :=
  ((cs.dropWhile isMargin).reverse.dropWhile isMargin).reverse

/-- The ASCII digit for a digit of any script; any other character is itself. -/
def plainDigit (c : Char) : Char :=
  match digitValue? c with
  | some v => Char.ofNat (48 + v)
  | none => c

/-- Drops the underscores; `none` if one does not stand between two digits. -/
def joinDigits : List Char → Option (List Char)
  | [] => some []
  | '_' :: _ => none
  | c :: '_' :: d :: rest =>
    if c.isDigit && d.isDigit then (joinDigits (d :: rest)).map (c :: ·) else none
  | [_, '_'] => none
  | c :: rest => (joinDigits rest).map (c :: ·)

/-- The natural number that decimal digits write. -/
def digitsValue (cs : List Char) : Nat :=
  cs.foldl (fun value c => 10 * value + (c.toNat - 48)) 0

/-- Splits off a sign; `true` is minus. -/
def takeSign : List Char → Bool × List Char
  | '-' :: rest => (true, rest)
  | '+' :: rest => (false, rest)
  | cs => (false, cs)

/-- The exponent part, which is empty or `e`, an optional sign and digits. -/
def exponent? : List Char → Option Int
  | [] => some 0
  | mark :: rest =>
    let (negative, digits) := takeSign rest
    if mark.toLower = 'e' ∧ digits ≠ [] ∧ digits.all Char.isDigit then
      some (if negative then -Int.ofNat (digitsValue digits) else Int.ofNat (digitsValue digits))
    else none

/-- The number nearest to `digits * 10 ^ exponent`. Beyond four hundred places on either side
every number is infinite or zero, so no power of that size is computed. -/
def ofDecimal (digits : Nat) (exponent : Int) : Float :=
  let places := exponent + digits.repr.length
  if digits = 0 ∨ places < -400 then 0.0
  else if places > 400 then infinity
  else if exponent < 0 then Float.ofScientific digits true exponent.natAbs
  else Float.ofScientific digits false exponent.natAbs

/-- An unsigned decimal with at least one digit before or after its point. -/
def decimal? (cs : List Char) : Option Float :=
  let whole := cs.takeWhile Char.isDigit
  let (fraction, rest) :=
    match cs.dropWhile Char.isDigit with
    | '.' :: more => (more.takeWhile Char.isDigit, more.dropWhile Char.isDigit)
    | rest => ([], rest)
  if whole = [] ∧ fraction = [] then none
  else (exponent? rest).map fun e =>
    ofDecimal (digitsValue (whole ++ fraction)) (e - fraction.length)

/-- An unsigned number: a word or a decimal. -/
def unsigned? (cs : List Char) : Option Float :=
  let word := String.ofList (cs.map Char.toLower)
  if word = "inf" ∨ word = "infinity" then some infinity
  else if word = "nan" then some nan
  else decimal? cs

/-- The number that a text writes, if it writes one. -/
def read? (text : String) : Option Float :=
  match joinDigits ((trimMargin text.toList).map plainDigit) with
  | none => none
  | some cs =>
    let (negative, digits) := takeSign cs
    (unsigned? digits).map (signed negative)

end Reckoner.Number
