import Reckoner.Number.Shortest

/-!
# The text of a number

A number is written with the shortest digits that read back. It is written positionally
while its decimal exponent is at least -4 and below 16, with at least one digit after the
point, and otherwise with an exponent that has a sign and two digits or more. Where whole
numbers are to be shown as such, `shown` gives all their digits and no point.
-/

namespace Reckoner.Number

/-- Where the point goes and how an exponent is written. -/
structure Layout where
  leastPositional : Int
  beyondPositional : Int
  exponentMark : Char
  exponentWidth : Nat

/-- The layout of every number that is not shown as a whole number. -/
def layout : Layout := ⟨-4, 16, 'e', 2⟩

/-- Puts zeros in front up to a width. -/
def padLeft (width : Nat) (digits : List Char) : List Char :=
  List.replicate (width - digits.length) '0' ++ digits

/-- The exponent with its mark and sign. -/
def Layout.exponentText (l : Layout) (e : Int) : List Char :=
  l.exponentMark :: (if e < 0 then '-' else '+') :: padLeft l.exponentWidth e.natAbs.repr.toList

/-- Digits with the point after the first `e + 1` of them, zeros filling up on either side. -/
def positional (digits : List Char) (e : Int) : List Char :=
  if e < 0 then
    '0' :: '.' :: (List.replicate (-e - 1).toNat '0' ++ digits)
  else
    let whole := digits.take (e.toNat + 1)
    let fraction := digits.drop (e.toNat + 1)
    whole ++ List.replicate (e.toNat + 1 - whole.length) '0' ++ '.' ::
      (if fraction = [] then ['0'] else fraction)

/-- Digits with the point after the first, and an exponent. -/
def Layout.scientific (l : Layout) (digits : List Char) (e : Int) : List Char :=
  match digits with
  | [] => l.exponentText e
  | [d] => d :: l.exponentText e
  | d :: more => d :: '.' :: (more ++ l.exponentText e)

/-- Lays out a decimal; its trailing zeros are no digits of their own. -/
def Layout.decimal (l : Layout) (d : Decimal) : List Char :=
  let all := d.digits.repr.toList
  let digits := (all.reverse.dropWhile (· == '0')).reverse
  let e := d.exponent + all.length - 1
  if l.leastPositional ≤ e ∧ e < l.beyondPositional then positional digits e
  else l.scientific digits e

/-- The text of a number, `-` in front if it is negative. -/
def written (x : Float) : String :=
  match meaning x with
  | .nan => "nan"
  | .infinite negative => if negative then "-inf" else "inf"
  | .finite negative m q =>
    let body := if m = 0 then positional ['0'] 0 else layout.decimal (shortest m q)
    String.ofList (if negative then '-' :: body else body)

/-- The integer that a finite number equals, if it equals one. -/
def whole? (x : Float) : Option Int :=
  match meaning x with
  | .finite negative m q =>
    let unit := Nat.pow 2 (-q).toNat
    let scaled := m * Nat.pow 2 q.toNat
    if scaled % unit = 0 then
      some (if negative then -Int.ofNat (scaled / unit) else Int.ofNat (scaled / unit))
    else none
  | _ => none

/-- A whole number as an integer with all its digits, any other number as written. -/
def shown (x : Float) : String :=
  match whole? x with
  | some n => n.repr
  | none => written x

end Reckoner.Number
