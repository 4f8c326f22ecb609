import Reckoner.Number.Written

/-!
# Values

Every expression has a number or a text as its value. What callers hand in as the value of
a variable may be more than that; whole numbers of any size are rounded to binary64, and what
is neither a number nor a text is refused.
-/

namespace Reckoner

/-- The two types of values. -/
inductive ValueType where
  | number
  | text
  deriving DecidableEq, Repr

/-- The name shown in messages. -/
def ValueType.name : ValueType → String
  | .number => "number"
  | .text => "string"

/-- A number or a text. -/
inductive Value where
  | number (x : Float)
  | text (s : String)
  deriving DecidableEq

namespace Value

/-- Which of the two it is. -/
def type : Value → ValueType
  | number _ => .number
  | text _ => .text

/-- A text as it is, a number without a point if it is whole. -/
def plain : Value → String
  | number x => Number.shown x
  | text s => s

/-- As printed: a text between double quotes, in which nothing is escaped. -/
def display : Value → String
  | text s => "\"" ++ s ++ "\""
  | value => value.plain

/-- Stands for the value of an expression in which an error was collected. As it is a text,
it makes a numeric operation on it an error as well. -/
def placeholder : Value := text ""

end Value

/-- What a caller may hand in. -/
inductive Given where
  | value (v : Value)
  | integer (n : Int)
  | float (x : Float)
  | text (s : String)
  | truth (b : Bool)
  /-- Something else, known by the name of its type. -/
  | other (typeName : String)

/-- Why what was handed in is no value. -/
inductive Refusal where
  | truth
  | other (typeName : String)
  /-- An integer beyond all finite numbers. -/
  | tooLarge
  deriving DecidableEq, Repr

/-- What is said about it. -/
def Refusal.message : Refusal → String
  | truth => "bool is not an exprlang value"
  | other typeName => "Cannot convert " ++ typeName ++ " to an exprlang value"
  | tooLarge => "int too large to convert to float"

/-- The number nearest to an integer, unless that is infinite. -/
def Number.ofInteger? (n : Int) : Option Float :=
  let x := Number.signed (decide (n < 0)) (Float.ofNat n.natAbs)
  if x.isInf then none else some x

/-- The value that something handed in stands for. -/
def Given.toValue : Given → Except Refusal Value
  | value v => .ok v
  | integer n =>
    match Number.ofInteger? n with
    | some x => .ok (.number x)
    | none => .error .tooLarge
  | float x => .ok (.number x)
  | text s => .ok (.text s)
  | truth _ => .error .truth
  | other typeName => .error (.other typeName)

end Reckoner
