import Reckoner.Diagnostic
import Reckoner.Number.Power

/-!
# Operations on values

There are six binary operators and the unary minus. Plus adds two numbers or joins two
texts; the others take numbers only. Dividing by zero and taking a remainder by zero are
errors, as are powers and remainders that have no result; any other overflow gives an
infinite number. The remainder has the sign of the left operand.
-/

namespace Reckoner

/-- The binary operators. -/
inductive Operator where
  | add
  | subtract
  | multiply
  | divide
  | modulo
  | power
  deriving DecidableEq, Repr

namespace Operator

/-- How an operator is written. -/
def symbol : Operator → String
  | add => "+"
  | subtract => "-"
  | multiply => "*"
  | divide => "/"
  | modulo => "%"
  | power => "^"

/-- All operators. -/
def all : List Operator := [add, subtract, multiply, divide, modulo, power]

/-- The operator written so. -/
def ofSymbol? (symbol : String) : Option Operator :=
  all.find? fun op => op.symbol == symbol

theorem ofSymbol?_symbol (op : Operator) : ofSymbol? op.symbol = some op := by
  cases op <;> decide

/-- A power or remainder, or the cause for which there is none. -/
def noted (left : Float) (op : Operator) (right : Float) :
    Except Number.Trouble Float → Except Cause Float
  | .ok x => .ok x
  | .error trouble => .error (.noResult left op.symbol right trouble)

/-- The operation on two numbers. -/
def compute (op : Operator) (left right : Float) : Except Cause Float :=
  match op with
  | add => .ok (left + right)
  | subtract => .ok (left - right)
  | multiply => .ok (left * right)
  | divide => if right == 0.0 then .error .divisionByZero else .ok (left / right)
  | modulo =>
    if right == 0.0 then .error .moduloByZero
    else noted left modulo right (Number.remainder left right)
  | power => noted left power right (Number.power left right)

/-- The operation on two values. -/
def combine (op : Operator) (left right : Value) : Except Cause Value :=
  match op, left, right with
  | op, .number x, .number y => (op.compute x y).map .number
  | add, .text s, .text t => .ok (.text (s ++ t))
  | op, left, right => .error (.operandTypes op.symbol left.type right.type)

end Operator

/-- The operation that a token's text names, applied to two values. -/
def apply (left : Value) (op : Token) (right : Value) : Except Diagnostic Value :=
  let result : Except Cause Value :=
    match Operator.ofSymbol? op.text with
    | none => .error (.unknownOperator op.text)
    | some known => known.combine left right
  result.mapError fun cause => ⟨cause, op.location⟩

/-- Unary minus, for which numbers alone are fit. -/
def negate (operand : Value) (op : Token) : Except Diagnostic Value :=
  match operand with
  | .number x => .ok (.number (-x))
  | .text _ => .error ⟨.negatedType operand.type, op.location⟩

end Reckoner
