import Reckoner.FunctionLiteral
import Reckoner.Number.Remainder
import Reckoner.Value

/-!
# Diagnostics

A diagnostic is a cause and the location it is reported at. The cause determines the kind
and the wording. Undefined variables and invalid characters always end a run; what happens
on any other diagnostic is a matter of policy.
-/

namespace Reckoner

/-- The coarse kinds of causes. -/
inductive DiagnosticKind where
  | malformed
  | typeMismatch
  | unterminatedLiteral
  | arithmetic
  | undefinedVariable
  | invalidCharacter
  deriving DecidableEq, Repr

namespace DiagnosticKind

/-- The name shown in reports. -/
def name : DiagnosticKind → String
  | malformed => "SYNTAX"
  | typeMismatch => "TYPE_MISMATCH"
  | unterminatedLiteral => "UNTERMINATED_LITERAL"
  | arithmetic => "ARITHMETIC"
  | undefinedVariable => "UNDEFINED_VARIABLE"
  | invalidCharacter => "INVALID_CHARACTER"

/-- All kinds, in the order of their declaration. -/
def all : List DiagnosticKind :=
  [malformed, typeMismatch, unterminatedLiteral, arithmetic, undefinedVariable, invalidCharacter]

end DiagnosticKind

/-- What is wrong. -/
inductive Cause where
  | missingFunctionName
  | missingParameterList
  | missingParameter
  | openParameterList
  | missingLink
  | unterminatedString
  | invalidCharacter (text : String)
  | missingExpression (found : TokenKind) (text : String)
  | openGroup (found : TokenKind) (text : String)
  | trailing (found : TokenKind) (text : String)
  | unknownOperator (symbol : String)
  | operandTypes (symbol : String) (left right : ValueType)
  | negatedType (operand : ValueType)
  | divisionByZero
  | moduloByZero
  | noResult (left : Float) (symbol : String) (right : Float) (trouble : Number.Trouble)
  | undefinedVariable (name : String)
  /-- A cause of a given kind in the reporter's own words. -/
  | worded (kind : DiagnosticKind) (text : String)
  deriving DecidableEq

namespace Cause

/-- The kind of a cause. -/
def kind : Cause → DiagnosticKind
  | missingFunctionName | missingParameterList | missingParameter | openParameterList
  | missingLink | missingExpression .. | openGroup .. | trailing ..
  | unknownOperator _ => .malformed
  | unterminatedString => .unterminatedLiteral
  | invalidCharacter _ => .invalidCharacter
  | operandTypes .. | negatedType _ => .typeMismatch
  | divisionByZero | moduloByZero | noResult .. => .arithmetic
  | undefinedVariable _ => .undefinedVariable
  | worded kind _ => kind

/-- A token as messages name it. -/
def found (kind : TokenKind) (text : String) : String :=
  kind.name ++ " (" ++ Text.quoted text ++ ")"

/-- The wording of a cause. -/
def text : Cause → String
  | missingFunctionName => "Expected a function name"
  | missingParameterList => "Expected '(' after function name"
  | missingParameter => "Expected a parameter name"
  | openParameterList => "Expected ')' to close the parameter list"
  | missingLink => "Expected '=>' after function parameters"
  | unterminatedString => "Unterminated string literal"
  | invalidCharacter c => "Invalid character " ++ Text.quoted c
  | missingExpression kind t => "Expected an expression, got " ++ found kind t
  | openGroup kind t => "Expected ')' after expression, got " ++ found kind t
  | trailing kind t => "Unexpected " ++ found kind t ++ " after expression"
  | unknownOperator symbol => "Unknown binary operator " ++ Text.quoted symbol
  | operandTypes symbol left right =>
    "Invalid operands for " ++ Text.quoted symbol ++ ": " ++ left.name ++ " and " ++ right.name
  | negatedType operand => "Unary '-' requires a number, got " ++ operand.name
  | divisionByZero => "Division by zero"
  | moduloByZero => "Modulo by zero"
  | noResult left symbol right trouble =>
    "Cannot evaluate " ++ Number.written left ++ " " ++ symbol ++ " " ++ Number.written right ++
      ": " ++ trouble.text
  | undefinedVariable name => "Undefined variable " ++ Text.quoted name
  | worded _ t => t

end Cause

/-- A cause at a location. -/
structure Diagnostic where
  cause : Cause
  location : Location
  deriving DecidableEq

/-- Written `file:line:column: wording`. -/
def Diagnostic.message (d : Diagnostic) : String :=
  d.location.text ++ ": " ++ d.cause.text

/-- Why reading or evaluating stops. -/
inductive Fault where
  /-- A diagnostic that is not collected. -/
  | diagnostic (d : Diagnostic)
  /-- A number token from elsewhere whose text writes no number. -/
  | numeral (text : String)
  /-- A number was to be scanned where the source has ended. -/
  | endOfSource
  /-- The step budget ran out; budgets are large enough for this not to happen. -/
  | exhausted
  deriving DecidableEq

/-- What is said about a fault. -/
def Fault.message : Fault → String
  | diagnostic d => d.message
  | numeral text => "could not convert string to float: " ++ Text.quoted text
  | endOfSource => "string index out of range"
  | exhausted => "step budget exhausted"

end Reckoner
