import Reckoner.Number.Reading
import Reckoner.Reader.Header
import Reckoner.Session

/-!
# Evaluation

Expressions are evaluated while they are read:

    expression ::= product (('+' | '-') product)*
    product    ::= power (('*' | '/' | '%') power)*
    power      ::= primary ('^' primary)*
    primary    ::= NUMBER | STRING | IDENTIFIER | '(' expression ')'
                 | '-'+ (NUMBER | '(' expression ')' | expression)

All binary operators associate to the left. A minus chain in front of a number takes that
number alone and in front of a parenthesis that group alone; in front of anything else it
takes the whole expression that follows. Each loop looks one token ahead and pushes it back
if the token does not belong to it.

A nested expression is handed to the rules as an action, so that only `expression` recurs,
on the number of levels that may still be opened. That number comes from the length of the
source and is always enough: expressions nest as deep as they are written. An interpreter of
these rules that runs on a stack of limited depth refuses sources that nest deeper than that,
and such a limit has no counterpart here.
-/

namespace Reckoner

/-- The three levels of binary operators, from loose to tight. -/
inductive Level where
  | sum
  | product
  | power
  deriving DecidableEq, Repr

/-- The operators of a level. -/
def Level.symbols : Level → List String
  | sum => ["+", "-"]
  | product => ["*", "/", "%"]
  | power => ["^"]

namespace Evaluating

/-- The number that a token writes. -/
def numeral (t : Token) : Evaluating Value :=
  match Number.read? t.text with
  | some x => pure (.number x)
  | none => throw (.numeral t.text)

/-- Requires the parenthesis that closes a group of the given value. -/
def closeGroup (value : Value) : Evaluating Value := do
  let t ← next
  if t.isPunctuation ")" then
    return value
  else
    pushBack t
    recover ⟨.openGroup t.kind t.text, t.location⟩

/-- The rest of a group after its opening parenthesis. -/
def group (nested : Evaluating Value) : Evaluating Value := do
  let value ← nested
  endGroup
  closeGroup value

/-- Takes minus signs as long as they come; yields whether their number, `t` included, is odd. -/
def minusChain : Nat → Bool → Token → Evaluating (Bool × Token)
  | 0, _, _ => throw .exhausted
  | fuel + 1, odd, t =>
    if t.isOperator ["-"] then do
      minusChain fuel (!odd) (← next)
    else pure (odd, t)

/-- What a minus chain is in front of, where `t` is the token after the chain. -/
def negated (nested : Evaluating Value) (t : Token) : Evaluating Value :=
  if t.kind = .number then numeral t
  else if t.isPunctuation "(" then do
    closeGroup (← nested)
  else do
    pushBack t
    nested

/-- A minus chain and its operand. Only a number may be negated, and this is checked for
chains of even length as well, which leave the number as it is. -/
def negation (fuel : Nat) (nested : Evaluating Value) (minus : Token) : Evaluating Value := do
  let (odd, t) ← minusChain fuel false minus
  let operand ← negated nested t
  match negate operand minus with
  | .error d => recover d
  | .ok opposite => return if odd then opposite else operand

/-- Ends of statements and closing parentheses are left to the rule they belong to. -/
def belongsOutside (t : Token) : Bool :=
  t.kind.endsStatement || t.isPunctuation ")"

/-- Puts such a token back; any other token stays taken. -/
def leaveOutside (t : Token) : Evaluating Unit :=
  if belongsOutside t then pushBack t else pure ()

/-- Reports that a token begins no expression. -/
def noExpression (t : Token) : Evaluating Value := do
  leaveOutside t
  recover ⟨.missingExpression t.kind t.text, t.location⟩

/-- A literal, a variable, a group or a negation. -/
def primary (fuel : Nat) (nested : Evaluating Value) : Evaluating Value := do
  let t ← next
  if t.kind = .number then numeral t
  else if t.kind = .string then return .text t.text
  else if t.kind = .identifier then valueOf t
  else if t.isPunctuation "(" then group nested
  else if t.isOperator ["-"] then negation fuel nested t
  else noExpression t

/-- Goes on from the left operand while operators of the level follow. -/
def chain (level : Level) (operand : Evaluating Value) : Nat → Value → Evaluating Value
  | 0, _ => throw .exhausted
  | fuel + 1, left => do
    let t ← next
    if t.isOperator level.symbols then
      let right ← operand
      let value ← settle (apply left t right)
      chain level operand fuel value
    else
      pushBack t
      return left

/-- Operands joined by the operators of a level. -/
def joined (level : Level) (fuel : Nat) (operand : Evaluating Value) : Evaluating Value := do
  let left ← operand
  chain level operand fuel left

/-- The three levels around primaries. -/
def levels (fuel : Nat) (nested : Evaluating Value) : Evaluating Value :=
  joined .sum fuel (joined .product fuel (joined .power fuel (primary fuel nested)))

/-- An expression that opens fewer levels of nesting than it is given. -/
def expression : Nat → Evaluating Value
  | 0 => throw .exhausted
  | fuel + 1 => levels (fuel + 1) (expression fuel)

/-- Evaluates one expression; the token after it is left pending. -/
def evaluate : Evaluating Value := do
  expression (← budget)

/-- Takes tokens up to the end of a statement, which is left pending. -/
def skipStatement : Nat → Token → Evaluating Unit
  | 0, _ => throw .exhausted
  | fuel + 1, t =>
    if t.kind.endsStatement then pushBack t
    else do
      skipStatement fuel (← next)

/-- Requires the end of a statement and leaves it pending; reports and skips anything else. -/
def endStatement : Evaluating Unit := do
  let t ← next
  if t.kind.endsStatement then
    pushBack t
  else
    reading (Reading.report ⟨.trailing t.kind t.text, t.location⟩)
    skipStatement ((← budget) + 1) t

/-- The values of the statements up to the end of the input. -/
def statements : Nat → Evaluating (List Value)
  | 0 => throw .exhausted
  | fuel + 1 => do
    let t ← next
    if t.kind = .endOfInput then
      return []
    else if t.kind = .endOfLine then
      statements fuel
    else if t.kind = .functionDeclaration then
      define (← reading Reading.functionLiteral)
      statements fuel
    else
      pushBack t
      let value ← evaluate
      endStatement
      return value :: (← statements fuel)

/-- Evaluates every statement and captures every function literal. -/
def evaluateAll : Evaluating (List Value) := do
  statements (← budget)

end Evaluating

end Reckoner
