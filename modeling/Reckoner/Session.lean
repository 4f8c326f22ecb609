import Reckoner.Operation
import Reckoner.Reader
import Reckoner.Table

/-!
# Sessions

A session evaluates a source against a table of variables. It has a reader, the variables
and the function literals captured so far. An action of the reader is an action of the
session that leaves both tables alone.
-/

namespace Reckoner

/-- All that evaluation reads and changes. -/
structure Session where
  reader : Reader
  bindings : Table Value
  functions : Table FunctionLiteral
  /-- Whether a parenthesised group empties the table of variables. -/
  clearOnGroup : Bool
  deriving DecidableEq

namespace Session

/-- A session at the start of a source. -/
def ofSource (source file : String) (policy : Policy) (clearOnGroup : Bool)
    (bindings : Table Value) : Session :=
  ⟨Reader.ofSource source file policy, bindings, [], clearOnGroup⟩

/-- Turns all that is handed in into values; the first refusal counts. -/
def tableOf (given : Table Given) : Except Refusal (Table Value) :=
  given.mapM fun entry => do
    return (entry.1, ← entry.2.toValue)

/-- Binds a name to a value. -/
def assign (s : Session) (name : String) (value : Value) : Session :=
  { s with bindings := s.bindings.bind name value }

/-- The value a name is bound to. -/
def lookup (s : Session) (name : String) : Option Value :=
  s.bindings.get? name

/-- The diagnostics collected so far. -/
def collected (s : Session) : List Diagnostic :=
  s.reader.journal.collected

end Session

/-- An action on a session. -/
abbrev Evaluating (α : Type) := EStateM Fault Session α

namespace Evaluating

/-- An action on the reader alone. -/
def reading {α : Type} (action : Reading α) : Evaluating α := fun s =>
  match action s.reader with
  | .ok a r => .ok a { s with reader := r }
  | .error fault r => .error fault { s with reader := r }

/-- The next token. -/
def next : Evaluating Token := reading Reading.next

/-- Puts a token back. -/
def pushBack (t : Token) : Evaluating Unit := reading (Reading.pushBack t)

/-- See `Reader.budget`. -/
def budget : Evaluating Nat := reading Reading.budget

/-- Applies the policy to a diagnostic; if it is collected, the placeholder is the value. -/
def recover (d : Diagnostic) : Evaluating Value := do
  reading (Reading.report d)
  return .placeholder

/-- A value, or recovery from the diagnostic in its place. -/
def settle : Except Diagnostic Value → Evaluating Value
  | .ok v => pure v
  | .error d => recover d

/-- The value of a variable; an unbound one always ends the run. -/
def valueOf (t : Token) : Evaluating Value := fun s =>
  match s.lookup t.text with
  | some v => .ok v s
  | none => .error (.diagnostic ⟨.undefinedVariable t.text, t.location⟩) s

/-- What the end of a group does to the variables. -/
def endGroup : Evaluating Unit := fun s =>
  if s.clearOnGroup then
    .ok () { s with
      reader := s.reader.note (.cleared s.bindings.length)
      bindings := [] }
  else .ok () s

/-- Keeps a function literal under its name. -/
def define (f : FunctionLiteral) : Evaluating Unit := fun s =>
  .ok () { s with functions := s.functions.bind f.name f }

end Evaluating

end Reckoner
