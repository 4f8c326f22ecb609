import Reckoner.Diagnostic

/-!
# The journal of a run

What happens on a recoverable diagnostic is decided here, by the policy: it ends the run or
it is collected. The journal also notes captured function literals and cleared variable
tables, each in the order of its happening.
-/

namespace Reckoner

/-- What to do with a recoverable diagnostic. -/
inductive Policy where
  /-- Stop at it. -/
  | raise
  /-- Keep it and go on with a placeholder. -/
  | collect
  deriving DecidableEq, Repr

namespace Policy

/-- The name of a policy. -/
def name : Policy → String
  | raise => "RAISE"
  | collect => "COLLECT"

/-- All policies. -/
def all : List Policy := [raise, collect]

/-- The policy of that name. -/
def ofName? (name : String) : Option Policy :=
  all.find? fun policy => policy.name == name

end Policy

/-- Something worth noting. -/
inductive Event where
  | collected (d : Diagnostic)
  | captured (f : FunctionLiteral)
  | cleared (count : Nat)
  deriving DecidableEq

namespace Event

/-- The diagnostic of an event that collected one. -/
def diagnostic? : Event → Option Diagnostic
  | collected d => some d
  | _ => none

/-- The part of the program that notes such an event. -/
def source : Event → String
  | collected _ => "exprlang.errors"
  | captured _ => "exprlang.lexer.lexer"
  | cleared _ => "exprlang.evaluator.evaluator"

/-- What the debug log says about an event. -/
def text : Event → String
  | collected d => "Collected " ++ d.cause.kind.name ++ " diagnostic: " ++ d.message
  | captured f => "Captured function literal " ++ f.display
  | cleared n => "Clearing " ++ n.repr ++ " variable(s) after group"

/-- The event's line in the debug log. -/
def logLine (e : Event) : String :=
  "DEBUG " ++ e.source ++ ": " ++ e.text ++ "\n"

end Event

/-- The policy of a run and what has happened so far. -/
structure Journal where
  policy : Policy
  events : List Event
  deriving DecidableEq

namespace Journal

/-- A journal in which nothing has happened. -/
def empty (policy : Policy) : Journal := ⟨policy, []⟩

/-- Adds an event. -/
def note (j : Journal) (e : Event) : Journal :=
  { j with events := j.events ++ [e] }

/-- The diagnostics collected so far, in order. -/
def collected (j : Journal) : List Diagnostic :=
  j.events.filterMap Event.diagnostic?

/-- Applies the policy to a diagnostic: it is the error, or it is collected. -/
def report (j : Journal) (d : Diagnostic) : Except Diagnostic Journal :=
  match j.policy with
  | .raise => .error d
  | .collect => .ok (j.note (.collected d))

@[simp] theorem collected_note_collected (j : Journal) (d : Diagnostic) :
    (j.note (.collected d)).collected = j.collected ++ [d] := by
  simp [collected, note, Event.diagnostic?]

@[simp] theorem collected_note_captured (j : Journal) (f : FunctionLiteral) :
    (j.note (.captured f)).collected = j.collected := by
  simp [collected, note, Event.diagnostic?]

@[simp] theorem collected_note_cleared (j : Journal) (n : Nat) :
    (j.note (.cleared n)).collected = j.collected := by
  simp [collected, note, Event.diagnostic?]

end Journal

end Reckoner
