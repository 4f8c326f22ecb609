import Reckoner.Proofs.Scanning
import Reckoner.Reader.Stream

/-!
# Calls of a session

What is asked of a session from outside, one call after the other. A call that ends with a fault
leaves what it has done until then, and the next one goes on from there. A history keeps what has
been handed out, what has been pushed back without having been handed out before, and the faults.

* `Session.served` — the session behind some requests to the evaluator;
* `History.of` — the history of any calls of the evaluator and of its reader.
-/

namespace Reckoner

/-- What the evaluator is asked for. -/
inductive Request where
  | evaluate
  | evaluateAll
  | assign (name : String) (given : Given)

/-- What the evaluator or its reader is asked for. -/
inductive Call where
  | request (r : Request)
  | next
  | pushBack (t : Token)
  | tokens
  | functionLiteral
  | scanNumber
  | scanLink

/-- What a call hands out. -/
inductive Answer where
  | done
  | value (v : Value)
  | values (vs : List Value)
  | refused (r : Refusal)
  | token (t : Token)
  | noToken
  | tokens (ts : List Token)
  | literal (f : FunctionLiteral)

/-- A token, if there is one. -/
def Answer.ofToken? : Option Token → Answer
  | some t => .token t
  | none => .noToken

namespace Request

open Evaluating in
/-- Serves a request. Only what is a value is assigned. -/
def serve : Request → Evaluating Answer
  | evaluate => do return .value (← Evaluating.evaluate)
  | evaluateAll => do return .values (← Evaluating.evaluateAll)
  | assign name given => fun s =>
    match given.toValue with
    | .ok v => .ok .done (s.assign name v)
    | .error refusal => .ok (.refused refusal) s

/-- What is given is assigned, or it is refused and nothing changes. -/
theorem serve_assign (name : String) (given : Given) (s : Session) :
    (∃ v, (assign name given).serve s = .ok .done (s.assign name v)) ∨
      ∃ refusal, (assign name given).serve s = .ok (.refused refusal) s := by
  have served : (assign name given).serve s = match given.toValue with
      | .ok v => .ok .done (s.assign name v)
      | .error refusal => .ok (.refused refusal) s := rfl
  rw [served]
  cases given.toValue with
  | ok v => exact Or.inl ⟨v, rfl⟩
  | error refusal => exact Or.inr ⟨refusal, rfl⟩

/-- An assignment changes nothing but the table of variables, if that. -/
theorem after_assign (name : String) (given : Given) (s : Session) :
    ∃ bindings, after (assign name given).serve s = { s with bindings := bindings } := by
  rcases serve_assign name given s with ⟨v, served⟩ | ⟨refusal, served⟩
  · exact ⟨s.bindings.bind name v, after_of_ok served⟩
  · exact ⟨s.bindings, after_of_ok served⟩

end Request

/-- The session once requests have been served in turn, with whatever success. -/
def Session.served (s : Session) (requests : List Request) : Session :=
  requests.foldl (fun s request => after request.serve s) s

namespace Call

open Evaluating in
/-- Serves a call. -/
def serve : Call → Evaluating Answer
  | request r => r.serve
  | next => do return .token (← Evaluating.next)
  | pushBack t => do
    Evaluating.pushBack t
    return .done
  | tokens => do return .tokens (← reading Reading.tokens)
  | functionLiteral => do return .literal (← reading Reading.functionLiteral)
  | scanNumber => do return .token (← reading Reading.scanNumber)
  | scanLink => do return .ofToken? (← reading Reading.scanLink?)

end Call

/-! ### Histories -/

/-- The literal of an event that captured one. -/
def Event.literal? : Event → Option FunctionLiteral
  | .captured f => some f
  | _ => none

/-- The function literals captured so far, in order. -/
def Journal.captured (j : Journal) : List FunctionLiteral :=
  j.events.filterMap Event.literal?

namespace Journal

theorem captured_note_collected (j : Journal) (d : Diagnostic) :
    (j.note (.collected d)).captured = j.captured := by
  simp [captured, note, Event.literal?]

theorem captured_note_captured (j : Journal) (f : FunctionLiteral) :
    (j.note (.captured f)).captured = j.captured ++ [f] := by
  simp [captured, note, Event.literal?]

theorem captured_note_cleared (j : Journal) (n : Nat) :
    (j.note (.cleared n)).captured = j.captured := by
  simp [captured, note, Event.literal?]

end Journal

/-- Pulling a token captures nothing. -/
theorem Reader.captured_of_next {r q : Reader} {t : Token} (run : Reading.next r = .ok t q) :
    q.journal.captured = r.journal.captured := by
  cases Reading.delivery_of_next run with
  | pending waiting => rfl
  | nothing none scanned => rfl
  | lexeme none scanned => rfl
  | unterminated none scanned collecting => exact Journal.captured_note_collected r.journal _

/-- The tokens that are handed out one by one; those of a literal are in its body. -/
def Answer.handed : Answer → List Token
  | .token t => [t]
  | .tokens ts => ts
  | _ => []

/-- A session and what has happened on the way to it. -/
structure History where
  session : Session
  /-- The tokens that have been handed out. -/
  handed : List Token
  /-- The tokens that have been pushed back without being known before. -/
  foreign : List Token
  faults : List Fault

namespace History

/-- The tokens that are handed out, pending, or in the body of a captured literal. -/
def known (h : History) : List Token :=
  h.handed ++ h.session.reader.pending ++
    h.session.reader.journal.captured.flatMap FunctionLiteral.body

/-- The foreign tokens once the call has been made. -/
def foreignAfter (h : History) : Call → List Token
  | .pushBack t => if t ∈ h.known then h.foreign else t :: h.foreign
  | _ => h.foreign

/-- The history with one more call. -/
def call (h : History) (c : Call) : History :=
  match c.serve h.session with
  | .ok answer s => ⟨s, h.handed ++ answer.handed, h.foreignAfter c, h.faults⟩
  | .error fault s => ⟨s, h.handed, h.foreignAfter c, h.faults ++ [fault]⟩

/-- The history of some calls. -/
def of (start : Session) (calls : List Call) : History :=
  calls.foldl call ⟨start, [], [], []⟩

theorem session_call (h : History) (c : Call) :
    (h.call c).session = after c.serve h.session := by
  unfold call after
  cases c.serve h.session <;> rfl

end History

end Reckoner
