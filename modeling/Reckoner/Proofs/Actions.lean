import Reckoner.Proofs.Scanning
import Reckoner.Reader.Stream

/-!
# Longer actions of a reader, part by part

A function literal is its header and then its body; the parameters are read by turns of a parameter
and a comma, and the list of all tokens is pulled one token after the other. In these forms they are
compositions of steps like all other actions.

* `Reading.functionLiteral_eq`, `Reading.parameters_of_turn`, `Reading.tokens_eq`
-/

namespace Reckoner

namespace Reading

instance composed_scanNumber : Composed Step scanNumber := by
  refine .bind inferInstance fun text => ?_
  cases text with
  | nil => exact .throw _
  | cons c cs => exact composed_bind

/-! ### Function literals -/

/-- What comes before the body: the name and the parameters. -/
def header : Reading (String × List String) := do
  let name ← functionName
  openParameters
  let names ← parameterList
  requireLink
  return (name, names)

instance composed_header : Composed Step header := by
  unfold header
  infer_instance

/-- The body behind such a header, and the literal that they make. -/
def literalFrom (heading : String × List String) : Reading FunctionLiteral := do
  let (tokens, terminator) ← body (← budget)
  let literal := FunctionLiteral.capture heading.1 heading.2 tokens terminator
  note (.captured literal)
  return literal

instance composed_literalFrom (heading : String × List String) :
    Composed Step (literalFrom heading) := by
  unfold literalFrom
  infer_instance

theorem literalFrom_of_body {heading : String × List String} {ts : List Token} {e : Token}
    {r q : Reader} (h : body r.budget r = .ok (ts, e) q) :
    literalFrom heading r = .ok (.capture heading.1 heading.2 ts e)
      (q.note (.captured (.capture heading.1 heading.2 ts e))) := by
  have counted : budget r = .ok r.budget r := rfl
  rw [literalFrom, bind_of_ok counted, bind_of_ok h]
  rfl

/-- A literal is what its body has been read as. -/
theorem body_of_literalFrom {heading : String × List String} {f : FunctionLiteral} {r z : Reader}
    (run : literalFrom heading r = .ok f z) :
    ∃ ts e m, body r.budget r = .ok (ts, e) m ∧ f = .capture heading.1 heading.2 ts e ∧
      z = m.note (.captured f) := by
  have whole : (body r.budget >>= _ : Reading FunctionLiteral) r = .ok f z := run
  obtain ⟨⟨ts, e⟩, m, read, noted⟩ := bind_eq_ok.1 whole
  cases noted
  exact ⟨ts, e, m, read, rfl, rfl⟩

theorem functionLiteral_eq : functionLiteral = header >>= literalFrom := by
  unfold functionLiteral header literalFrom
  simp only [bind_assoc, pure_bind]

/-- One parameter, if there is one, and the comma behind it. -/
def parameterTurn (first : Char) : Reading (List String) := do
  let found ← parameter first
  passComma
  return found

instance composed_parameterTurn (first : Char) : Composed Step (parameterTurn first) := by
  unfold parameterTurn
  infer_instance

theorem parameters_of_turn (n : Nat) {r : Reader} {c : Char} {rest : List Char}
    (h : r.cursor.rest = c :: rest) (inside : c ≠ ')') :
    parameters (n + 1) r = (do
      let found ← parameterTurn c
      return found ++ (← parameters n) : Reading (List String)) r := by
  rw [parameters_of_other n h inside]
  unfold parameterTurn
  simp only [bind_assoc, pure_bind]

/-! ### All tokens -/

/-- Pulls tokens up to the end of the input. -/
def pulls : Nat → Reading (List Token)
  | 0 => throw .exhausted
  | fuel + 1 => do
    let t ← next
    if t.kind = .endOfInput then return [t]
    else return t :: (← pulls fuel)

theorem pulls_succ (n : Nat) :
    pulls (n + 1) = next >>= fun t =>
      if t.kind = .endOfInput then pure [t] else pulls n >>= fun ts => pure (t :: ts) := rfl

instance composed_pulls (n : Nat) : Composed Step (pulls n) := by
  induction n with
  | zero => exact .throw _
  | succ n ih =>
    rw [pulls_succ]
    infer_instance

/-- What has been pulled, as the outcome of an action. -/
def outcomeOf : Pulled Token → Outcome Reader (List Token)
  | ⟨ts, none, r⟩ => .ok ts r
  | ⟨_, some fault, r⟩ => .error fault r

theorem outcomeOf_cons (t : Token) (later : Pulled Token) :
    outcomeOf (later.cons t) =
      match outcomeOf later with
      | .ok ts r => .ok (t :: ts) r
      | .error fault r => .error fault r := by
  obtain ⟨ts, fault, r⟩ := later
  cases fault <;> rfl

theorem pulls_eq (n : Nat) (r : Reader) : pulls n r = outcomeOf (Reader.pull n r) := by
  induction n generalizing r with
  | zero => rfl
  | succ n ih =>
    rw [pulls_succ]
    unfold Reader.pull
    cases run : next r with
    | error fault q =>
      rw [bind_of_error run]
      rfl
    | ok t q =>
      rw [bind_of_ok run]
      by_cases last : t.kind = .endOfInput
      · simp only [last, if_true]
        rfl
      · simp only [last, if_false]
        rw [outcomeOf_cons, ← ih q]
        cases rest : pulls n q with
        | ok ts z => exact bind_of_ok rest
        | error fault z => exact bind_of_error rest

/-- All tokens are pulled one after the other. -/
theorem tokens_eq : tokens = budget >>= pulls := by
  funext r
  show _ = pulls r.budget r
  rw [pulls_eq]
  unfold tokens Reader.stream
  obtain ⟨ts, fault, q⟩ := Reader.pull r.budget r
  cases fault <;> rfl

instance composed_tokens : Composed Step tokens := by
  rw [tokens_eq]
  infer_instance

end Reading

end Reckoner
