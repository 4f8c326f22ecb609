import Reckoner.Proofs.Statements

/-!
# The statements turn by turn

The statements are read in turns. Each turn begins with a token that is not the end of the input:
it passes a semicolon, keeps a function literal, or evaluates an expression and leaves the end of
its statement pending. The values of all turns make up the result.

* `statements_of_turn` — one turn, and then all others;
* `ends_turn_of_inside` — for each pairing, a turn with a value.
-/

namespace Reckoner

namespace Evaluating

/-- What a turn does once its first token is taken, and the values it adds. -/
def turn (t : Token) : Evaluating (List Value) :=
  if t.kind = .endOfLine then
    pure []
  else if t.kind = .functionDeclaration then do
    define (← reading Reading.functionLiteral)
    return []
  else do
    pushBack t
    let value ← evaluate
    endStatement
    return [value]

instance composed_turn (t : Token) : Composed Step (turn t) := by
  unfold turn
  infer_instance

/-- Behind its first token a turn is made, and then all others. -/
theorem statementsFrom_of_turn (fuel : Nat) {t : Token} (last : t.kind ≠ .endOfInput) :
    statementsFrom fuel t = do
      let front ← turn t
      return front ++ (← statements fuel) := by
  unfold statementsFrom turn
  rw [if_neg last]
  split
  · simp only [pure_bind, List.nil_append, bind_pure]
  split
  · simp only [bind_assoc, pure_bind, List.nil_append, bind_pure]
  · simp only [bind_assoc, pure_bind, List.singleton_append]

/-- One turn, and then all others. -/
theorem statements_of_turn (fuel : Nat) :
    statements (fuel + 1) = next >>= fun t =>
      if t.kind = .endOfInput then pure []
      else do
        let front ← turn t
        return front ++ (← statements fuel) := by
  rw [statements_succ]
  refine congrArg (next >>= ·) (funext fun t => ?_)
  by_cases last : t.kind = .endOfInput
  · rw [statementsFrom, if_pos last, if_pos last]
  · rw [statementsFrom_of_turn fuel last, if_neg last]

/-! ### Statements with a value -/

section Inside

variable {P : Pairing} {l r : Session} {t u : Token}

theorem turn_of_inside (inside : t.kind.endsStatement = false)
    (plain : t.kind ≠ .functionDeclaration) :
    turn t = do
      pushBack t
      let value ← evaluate
      endStatement
      return [value] := by
  rw [turn, if_neg (TokenKind.inside_iff.1 inside).2, if_neg plain]

/-- **A statement with a value.** Both runs add the same value, and what they leave weighs no more
than what came behind the tokens. -/
theorem ends_turn_of_inside (tokens : P.tokens t u) (states : P.states l r)
    (pushed : P.states (l.push t) (r.push u)) (inside : t.kind.endsStatement = false)
    (plain : t.kind ≠ .functionDeclaration) :
    P.Ends (P.Same l.reader.weight r.reader.weight) (turn t l) (turn u r) := by
  have kind := (Pairing.same_of_inside tokens inside).1
  have taken := Pairing.taken_of_states tokens states pushed inside
  rw [turn_of_inside inside plain, turn_of_inside (kind ▸ inside) (kind ▸ plain)]
  -- an expression may put its first token back, but then the statement is skipped
  refine Link.Ends.bind (a := evaluate) (b := evaluate) (l := l.push t) (r := r.push u)
    (ends_evaluate_push taken inside) P.keeps fun v l₁ w r₁ moved => ?_
  obtain rfl := moved.1
  refine (ends_endStatement_of_moved moved inside tokens).bind P.keeps fun _ l₂ _ r₂ ended => ?_
  exact ends_pure _ ended.2

end Inside

end Evaluating

end Reckoner
