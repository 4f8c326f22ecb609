import Reckoner.Proofs.Pairing

/-!
# Statements side by side

For each pairing the end of a statement is found alike in both runs. A statement that begins
with a token uses up something: if the expression does not, the token is put back, and it is
skipped at the end of the statement.

* `ends_endStatement`, `ends_evaluate_push`, `ends_endStatement_of_moved`
-/

namespace Reckoner

namespace Evaluating

open Pairing (same_of_inside endsStatement_eq)

variable {P : Pairing} {i j : Nat} {l r : Session} {t u : Token}

/-- The tokens up to the end of a statement are skipped, and that end is put back. -/
theorem ends_skipStatement {n m : Nat} (taken : P.Taken i j t l u r) (hi : i < n) (hj : j < m) :
    P.Ends (P.Same i j) (skipStatement n t l) (skipStatement m u r) := by
  induction n generalizing i j m t u l r with
  | zero => exact absurd hi (Nat.not_lt_zero _)
  | succ n ih =>
    obtain ⟨m, rfl⟩ : ∃ k, m = k + 1 := ⟨m - 1, by omega⟩
    unfold skipStatement
    refine .ite (by rw [endsStatement_eq taken.tokens]) (fun _ => .ok ⟨rfl, taken.pushed⟩)
      fun inside => ?_
    obtain ⟨i', j', rfl, rfl, within⟩ := taken.step (Bool.eq_false_iff.2 inside)
    refine (ends_next within).bind P.keeps fun t' l' u' r' taken' => ?_
    refine (ih taken' (by omega) (by omega)).imp fun _ _ _ _ _ _ same => ?_
    exact same.mono (Nat.le_succ _) (Nat.le_succ _)

theorem skipStatement_of_inside (n : Nat) (inside : t.kind.endsStatement = false) :
    skipStatement (n + 1) t = next >>= skipStatement n :=
  if_neg (Bool.eq_false_iff.1 inside)

/-- Reports a token behind an expression and skips the statement. -/
def skipTrailing (t : Token) : Evaluating Unit := do
  reading (Reading.report ⟨.trailing t.kind t.text, t.location⟩)
  skipStatement ((← budget) + 1) t

theorem endStatement_eq : endStatement =
    next >>= fun t => if t.kind.endsStatement then pushBack t else skipTrailing t := rfl

instance composed_skipTrailing (t : Token) : Composed Step (skipTrailing t) := by
  unfold skipTrailing
  infer_instance

theorem ends_skipTrailing (taken : P.Taken (i + 1) (j + 1) t l u r)
    (inside : t.kind.endsStatement = false) :
    P.Ends (P.Same i j) (skipTrailing t l) (skipTrailing u r) := by
  have inside' : u.kind.endsStatement = false := (endsStatement_eq taken.tokens).trans inside
  obtain ⟨i', j', hi, hj, within⟩ := taken.step inside
  cases hi
  cases hj
  obtain ⟨kind, text⟩ := same_of_inside taken.tokens inside
  unfold skipTrailing
  rw [← kind, ← text]
  have known : P.causes (.trailing t.kind t.text) (.trailing t.kind t.text) :=
    P.known ⟨fun symbol => by simp, by simp [Cause.kind]⟩
  refine (P.report taken.tokens within.states known).bind P.keeps
    fun _ l₁ _ r₁ ended => ?_
  obtain ⟨states, left, right⟩ := ended
  show P.Ends _ (skipStatement (l₁.reader.budget + 1) t l₁)
    (skipStatement (r₁.reader.budget + 1) u r₁)
  rw [skipStatement_of_inside _ inside, skipStatement_of_inside _ inside']
  have own : P.Within l₁.reader.weight r₁.reader.weight l₁ r₁ :=
    ⟨states, Nat.le_refl _, Nat.le_refl _⟩
  refine (ends_next own).bind P.keeps fun t₂ l₂ u₂ r₂ taken₂ => ?_
  refine (ends_skipStatement taken₂ l₁.reader.weight_lt_budget r₁.reader.weight_lt_budget).imp
    fun _ _ _ _ _ _ same => ?_
  exact same.mono (left ▸ within.left) (right ▸ within.right)

/-- **The end of a statement.** Both runs are left in front of it. -/
theorem ends_endStatement (h : P.Within i j l r) :
    P.Ends (P.Same i j) (endStatement l) (endStatement r) := by
  rw [endStatement_eq]
  refine (ends_next h).bind P.keeps fun t l' u r' taken => ?_
  refine .ite (by rw [endsStatement_eq taken.tokens]) (fun _ => .ok ⟨rfl, taken.pushed⟩)
    fun ongoing => ?_
  have inside := Bool.eq_false_iff.2 ongoing
  obtain ⟨i', j', rfl, rfl, -⟩ := taken.step inside
  refine (ends_skipTrailing taken inside).imp fun _ _ _ _ _ _ same => ?_
  exact same.mono (Nat.le_succ _) (Nat.le_succ _)

/-! ### Every statement uses up something -/

/-- An expression that began with these tokens has used up something, or the tokens are again
the next ones. -/
def Moved (P : Pairing) (i j : Nat) (t u : Token) (v : Value) (l : Session) (w : Value)
    (r : Session) : Prop :=
  v = w ∧ (P.Within i j l r ∨
    P.Within (i + 1) (j + 1) l r ∧ ∃ l₁ r₁ : Session, l = l₁.push t ∧ r = r₁.push u)

theorem next_push (t : Token) (s : Session) : next (s.push t) = .ok t s :=
  reading_of_ok (s := s.push t) (Reader.next_push t s.reader)

/-- Where the loop of a level finds the token that was put back, it does nothing. -/
theorem joined_of_push {level : Level} {operand : Evaluating Value} {n : Nat} {s : Session}
    (back : ∀ v s', operand s = .ok v s' → ∃ s₁ : Session, s' = s₁.push t)
    (other : t.isOperator level.symbols = false) :
    joined level (n + 1) operand s = operand s := by
  cases run : operand s with
  | error fault s' => exact bind_of_error run
  | ok v s' =>
    obtain ⟨s₁, rfl⟩ := back v s' run
    unfold joined
    rw [bind_of_ok run, chain_succ, bind_of_ok (next_push t s₁), other]
    rfl

theorem recover_push {d : Diagnostic} {s s' : Session} {v : Value}
    (h : recover d (s.push t) = .ok v s') : ∃ s₁ : Session, s' = s₁.push t :=
  ⟨{ s with reader := s.reader.note (.collected d) }, recover_eq_ok h⟩

/-- No expression begins with a token that does not belong to it. -/
theorem evaluate_of_outside (s : Session) (h : belongsOutside t = true) :
    evaluate (s.push t) = recover ⟨.missingExpression t.kind t.text, t.location⟩ (s.push t) := by
  obtain ⟨n, budget⟩ : ∃ n, (s.push t).reader.budget = n + 1 := ⟨_, rfl⟩
  have other (symbols : List String) : t.isOperator symbols = false := by
    refine Bool.eq_false_iff.2 fun operator => ?_
    unfold belongsOutside at h
    rw [Token.isPunctuation, kind_of_isOperator operator] at h
    cases h
  have first : primary (n + 1) (expression n) (s.push t) =
      recover ⟨.missingExpression t.kind t.text, t.location⟩ (s.push t) := by
    rw [primary_eq, bind_of_ok (next_push t s), primaryFrom_of_outside _ _ _ h]
  revert first
  generalize (⟨.missingExpression t.kind t.text, t.location⟩ : Diagnostic) = d
  intro first
  have back : ∀ v s', recover d (s.push t) = .ok v s' → ∃ s₁ : Session, s' = s₁.push t :=
    fun v s' => recover_push
  have powers : joined .power (n + 1) _ (s.push t) = recover d (s.push t) :=
    (joined_of_push (first ▸ back) (other _)).trans first
  have products : joined .product (n + 1) _ (s.push t) = recover d (s.push t) :=
    (joined_of_push (powers ▸ back) (other _)).trans powers
  rw [evaluate_eq, budget]
  exact (joined_of_push (products ▸ back) (other _)).trans products

/-- **One expression from its first token on.** -/
theorem ends_evaluate_push (taken : P.Taken (i + 1) (j + 1) t l u r)
    (inside : t.kind.endsStatement = false) :
    P.Ends (Moved P i j t u) (evaluate (l.push t)) (evaluate (r.push u)) := by
  have outside := belongsOutside_eq taken.tokens
  cases ht : belongsOutside t with
  | true =>
    rw [evaluate_of_outside l ht, evaluate_of_outside r (outside.trans ht)]
    refine (ends_recover taken.tokens taken.pushed (P.missingExpression taken.tokens)).imp
      fun v l' w r' ranL ranR ended => ?_
    obtain ⟨same, within⟩ := ended
    obtain ⟨l₁, left⟩ := recover_push ranL
    obtain ⟨r₁, right⟩ := recover_push ranR
    exact ⟨same, Or.inr ⟨within, l₁, r₁, left, right⟩⟩
  | false =>
    obtain ⟨i', j', hi, hj, within⟩ := taken.step inside
    cases hi
    cases hj
    have own : P.Within l.reader.weight r.reader.weight l r :=
      ⟨within.states, Nat.le_refl _, Nat.le_refl _⟩
    have fuel (s : Session) (v : Token) (hv : v.kind.endsStatement = false) :
        ∃ n, (s.push v).reader.budget = n + 1 ∧ s.reader.weight < n := by
      have bound := (s.reader.push v).weight_lt_budget
      rw [Reader.weight_push_of_ne (TokenKind.inside_iff.1 hv).1] at bound
      exact ⟨_, rfl, Nat.lt_of_succ_lt_succ bound⟩
    obtain ⟨n, budgetL, hn⟩ := fuel l t inside
    obtain ⟨m, budgetR, hm⟩ := fuel r u ((endsStatement_eq taken.tokens).trans inside)
    have nested := pairs_expression (P := P) n m
    have primaries := pairs_primary nested
    have first : P.Ends (P.Same l.reader.weight r.reader.weight)
        (primary (n + 1) (expression n) (l.push t))
        (primary (m + 1) (expression m) (r.push u)) := by
      rw [primary_eq, primary_eq, bind_of_ok (next_push t l), bind_of_ok (next_push u r)]
      exact ends_primaryFrom nested hn hm ht taken.tokens own
    have powers := pairs_joined .power primaries
    have products := pairs_joined .product powers
    have hn' := Nat.lt_succ_of_lt hn
    have hm' := Nat.lt_succ_of_lt hm
    rw [evaluate_eq, evaluate_eq, budgetL, budgetR]
    refine (ends_joined .sum products hn' hm' (ends_joined .product powers hn' hm'
      (ends_joined .power primaries hn' hm' first))).imp fun v l' w r' _ _ ended => ?_
    obtain ⟨same, less⟩ := ended
    exact ⟨same, Or.inl (less.mono within.left within.right)⟩

/-- **A statement uses up something.** -/
theorem ends_endStatement_of_moved {v w : Value} (h : Moved P i j t u v l w r)
    (inside : t.kind.endsStatement = false) (same : P.tokens t u) :
    P.Ends (P.Same i j) (endStatement l) (endStatement r) := by
  rcases h.2 with within | ⟨within, l₁, r₁, rfl, rfl⟩
  · exact ends_endStatement within
  have taken := ends_next within
  have inside' := (endsStatement_eq same).trans inside
  rw [next_push, next_push] at taken
  rw [endStatement_eq, bind_of_ok (next_push t l₁), bind_of_ok (next_push u r₁), inside, inside']
  cases taken with
  | ok taken => exact ends_skipTrailing taken inside
  | lost lost => exact .lost (P.keeps inferInstance lost)

/-! ### No statements -/

/-- Where nothing is left there are no statements. -/
theorem statements_of_nothing {fuel : Nat} {s : Session} (pending : s.reader.pending = [])
    (nothing : s.reader.cursor.rest = []) : statements (fuel + 1) s = .ok [] s := by
  have stays : s.reader.pastBlanks = s.reader := by
    unfold Reader.pastBlanks
    rw [nothing]
    rfl
  have scanned : Reading.next s.reader = .ok ⟨.endOfInput, "", s.reader.here⟩ s.reader := by
    rw [Reading.next_of_pending_nil pending, Reading.scan_eq, stays, nothing]
    rfl
  have taken : next s = .ok ⟨.endOfInput, "", s.reader.here⟩ s := reading_of_ok scanned
  rw [statements_succ, bind_of_ok taken]
  rfl

end Evaluating

end Reckoner
