import Reckoner.Proofs.Guard.Sessions

/-!
# Every run ends

The loops of the rules run on fuel, and so does the nesting of expressions. Here the fuel is planned
anew, for each loop by the state in which it begins. Any plan that gives each loop more than there
is left to be read leads to the same outcome, and no loop ever runs out. What carries this is that
the weight of the reader, the characters and the pending tokens left, goes down with each turn of a
loop and with each step into a nested expression, whatever tokens are put back in between.

* `Descends` — what each turn and each nested expression uses up;
* `outcomes_by_plan` — the statement for all plans.
-/

namespace Reckoner

/-- How much fuel a loop gets that begins in this state. -/
abbrev Plan := Reader → Nat

/-- From states of so much weight on, each loop gets more fuel than there is left to be read. -/
def Plan.Covers (plan : Plan) (weight : Nat) : Prop :=
  ∀ r : Reader, r.weight ≤ weight → r.weight < plan r

/-- The same fuel for all loops: one for each character and each pending token, and one more. -/
def Plan.linear (r : Reader) : Plan := fun _ => r.cursor.rest.length + r.pending.length + 1

theorem Plan.covers_linear (r : Reader) : (Plan.linear r).Covers r.weight :=
  fun _ le => Nat.lt_of_le_of_lt le r.weight_lt_budget

theorem Plan.Covers.mono {plan : Plan} {w v : Nat} (h : plan.Covers w) (le : v ≤ w) :
    plan.Covers v :=
  fun r hr => h r (Nat.le_trans hr le)

/-! ### The rules by a plan -/

namespace Reading

/-- The fuel that the plan has for this state. -/
def fuel (plan : Plan) : Reading Nat := fun r => .ok (plan r) r

/-- The whole parameter list after its opening parenthesis. -/
def parameterListBy (plan : Plan) : Reading (List String) := do
  skipBlanks
  let names ← parameters (← fuel plan)
  closeParameters
  return names

/-- Reads a function literal and notes it. -/
def functionLiteralBy (plan : Plan) : Reading FunctionLiteral := do
  let name ← functionName
  openParameters
  let names ← parameterListBy plan
  requireLink
  let (tokens, terminator) ← body (← fuel plan)
  let literal := FunctionLiteral.capture name names tokens terminator
  note (.captured literal)
  return literal

/-- All remaining tokens. -/
def tokensBy (plan : Plan) : Reading (List Token) := do
  pulls (← fuel plan)

end Reading

namespace Evaluating

/-- The fuel that the plan has for this state. -/
def fuel (plan : Plan) : Evaluating Nat := reading (Reading.fuel plan)

/-- Evaluates one expression. -/
def evaluateBy (plan : Plan) : Evaluating Value := do
  expression (← fuel plan)

/-- Requires the end of a statement and leaves it pending. -/
def endStatementBy (plan : Plan) : Evaluating Unit := do
  let t ← next
  if t.kind.endsStatement then
    pushBack t
  else
    reading (Reading.report ⟨.trailing t.kind t.text, t.location⟩)
    skipStatement ((← fuel plan) + 1) t

/-- The values of the statements up to the end of the input. -/
def statementsBy (plan : Plan) : Nat → Evaluating (List Value)
  | 0 => throw .exhausted
  | fuel + 1 => do
    let t ← next
    if t.kind = .endOfInput then
      return []
    else if t.kind = .endOfLine then
      statementsBy plan fuel
    else if t.kind = .functionDeclaration then
      define (← reading (Reading.functionLiteralBy plan))
      statementsBy plan fuel
    else
      pushBack t
      let value ← evaluateBy plan
      endStatementBy plan
      return value :: (← statementsBy plan fuel)

/-- Evaluates every statement and captures every function literal. -/
def evaluateAllBy (plan : Plan) : Evaluating (List Value) := do
  statementsBy plan (← fuel plan)

end Evaluating

/-! ### What every run keeps -/

/-- The guard that asks for nothing but that no loop runs out. -/
def running : Guard where
  readers _ := True
  calm _ := True
  tokens _ := True
  places _ := True
  literals _ := True
  faults fault := fault ≠ .exhausted
  lost _ := False
  keepsLost _ := id
  advance _ _ _ := Or.inl trivial
  note _ _ _ := trivial
  collected _ _ _ _ := trivial
  raised _ _ _ _ := by simp
  here _ := trivial
  place _ := trivial
  captured _ _ := trivial
  delivered _ _ := Or.inl ⟨trivial, trivial, trivial, trivial⟩
  stopped := by
    intro r q fault _ run
    cases Reading.failure_of_next run with
    | stray none scanned => exact Or.inl ⟨by simp, trivial⟩
    | unterminated none scanned raising => exact Or.inl ⟨by simp, trivial⟩
  numeral _ _ _ := by simp
  undefined _ := by simp

namespace Running

theorem between (r : Reader) : running.Between r := ⟨trivial, trivial⟩

theorem inside (s : Session) : running.Inside s := ⟨trivial, fun _ _ => trivial⟩

theorem within {i : Nat} {s : Session} (h : s.reader.weight ≤ i) :
    running.pairing.Within i i s s :=
  ⟨⟨rfl, inside s⟩, h, h⟩

/-- A result that a guarded reader yields is as the guard has it. -/
theorem of_ok {α : Type} {Q : α → Reader → Prop} {o : Outcome Reader α} {x : α} {q : Reader}
    (ends : running.Ends Q o) (run : o = .ok x q) : Q x q := by
  subst run
  cases ends with
  | ok hq => exact hq
  | lost lost => exact False.elim lost

theorem ne_exhausted {α : Type} {Q : α → Reader → Prop} {o : Outcome Reader α} {q : Reader}
    (ends : running.Ends Q o) : o ≠ .error .exhausted q := by
  rintro rfl
  cases ends with
  | error allowed => exact allowed rfl
  | lost lost => exact lost

/-- Runs that keep up with one another have one outcome. -/
theorem eq_of_ends {α : Type} {Q : α → Session → α → Session → Prop} {o p : Outcome Session α}
    (ends : running.pairing.Ends Q o p)
    (same : ∀ x l y r, Q x l y r → x = y ∧ l = r) : o = p := by
  cases ends with
  | ok hq =>
    obtain ⟨rfl, rfl⟩ := same _ _ _ _ hq
    rfl
  | error faults states =>
    rw [faults.1, states.1]
  | lost lost =>
    cases o with
    | ok x t => exact False.elim lost
    | error fault t => exact False.elim lost

theorem eq_of_same {α : Type} {i j : Nat} {o p : Outcome Session α}
    (ends : running.pairing.Ends (running.pairing.Same i j) o p) : o = p :=
  eq_of_ends ends fun _ _ _ _ same => ⟨same.1, same.2.states.1⟩

theorem pair_of_ok {α : Type} {Q : α → Session → α → Session → Prop} {o p : Outcome Session α}
    {x : α} {t : Session} (ends : running.pairing.Ends Q o p) (run : o = .ok x t) :
    ∃ y u, Q x t y u := by
  subst run
  cases ends with
  | ok hq => exact ⟨_, _, hq⟩
  | lost lost => exact False.elim lost

theorem pair_ne_exhausted {α : Type} {Q : α → Session → α → Session → Prop}
    {o p : Outcome Session α} {t : Session} (ends : running.pairing.Ends Q o p) :
    o ≠ .error .exhausted t := by
  rintro rfl
  cases ends with
  | error faults states => exact faults.2 rfl
  | lost lost => exact lost

end Running

/-! ### The same outcome by every plan -/

namespace Reading

/-- A loop whose turns go on only where less is left has one outcome with any fuel that is more
than what is left. -/
theorem loop_eq {α : Type} {loop : Nat → Reading α}
    (turn : ∀ (n m : Nat) (r : Reader), (∀ q : Reader, q.weight < r.weight → loop n q = loop m q) →
      loop (n + 1) r = loop (m + 1) r)
    {n m : Nat} {r : Reader} (hn : r.weight < n) (hm : r.weight < m) : loop n r = loop m r := by
  induction n generalizing m r with
  | zero => exact absurd hn (Nat.not_lt_zero _)
  | succ n ih =>
    obtain ⟨m, rfl⟩ : ∃ k, m = k + 1 := ⟨m - 1, by omega⟩
    exact turn n m r fun q less => ih (by omega) (by omega)

theorem parameters_eq {n m : Nat} {r : Reader} (hn : r.weight < n) (hm : r.weight < m) :
    parameters n r = parameters m r := by
  refine loop_eq (fun n m r later => ?_) hn hm
  cases rest : r.cursor.rest with
  | nil => rw [parameters_of_end n rest, parameters_of_end m rest]
  | cons c cs =>
    by_cases closing : c = ')'
    · subst closing
      rw [parameters_of_closing n rest, parameters_of_closing m rest]
    · rw [parameters_of_turn n rest closing, parameters_of_turn m rest closing]
      refine bind_congr_at rfl fun found q run => ?_
      have less := (Running.of_ok
        (Guard.ends_parameterTurn (Running.between r) rest closing) run).2
      exact bind_congr_at (later q less) fun _ _ _ => rfl

theorem body_eq {n m : Nat} {r : Reader} (hn : r.weight < n) (hm : r.weight < m) :
    body n r = body m r := by
  refine loop_eq (fun n m r later => ?_) hn hm
  unfold body
  refine bind_congr_at rfl fun t q run => ?_
  by_cases last : t.kind.endsStatement = true
  · rw [if_pos last, if_pos last]
  · rw [if_neg last, if_neg last]
    have inside := TokenKind.inside_iff.1 (Bool.eq_false_iff.2 last)
    exact bind_congr_at (later q (Reader.weight_lt_of_next run inside.1)) fun _ _ _ => rfl

theorem pulls_congr {n m : Nat} {r : Reader} (hn : r.weight < n) (hm : r.weight < m) :
    pulls n r = pulls m r := by
  refine loop_eq (fun n m r later => ?_) hn hm
  rw [pulls_succ, pulls_succ]
  refine bind_congr_at rfl fun t q run => ?_
  by_cases last : t.kind = .endOfInput
  · rw [if_pos last, if_pos last]
  · rw [if_neg last, if_neg last]
    exact bind_congr_at (later q (Reader.weight_lt_of_next run last)) fun _ _ _ => rfl

end Reading

section Plans

variable {plan : Plan}

namespace Reading

theorem weight_le_of_ok {α : Type} {a : Reading α} [kept : running.Keeps a] {r q : Reader} {x : α}
    (run : a r = .ok x q) : q.weight ≤ r.weight :=
  (Running.of_ok (kept.ends (Running.between r)) run).2

theorem parameterListBy_eq {r : Reader} (h : plan.Covers r.weight) :
    parameterListBy plan r = parameterList r := by
  unfold parameterListBy parameterList
  refine bind_congr_at rfl fun _ q run => ?_
  have enough := h q (weight_le_of_ok run)
  show (parameters (plan q) >>= _ : Reading _) q = (parameters q.budget >>= _ : Reading _) q
  exact bind_congr_at (parameters_eq enough q.weight_lt_budget) fun _ _ _ => rfl

theorem functionLiteralBy_eq {r : Reader} (h : plan.Covers r.weight) :
    functionLiteralBy plan r = functionLiteral r := by
  unfold functionLiteralBy functionLiteral
  refine bind_congr_at rfl fun name q₁ run₁ => ?_
  refine bind_congr_at rfl fun _ q₂ run₂ => ?_
  have h₁ := weight_le_of_ok run₁
  have h₂ := Nat.le_trans (weight_le_of_ok run₂) h₁
  refine bind_congr_at (parameterListBy_eq (h.mono h₂)) fun names q₃ run₃ => ?_
  rw [parameterListBy_eq (h.mono h₂)] at run₃
  refine bind_congr_at rfl fun _ q₄ run₄ => ?_
  have h₃ := Nat.le_trans (weight_le_of_ok run₃) h₂
  have h₄ := Nat.le_trans (weight_le_of_ok run₄) h₃
  show (body (plan q₄) >>= _ : Reading _) q₄ = (body q₄.budget >>= _ : Reading _) q₄
  exact bind_congr_at (body_eq (h q₄ h₄) q₄.weight_lt_budget) fun _ _ _ => rfl

theorem tokensBy_eq {r : Reader} (h : plan.Covers r.weight) : tokensBy plan r = tokens r := by
  rw [tokens_eq]
  exact pulls_congr (h r (Nat.le_refl _)) r.weight_lt_budget

end Reading

namespace Evaluating

open Running (within)

theorem evaluateBy_eq {s : Session} (h : plan.Covers s.reader.weight) :
    evaluateBy plan s = evaluate s :=
  Running.eq_of_same (pairs_expression _ _ _ _ s s (h s.reader (Nat.le_refl _))
    s.reader.weight_lt_budget (within (Nat.le_refl _)))

theorem skipStatement_eq {n m : Nat} {t : Token} {s : Session}
    (inside : t.kind.endsStatement = false) (hn : s.reader.weight < n) (hm : s.reader.weight < m) :
    skipStatement (n + 1) t s = skipStatement (m + 1) t s := by
  have taken : running.pairing.Taken (s.reader.weight + 1) (s.reader.weight + 1) t s t s :=
    Pairing.taken_of_states ⟨rfl, trivial⟩ ⟨rfl, Running.inside s⟩
      ⟨rfl, Running.inside (s.push t)⟩ inside
  exact Running.eq_of_same (ends_skipStatement taken (Nat.succ_lt_succ hn) (Nat.succ_lt_succ hm))

theorem endStatementBy_eq {s : Session} (h : plan.Covers s.reader.weight) :
    endStatementBy plan s = endStatement s := by
  unfold endStatementBy endStatement
  refine bind_congr_at rfl fun t u taken => ?_
  by_cases last : t.kind.endsStatement = true
  · rw [if_pos last, if_pos last]
  rw [if_neg last, if_neg last]
  have inside := Bool.eq_false_iff.2 last
  refine bind_congr_at rfl fun _ v reported => ?_
  obtain ⟨z, noted, rfl⟩ := reading_eq_ok reported
  have lighter := weight_lt_of_next taken (TokenKind.inside_iff.1 inside).1
  have same : z.weight = u.reader.weight :=
    (Running.of_ok (running.ends_report (by simp [Cause.Known]) trivial trivial) noted).2.2
  exact skipStatement_eq inside (h z (by omega)) z.weight_lt_budget

/-- A turn by the plan, once its first token is taken. -/
def turnBy (plan : Plan) (t : Token) : Evaluating (List Value) :=
  if t.kind = .endOfLine then
    pure []
  else if t.kind = .functionDeclaration then do
    define (← reading (Reading.functionLiteralBy plan))
    return []
  else do
    pushBack t
    let value ← evaluateBy plan
    endStatementBy plan
    return [value]

theorem statementsBy_of_turn (fuel : Nat) :
    statementsBy plan (fuel + 1) = next >>= fun t =>
      if t.kind = .endOfInput then pure []
      else do
        let front ← turnBy plan t
        return front ++ (← statementsBy plan fuel) := by
  refine congrArg (next >>= ·) (funext fun t => ?_)
  unfold turnBy
  split
  · rfl
  split
  · simp only [pure_bind, List.nil_append, bind_pure]
  split
  · simp only [bind_assoc, pure_bind, List.nil_append, bind_pure]
  · simp only [bind_assoc, pure_bind, List.singleton_append]

/-- What is left after a turn weighs less than what was there before its first token. -/
theorem weight_lt_of_turn {t : Token} {s u v : Session} {front : List Value}
    (taken : next s = .ok t v) (last : t.kind ≠ .endOfInput) (ran : turn t v = .ok front u) :
    u.reader.weight < s.reader.weight := by
  have ends := running.ends_turn (Running.inside v) trivial (Running.inside (v.push t)) trivial last
  obtain ⟨_, _, -, left⟩ := Running.pair_of_ok ends ran
  exact Nat.lt_of_le_of_lt left.left (weight_lt_of_next taken last)

theorem turnBy_eq {t : Token} {s v : Session} (h : plan.Covers s.reader.weight)
    (taken : next s = .ok t v) (last : t.kind ≠ .endOfInput) : turnBy plan t v = turn t v := by
  unfold turnBy turn
  by_cases line : t.kind = .endOfLine
  · rw [if_pos line, if_pos line]
  rw [if_neg line, if_neg line]
  by_cases declaration : t.kind = .functionDeclaration
  · rw [if_pos declaration, if_pos declaration]
    refine bind_congr_at ?_ fun _ _ _ => rfl
    unfold reading
    rw [Reading.functionLiteralBy_eq (h.mono (Nat.le_of_lt (weight_lt_of_next taken last)))]
  · rw [if_neg declaration, if_neg declaration]
    have begins : plan.Covers (v.push t).reader.weight := h.mono (weight_push_of_next taken)
    refine bind_congr_at (s := v.push t) (evaluateBy_eq begins) fun x u ran => ?_
    rw [evaluateBy_eq begins] at ran
    obtain ⟨_, _, -, left⟩ := Running.pair_of_ok (ends_evaluate (within (Nat.le_refl _))) ran
    exact bind_congr_at (endStatementBy_eq (begins.mono left.left)) fun _ _ _ => rfl

theorem statementsBy_eq {n m : Nat} {s : Session} (h : plan.Covers s.reader.weight)
    (hn : s.reader.weight < n) (hm : s.reader.weight < m) :
    statementsBy plan n s = statements m s := by
  induction n generalizing m s with
  | zero => exact absurd hn (Nat.not_lt_zero _)
  | succ n ih =>
    obtain ⟨m, rfl⟩ : ∃ k, m = k + 1 := ⟨m - 1, by omega⟩
    rw [statementsBy_of_turn, statements_of_turn]
    refine bind_congr_at rfl fun t v taken => ?_
    by_cases last : t.kind = .endOfInput
    · rw [if_pos last, if_pos last]
    rw [if_neg last, if_neg last]
    refine bind_congr_at (turnBy_eq h taken last) fun front u ran => ?_
    rw [turnBy_eq h taken last] at ran
    have less := weight_lt_of_turn taken last ran
    have later := ih (h.mono (Nat.le_of_lt less)) (m := m) (s := u) (by omega) (by omega)
    exact bind_congr_at later fun _ _ _ => rfl

theorem evaluateAllBy_eq {s : Session} (h : plan.Covers s.reader.weight) :
    evaluateAllBy plan s = evaluateAll s :=
  statementsBy_eq h (h s.reader (Nat.le_refl _)) s.reader.weight_lt_budget

end Evaluating

end Plans

/-! ### What each turn uses up -/

namespace Evaluating

open Running (within)

variable {s v : Session} {t : Token}

theorem pairs_rule {P : Pairing} {n m : Nat} {nested nested' : Evaluating Value}
    [Composed Step nested] (hn : Pairs P n m nested nested') :
    ∀ level : Option Level,
      Pairs P (n + 1) (m + 1) (rule (n + 1) nested level) (rule (m + 1) nested' level)
  | none => pairs_primary hn
  | some .power => pairs_joined .power (pairs_primary hn)
  | some .product => pairs_joined .product (pairs_joined .power (pairs_primary hn))
  | some .sum => pairs_joined .sum (pairs_joined .product (pairs_joined .power (pairs_primary hn)))

theorem weight_lt_of_operation {level : Level} {n : Nat} {left right value : Value}
    {w u : Session} (enough : s.reader.weight ≤ n) (taken : next s = .ok t v)
    (operator : t.isOperator level.symbols = true)
    (operand : rule (n + 1) (expression n) level.tighter v = .ok right w)
    (settled : settle (apply left t right) w = .ok value u) :
    u.reader.weight < s.reader.weight := by
  have inside := TokenKind.inside_iff.1 (inside_of_isOperator operator)
  have less := weight_lt_of_next taken inside.1
  have read := pairs_rule (pairs_expression (P := running.pairing) n n) level.tighter
    v.reader.weight v.reader.weight v v (by omega) (by omega) (within (Nat.le_refl _))
  obtain ⟨_, _, -, bound⟩ := Running.pair_of_ok read operand
  have same : running.pairing.tokens t t := ⟨rfl, trivial⟩
  obtain ⟨_, _, -, bound⟩ := Running.pair_of_ok
    (ends_apply same operator left right (within bound.left)) settled
  exact Nat.lt_of_le_of_lt bound.left less

theorem weight_of_minusChain {n : Nat} {odd : Bool} {chain : Bool × Token}
    (h : minusChain n odd t s = .ok chain v) :
    (v.push chain.2).reader.weight ≤ (s.push t).reader.weight := by
  induction n generalizing odd t s with
  | zero => exact absurd h throw_ne_ok
  | succ n ih =>
    rw [minusChain_succ] at h
    split at h
    · obtain ⟨u, w, taken, counted⟩ := bind_eq_ok.1 h
      have back := Nat.le_trans (ih counted) (weight_push_of_next taken)
      exact Nat.le_trans back (Reader.weight_le_push t s.reader)
    · obtain ⟨rfl, rfl⟩ := pure_eq_ok.1 h
      exact Nat.le_refl _

section Nested

variable {nested nested' : Evaluating Value} {bound : Nat}
  (same : ∀ u : Session, u.reader.weight < bound → nested u = nested' u)
include same

theorem negated_congr (left : (s.push t).reader.weight < bound) :
    negated nested t s = negated nested' t s := by
  have lighter := Nat.lt_of_le_of_lt (Reader.weight_le_push t s.reader) left
  unfold negated
  split
  · rfl
  split
  · exact bind_congr_at (same s lighter) fun _ _ _ => rfl
  · exact same (s.push t) left

theorem primaryFrom_congr (n : Nat) (left : s.reader.weight < bound) :
    primaryFrom n nested t s = primaryFrom n nested' t s := by
  unfold primaryFrom
  split
  · rfl
  split
  · rfl
  split
  · rfl
  split
  · exact bind_congr_at (same s left) fun _ _ _ => rfl
  split
  · rename_i sign
    refine bind_congr_at rfl fun chain u counted => bind_congr_at ?_ fun _ _ _ => rfl
    refine negated_congr same (Nat.lt_of_le_of_lt ?_ left)
    cases n with
    | zero => exact absurd counted throw_ne_ok
    | succ n =>
      rw [minusChain_succ, if_pos sign] at counted
      obtain ⟨t', w, taken, counted⟩ := bind_eq_ok.1 counted
      exact Nat.le_trans (weight_of_minusChain counted) (weight_push_of_next taken)
  · rfl

end Nested

/-- What a primary does depends on the nested expressions only where less is left. -/
theorem primary_congr {nested nested' : Evaluating Value} (n : Nat)
    (same : ∀ u : Session, u.reader.weight < s.reader.weight → nested u = nested' u) :
    primary n nested s = primary n nested' s := by
  rw [primary_eq, primary_eq]
  refine bind_congr_at rfl fun t v taken => ?_
  by_cases last : t.kind = .endOfInput
  · have outside : belongsOutside t = true := by
      unfold belongsOutside
      rw [last]
      rfl
    rw [primaryFrom_of_outside n nested v outside, primaryFrom_of_outside n nested' v outside]
  · exact primaryFrom_congr same n (weight_lt_of_next taken last)

end Evaluating

open Evaluating in
/-- Each turn of a loop leaves less than there was before it, and so does each step into a nested
expression. -/
structure Descends (s : Session) : Prop where
  /-- A token of a list of all tokens, of a body, of a skipped statement or of a minus chain. -/
  token {t : Token} {v : Session} : next s = .ok t v → t.kind ≠ .endOfInput →
    v.reader.weight < s.reader.weight
  /-- A parameter, read or skipped, and the comma behind it. -/
  parameter {c : Char} {cs : List Char} {found : List String} {q : Reader} :
    s.reader.cursor.rest = c :: cs → c ≠ ')' →
    Reading.parameterTurn c s.reader = .ok found q → q.weight < s.reader.weight
  /-- An operator and its right operand. -/
  operation {level : Level} {n : Nat} {t : Token} {left right value : Value} {v w u : Session} :
    s.reader.weight ≤ n → next s = .ok t v → t.isOperator level.symbols = true →
    rule (n + 1) (expression n) level.tighter v = .ok right w →
    settle (apply left t right) w = .ok value u → u.reader.weight < s.reader.weight
  /-- A nested expression: where as much or more is left, it is not entered. -/
  nested {n : Nat} {a b : Evaluating Value} :
    (∀ u : Session, u.reader.weight < s.reader.weight → a u = b u) →
    primary n a s = primary n b s
  /-- A statement, whether or not it has a value. -/
  statement {t : Token} {v u : Session} {front : List Value} : next s = .ok t v →
    t.kind ≠ .endOfInput → turn t v = .ok front u → u.reader.weight < s.reader.weight

theorem descends (s : Session) : Descends s where
  token := Evaluating.weight_lt_of_next
  parameter rest inside ran :=
    (Running.of_ok (Guard.ends_parameterTurn (Running.between s.reader) rest inside) ran).2
  operation := Evaluating.weight_lt_of_operation
  nested := Evaluating.primary_congr _
  statement := Evaluating.weight_lt_of_turn

open Evaluating in
/-- **Every run ends.** Whatever is pending, each turn of a loop and each nested expression leaves
less than there was. So no loop runs out, and any plan that gives each of them more fuel than there
is left to be read leads to the same outcomes; one that is linear in what is left is such a plan. -/
theorem outcomes_by_plan (s : Session) :
    (∀ u, Descends u) ∧ (Plan.linear s.reader).Covers s.reader.weight ∧
    (∀ t, evaluateAll s ≠ .error .exhausted t ∧ evaluate s ≠ .error .exhausted t) ∧
    (∀ q, Reading.tokens s.reader ≠ .error .exhausted q ∧
      Reading.functionLiteral s.reader ≠ .error .exhausted q) ∧
    ∀ plan : Plan, plan.Covers s.reader.weight →
      evaluateAllBy plan s = evaluateAll s ∧ evaluateBy plan s = evaluate s ∧
      Reading.tokensBy plan s.reader = Reading.tokens s.reader ∧
      Reading.functionLiteralBy plan s.reader = Reading.functionLiteral s.reader := by
  refine ⟨descends, Plan.covers_linear s.reader, ?_, ?_, ?_⟩
  · intro t
    exact ⟨Running.pair_ne_exhausted (Guard.ends_evaluateAll (Running.inside s)),
      Running.pair_ne_exhausted (ends_evaluate (Running.within (Nat.le_refl _)))⟩
  · intro q
    rw [Reading.tokens_eq]
    exact ⟨Running.ne_exhausted (o := Reading.pulls s.reader.budget s.reader)
        (running.ends_pulls trivial s.reader.weight_lt_budget),
      Running.ne_exhausted (Guard.ends_functionLiteral (Running.between s.reader))⟩
  · intro plan covers
    exact ⟨evaluateAllBy_eq covers, evaluateBy_eq covers, Reading.tokensBy_eq covers,
      Reading.functionLiteralBy_eq covers⟩

open Evaluating in
/-- The theorem where a minus, an end of the input and a parenthesis are pending before the source,
and every loop gets the same fuel. -/
theorem outcomes_by_plan_pending_end :
    let pending (kind : TokenKind) (text : String) : Token := ⟨kind, text, ⟨0, 0, ""⟩⟩
    let reader : Reader :=
      { Reader.ofSource "2; function f(a,, b => (-;" "in" .collect with
        pending := [pending .operator "-", pending .endOfInput "", pending .punctuation ")"] }
    let s : Session := ⟨reader, [], [], true⟩
    let plan : Plan := fun _ => 29
    plan.Covers s.reader.weight ∧ evaluateAllBy plan s = evaluateAll s ∧
      evaluateBy plan s = evaluate s ∧
      Reading.tokensBy plan s.reader = Reading.tokens s.reader ∧
      Reading.functionLiteralBy plan s.reader = Reading.functionLiteral s.reader := by
  intro pending reader s plan
  have weight : s.reader.weight = 28 := by decide
  have covers : plan.Covers s.reader.weight := by
    intro r le
    show r.weight < 29
    omega
  exact ⟨covers, (outcomes_by_plan s).2.2.2.2 plan covers⟩

end Reckoner
