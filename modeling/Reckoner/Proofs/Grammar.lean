import Reckoner.Proofs.Steps

/-!
# Trees and derivations

The grammar of expressions without an evaluator: trees, the value of a tree under a table of
variables, and the derivations of a tree from the head of a list of tokens.

    sum     ::= product (('+' | '-') product)*
    product ::= power (('*' | '/' | '%') power)*
    power   ::= primary ('^' primary)*
    primary ::= NUMBER | STRING | IDENTIFIER | '(' sum ')' | '-'+ (NUMBER | '(' sum ')' | sum)

The three levels associate to the left. A minus chain is as long as it can be; in front of
anything but a number or a parenthesis it takes the longest expression that follows.
-/

namespace Reckoner

/-- An expression as a tree. What may go wrong keeps the token at which it is reported. -/
inductive Tree where
  | number (text : String)
  | string (text : String)
  | name (t : Token)
  | binary (op : Token) (left right : Tree)
  | group (inner : Tree)
  /-- A chain of so many minus signs, of which the first is kept. -/
  | negation (minus : Token) (count : Nat) (operand : Tree)

/-- A value behind so many minus signs. They change the sign of a number if their count is odd; a
text is refused whatever their count is, and the first of them is blamed. -/
def Value.negated (minus : Token) (count : Nat) : Value → Except Fault Value
  | .number x => .ok (.number (if count % 2 = 1 then -x else x))
  | .text _ => .error (.diagnostic ⟨.negatedType .text, minus.location⟩)

/-- The parity may have been counted beforehand. -/
theorem Value.negated_number (minus : Token) (count : Nat) (x : Float) :
    (Value.number x).negated minus count =
      .ok (if decide (count % 2 = 1) then .number (-x) else .number x) := by
  by_cases odd : count % 2 = 1 <;> simp [Value.negated, odd]

/-- **The value of a tree.** Operands come before their operation and the left one before the
right one; the first error is the result. -/
def Tree.value (bindings : Table Value) : Tree → Except Fault Value
  | .number text =>
    match Number.read? text with
    | some x => .ok (.number x)
    | none => .error (.numeral text)
  | .string text => .ok (.text text)
  | .name t =>
    match bindings.get? t.text with
    | some v => .ok v
    | none => .error (.diagnostic ⟨.undefinedVariable t.text, t.location⟩)
  | .binary op left right => do
    let x ← left.value bindings
    let y ← right.value bindings
    (apply x op y).mapError .diagnostic
  | .group inner => inner.value bindings
  | .negation minus count operand => do
    let x ← operand.value bindings
    x.negated minus count

/-! ### Levels -/

namespace Level

/-- The next tighter level; `none` are the primaries. -/
def tighter : Level → Option Level
  | sum => some product
  | product => some power
  | power => none

/-- A level and all that are tighter. -/
def upTo : Option Level → List Level
  | some sum => [sum, product, power]
  | some product => [product, power]
  | some power => [power]
  | none => []

theorem upTo_some (level : Level) : upTo (some level) = level :: upTo level.tighter := by
  cases level <;> rfl

/-- How tight a level binds; primaries bind tightest. -/
def tightness : Option Level → Nat
  | some sum => 0
  | some product => 1
  | some power => 2
  | none => 3

theorem tightness_tighter (level : Level) :
    tightness level.tighter = tightness (some level) + 1 := by
  cases level <;> rfl

theorem tightness_le (level : Option Level) : tightness level ≤ 3 := by
  cases level with
  | none => exact Nat.le_refl 3
  | some level => cases level <;> decide

theorem eq_of_tightness_eq {level other : Option Level} (h : tightness level = tightness other) :
    level = other := by
  cases level with
  | none =>
    cases other with
    | none => rfl
    | some other => cases other <;> simp [tightness] at h
  | some level =>
    cases other with
    | none => cases level <;> simp [tightness] at h
    | some other => cases level <;> cases other <;> simp [tightness] at h ⊢

/-- No symbol belongs to two levels. -/
theorem symbols_disjoint (level other : Level) :
    other ∈ upTo level.tighter → ∀ symbol ∈ level.symbols, symbol ∉ other.symbols := by
  cases level <;> cases other <;> decide

theorem isOperator_of_mem_tighter {level other : Level} {t : Token}
    (h : t.isOperator level.symbols = true) (tight : other ∈ upTo level.tighter) :
    t.isOperator other.symbols = false := by
  simp only [Token.isOperator, Bool.and_eq_true, List.contains_iff_mem] at h
  have absent := symbols_disjoint level other tight t.text h.2
  simp only [Token.isOperator, List.contains_eq_mem, absent, decide_false, Bool.and_false]

end Level

/-- No operator of the level or a tighter one comes next. -/
def Stops (level : Option Level) (rest : List Token) : Prop :=
  ∀ t ∈ rest.head?, ∀ l ∈ Level.upTo level, t.isOperator l.symbols = false

theorem Stops.tighter {level : Level} {rest : List Token} (h : Stops (some level) rest) :
    Stops level.tighter rest := by
  intro t ht l hl
  refine h t ht l ?_
  rw [Level.upTo_some]
  exact List.mem_cons_of_mem level hl

theorem stops_of_isOperator {level : Level} {op : Token}
    (h : op.isOperator level.symbols = true) (rest : List Token) :
    Stops level.tighter (op :: rest) := by
  intro t ht l hl
  cases ht
  exact Level.isOperator_of_mem_tighter h hl

/-! ### Derivations -/

/-- `Derives level ts tree rest`: the tokens `ts` begin with an expression of the level, or with a
primary for `none`, whose tree is `tree`, and `rest` comes behind it. -/
inductive Derives : Option Level → List Token → Tree → List Token → Prop
  | number {t : Token} {rest : List Token} : t.kind = .number →
      Derives none (t :: rest) (.number t.text) rest
  | string {t : Token} {rest : List Token} : t.kind = .string →
      Derives none (t :: rest) (.string t.text) rest
  | name {t : Token} {rest : List Token} : t.kind = .identifier →
      Derives none (t :: rest) (.name t) rest
  | group {opening closing : Token} {ts rest : List Token} {inner : Tree} :
      opening.isPunctuation "(" = true → closing.isPunctuation ")" = true →
      Derives (some .sum) ts inner (closing :: rest) →
      Derives none (opening :: ts) (.group inner) rest
  /-- A minus chain in front of a number takes that alone. -/
  | negatedNumber {minus t : Token} {chain rest : List Token} :
      (∀ u ∈ minus :: chain, u.isOperator ["-"] = true) → t.kind = .number →
      Derives none (minus :: (chain ++ t :: rest))
        (.negation minus (chain.length + 1) (.number t.text)) rest
  /-- In front of a group it takes the group alone. -/
  | negatedGroup {minus opening closing : Token} {chain ts rest : List Token} {inner : Tree} :
      (∀ u ∈ minus :: chain, u.isOperator ["-"] = true) →
      opening.isPunctuation "(" = true → closing.isPunctuation ")" = true →
      Derives (some .sum) ts inner (closing :: rest) →
      Derives none (minus :: (chain ++ opening :: ts))
        (.negation minus (chain.length + 1) (.group inner)) rest
  /-- In front of anything else it takes the longest expression that follows. -/
  | negatedSum {minus t : Token} {chain ts rest : List Token} {operand : Tree} :
      (∀ u ∈ minus :: chain, u.isOperator ["-"] = true) →
      t.kind ≠ .number → t.isPunctuation "(" = false → t.isOperator ["-"] = false →
      Derives (some .sum) (t :: ts) operand rest → Stops (some .sum) rest →
      Derives none (minus :: (chain ++ t :: ts))
        (.negation minus (chain.length + 1) operand) rest
  | operand {level : Level} {ts rest : List Token} {tree : Tree} :
      Derives level.tighter ts tree rest → Derives (some level) ts tree rest
  | binary {level : Level} {op : Token} {ts us rest : List Token} {left right : Tree} :
      Derives (some level) ts left (op :: us) → op.isOperator level.symbols = true →
      Derives level.tighter us right rest →
      Derives (some level) ts (.binary op left right) rest

/-- What is derived at a level is derived at every looser one. -/
theorem Derives.loosen {level looser : Option Level} {ts rest : List Token} {tree : Tree}
    (h : Derives level ts tree rest) (fits : Level.tightness looser ≤ Level.tightness level) :
    Derives looser ts tree rest := by
  by_cases same : looser = level
  · rw [same]
    exact h
  have apart : Level.tightness looser ≠ Level.tightness level :=
    fun equal => same (Level.eq_of_tightness_eq equal)
  have bound := Level.tightness_le level
  cases looser with
  | none =>
    have tightest : Level.tightness none = 3 := rfl
    omega
  | some looser =>
    have next := Level.tightness_tighter looser
    exact .operand (h.loosen (by omega))
termination_by 3 - Level.tightness looser

theorem kind_of_isOperator {t : Token} {symbols : List String}
    (h : t.isOperator symbols = true) : t.kind = .operator := by
  rw [Token.isOperator, Bool.and_eq_true, beq_iff_eq] at h
  exact h.1

theorem kind_of_isPunctuation {t : Token} {symbol : String}
    (h : t.isPunctuation symbol = true) : t.kind = .punctuation := by
  rw [Token.isPunctuation, Bool.and_eq_true, beq_iff_eq] at h
  exact h.1

theorem inside_of_isOperator {t : Token} {symbols : List String}
    (h : t.isOperator symbols = true) : t.kind.endsStatement = false := by
  rw [kind_of_isOperator h]
  rfl

theorem inside_of_isPunctuation {t : Token} {symbol : String}
    (h : t.isPunctuation symbol = true) : t.kind.endsStatement = false := by
  rw [kind_of_isPunctuation h]
  rfl

/-- The kinds of the tokens that a tree is made of. -/
def Tree.kinds : Tree → List TokenKind
  | .number _ => [.number]
  | .string _ => [.string]
  | .name _ => [.identifier]
  | .binary _ left right => .operator :: (left.kinds ++ right.kinds)
  | .group inner => .punctuation :: inner.kinds
  | .negation _ _ operand => .operator :: operand.kinds

/-- The kinds of tokens that expressions are made of. -/
def expressionKinds : List TokenKind := [.number, .string, .identifier, .operator, .punctuation]

theorem Tree.mem_expressionKinds {tree : Tree} {kind : TokenKind} (h : kind ∈ tree.kinds) :
    kind ∈ expressionKinds := by
  induction tree with
  | number _ | string _ | name _ => rw [List.mem_singleton.1 h]; decide
  | binary op left right ihl ihr =>
    rcases List.mem_cons.1 h with rfl | h
    · decide
    · exact (List.mem_append.1 h).elim ihl ihr
  | group inner ih | negation minus count inner ih =>
    rcases List.mem_cons.1 h with rfl | h
    · decide
    · exact ih h

theorem Tree.not_endsStatement_of_mem_kinds {tree : Tree} {kind : TokenKind}
    (h : kind ∈ tree.kinds) : kind.endsStatement = false := by
  have inside : ∀ kind ∈ expressionKinds, kind.endsStatement = false := by decide
  exact inside kind (tree.mem_expressionKinds h)

/-- Parentheses and what is between them belong to a group. -/
theorem Tree.mem_kinds_of_enclosed {opening closing : Token} {used : List Token} {inner : Tree}
    (ho : opening.isPunctuation "(" = true) (hc : closing.isPunctuation ")" = true)
    (inside : ∀ t ∈ used, t.kind ∈ inner.kinds) :
    ∀ t ∈ opening :: (used ++ [closing]), t.kind ∈ (Tree.group inner).kinds := by
  intro u hu
  simp only [List.mem_cons, List.mem_append, List.not_mem_nil, or_false] at hu
  rcases hu with rfl | hu | rfl
  · rw [kind_of_isPunctuation ho]
    exact List.mem_cons_self
  · exact List.mem_cons_of_mem _ (inside u hu)
  · rw [kind_of_isPunctuation hc]
    exact List.mem_cons_self

/-- Minuses and the operand behind them belong to a negation. -/
theorem Tree.mem_kinds_of_negated {minuses used : List Token} {operand : Tree}
    (hm : ∀ t ∈ minuses, t.isOperator ["-"] = true)
    (inside : ∀ t ∈ used, t.kind ∈ operand.kinds) (minus : Token) (count : Nat) :
    ∀ t ∈ minuses ++ used, t.kind ∈ (Tree.negation minus count operand).kinds := by
  intro u hu
  rcases List.mem_append.1 hu with hu | hu
  · rw [kind_of_isOperator (hm u hu)]
    exact List.mem_cons_self
  · exact List.mem_cons_of_mem _ (inside u hu)

/-- What is derived takes up one or more tokens, all of them of the kinds of the tree. -/
theorem Derives.used {level : Option Level} {ts rest : List Token} {tree : Tree}
    (h : Derives level ts tree rest) :
    ∃ used, ts = used ++ rest ∧ used ≠ [] ∧ ∀ t ∈ used, t.kind ∈ tree.kinds := by
  induction h with
  | @number t _ kind | @string t _ kind | @name t _ kind =>
    refine ⟨[t], rfl, List.cons_ne_nil _ _, ?_⟩
    intro u hu
    rw [List.mem_singleton.1 hu, kind]
    exact List.mem_cons_self
  | @group opening closing _ _ _ ho hc _ ih =>
    obtain ⟨used, rfl, -, inside⟩ := ih
    exact ⟨opening :: (used ++ [closing]), by simp, List.cons_ne_nil _ _,
      Tree.mem_kinds_of_enclosed ho hc inside⟩
  | @negatedNumber minus t chain _ hm kind =>
    refine ⟨minus :: chain ++ [t], by simp, List.cons_ne_nil _ _,
      Tree.mem_kinds_of_negated hm ?_ minus _⟩
    intro u hu
    rw [List.mem_singleton.1 hu, kind]
    exact List.mem_cons_self
  | @negatedGroup minus opening closing chain _ _ _ hm ho hc _ ih =>
    obtain ⟨used, rfl, -, inside⟩ := ih
    exact ⟨minus :: chain ++ opening :: (used ++ [closing]), by simp, List.cons_ne_nil _ _,
      Tree.mem_kinds_of_negated hm (Tree.mem_kinds_of_enclosed ho hc inside) minus _⟩
  | @negatedSum minus t chain ts rest _ hm _ _ _ _ _ ih =>
    obtain ⟨used, split, -, inside⟩ := ih
    refine ⟨minus :: chain ++ used, ?_, List.cons_ne_nil _ _,
      Tree.mem_kinds_of_negated hm inside minus _⟩
    rw [List.append_assoc, ← split, List.cons_append]
  | operand _ ih => exact ih
  | @binary _ op _ _ _ _ _ _ hop _ ihl ihr =>
    obtain ⟨usedL, rfl, someL, insideL⟩ := ihl
    obtain ⟨usedR, rfl, -, insideR⟩ := ihr
    refine ⟨usedL ++ op :: usedR, by simp, List.append_ne_nil_of_left_ne_nil someL _, ?_⟩
    intro u hu
    rcases List.mem_append.1 hu with hu | hu
    · exact List.mem_cons_of_mem _ (List.mem_append_left _ (insideL u hu))
    rcases List.mem_cons.1 hu with rfl | hu
    · rw [kind_of_isOperator hop]
      exact List.mem_cons_self
    · exact List.mem_cons_of_mem _ (List.mem_append_right _ (insideR u hu))

theorem Derives.length_lt {level : Option Level} {ts rest : List Token} {tree : Tree}
    (h : Derives level ts tree rest) : rest.length < ts.length := by
  obtain ⟨used, rfl, some, -⟩ := h.used
  have length := List.length_pos_iff.2 some
  rw [List.length_append]
  omega

theorem Derives.ne_nil {level : Option Level} {ts rest : List Token} {tree : Tree}
    (h : Derives level ts tree rest) : ts ≠ [] :=
  List.length_pos_iff.1 (Nat.zero_lt_of_lt h.length_lt)

/-! ### The rules of evaluation by level -/

namespace Evaluating

/-- The rule of a level, or the rule of primaries for `none`. -/
def rule (fuel : Nat) (nested : Evaluating Value) : Option Level → Evaluating Value
  | none => primary fuel nested
  | some .power => joined .power fuel (primary fuel nested)
  | some .product => joined .product fuel (joined .power fuel (primary fuel nested))
  | some .sum => levels fuel nested

theorem rule_some (fuel : Nat) (nested : Evaluating Value) (level : Level) :
    rule fuel nested (some level) = joined level fuel (rule fuel nested level.tighter) := by
  cases level <;> rfl

theorem expression_succ (fuel : Nat) :
    expression (fuel + 1) = rule (fuel + 1) (expression fuel) (some .sum) := rfl

/-- A primary from its first token on. -/
def primaryFrom (fuel : Nat) (nested : Evaluating Value) (t : Token) : Evaluating Value :=
  if t.kind = .number then numeral t
  else if t.kind = .string then pure (.text t.text)
  else if t.kind = .identifier then valueOf t
  else if t.isPunctuation "(" then group nested
  else if t.isOperator ["-"] then negation fuel nested t
  else noExpression t

theorem primary_eq (fuel : Nat) (nested : Evaluating Value) :
    primary fuel nested = next >>= primaryFrom fuel nested := rfl

instance composed_primaryFrom {nested : Evaluating Value} [Composed Step nested] (fuel : Nat)
    (t : Token) : Composed Step (primaryFrom fuel nested t) := by
  unfold primaryFrom
  infer_instance

theorem evaluate_eq (s : Session) : evaluate s = expression s.reader.budget s := rfl

theorem chain_succ (level : Level) (operand : Evaluating Value) (n : Nat) (left : Value) :
    chain level operand (n + 1) left = do
      let t ← next
      if t.isOperator level.symbols then
        chain level operand n (← settle (apply left t (← operand)))
      else
        pushBack t
        return left := rfl

theorem minusChain_succ (n : Nat) (odd : Bool) (t : Token) :
    minusChain (n + 1) odd t =
      if t.isOperator ["-"] then do minusChain n (!odd) (← next) else pure (odd, t) := rfl

/-- What the statements do once the first token is taken. -/
def statementsFrom (fuel : Nat) (t : Token) : Evaluating (List Value) :=
  if t.kind = .endOfInput then
    pure []
  else if t.kind = .endOfLine then
    statements fuel
  else if t.kind = .functionDeclaration then do
    define (← reading Reading.functionLiteral)
    statements fuel
  else do
    pushBack t
    let value ← evaluate
    endStatement
    return value :: (← statements fuel)

theorem statements_succ (fuel : Nat) : statements (fuel + 1) = next >>= statementsFrom fuel := rfl

instance composed_statementsFrom (fuel : Nat) (t : Token) :
    Composed Step (statementsFrom fuel t) := by
  unfold statementsFrom
  infer_instance

theorem evaluateAll_eq (s : Session) : evaluateAll s = statements s.reader.budget s := rfl

theorem not_decide_odd (c : Nat) : (!decide (c % 2 = 1)) = decide ((c + 1) % 2 = 1) := by
  rw [← decide_not]
  exact decide_eq_decide.2 ⟨fun h => by omega, fun h => by omega⟩

end Evaluating

end Reckoner
