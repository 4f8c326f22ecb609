import Reckoner.Proofs.Turns
import Reckoner.Reader.Stream

/-!
# What a run gets from the source

On its way an action of a session gets tokens and function literals from the source. A token that
is pulled while none is pending has been scanned, and is an entry of the course of the action; a
literal that is read is one as well. Every other step gets nothing. The instances follow the
definitions of the rules, so that the course of a rule is that of its parts, one after the other.

* `Course`, `entries` — what is scanned and read on the way;
* `entries_bind_of_ok` — one part after the other;
* `turned_of_turn`, `Turned.entries_statementsFrom` — a turn, and then the statements behind it.
-/

namespace Reckoner

/-- The token of an entry that is one. -/
def Reader.Entry.token? : Reader.Entry → Option Token
  | .token t => some t
  | .literal _ => none

/-- The literal of an entry that is one. -/
def Reader.Entry.literal? : Reader.Entry → Option FunctionLiteral
  | .token _ => none
  | .literal f => some f

theorem Reader.Entry.filterMap_literal? (ts : List Token) :
    (ts.map Reader.Entry.token).filterMap Reader.Entry.literal? = [] := by
  rw [List.filterMap_map]
  exact List.filterMap_eq_nil_iff.2 fun _ _ => rfl

/-- What an action gets from the source, by the state in which it begins. -/
class Course {α : Type} (a : Evaluating α) where
  entries : Session → List Reader.Entry

/-- What the action gets from the source when it begins in this state. -/
def entries {α : Type} (a : Evaluating α) [h : Course a] (s : Session) : List Reader.Entry :=
  h.entries s

namespace Evaluating

section Parts

variable {α β : Type} {a : Evaluating α} {f : α → Evaluating β}

instance coursePure (x : α) : Course (pure x) where
  entries _ := []

instance courseThrow (fault : Fault) : Course (throw fault : Evaluating α) where
  entries _ := []

/-- What comes later begins where the first part has ended, if that yields a result. -/
instance courseBind [Course a] [∀ x, Course (f x)] : Course (a >>= f) where
  entries s := entries a s ++
    match a s with
    | .ok x t => entries (f x) t
    | .error _ _ => []

instance courseIte {c : Prop} [Decidable c] {b : Evaluating α} [Course a] [Course b] :
    Course (if c then a else b) where
  entries s := if c then entries a s else entries b s

/-- A pull scans a token where none is pending. -/
instance courseNext : Course next where
  entries s :=
    match s.reader.pending, next s with
    | [], .ok t _ => [.token t]
    | _, _ => []

instance courseLiteral : Course (reading Reading.functionLiteral) where
  entries s :=
    match reading Reading.functionLiteral s with
    | .ok f _ => [.literal f]
    | .error _ _ => []

instance coursePushBack (t : Token) : Course (pushBack t) where
  entries _ := []

instance courseBudget : Course budget where
  entries _ := []

instance courseReport (d : Diagnostic) : Course (reading (Reading.report d)) where
  entries _ := []

instance courseValueOf (t : Token) : Course (valueOf t) where
  entries _ := []

instance courseEndGroup : Course endGroup where
  entries _ := []

instance courseDefine (f : FunctionLiteral) : Course (define f) where
  entries _ := []

end Parts

/-! ### The rules of the grammar -/

section Rules

variable {nested operand : Evaluating Value}

instance courseRecover (d : Diagnostic) : Course (recover d) :=
  inferInstanceAs (Course (reading (Reading.report d) >>= fun _ => pure Value.placeholder))

instance courseSettle : (result : Except Diagnostic Value) → Course (settle result)
  | .ok v => coursePure v
  | .error d => courseRecover d

instance courseNumeral (t : Token) : Course (numeral t) where
  entries _ := []

instance courseCloseGroup (value : Value) : Course (closeGroup value) :=
  inferInstanceAs (Course (next >>= fun t =>
    if t.isPunctuation ")" then pure value
    else pushBack t >>= fun _ => recover ⟨.openGroup t.kind t.text, t.location⟩))

instance courseGroup [Course nested] : Course (group nested) :=
  inferInstanceAs (Course (nested >>= fun value => endGroup >>= fun _ => closeGroup value))

instance courseMinusChain : (fuel : Nat) → (odd : Bool) → (t : Token) →
    Course (minusChain fuel odd t)
  | 0, _, _ => courseThrow _
  | fuel + 1, odd, t =>
    have := courseMinusChain fuel
    inferInstanceAs (Course (if t.isOperator ["-"] then next >>= minusChain fuel (!odd)
      else pure (odd, t)))

instance courseNegated [Course nested] (t : Token) : Course (negated nested t) :=
  inferInstanceAs (Course (if t.kind = .number then numeral t
    else if t.isPunctuation "(" then nested >>= closeGroup
    else pushBack t >>= fun _ => nested))

/-- A negation, once its operand is there. -/
def opposite (odd : Bool) (operand : Value) : Except Diagnostic Value → Evaluating Value
  | .error d => recover d
  | .ok opposite => pure (if odd then opposite else operand)

/-- A negation, once its signs are counted. -/
def negationFrom (nested : Evaluating Value) (minus : Token) (chain : Bool × Token) :
    Evaluating Value :=
  negated nested chain.2 >>= fun operand => opposite chain.1 operand (negate operand minus)

theorem negation_eq (fuel : Nat) (nested : Evaluating Value) (minus : Token) :
    negation fuel nested minus = minusChain fuel false minus >>= negationFrom nested minus := rfl

instance courseOpposite (odd : Bool) (operand : Value) :
    (result : Except Diagnostic Value) → Course (opposite odd operand result)
  | .error d => courseRecover d
  | .ok opposite => coursePure (if odd then opposite else operand)

instance courseNegationFrom [Course nested] (minus : Token) (chain : Bool × Token) :
    Course (negationFrom nested minus chain) :=
  inferInstanceAs (Course (negated nested chain.2 >>= fun operand =>
    opposite chain.1 operand (negate operand minus)))

instance courseNegation [Course nested] (fuel : Nat) (minus : Token) :
    Course (negation fuel nested minus) :=
  inferInstanceAs (Course (minusChain fuel false minus >>= negationFrom nested minus))

instance courseLeaveOutside (t : Token) : Course (leaveOutside t) :=
  inferInstanceAs (Course (if belongsOutside t then pushBack t else pure ()))

instance courseNoExpression (t : Token) : Course (noExpression t) :=
  inferInstanceAs (Course (leaveOutside t >>= fun _ =>
    recover ⟨.missingExpression t.kind t.text, t.location⟩))

instance coursePrimaryFrom [Course nested] (fuel : Nat) (t : Token) :
    Course (primaryFrom fuel nested t) :=
  inferInstanceAs (Course (if t.kind = .number then numeral t
    else if t.kind = .string then pure (.text t.text)
    else if t.kind = .identifier then valueOf t
    else if t.isPunctuation "(" then group nested
    else if t.isOperator ["-"] then negation fuel nested t
    else noExpression t))

instance coursePrimary [Course nested] (fuel : Nat) : Course (primary fuel nested) :=
  inferInstanceAs (Course (next >>= primaryFrom fuel nested))

instance courseChain [Course operand] (level : Level) :
    (fuel : Nat) → (left : Value) → Course (chain level operand fuel left)
  | 0, _ => courseThrow _
  | fuel + 1, left =>
    have := courseChain level fuel
    inferInstanceAs (Course (next >>= fun t =>
      if t.isOperator level.symbols then
        operand >>= fun right => settle (apply left t right) >>= chain level operand fuel
      else pushBack t >>= fun _ => pure left))

instance courseJoined [Course operand] (level : Level) (fuel : Nat) :
    Course (joined level fuel operand) :=
  inferInstanceAs (Course (operand >>= chain level operand fuel))

instance courseRule [Course nested] (fuel : Nat) :
    (level : Option Level) → Course (rule fuel nested level)
  | none => coursePrimary fuel
  | some .power => inferInstanceAs (Course (joined .power fuel (primary fuel nested)))
  | some .product =>
    inferInstanceAs (Course (joined .product fuel (joined .power fuel (primary fuel nested))))
  | some .sum =>
    inferInstanceAs (Course (joined .sum fuel
      (joined .product fuel (joined .power fuel (primary fuel nested)))))

instance courseExpression : (fuel : Nat) → Course (expression fuel)
  | 0 => courseThrow _
  | fuel + 1 =>
    have := courseExpression fuel
    inferInstanceAs (Course (rule (fuel + 1) (expression fuel) (some .sum)))

instance courseEvaluate : Course evaluate :=
  inferInstanceAs (Course (budget >>= expression))

end Rules

/-! ### Statements -/

instance courseSkipStatement : (fuel : Nat) → (t : Token) → Course (skipStatement fuel t)
  | 0, _ => courseThrow _
  | fuel + 1, t =>
    have := courseSkipStatement fuel
    inferInstanceAs (Course (if t.kind.endsStatement then pushBack t
      else next >>= skipStatement fuel))

instance courseSkipTrailing (t : Token) : Course (skipTrailing t) :=
  inferInstanceAs (Course (reading (Reading.report ⟨.trailing t.kind t.text, t.location⟩) >>=
    fun _ => budget >>= fun n => skipStatement (n + 1) t))

instance courseEndStatement : Course endStatement :=
  inferInstanceAs (Course (next >>= fun t =>
    if t.kind.endsStatement then pushBack t else skipTrailing t))

instance courseStatementsFrom (fuel : Nat) [Course (statements fuel)] (t : Token) :
    Course (statementsFrom fuel t) :=
  inferInstanceAs (Course (if t.kind = .endOfInput then pure []
    else if t.kind = .endOfLine then statements fuel
    else if t.kind = .functionDeclaration then
      reading Reading.functionLiteral >>= fun f => define f >>= fun _ => statements fuel
    else pushBack t >>= fun _ => evaluate >>= fun value => endStatement >>= fun _ =>
      statements fuel >>= fun values => pure (value :: values)))

instance courseStatements : (fuel : Nat) → Course (statements fuel)
  | 0 => courseThrow _
  | fuel + 1 =>
    have := courseStatements fuel
    inferInstanceAs (Course (next >>= statementsFrom fuel))

instance courseEvaluateAll : Course evaluateAll :=
  inferInstanceAs (Course (budget >>= statements))

instance courseTurn (t : Token) : Course (turn t) :=
  inferInstanceAs (Course (if t.kind = .endOfLine then pure []
    else if t.kind = .functionDeclaration then
      reading Reading.functionLiteral >>= fun f => define f >>= fun _ => pure []
    else pushBack t >>= fun _ => evaluate >>= fun value => endStatement >>= fun _ =>
      pure [value]))

/-! ### One part after the other -/

section Sequencing

variable {α β : Type} {a b : Evaluating α} {f : α → Evaluating β} {s t : Session}

theorem entries_bind_of_ok [Course a] [∀ x, Course (f x)] {x : α} (h : a s = .ok x t) :
    entries (a >>= f) s = entries a s ++ entries (f x) t := by
  show entries a s ++ (match a s with
    | .ok x t => entries (f x) t
    | .error _ _ => []) = _
  rw [h]

/-- Behind a part that fails nothing more is got. -/
theorem entries_bind_of_error [Course a] [∀ x, Course (f x)] {fault : Fault}
    (h : a s = .error fault t) : entries (a >>= f) s = entries a s := by
  show entries a s ++ (match a s with
    | .ok x t => entries (f x) t
    | .error _ _ => []) = _
  rw [h]
  exact List.append_nil _

/-- A pending token has been scanned before. -/
theorem entries_next_of_pending {t : Token} {ts : List Token} (waiting : s.reader.pending = t :: ts) :
    entries next s = [] := by
  show (match s.reader.pending, next s with
    | [], .ok t _ => [Reader.Entry.token t]
    | _, _ => []) = _
  rw [waiting]

theorem entries_next_of_scan {u : Token} (none : s.reader.pending = []) (taken : next s = .ok u t) :
    entries next s = [.token u] := by
  show (match s.reader.pending, next s with
    | [], .ok t _ => [Reader.Entry.token t]
    | _, _ => []) = _
  rw [none, taken]

/-- What is made of a result in the end gets nothing. -/
theorem entries_bind_pure [Course a] (g : α → β) :
    entries (a >>= fun x => pure (g x)) s = entries a s := by
  show entries a s ++ (match a s with
    | .ok _ _ => []
    | .error _ _ => []) = _
  cases a s <;> exact List.append_nil _

theorem entries_ite_of_true {c : Prop} [Decidable c] [Course a] [Course b] (h : c) :
    entries (if c then a else b) s = entries a s := if_pos h

theorem entries_ite_of_false {c : Prop} [Decidable c] [Course a] [Course b] (h : ¬ c) :
    entries (if c then a else b) s = entries b s := if_neg h

end Sequencing

/-! ### Turn by turn -/

/-- What a turn does behind its first token, the values it adds and what it gets. -/
inductive Turned (t : Token) (v : Session) : List Value → List Reader.Entry → Session → Prop
  | line : t.kind = .endOfLine → Turned t v [] [] v
  | literal {f : FunctionLiteral} {u : Session} : t.kind = .functionDeclaration →
      reading Reading.functionLiteral v = .ok f u →
      Turned t v [] [.literal f] { u with functions := u.functions.bind f.name f }
  | value {x : Value} {w u : Session} : t.kind ≠ .endOfLine → t.kind ≠ .functionDeclaration →
      evaluate (v.push t) = .ok x w → endStatement w = .ok () u →
      Turned t v [x] (entries evaluate (v.push t) ++ entries endStatement w) u

variable {s u v : Session} {t : Token} {n : Nat} {front : List Value}

theorem entries_literal {f : FunctionLiteral} (read : reading Reading.functionLiteral v = .ok f u) :
    entries (reading Reading.functionLiteral) v = [.literal f] := by
  show (match reading Reading.functionLiteral v with
    | .ok f _ => [Reader.Entry.literal f]
    | .error _ _ => []) = _
  rw [read]

theorem turned_of_turn (ran : turn t v = .ok front u) :
    Turned t v front (entries (turn t) v) u := by
  unfold turn at ran
  by_cases line : t.kind = .endOfLine
  · have log : entries (turn t) v = [] := entries_ite_of_true line
    rw [if_pos line] at ran
    cases ran
    rw [log]
    exact .line line
  rw [if_neg line] at ran
  by_cases declares : t.kind = .functionDeclaration
  · have log : entries (turn t) v = entries (reading Reading.functionLiteral >>= fun f =>
        define f >>= fun _ => pure ([] : List Value)) v :=
      (entries_ite_of_false line).trans (entries_ite_of_true declares)
    rw [if_pos declares] at ran
    obtain ⟨f, w, read, defined⟩ := bind_eq_ok.1 ran
    rw [log, entries_bind_of_ok read, entries_literal read]
    cases defined
    exact .literal declares read
  · have log : entries (turn t) v = entries (pushBack t >>= fun _ => evaluate >>= fun value =>
        endStatement >>= fun _ => pure [value]) v :=
      (entries_ite_of_false line).trans (entries_ite_of_false declares)
    rw [if_neg declares] at ran
    obtain ⟨_, w, pushed, evaluated⟩ := bind_eq_ok.1 ran
    obtain ⟨value, w', found, later⟩ := bind_eq_ok.1 evaluated
    obtain ⟨_, w'', ended, returned⟩ := bind_eq_ok.1 later
    cases returned
    rw [log, entries_bind_of_ok pushed, entries_bind_of_ok found, entries_bind_pure]
    cases pushed
    exact .value line declares found ended

/-- Nothing is got behind the end of the input. -/
theorem entries_statementsFrom_of_last (last : t.kind = .endOfInput) :
    entries (statementsFrom n t) s = [] := entries_ite_of_true last

/-- The statements get what a turn gets and what the statements behind it get. -/
theorem Turned.entries_statementsFrom {log : List Reader.Entry} (turned : Turned t v front log u)
    (ongoing : t.kind ≠ .endOfInput) :
    entries (statementsFrom n t) v = log ++ entries (statements n) u := by
  refine (entries_ite_of_false ongoing).trans ?_
  cases turned with
  | line line => exact entries_ite_of_true line
  | @literal f w declares read =>
    have line : t.kind ≠ .endOfLine := by
      rw [declares]
      decide
    have kept : define f w = .ok () { w with functions := w.functions.bind f.name f } := rfl
    rw [entries_ite_of_false line, entries_ite_of_true declares, entries_bind_of_ok read,
      entries_literal read, entries_bind_of_ok kept]
    rfl
  | value line declares found ended =>
    have pushed : pushBack t v = .ok () (v.push t) := rfl
    rw [entries_ite_of_false line, entries_ite_of_false declares, entries_bind_of_ok pushed,
      entries_bind_of_ok found, entries_bind_of_ok ended, entries_bind_pure, List.append_assoc]
    rfl

end Evaluating

end Reckoner
