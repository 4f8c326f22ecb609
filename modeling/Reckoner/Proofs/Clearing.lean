import Reckoner.Proofs.Appended.Sequence
import Reckoner.Proofs.Fuel
import Reckoner.Proofs.Invocations
import Reckoner.Proofs.Lookahead

/-!
# When the variables are cleared

Evaluating changes no variable. It can only empty the table of them, and it does so where the
expression of a group returns whose parenthesis a primary has taken, if the session is told to
clear on groups: at once, before it is known whether the group is closed. A parenthesis behind a
minus chain is taken by the negation and clears nothing.

* `Leaves` — what a run leaves of the variables, by whether such a group has come to its end;
* `leaves_action`, `leaves_statements`
* `Evaluating.keepsOrClears_runs` — the statement for one expression and for all statements.
-/

namespace Reckoner

namespace Evaluating

/-! ### Actions that leave the variables alone -/

/-- The primitive steps other than the end of a group. -/
inductive Still : (α : Type) → Evaluating α → Prop
  | reading {α : Type} {action : Reading α} : Still α (reading action)
  | valueOf (t : Token) : Still Value (valueOf t)
  | define (f : FunctionLiteral) : Still Unit (define f)

theorem bindings_after_still {α : Type} {a : Evaluating α} (h : Composed Still a) (s : Session) :
    (after a s).bindings = s.bindings := by
  refine h.after_related (R := fun s t : Session => t.bindings = s.bindings) (fun _ => rfl)
    (fun first later => later.trans first) (fun s step => ?_) s
  cases step with
  | reading => rw [after_reading]
  | valueOf t => rw [after_valueOf]
  | define f => rfl

instance still_reading {α : Type} (action : Reading α) : Composed Still (reading action) :=
  .step .reading

instance still_valueOf (t : Token) : Composed Still (valueOf t) := .step (.valueOf t)

instance still_define (f : FunctionLiteral) : Composed Still (define f) := .step (.define f)

instance still_next : Composed Still next := still_reading _

instance still_pushBack (t : Token) : Composed Still (pushBack t) := still_reading _

instance still_budget : Composed Still budget := still_reading _

instance still_recover (d : Diagnostic) : Composed Still (recover d) := by
  unfold recover
  infer_instance

instance still_settle (result : Except Diagnostic Value) : Composed Still (settle result) := by
  unfold settle
  split <;> infer_instance

instance still_numeral (t : Token) : Composed Still (numeral t) := by
  unfold numeral
  split <;> infer_instance

instance still_closeGroup (value : Value) : Composed Still (closeGroup value) := by
  unfold closeGroup
  infer_instance

instance still_minusChain (fuel : Nat) (odd : Bool) (t : Token) :
    Composed Still (minusChain fuel odd t) := by
  induction fuel generalizing odd t with
  | zero => exact .throw _
  | succ fuel ih =>
    unfold minusChain
    infer_instance

instance still_noExpression (t : Token) : Composed Still (noExpression t) := by
  unfold noExpression leaveOutside
  infer_instance

instance still_skipStatement (fuel : Nat) (t : Token) : Composed Still (skipStatement fuel t) := by
  induction fuel generalizing t with
  | zero => exact .throw _
  | succ fuel ih =>
    unfold skipStatement
    infer_instance

instance still_endStatement : Composed Still endStatement := by
  unfold endStatement
  infer_instance

/-! ### What is left of the variables -/

/-- If groups clear and one has ended, the run leaves no variables, and otherwise all of them. -/
structure Leaves {α : Type} (a : Evaluating α) (s : Session) (ended : Prop) : Prop where
  emptied : s.clearOnGroup = true → ended → (after a s).bindings = []
  kept : ¬ (s.clearOnGroup = true ∧ ended) → (after a s).bindings = s.bindings

section Leaves

variable {α β : Type} {a : Evaluating α} {f : α → Evaluating β} {s : Session} {p q : Prop}

theorem Leaves.congr (h : Leaves a s p) (same : p ↔ q) : Leaves a s q :=
  ⟨fun clears ended => h.emptied clears (same.2 ended),
    fun quiet => h.kept fun both => quiet ⟨both.1, same.1 both.2⟩⟩

theorem Leaves.of_eq {b : Evaluating α} (h : Leaves b s p) (same : a s = b s) : Leaves a s p := by
  have ends : after a s = after b s := by
    unfold after
    rw [same]
  refine ⟨?_, ?_⟩
  · rw [ends]
    exact h.emptied
  · rw [ends]
    exact h.kept

theorem leaves_still (composed : Composed Still a) (s : Session) : Leaves a s False :=
  ⟨fun _ ended => ended.elim, fun _ => bindings_after_still composed s⟩

theorem clearOnGroup_of_ok [composed : Composed Step a] {x : α} {t : Session}
    (ran : a s = .ok x t) : t.clearOnGroup = s.clearOnGroup := by
  have kept := clearOnGroup_after composed s
  rw [after_of_ok ran] at kept
  exact kept

/-- In a sequence, a group has ended in the first part or in the second. -/
theorem Leaves.bind {q : α → Session → Prop} [composed : Composed Step a] (first : Leaves a s p)
    (later : ∀ x t, a s = .ok x t → Leaves (f x) t (q x t)) :
    Leaves (a >>= f) s (p ∨ ∃ x t, a s = .ok x t ∧ q x t) := by
  cases ran : a s with
  | error fault t =>
    have same : after (a >>= f) s = after a s := by
      rw [after_bind_of_error ran, after_of_error ran]
    have none : ¬ ∃ x u, EStateM.Result.error fault t = (.ok x u : Outcome Session α) ∧ q x u :=
      fun ⟨_, _, returned, _⟩ => nomatch returned
    refine ⟨fun clears ended => ?_, fun quiet => ?_⟩
    · rw [same]
      exact first.emptied clears (ended.resolve_right none)
    · rw [same]
      exact first.kept fun both => quiet ⟨both.1, Or.inl both.2⟩
  | ok x t =>
    have second := later x t ran
    have clears : t.clearOnGroup = s.clearOnGroup := clearOnGroup_of_ok ran
    have between : after a s = t := after_of_ok ran
    refine ⟨fun clear ended => ?_, fun quiet => ?_⟩
    · rw [after_bind_of_ok ran]
      by_cases again : q x t
      · exact second.emptied (clears.trans clear) again
      · -- the variables are gone already, and the second part adds none
        have before : p := by
          refine ended.resolve_right fun ⟨y, u, returned, again'⟩ => again ?_
          cases returned
          exact again'
        rw [second.kept fun both => again both.2, ← between]
        exact first.emptied clear before
    · rw [after_bind_of_ok ran, second.kept fun both => quiet ⟨clears.symm.trans both.1,
        Or.inr ⟨x, t, rfl, both.2⟩⟩, ← between]
      exact first.kept fun both => quiet ⟨both.1, Or.inl both.2⟩

/-- What comes first leaves the variables alone. -/
theorem Leaves.behind {q : α → Session → Prop} [composed : Composed Step a]
    [still : Composed Still a] (later : ∀ x t, a s = .ok x t → Leaves (f x) t (q x t)) :
    Leaves (a >>= f) s (∃ x t, a s = .ok x t ∧ q x t) :=
  ((leaves_still still s).bind later).congr (by simp)

/-- What comes last leaves the variables alone. -/
theorem Leaves.before [composed : Composed Step a] [c : ∀ x, Composed Still (f x)]
    (first : Leaves a s p) : Leaves (a >>= f) s p := by
  refine (first.bind (q := fun _ _ => False) fun x t _ => leaves_still (c x) t).congr ?_
  simp

/-- A choice, where the group may end in either branch. -/
theorem Leaves.ite {c : Prop} [Decidable c] {b : Evaluating α} (pos : c → Leaves a s p)
    (neg : ¬ c → Leaves b s q) : Leaves (if c then a else b) s (c ∧ p ∨ ¬ c ∧ q) := by
  by_cases h : c
  · rw [if_pos h]
    exact (pos h).congr (by simp [h])
  · rw [if_neg h]
    exact (neg h).congr (by simp [h])

end Leaves

/-! ### The rules -/

open Invocation

section Rules

variable {n : Nat} {t : Token} {s : Session} {nested : Evaluating Value}
  {inner : Session → Prop}

theorem leaves_endGroup (s : Session) : Leaves endGroup s True := by
  unfold endGroup
  refine ⟨fun clears _ => ?_, fun quiet => ?_⟩
  · unfold after
    simp only [clears, if_true]
  · have keeps : s.clearOnGroup = false := Bool.eq_false_iff.2 fun clears => quiet ⟨clears, trivial⟩
    unfold after
    simp only [keeps, Bool.false_eq_true, if_false]

/-- The end of a group comes before it is known whether the group is closed. -/
theorem leaves_group [Composed Step nested] (hn : Leaves nested s (inner s)) :
    Leaves (group nested) s ((∃ v w, nested s = .ok v w) ∨ inner s) := by
  refine (hn.bind (f := fun v => endGroup >>= fun _ => closeGroup v) (q := fun _ _ => True)
    fun v w _ => (leaves_endGroup w).before).congr ?_
  simp only [and_true]
  exact or_comm

/-- A token is put back first. -/
theorem Leaves.push {α : Type} {a : Evaluating α} {p : Prop} (h : Leaves a (s.push t) p) :
    Leaves (do pushBack t; a) s p :=
  ⟨h.emptied, h.kept⟩

theorem leaves_negated [Composed Step nested] (hn : ∀ u, Leaves nested u (inner u)) :
    Leaves (negated nested t) s (t.kind ≠ .number ∧
      inner (if t.isPunctuation "(" = true then s else s.push t)) := by
  unfold negated
  by_cases number : t.kind = .number
  · rw [if_pos number]
    exact (leaves_still inferInstance s).congr (by simp [number])
  rw [if_neg number]
  by_cases opening : t.isPunctuation "(" = true
  · rw [if_pos opening, if_pos opening]
    exact ((hn s).before).congr (by simp [number])
  · rw [if_neg opening, if_neg opening]
    exact ((hn (s.push t)).push).congr (by simp [number])

theorem leaves_negation [Composed Step nested] (hn : ∀ u, Leaves nested u (inner u)) (fuel : Nat) :
    Leaves (negation fuel nested t) s (∃ chain v, minusChain fuel false t s = .ok chain v ∧
      chain.2.kind ≠ .number ∧
        inner (if chain.2.isPunctuation "(" = true then v else v.push chain.2)) := by
  unfold negation
  refine Leaves.behind fun chain v _ => ?_
  exact (leaves_negated hn).before (c := fun operand => by split <;> infer_instance)

theorem leaves_primaryFrom (hn : ∀ u, Leaves (expression n) u (NestedEndsGroup n u)) :
    Leaves (primaryFrom (n + 1) (expression n) t) s (EndsGroupFrom n t s) := by
  have kinds : EndsGroupFrom n t s → t.kind = .punctuation ∨ t.kind = .operator := by
    rintro (⟨opening, -⟩ | ⟨sign, -⟩)
    · exact Or.inl (kind_of_isPunctuation opening)
    · exact Or.inr (kind_of_isOperator sign)
  unfold primaryFrom
  by_cases number : t.kind = .number
  · rw [if_pos number]
    exact (leaves_still inferInstance s).congr (by grind)
  rw [if_neg number]
  by_cases string : t.kind = .string
  · rw [if_pos string]
    exact (leaves_still inferInstance s).congr (by grind)
  rw [if_neg string]
  by_cases name : t.kind = .identifier
  · rw [if_pos name]
    exact (leaves_still inferInstance s).congr (by grind)
  rw [if_neg name]
  by_cases opening : t.isPunctuation "(" = true
  · have unsigned : ¬ t.isOperator ["-"] = true := fun sign => by
      have kind := kind_of_isPunctuation opening
      rw [kind_of_isOperator sign] at kind
      cases kind
    rw [if_pos opening]
    exact (leaves_group (hn s)).congr (by simp [EndsGroupFrom, opening, unsigned])
  rw [if_neg opening]
  by_cases sign : t.isOperator ["-"] = true
  · rw [if_pos sign]
    exact (leaves_negation hn (n + 1)).congr (by simp [EndsGroupFrom, opening, sign])
  · rw [if_neg sign]
    exact (leaves_still inferInstance s).congr (by simp [EndsGroupFrom, opening, sign])

theorem leaves_primary (hn : ∀ u, Leaves (expression n) u (NestedEndsGroup n u)) (s : Session) :
    Leaves (primary (n + 1) (expression n)) s (EndsGroup ⟨n, none, s⟩) := by
  rw [primary_eq]
  exact (Leaves.behind fun t u _ => leaves_primaryFrom hn).congr endsGroup_primary.symm

/-- A group ends in the loop of a level just if it ends in one of the operands. -/
theorem leaves_chain {level : Level} {operand : Evaluating Value} [Composed Step operand]
    (ho : ∀ u, Leaves operand u (inner u)) (fuel : Nat) (left : Value) (s : Session) :
    Leaves (chain level operand fuel left) s
      (∃ u, Operands level operand fuel left s u ∧ inner u) := by
  induction fuel generalizing left s with
  | zero =>
    have idle : ¬ ∃ u, Operands level operand 0 left s u ∧ inner u := fun ⟨_, ran, _⟩ => nomatch ran
    exact (leaves_still (.throw _) s).congr (iff_of_false id idle)
  | succ fuel ih =>
    rw [chain_succ]
    refine (Leaves.behind fun op u _ => Leaves.ite
      (fun _ => (ho u).bind fun right v _ => Leaves.behind fun value w _ => ih value w)
      fun _ => leaves_still inferInstance u).congr ?_
    rw [exists_operands_iff]
    simp only [and_false, or_false]

theorem leaves_joined {level : Level} {operand : Evaluating Value} [Composed Step operand]
    (ho : ∀ u, Leaves operand u (inner u)) (fuel : Nat) (s : Session) :
    Leaves (joined level fuel operand) s (inner s ∨ ∃ left u, operand s = .ok left u ∧
      ∃ v, Operands level operand fuel left u v ∧ inner v) := by
  unfold joined
  exact (ho s).bind fun left u _ => leaves_chain ho fuel left u

theorem leaves_level {level : Level}
    (ho : ∀ u, Leaves (rule (n + 1) (expression n) level.tighter) u
      (EndsGroup ⟨n, level.tighter, u⟩)) (s : Session) :
    Leaves (rule (n + 1) (expression n) (some level)) s (EndsGroup ⟨n, some level, s⟩) := by
  rw [rule_some]
  exact (leaves_joined ho (n + 1) s).congr endsGroup_level.symm

theorem leaves_rule (hn : ∀ u, Leaves (expression n) u (NestedEndsGroup n u)) :
    ∀ (level : Option Level) (s : Session),
      Leaves (rule (n + 1) (expression n) level) s (EndsGroup ⟨n, level, s⟩)
  | none => leaves_primary hn
  | some .power => leaves_level (leaves_primary hn)
  | some .product => leaves_level (leaves_level (leaves_primary hn))
  | some .sum => leaves_level (leaves_level (leaves_level (leaves_primary hn)))

theorem leaves_expression (n : Nat) (s : Session) :
    Leaves (expression n) s (NestedEndsGroup n s) := by
  induction n generalizing s with
  | zero => exact leaves_still (.throw _) s
  | succ n ih => exact leaves_rule ih (some .sum) s

/-- **Rules.** Whichever is run, from whatever session. -/
theorem leaves_action (i : Invocation) : Leaves i.action i.session i.EndsGroup :=
  leaves_rule (leaves_expression i.nesting) i.level i.session

theorem leaves_evaluate (s : Session) : Leaves evaluate s s.invocation.EndsGroup :=
  (leaves_action s.invocation).of_eq (evaluate_eq_action s)

end Rules

end Evaluating

/-! ### All statements -/

open Evaluating in
/-- In the course of a run over the statements of a session, an expression is evaluated from
another one, which still has the first token of that expression before it. -/
inductive Session.Evaluates (s : Session) : Session → Prop
  | turn {u v : Session} {t : Token} : s.Heads u → next u = .ok t v → t.kind ≠ .endOfInput →
      t.kind ≠ .endOfLine → t.kind ≠ .functionDeclaration → Evaluates s (v.push t)

namespace Evaluating

open Invocation

section Statements

variable {s : Session}

theorem heads_iff {x : Session} : s.Heads x ↔ x = s ∨ ∃ t v front w, next s = .ok t v ∧
    t.kind ≠ .endOfInput ∧ turn t v = .ok front w ∧ w.Heads x := by
  constructor
  · intro h
    induction h with
    | start => exact Or.inl rfl
    | turn _ taken last ran ih =>
      rcases ih with rfl | ⟨t, v, front, w, first, begun, turned, later⟩
      · exact Or.inr ⟨_, _, _, _, taken, last, ran, .start⟩
      · exact Or.inr ⟨t, v, front, w, first, begun, turned, .turn later taken last ran⟩
  · rintro (rfl | ⟨t, v, front, w, taken, last, ran, later⟩)
    · exact .start
    · induction later with
      | start => exact .turn .start taken last ran
      | turn _ taken' last' ran' ih => exact .turn ih taken' last' ran'

/-- An expression is evaluated in the first turn, or in one that follows. -/
theorem exists_evaluates_iff {p : Session → Prop} : (∃ x, s.Evaluates x ∧ p x) ↔
    ∃ t v, next s = .ok t v ∧ t.kind ≠ .endOfInput ∧
      ((t.kind ≠ .endOfLine ∧ t.kind ≠ .functionDeclaration ∧ p (v.push t)) ∨
        ∃ front w, turn t v = .ok front w ∧ ∃ x, w.Evaluates x ∧ p x) := by
  constructor
  · rintro ⟨x, ⟨head, taken, last, line, declaration⟩, hx⟩
    rcases heads_iff.1 head with rfl | ⟨t, v, front, w, first, begun, turned, later⟩
    · exact ⟨_, _, taken, last, Or.inl ⟨line, declaration, hx⟩⟩
    · exact ⟨t, v, first, begun,
        Or.inr ⟨front, w, turned, _, .turn later taken last line declaration, hx⟩⟩
  · rintro ⟨t, v, taken, last, ⟨line, declaration, hx⟩ | ⟨front, w, turned, x, later, hx⟩⟩
    · exact ⟨_, .turn .start taken last line declaration, hx⟩
    · obtain ⟨head, taken', last', line, declaration⟩ := later
      exact ⟨_, .turn (heads_iff.2 (Or.inr ⟨t, v, front, w, taken, last, turned, head⟩)) taken'
        last' line declaration, hx⟩

theorem leaves_turn (t : Token) (s : Session) :
    Leaves (turn t) s (t.kind ≠ .endOfLine ∧ t.kind ≠ .functionDeclaration ∧
      (s.push t).invocation.EndsGroup) := by
  unfold turn
  by_cases line : t.kind = .endOfLine
  · rw [if_pos line]
    exact (leaves_still inferInstance s).congr (by simp [line])
  rw [if_neg line]
  by_cases declaration : t.kind = .functionDeclaration
  · rw [if_pos declaration]
    exact (leaves_still inferInstance s).congr (by simp [declaration])
  rw [if_neg declaration]
  have expression := ((leaves_evaluate (s.push t)).before
    (f := fun v => endStatement >>= fun _ => pure [v])).push
  exact expression.congr (by simp [line, declaration])

/-- **All statements.** A group ends in one of the expressions that they evaluate. With enough fuel
each of them is reached. -/
theorem leaves_statements {n : Nat} (s : Session) (enough : s.reader.weight < n) :
    Leaves (statements n) s (∃ u, s.Evaluates u ∧ u.invocation.EndsGroup) := by
  induction n generalizing s with
  | zero => exact absurd enough (Nat.not_lt_zero _)
  | succ n ih =>
    rw [statements_of_turn]
    refine (Leaves.behind fun t v taken => Leaves.ite
      (fun _ => leaves_still inferInstance v)
      fun last => (leaves_turn t v).bind fun front w turned => Leaves.before (ih w ?_)).congr ?_
    · have less := weight_lt_of_turn taken last turned
      omega
    · rw [exists_evaluates_iff]
      simp only [and_false, false_or, ne_eq]

theorem leaves_evaluateAll (s : Session) :
    Leaves evaluateAll s (∃ u, s.Evaluates u ∧ u.invocation.EndsGroup) :=
  (leaves_statements s s.reader.weight_lt_budget).of_eq (evaluateAll_eq s)

end Statements

/-- The run keeps the variables or clears all of them. It keeps them if groups do not clear. If they
do, and there are variables, these are cleared just if a group has come to its end. -/
structure KeepsOrClears {α : Type} (a : Evaluating α) (s : Session) (ended : Prop) : Prop where
  kept_or_cleared : (after a s).bindings = s.bindings ∨ (after a s).bindings = []
  kept : s.clearOnGroup = false → (after a s).bindings = s.bindings
  cleared_iff : s.clearOnGroup = true → s.bindings ≠ [] → ((after a s).bindings = [] ↔ ended)

theorem Leaves.keepsOrClears {α : Type} {a : Evaluating α} {s : Session} {ended : Prop}
    (h : Leaves a s ended) : KeepsOrClears a s ended where
  kept_or_cleared := by
    by_cases both : s.clearOnGroup = true ∧ ended
    · exact Or.inr (h.emptied both.1 both.2)
    · exact Or.inl (h.kept both)
  kept keeps := h.kept fun both => by
    rw [keeps] at both
    cases both.1
  cleared_iff clears some := by
    refine ⟨fun cleared => ?_, h.emptied clears⟩
    by_contra never
    exact some ((h.kept fun both => never both.2).symm.trans cleared)

/-- **Variables are kept or cleared, never changed.** This holds of every run, whether it returns
or not. What clears them is that somewhere in its course a primary takes an opening parenthesis and
the expression behind that returns. -/
theorem keepsOrClears_runs (s : Session) :
    KeepsOrClears evaluate s s.invocation.EndsGroup ∧
      KeepsOrClears evaluateAll s (∃ u, s.Evaluates u ∧ u.invocation.EndsGroup) :=
  ⟨(leaves_evaluate s).keepsOrClears, (leaves_evaluateAll s).keepsOrClears⟩

/-- The theorem where a minus chain takes a parenthesis: the group inside clears, that one does
not, and a group that is not closed clears as well. -/
theorem keepsOrClears_runs_negated_group :
    let s (source : String) := Session.ofSource source "in" .raise true [("x", .number 2)]
    (s "-((x))").invocation.EndsGroup ∧ ¬ (s "-(x)").invocation.EndsGroup ∧
      ∃ u, (s "1; (x 2").Evaluates u ∧ u.invocation.EndsGroup := by
  intro s
  have clears (source : String) : (s source).clearOnGroup = true ∧ (s source).bindings ≠ [] :=
    ⟨rfl, by simp [s, Session.ofSource]⟩
  have nested : (after evaluate (s "-((x))")).bindings = [] := by decide +kernel
  have negated : (after evaluate (s "-(x)")).bindings ≠ [] := by decide +kernel
  have unclosed : (after evaluateAll (s "1; (x 2")).bindings = [] := by decide +kernel
  refine ⟨?_, ?_, ?_⟩
  · exact ((keepsOrClears_runs _).1.cleared_iff (clears _).1 (clears _).2).1 nested
  · exact fun ended =>
      negated (((keepsOrClears_runs _).1.cleared_iff (clears _).1 (clears _).2).2 ended)
  · exact ((keepsOrClears_runs _).2.cleared_iff (clears _).1 (clears _).2).1 unclosed

end Evaluating

end Reckoner
