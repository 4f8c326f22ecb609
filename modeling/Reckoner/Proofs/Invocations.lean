import Reckoner.Proofs.Pairing
import Mathlib.Logic.Relation

/-!
# Which rule runs which

A rule for expressions runs others from the sessions that it comes to: a level runs its operands,
and a primary runs the expression in a group or behind a minus chain. So the run of a rule has a
tree of invocations, which tells what happens in its course, however it ends.

* `Invocation.Runs` — the invocations right below one;
* `Invocation.EndsGroup` — in the course of a run, the expression of a group returns.
-/

namespace Reckoner

open Evaluating

namespace Evaluating

instance composed_rule {nested : Evaluating Value} [Composed Step nested] (fuel : Nat)
    (level : Option Level) : Composed Step (rule fuel nested level) := by
  unfold rule
  split <;> infer_instance

/-- The sessions from which the loop of a level runs its operand. -/
inductive Operands (level : Level) (operand : Evaluating Value) :
    Nat → Value → Session → Session → Prop
  | next {n : Nat} {left : Value} {s u : Session} {op : Token} : next s = .ok op u →
      op.isOperator level.symbols = true → Operands level operand (n + 1) left s u
  | later {n : Nat} {left right value : Value} {s u v w x : Session} {op : Token} :
      next s = .ok op u → op.isOperator level.symbols = true → operand u = .ok right v →
      settle (apply left op right) v = .ok value w → Operands level operand n value w x →
      Operands level operand (n + 1) left s x

/-- A turn of the loop runs its operand behind the operator, and the turns that follow run theirs. -/
theorem exists_operands_iff {level : Level} {operand : Evaluating Value} {n : Nat} {left : Value}
    {s : Session} {p : Session → Prop} :
    (∃ x, Operands level operand (n + 1) left s x ∧ p x) ↔
      ∃ op u, next s = .ok op u ∧ op.isOperator level.symbols = true ∧ (p u ∨
        ∃ right v, operand u = .ok right v ∧
          ∃ value w, settle (apply left op right) v = .ok value w ∧
            ∃ x, Operands level operand n value w x ∧ p x) := by
  constructor
  · rintro ⟨x, operands, hx⟩
    cases operands with
    | next taken operator => exact ⟨_, _, taken, operator, Or.inl hx⟩
    | later taken operator ran settled later =>
      exact ⟨_, _, taken, operator, Or.inr ⟨_, _, ran, _, _, settled, x, later, hx⟩⟩
  · rintro ⟨op, u, taken, operator, hu | ⟨right, v, ran, value, w, settled, x, later, hx⟩⟩
    · exact ⟨u, .next taken operator, hu⟩
    · exact ⟨x, .later taken operator ran settled later, hx⟩

end Evaluating

/-- A rule run from a session: that of a level, or that of primaries. There are levels of nesting
that may still be opened. -/
structure Invocation where
  nesting : Nat
  level : Option Level
  session : Session

/-- The evaluation of an expression begins with the loosest level. -/
def Session.invocation (s : Session) : Invocation := ⟨s.reader.budget - 1, some .sum, s⟩

namespace Invocation

/-- The action that the rule is. -/
def action (i : Invocation) : Evaluating Value := rule (i.nesting + 1) (expression i.nesting) i.level

theorem evaluate_eq_action (s : Session) : evaluate s = s.invocation.action s := rfl

/-- The one invocation runs the other. -/
inductive Runs : Invocation → Invocation → Prop
  /-- The first operand of a level. -/
  | first {n : Nat} {level : Level} {s : Session} :
      Runs ⟨n, some level, s⟩ ⟨n, level.tighter, s⟩
  /-- An operand behind an operator. -/
  | operand {n : Nat} {level : Level} {s u v : Session} {left : Value} :
      rule (n + 1) (expression n) level.tighter s = .ok left u →
      Operands level (rule (n + 1) (expression n) level.tighter) (n + 1) left u v →
      Runs ⟨n, some level, s⟩ ⟨n, level.tighter, v⟩
  /-- The expression behind a parenthesis that a primary has taken. -/
  | group {n : Nat} {s u : Session} {t : Token} : next s = .ok t u →
      t.isPunctuation "(" = true → Runs ⟨n + 1, none, s⟩ ⟨n, some .sum, u⟩
  /-- The expression behind a parenthesis that a minus chain has taken. -/
  | negatedGroup {n : Nat} {s u v : Session} {minus t : Token} {odd : Bool} :
      next s = .ok minus u → minus.isOperator ["-"] = true →
      minusChain (n + 2) false minus u = .ok (odd, t) v → t.isPunctuation "(" = true →
      Runs ⟨n + 1, none, s⟩ ⟨n, some .sum, v⟩
  /-- Any other expression behind a minus chain, from its first token on. -/
  | negated {n : Nat} {s u v : Session} {minus t : Token} {odd : Bool} :
      next s = .ok minus u → minus.isOperator ["-"] = true →
      minusChain (n + 2) false minus u = .ok (odd, t) v → t.kind ≠ .number →
      t.isPunctuation "(" = false → Runs ⟨n + 1, none, s⟩ ⟨n, some .sum, v.push t⟩

/-- The rule of primaries takes an opening parenthesis, and the expression behind it returns. What
comes behind that expression does not matter. -/
def EndsOwnGroup (i : Invocation) : Prop :=
  i.level = none ∧ ∃ t u v w, next i.session = .ok t u ∧ t.isPunctuation "(" = true ∧
    expression i.nesting u = .ok v w

/-- This happens somewhere in the course of the run. -/
def EndsGroup (i : Invocation) : Prop :=
  ∃ j, Relation.ReflTransGen Runs i j ∧ j.EndsOwnGroup

theorem endsGroup_iff (i : Invocation) :
    i.EndsGroup ↔ i.EndsOwnGroup ∨ ∃ j, i.Runs j ∧ j.EndsGroup := by
  constructor
  · rintro ⟨k, path, own⟩
    rcases path.cases_head with rfl | ⟨j, runs, later⟩
    · exact Or.inl own
    · exact Or.inr ⟨j, runs, k, later, own⟩
  · rintro (own | ⟨j, runs, k, later, own⟩)
    · exact ⟨i, .refl, own⟩
    · exact ⟨k, .head runs later, own⟩

/-! ### Level by level -/

variable {n : Nat} {s : Session}

/-- Some operand of the level does it. -/
theorem endsGroup_level {level : Level} :
    EndsGroup ⟨n, some level, s⟩ ↔ EndsGroup ⟨n, level.tighter, s⟩ ∨
      ∃ left u, rule (n + 1) (expression n) level.tighter s = .ok left u ∧
        ∃ v, Operands level (rule (n + 1) (expression n) level.tighter) (n + 1) left u v ∧
          EndsGroup ⟨n, level.tighter, v⟩ := by
  rw [endsGroup_iff]
  constructor
  · rintro (⟨none, -⟩ | ⟨j, runs, later⟩)
    · cases none
    · cases runs with
      | first => exact Or.inl later
      | operand ran operands => exact Or.inr ⟨_, _, ran, _, operands, later⟩
  · rintro (later | ⟨left, u, ran, v, operands, later⟩)
    · exact Or.inr ⟨_, .first, later⟩
    · exact Or.inr ⟨_, .operand ran operands, later⟩

/-- An expression with so much fuel does it. Without any fuel there is no run. -/
def NestedEndsGroup : Nat → Session → Prop
  | 0, _ => False
  | n + 1, s => EndsGroup ⟨n, some .sum, s⟩

/-- Behind its first token the primary does it: in its own group, or in what that or a minus chain
runs. -/
def EndsGroupFrom (n : Nat) (t : Token) (u : Session) : Prop :=
  t.isPunctuation "(" = true ∧ ((∃ v w, expression n u = .ok v w) ∨ NestedEndsGroup n u) ∨
    t.isOperator ["-"] = true ∧ ∃ chain v, minusChain (n + 1) false t u = .ok chain v ∧
      chain.2.kind ≠ .number ∧
      NestedEndsGroup n (if chain.2.isPunctuation "(" = true then v else v.push chain.2)

theorem endsGroup_primary :
    EndsGroup ⟨n, none, s⟩ ↔ ∃ t u, next s = .ok t u ∧ EndsGroupFrom n t u := by
  rw [endsGroup_iff]
  constructor
  · rintro (⟨-, t, u, v, w, taken, opening, returned⟩ | ⟨j, runs, later⟩)
    · exact ⟨t, u, taken, Or.inl ⟨opening, Or.inl ⟨v, w, returned⟩⟩⟩
    · cases runs with
      | group taken opening => exact ⟨_, _, taken, Or.inl ⟨opening, Or.inr later⟩⟩
      | negatedGroup taken sign ran opening =>
        refine ⟨_, _, taken, Or.inr ⟨sign, _, _, ran, ?_, ?_⟩⟩
        · rw [kind_of_isPunctuation opening]
          simp
        · rw [if_pos opening]
          exact later
      | negated taken sign ran number other =>
        refine ⟨_, _, taken, Or.inr ⟨sign, _, _, ran, number, ?_⟩⟩
        rw [if_neg (Bool.eq_false_iff.1 other)]
        exact later
  · rintro ⟨t, u, taken, ⟨opening, ⟨v, w, returned⟩ | later⟩ | ⟨sign, ⟨odd, t'⟩, v, ran, number, later⟩⟩
    · exact Or.inl ⟨rfl, t, u, v, w, taken, opening, returned⟩
    · cases n with
      | zero => exact later.elim
      | succ n => exact Or.inr ⟨_, .group taken opening, later⟩
    · cases n with
      | zero => exact later.elim
      | succ n =>
        by_cases opening : t'.isPunctuation "(" = true
        · rw [if_pos opening] at later
          exact Or.inr ⟨_, .negatedGroup taken sign ran opening, later⟩
        · rw [if_neg opening] at later
          exact Or.inr ⟨_, .negated taken sign ran number (Bool.eq_false_iff.2 opening), later⟩

end Invocation

end Reckoner
