import Reckoner.Evaluation

/-!
# What may go wrong in an operation

The operators have types: plus takes two numbers or two texts, the others take numbers. With
operands that fit, only arithmetic goes wrong; with others, always the types are at fault. An
operator that is read in an expression is a known one.

* `Operator.combine_of_type?`, `Operator.combine_of_mismatch`
* `Operator.known_of_combine`, `Operator.ofRules_of_combine`
-/

namespace Reckoner

/-- The type of an operation on operands of these types. -/
def Operator.type? (op : Operator) : ValueType → ValueType → Option ValueType
  | .number, .number => some .number
  | .text, .text => if op = .add then some .text else none
  | _, _ => none

namespace Operator

theorem kind_of_noted {left right : Float} {op : Operator} {result : Except Number.Trouble Float}
    {cause : Cause} (h : noted left op right result = .error cause) : cause.kind = .arithmetic := by
  cases result with
  | ok x => cases h
  | error trouble => cases h; rfl

/-- What goes wrong with two numbers is a matter of arithmetic. -/
theorem kind_of_compute {op : Operator} {left right : Float} {cause : Cause}
    (h : op.compute left right = .error cause) : cause.kind = .arithmetic := by
  cases op with
  | add | subtract | multiply => cases h
  | divide =>
    simp only [compute] at h
    split at h
    · cases h
      rfl
    · cases h
  | modulo =>
    simp only [compute] at h
    split at h
    · cases h
      rfl
    · exact kind_of_noted h
  | power => exact kind_of_noted h

/-- Operands that do not fit are found out by every operator. -/
theorem combine_of_mismatch {op : Operator} {left right : Value}
    (h : op.type? left.type right.type = none) :
    op.combine left right = .error (.operandTypes op.symbol left.type right.type) := by
  cases left with
  | number x =>
    cases right with
    | number y => cases h
    | text t => cases op <;> rfl
  | text s =>
    cases right with
    | number y => cases op <;> rfl
    | text t =>
      cases op with
      | add => cases h
      | _ => rfl

/-- Operands that fit have a result of the type of the operation, or none by arithmetic. -/
theorem combine_of_type? {op : Operator} {left right : Value} {type : ValueType}
    (h : op.type? left.type right.type = some type) :
    (∃ v, op.combine left right = .ok v ∧ v.type = type) ∨
      ∃ cause, op.combine left right = .error cause ∧ cause.kind = .arithmetic := by
  cases left with
  | number x =>
    cases right with
    | text t => cases h
    | number y =>
      cases h
      simp only [combine]
      cases computed : op.compute x y with
      | ok z => exact Or.inl ⟨.number z, rfl, rfl⟩
      | error cause => exact Or.inr ⟨cause, rfl, kind_of_compute computed⟩
  | text s =>
    cases right with
    | number y => cases h
    | text t =>
      by_cases plus : op = .add
      · subst plus
        cases h
        exact Or.inl ⟨.text (s ++ t), rfl, rfl⟩
      · simp [type?, Value.type, plus] at h

/-- An operation fails because its operands do not fit, or by arithmetic. -/
theorem combine_eq_error {op : Operator} {left right : Value} {cause : Cause}
    (h : op.combine left right = .error cause) :
    cause = .operandTypes op.symbol left.type right.type ∨ cause.kind = .arithmetic := by
  cases typed : op.type? left.type right.type with
  | none =>
    rw [combine_of_mismatch typed] at h
    cases h
    exact Or.inl rfl
  | some type =>
    obtain ⟨v, computed, -⟩ | ⟨cause, failed, kind⟩ := combine_of_type? typed
    · rw [computed] at h
      cases h
    · rw [failed] at h
      cases h
      exact Or.inr kind

end Operator

/-- Not that an operator is unknown. -/
def Cause.Known (c : Cause) : Prop := ∀ symbol, c ≠ .unknownOperator symbol

/-- An operator does not take itself for an unknown one. -/
theorem Operator.known_of_combine {op : Operator} {left right : Value} {cause : Cause}
    (h : op.combine left right = .error cause) : cause.Known := by
  rintro symbol rfl
  rcases combine_eq_error h with mismatch | arithmetic
  · cases mismatch
  · cases arithmetic

/-- What the rules report: neither that an operator is unknown nor that a character is invalid. -/
structure Cause.OfRules (c : Cause) : Prop where
  known : c.Known
  kind : c.kind ≠ .invalidCharacter

theorem Operator.ofRules_of_combine {op : Operator} {left right : Value} {cause : Cause}
    (h : op.combine left right = .error cause) : cause.OfRules := by
  refine ⟨known_of_combine h, fun invalid => ?_⟩
  rcases combine_eq_error h with rfl | arithmetic
  · cases invalid
  · cases arithmetic.symm.trans invalid

theorem apply_of_known {op : Token} {known : Operator} (h : Operator.ofSymbol? op.text = some known)
    (left right : Value) :
    apply left op right =
      (known.combine left right).mapError fun cause => ⟨cause, op.location⟩ := by
  simp only [apply, h]

/-- The operators of the levels are the known ones. -/
theorem isSome_ofSymbol?_of_isOperator {op : Token} {level : Level}
    (h : op.isOperator level.symbols = true) : (Operator.ofSymbol? op.text).isSome = true := by
  have known : ∀ symbol ∈ level.symbols, (Operator.ofSymbol? symbol).isSome = true := by
    cases level <;> decide
  simp only [Token.isOperator, Bool.and_eq_true, List.contains_iff_mem] at h
  exact known op.text h.2

end Reckoner
