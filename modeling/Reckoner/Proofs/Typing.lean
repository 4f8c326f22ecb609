import Reckoner.Proofs.Derivation
import Reckoner.Proofs.Numerals
import Reckoner.Proofs.Operations

/-!
# Types of expressions

A type can be given to an expression before it is evaluated: plus takes two numbers or two
texts, all other operations take numbers. What the types say is then what happens. A typed
expression has a value of its type or an arithmetic error, and an expression without a type has
no value.

* `Predicts` — what a type, or the lack of one, says about a result;
* `predicts_value` — it holds of every tree, by induction on the tree;
* `evaluate_of_type?` — and of the evaluation of a source.
-/

namespace Reckoner

/-! ### Types -/

/-- The type of the opposite. -/
def ValueType.negated? : ValueType → Option ValueType
  | .number => some .number
  | .text => none

/-- The type of a tree where the variables have these types. -/
def Tree.type? (types : String → Option ValueType) : Tree → Option ValueType
  | .number _ => some .number
  | .string _ => some .text
  | .name t => types t.text
  | .binary op left right => do
    let x ← left.type? types
    let y ← right.type? types
    let known ← Operator.ofSymbol? op.text
    known.type? x y
  | .group inner => inner.type? types
  | .negation _ _ operand => do
    let x ← operand.type? types
    x.negated?

/-- The names in a tree. -/
def Tree.names : Tree → List String
  | .number _ | .string _ => []
  | .name t => [t.text]
  | .binary _ left right => left.names ++ right.names
  | .group inner | .negation _ _ inner => inner.names

/-- The types of the variables of a table. -/
def Table.type? (bindings : Table Value) (name : String) : Option ValueType :=
  (bindings.get? name).map Value.type

/-! ### What a type predicts -/

/-- Under a type there is a value of that type, without one there is none; arithmetic may fail in
both cases, and types do not fit in the second case only. -/
inductive Predicts : Option ValueType → Except Fault Value → Prop
  | value (v : Value) : Predicts (some v.type) (.ok v)
  | arithmetic {type? : Option ValueType} {d : Diagnostic} : d.cause.kind = .arithmetic →
      Predicts type? (.error (.diagnostic d))
  | mismatch {d : Diagnostic} : d.cause.kind = .typeMismatch →
      Predicts none (.error (.diagnostic d))

/-- Types of parts in sequence predict the results of the parts in sequence. -/
theorem Predicts.bind {type? : Option ValueType} {result : Except Fault Value}
    {types : ValueType → Option ValueType} {f : Value → Except Fault Value}
    (h : Predicts type? result) (hf : ∀ v, Predicts (types v.type) (f v)) :
    Predicts (type? >>= types) (result >>= f) := by
  cases h with
  | value v => exact hf v
  | arithmetic kind => exact .arithmetic kind
  | mismatch kind => exact .mismatch kind

theorem Predicts.of_some {type : ValueType} {result : Except Fault Value}
    (h : Predicts (some type) result) :
    (∃ v, result = .ok v ∧ v.type = type) ∨
      ∃ d, result = .error (.diagnostic d) ∧ d.cause.kind = .arithmetic := by
  cases h with
  | value v => exact Or.inl ⟨v, rfl, rfl⟩
  | arithmetic kind => exact Or.inr ⟨_, rfl, kind⟩

theorem Predicts.of_none {result : Except Fault Value} (h : Predicts none result) :
    ∃ d, result = .error (.diagnostic d) ∧
      (d.cause.kind = .typeMismatch ∨ d.cause.kind = .arithmetic) := by
  cases h with
  | arithmetic kind => exact ⟨_, rfl, Or.inr kind⟩
  | mismatch kind => exact ⟨_, rfl, Or.inl kind⟩

/-! ### Operations -/

theorem predicts_apply {op : Token} {known : Operator}
    (h : Operator.ofSymbol? op.text = some known) (left right : Value) :
    Predicts (known.type? left.type right.type) ((apply left op right).mapError .diagnostic) := by
  rw [apply_of_known h]
  cases typed : known.type? left.type right.type with
  | none =>
    rw [Operator.combine_of_mismatch typed]
    exact .mismatch rfl
  | some type =>
    obtain ⟨v, computed, rfl⟩ | ⟨cause, failed, kind⟩ := Operator.combine_of_type? typed
    · rw [computed]
      exact .value v
    · rw [failed]
      exact .arithmetic kind

/-- The operand of a minus chain is checked, whether or not the chain changes its sign. -/
theorem predicts_negated (minus : Token) (count : Nat) (operand : Value) :
    Predicts operand.type.negated? (operand.negated minus count) := by
  cases operand with
  | number x => exact .value (.number _)
  | text s => exact .mismatch rfl

/-! ### Trees -/

/-- All numbers of the tree can be read, and all its operations are known. -/
def Tree.Readable : Tree → Prop
  | .number text => (Number.read? text).isSome = true
  | .string _ | .name _ => True
  | .binary op left right =>
    (Operator.ofSymbol? op.text).isSome = true ∧ left.Readable ∧ right.Readable
  | .group inner | .negation _ _ inner => inner.Readable

/-- What is derived from readable tokens is a readable tree. -/
theorem Derives.readable {level : Option Level} {ts rest : List Token} {tree : Tree}
    (h : Derives level ts tree rest) (readable : ∀ t ∈ ts, t.Readable) : tree.Readable := by
  induction h with
  | @number t _ kind => exact readable t List.mem_cons_self kind
  | string _ | name _ => trivial
  | group _ _ _ ih => exact ih fun t ht => readable t (List.mem_cons_of_mem _ ht)
  | @negatedNumber minus t chain rest _ kind =>
    exact readable t (List.mem_cons_of_mem _ (List.mem_append_right _ List.mem_cons_self)) kind
  | negatedGroup _ _ _ _ ih =>
    refine ih fun t ht => readable t ?_
    exact List.mem_cons_of_mem _ (List.mem_append_right _ (List.mem_cons_of_mem _ ht))
  | negatedSum _ _ _ _ _ _ ih =>
    exact ih fun t ht => readable t (List.mem_cons_of_mem _ (List.mem_append_right _ ht))
  | operand _ ih => exact ih readable
  | binary left op _ ihl ihr =>
    obtain ⟨used, rfl, -⟩ := left.used
    refine ⟨isSome_ofSymbol?_of_isOperator op, ihl readable, ihr fun t ht => readable t ?_⟩
    exact List.mem_append_right _ (List.mem_cons_of_mem _ ht)

/-- **Types are sound and complete for trees.** By induction on the tree; the sequencing of types
is that of values. -/
theorem predicts_value {bindings : Table Value} {tree : Tree} (readable : tree.Readable)
    (bound : ∀ name ∈ tree.names, name ∈ bindings.names) :
    Predicts (tree.type? bindings.type?) (tree.value bindings) := by
  induction tree with
  | number text =>
    obtain ⟨x, read⟩ := Option.isSome_iff_exists.1 readable
    rw [Tree.value, read]
    exact .value (.number x)
  | string text => exact .value (.text text)
  | name t =>
    have known := (bindings.isSome_get?_iff t.text).2 (bound t.text List.mem_cons_self)
    obtain ⟨v, found⟩ := Option.isSome_iff_exists.1 known
    rw [Tree.type?, Tree.value, Table.type?, found]
    exact .value v
  | binary op left right ihl ihr =>
    obtain ⟨known, readableL, readableR⟩ := readable
    obtain ⟨operator, known⟩ := Option.isSome_iff_exists.1 known
    refine (ihl readableL fun name hn => bound name (List.mem_append_left _ hn)).bind fun x => ?_
    refine (ihr readableR fun name hn => bound name (List.mem_append_right _ hn)).bind fun y => ?_
    rw [known]
    exact predicts_apply known x y
  | group inner ih => exact ih readable bound
  | negation minus count operand ih =>
    exact (ih readable bound).bind fun x => predicts_negated minus count x

namespace Evaluating

/-- **Types predict the outcome.** Where the tokens of a source begin with the derivation of a
tree, no operator follows and all names in the tree are bound: if the tree has a type, a run that
raises and does not clear the variables at groups returns a value of that type or ends with an
arithmetic error; if it has none, the run ends with a type mismatch or an arithmetic error. -/
theorem evaluate_of_type? {source file : String} {bindings : Table Value} {ts rest : List Token}
    {tree : Tree} (tokenizes : ∃ z, Reading.tokens (Reader.ofSource source file .raise) = .ok ts z)
    (derived : Derives (some .sum) ts tree rest) (stops : Stops (some .sum) rest)
    (bound : ∀ name ∈ tree.names, name ∈ bindings.names) :
    let s := Session.ofSource source file .raise false bindings
    match tree.type? bindings.type? with
    | some type =>
      (∃ v t, evaluate s = .ok v t ∧ v.type = type) ∨
        ∃ d t, evaluate s = .error (.diagnostic d) t ∧ d.cause.kind = .arithmetic
    | none =>
      ∃ d t, evaluate s = .error (.diagnostic d) t ∧
        (d.cause.kind = .typeMismatch ∨ d.cause.kind = .arithmetic) := by
  intro s
  obtain ⟨complete, z, delivered⟩ := tokens_eq_ok_iff.1 tokenizes
  have run : Gives z evaluate s (tree.value bindings) rest :=
    gives_evaluate delivered.policy.symm rfl complete delivered derived stops
  have readable : tree.Readable :=
    derived.readable (delivered.readable fun t ht => absurd ht List.not_mem_nil)
  have predicted := predicts_value readable bound
  cases typed : tree.type? bindings.type? with
  | some type =>
    rw [typed] at predicted
    obtain ⟨v, value, rfl⟩ | ⟨d, failed, kind⟩ := predicted.of_some
    · rw [value] at run
      obtain ⟨q, run, -⟩ := run
      exact Or.inl ⟨v, _, run, rfl⟩
    · rw [failed] at run
      obtain ⟨t, run⟩ := run
      exact Or.inr ⟨d, t, run, kind⟩
  | none =>
    rw [typed] at predicted
    obtain ⟨d, failed, kind⟩ := predicted.of_none
    rw [failed] at run
    obtain ⟨t, run⟩ := run
    exact ⟨d, t, run, kind⟩

/-- The theorem at a text under two minus signs, which has no type though the signs cancel. -/
theorem evaluate_of_type?_cancelled_signs :
    ∃ d t, evaluate (Session.ofSource "--x" "in" .raise false [("x", .text "b")]) =
        .error (.diagnostic d) t ∧
      (d.cause.kind = .typeMismatch ∨ d.cause.kind = .arithmetic) :=
  @evaluate_of_type? "--x" "in" [("x", .text "b")] _ _ _ ⟨_, rfl⟩
    (.operand (.operand (.operand (@Derives.negatedSum ⟨.operator, "-", ⟨1, 2, "in"⟩⟩
      ⟨.identifier, "x", ⟨1, 4, "in"⟩⟩ [⟨.operator, "-", ⟨1, 3, "in"⟩⟩] _ _ _
      (by decide) (by decide) rfl rfl (.operand (.operand (.operand (.name rfl))))
      (by intro t ht l _; cases ht; rfl)))))
    (by intro t ht l _; cases ht; rfl) (by decide)

end Evaluating

end Reckoner
