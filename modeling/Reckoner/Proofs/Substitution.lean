import Reckoner.Proofs.Reprinting
import Reckoner.Proofs.Scripts

/-!
# Variables replaced by their values

In a source that returns values, a variable may be replaced by a literal of its value, and the same
values are returned. There is one exception. A minus chain takes a number alone, but the whole
expression that begins with a variable; so a number must not come right behind a chain.

Whether a minus sign belongs to such a chain is seen from the tokens before it: it does unless an
operand ends there. `Replaces` relates the tokens of both sources and keeps the tokens before them.
Derivations are taken over from one list to the other, and with them scripts.

* `AfterSign` — the place behind a minus chain;
* `Derives.replaced`, `Script.replaced` — derivations and scripts;
* `Evaluating.evaluateAll_of_replaced` — the sources.
-/

namespace Reckoner

/-! ### Operands and minus chains before a place -/

/-- An operand may end with the token. -/
def Token.endsOperand (t : Token) : Bool :=
  [.number, .string, .identifier].contains t.kind || t.isPunctuation ")"

/-- The tokens end where an operand may end. -/
def AfterOperand (ts : List Token) : Prop := ∃ before t, ts = before ++ [t] ∧ t.endsOperand = true

/-- The tokens end with a minus sign that is not behind an operand, and so with a minus chain. -/
def AfterSign (ts : List Token) : Prop :=
  ∃ before minus, ts = before ++ [minus] ∧ minus.isOperator ["-"] = true ∧ ¬ AfterOperand before

section Places

variable {ts : List Token} {t : Token}

theorem not_afterOperand_nil : ¬ AfterOperand [] := by
  rintro ⟨before, t, split, -⟩
  exact List.append_ne_nil_of_right_ne_nil before (List.cons_ne_nil t []) split.symm

theorem afterOperand_concat : AfterOperand (ts ++ [t]) ↔ t.endsOperand = true := by
  constructor
  · rintro ⟨before, u, split, ends⟩
    obtain ⟨-, same⟩ := List.append_inj' split rfl
    cases same
    exact ends
  · exact fun ends => ⟨ts, t, rfl, ends⟩

theorem not_afterOperand_concat (other : t.endsOperand = false) : ¬ AfterOperand (ts ++ [t]) := by
  rw [afterOperand_concat, other]
  exact Bool.false_ne_true

theorem endsOperand_of_isOperator {symbols : List String} (h : t.isOperator symbols = true) :
    t.endsOperand = false := by
  rw [Token.endsOperand, Token.isPunctuation, kind_of_isOperator h]
  rfl

theorem endsOperand_of_opening (h : t.isPunctuation "(" = true) : t.endsOperand = false := by
  have text : t.text = "(" := by
    rw [Token.isPunctuation, Bool.and_eq_true, beq_iff_eq, beq_iff_eq] at h
    exact h.2
  rw [Token.endsOperand, Token.isPunctuation, kind_of_isPunctuation h, text]
  rfl

theorem endsOperand_of_closing (h : t.isPunctuation ")" = true) : t.endsOperand = true := by
  rw [Token.endsOperand, h, Bool.or_true]

theorem endsOperand_of_mem {kind : TokenKind} (h : t.kind = kind)
    (among : kind ∈ [TokenKind.number, .string, .identifier]) : t.endsOperand = true := by
  rw [Token.endsOperand, h, List.contains_iff_mem.2 among, Bool.true_or]

/-- Behind a minus chain that does not follow an operand. -/
theorem afterSign_append {chain : List Token} (start : ¬ AfterOperand ts) {minus : Token}
    (signs : ∀ m ∈ minus :: chain, m.isOperator ["-"] = true) :
    AfterSign (ts ++ minus :: chain) ∧ ¬ AfterOperand (ts ++ minus :: chain) := by
  have sign := signs minus List.mem_cons_self
  have noOperand : ¬ AfterOperand (ts ++ [minus]) :=
    not_afterOperand_concat (endsOperand_of_isOperator sign)
  induction chain generalizing ts minus with
  | nil => exact ⟨⟨ts, minus, rfl, sign, start⟩, noOperand⟩
  | cons m chain ih =>
    have signs' := fun u hu => signs u (List.mem_cons_of_mem minus hu)
    have sign' := signs' m List.mem_cons_self
    have whole := ih noOperand signs' sign'
      (not_afterOperand_concat (endsOperand_of_isOperator sign'))
    rw [List.append_assoc] at whole
    exact whole

end Places

/-! ### Literals in the place of variables -/

/-- The token is a literal of the value. -/
inductive Token.Denotes (t : Token) : Value → Prop
  | string : t.kind = .string → t.Denotes (.text t.text)
  | number {x : Float} : t.kind = .number → Number.read? t.text = some x → t.Denotes (.number x)

/-- Behind the tokens `front`, the first list becomes the second one when variables are replaced by
literals of their values, but for locations. No number is put right behind a minus chain. -/
inductive Replaces (bindings : Table Value) : List Token → List Token → List Token → Prop
  | nil {front : List Token} : Replaces bindings front [] []
  | kept {front ts us : List Token} {t u : Token} : u.bare = t.bare →
      Replaces bindings (front ++ [t]) ts us → Replaces bindings front (t :: ts) (u :: us)
  | replaced {front ts us : List Token} {t u : Token} {v : Value} : t.kind = .identifier →
      bindings.get? t.text = some v → u.Denotes v → (u.kind = .number → ¬ AfterSign front) →
      Replaces bindings (front ++ [t]) ts us → Replaces bindings front (t :: ts) (u :: us)

section Replaces

variable {bindings : Table Value} {front ts us xs ys rest : List Token} {t u : Token} {v : Value}

theorem Token.kind_of_bare (h : u.bare = t.bare) : u.kind = t.kind := congrArg Prod.fst h

theorem Token.text_of_bare (h : u.bare = t.bare) : u.text = t.text := congrArg Prod.snd h

theorem isOperator_of_bare (h : u.bare = t.bare) (symbols : List String) :
    u.isOperator symbols = t.isOperator symbols := by
  rw [Token.isOperator, Token.isOperator, Token.kind_of_bare h, Token.text_of_bare h]

theorem isPunctuation_of_bare (h : u.bare = t.bare) (symbol : String) :
    u.isPunctuation symbol = t.isPunctuation symbol := by
  rw [Token.isPunctuation, Token.isPunctuation, Token.kind_of_bare h, Token.text_of_bare h]

theorem kind_ne_of_isPunctuation {symbol : String} (h : t.isPunctuation symbol = true) :
    t.kind ≠ .identifier := by
  rw [kind_of_isPunctuation h]
  decide

theorem kind_ne_of_isOperator {symbols : List String} (h : t.isOperator symbols = true) :
    t.kind ≠ .identifier := by
  rw [kind_of_isOperator h]
  decide

theorem isOperator_of_map_bare {symbols : List String}
    (same : ys.map Token.bare = xs.map Token.bare)
    (operators : ∀ x ∈ xs, x.isOperator symbols = true) :
    ∀ y ∈ ys, y.isOperator symbols = true := by
  intro y hy
  have listed := List.mem_map_of_mem (f := Token.bare) hy
  rw [same] at listed
  obtain ⟨x, hx, bare⟩ := List.mem_map.1 listed
  rw [isOperator_of_bare bare.symm]
  exact operators x hx

theorem Token.Denotes.kind (h : t.Denotes v) : t.kind = .string ∨ t.kind = .number := by
  cases h with
  | string kind => exact Or.inl kind
  | number kind _ => exact Or.inr kind

theorem Token.Denotes.of_bare (h : t.Denotes v) (same : u.bare = t.bare) : u.Denotes v := by
  have kind := Token.kind_of_bare same
  have text := Token.text_of_bare same
  cases h with
  | string string =>
    rw [← text]
    exact .string (kind.trans string)
  | number number read => exact .number (kind.trans number) (text ▸ read)

/-- Lists that are the same but for locations. -/
theorem replaces_of_bare (same : ys.map Token.bare = xs.map Token.bare)
    (h : Replaces bindings (front ++ xs) ts us) :
    Replaces bindings front (xs ++ ts) (ys ++ us) := by
  induction xs generalizing front ys with
  | nil =>
    obtain rfl := List.map_eq_nil_iff.1 same
    rw [List.append_nil] at h
    exact h
  | cons x xs ih =>
    obtain ⟨y, ys, rfl, bare, same'⟩ := List.map_eq_cons_iff.1 same
    refine .kept bare (ih same' ?_)
    rw [List.append_assoc]
    exact h

/-- What is no variable is kept. -/
theorem Replaces.of_cons (h : Replaces bindings front (t :: ts) us) (other : t.kind ≠ .identifier) :
    ∃ u us', us = u :: us' ∧ u.bare = t.bare ∧ Replaces bindings (front ++ [t]) ts us' := by
  cases h with
  | kept same later => exact ⟨_, _, rfl, same, later⟩
  | replaced name _ _ _ _ => exact absurd name other

/-- Operators are kept. -/
theorem Replaces.of_append {symbols : List String} (h : Replaces bindings front (xs ++ ts) us)
    (operators : ∀ x ∈ xs, x.isOperator symbols = true) :
    ∃ ys us', us = ys ++ us' ∧ ys.map Token.bare = xs.map Token.bare ∧
      Replaces bindings (front ++ xs) ts us' := by
  induction xs generalizing front us with
  | nil =>
    refine ⟨[], us, rfl, rfl, ?_⟩
    rw [List.append_nil]
    exact h
  | cons x xs ih =>
    have other : x.kind ≠ .identifier := by
      rw [kind_of_isOperator (operators x List.mem_cons_self)]
      decide
    obtain ⟨y, us', rfl, same, later⟩ := h.of_cons other
    obtain ⟨ys, us'', rfl, same', rest⟩ :=
      ih later fun z hz => operators z (List.mem_cons_of_mem x hz)
    refine ⟨y :: ys, us'', rfl, by rw [List.map_cons, List.map_cons, same, same'], ?_⟩
    rw [List.append_assoc] at rest
    exact rest

/-- A token and what it becomes are the same operators and the same ends of statements. -/
theorem Replaces.head (h : Replaces bindings front ts us) :
    ∀ u ∈ us.head?, ∃ t ∈ ts.head?, u.kind.endsStatement = t.kind.endsStatement ∧
      ∀ symbols, u.isOperator symbols = t.isOperator symbols := by
  intro u hu
  cases h with
  | nil => cases hu
  | kept same _ =>
    cases hu
    refine ⟨_, rfl, by rw [Token.kind_of_bare same], isOperator_of_bare same⟩
  | replaced name _ denotes _ _ =>
    cases hu
    refine ⟨_, rfl, ?_, fun symbols => ?_⟩
    · rw [name]
      rcases denotes.kind with kind | kind <;> rw [kind] <;> rfl
    · rw [Token.isOperator, Token.isOperator, name]
      rcases denotes.kind with kind | kind <;> rw [kind] <;> rfl

theorem Stops.replaced {level : Option Level} (stops : Stops level ts)
    (h : Replaces bindings front ts us) : Stops level us := by
  intro u hu l hl
  obtain ⟨t, ht, -, operators⟩ := h.head u hu
  rw [operators]
  exact stops t ht l hl

/-! ### Values -/

theorem apply_eq_ok_iff {left right : Value} {op : Token} :
    apply left op right = .ok v ↔
      ∃ known, Operator.ofSymbol? op.text = some known ∧ known.combine left right = .ok v := by
  unfold apply
  cases Operator.ofSymbol? op.text with
  | none => exact ⟨fun h => (nomatch h), fun ⟨_, same, _⟩ => (nomatch same)⟩
  | some known =>
    show (known.combine left right).mapError _ = .ok v ↔ _
    cases computed : known.combine left right with
    | ok w => simp [Except.mapError, computed]
    | error cause => simp [Except.mapError, computed]

/-- An operation has a value if its operands have values that the operator combines. -/
theorem Tree.value_binary_eq_ok_iff {left right : Tree} {op : Token} :
    (Tree.binary op left right).value bindings = .ok v ↔
      ∃ x y known, left.value bindings = .ok x ∧ right.value bindings = .ok y ∧
        Operator.ofSymbol? op.text = some known ∧ known.combine x y = .ok v := by
  rw [Tree.value]
  cases left.value bindings with
  | error fault =>
    refine iff_of_false (by rintro ⟨⟩) ?_
    rintro ⟨x, y, known, same, -⟩
    cases same
  | ok x =>
    cases right.value bindings with
    | error fault =>
      refine iff_of_false (by rintro ⟨⟩) ?_
      rintro ⟨x, y, known, -, same, -⟩
      cases same
    | ok y =>
      have applied : (apply x op y).mapError Fault.diagnostic = .ok v ↔ apply x op y = .ok v := by
        cases apply x op y <;> simp [Except.mapError]
      refine applied.trans (apply_eq_ok_iff.trans ?_)
      constructor
      · rintro ⟨known, symbol, computed⟩
        exact ⟨x, y, known, rfl, rfl, symbol, computed⟩
      · rintro ⟨_, _, known, ⟨⟩, ⟨⟩, symbol, computed⟩
        exact ⟨known, symbol, computed⟩

/-- A negation has a value if its operand has a number as its value. -/
theorem Tree.value_negation_eq_ok_iff {operand : Tree} {minus : Token} {count : Nat} :
    (Tree.negation minus count operand).value bindings = .ok v ↔
      ∃ x, operand.value bindings = .ok (.number x) ∧
        v = .number (if count % 2 = 1 then -x else x) := by
  rw [Tree.value]
  cases operand.value bindings with
  | error fault =>
    refine iff_of_false (by rintro ⟨⟩) ?_
    rintro ⟨x, same, -⟩
    cases same
  | ok w =>
    cases w with
    | text t =>
      refine iff_of_false (by rintro ⟨⟩) ?_
      rintro ⟨x, same, -⟩
      cases same
    | number x =>
      constructor
      · intro same
        exact ⟨x, rfl, (Except.ok.inj same).symm⟩
      · rintro ⟨y, same, rfl⟩
        cases same
        rfl

/-- Where the first tree has a value, the second one has the same. -/
def Tree.Refines (bindings : Table Value) (tree tree' : Tree) : Prop :=
  ∀ v, tree.value bindings = .ok v → tree'.value bindings = .ok v

section Refines

variable {left left' right right' operand operand' : Tree} {op op' minus minus' : Token}

theorem refines_binary (text : op'.text = op.text) (hl : left.Refines bindings left')
    (hr : right.Refines bindings right') :
    (Tree.binary op left right).Refines bindings (.binary op' left' right') := by
  intro v valued
  obtain ⟨x, y, known, first, second, symbol, computed⟩ := Tree.value_binary_eq_ok_iff.1 valued
  exact Tree.value_binary_eq_ok_iff.2
    ⟨x, y, known, hl _ first, hr _ second, text ▸ symbol, computed⟩

theorem refines_negation (count : Nat) (h : operand.Refines bindings operand') :
    (Tree.negation minus count operand).Refines bindings (.negation minus' count operand') := by
  intro v valued
  obtain ⟨x, inner, same⟩ := Tree.value_negation_eq_ok_iff.1 valued
  exact Tree.value_negation_eq_ok_iff.2 ⟨x, h _ inner, same⟩

theorem refines_name {name name' : Token} (text : name'.text = name.text) :
    (Tree.name name).Refines bindings (.name name') := by
  intro v valued
  rw [Tree.value] at valued
  rw [Tree.value, text]
  cases known : bindings.get? name.text with
  | none => rw [known] at valued; cases valued
  | some w => rw [known] at valued; exact valued

/-- A literal has the value of the variable that it stands for. -/
theorem refines_literal {name : Token} (bound : bindings.get? name.text = some v)
    (denotes : u.Denotes v) :
    ∃ tree', (∀ us, Derives none (u :: us) tree' us) ∧ (Tree.name name).Refines bindings tree' := by
  have valued : (Tree.name name).value bindings = .ok v := by
    rw [Tree.value, bound]
  cases denotes with
  | string kind =>
    refine ⟨.string u.text, fun us => .string kind, fun w same => ?_⟩
    rw [← same, valued]
    rfl
  | number kind read =>
    refine ⟨.number u.text, fun us => .number kind, fun w same => ?_⟩
    rw [← same, valued, Tree.value, read]

end Refines

/-! ### Derivations -/

/-- What is derived from the one list is derived from the other, up to places that correspond. -/
def Carries (bindings : Table Value) (level : Option Level) (tree : Tree) (rest us : List Token) :
    Prop :=
  ∃ tree' rest' front', Derives level us tree' rest' ∧ tree.Refines bindings tree' ∧
    AfterOperand front' ∧ Replaces bindings front' rest rest'

/-- The parenthesis behind an expression is kept. -/
theorem Carries.close {inner : Tree} {closing : Token}
    (h : Carries bindings (some .sum) inner (closing :: rest) us)
    (hc : closing.isPunctuation ")" = true) :
    ∃ inner' closing' rest' front', Derives (some .sum) us inner' (closing' :: rest') ∧
      closing'.isPunctuation ")" = true ∧ inner.Refines bindings inner' ∧
      AfterOperand front' ∧ Replaces bindings front' rest rest' := by
  obtain ⟨inner', rest', front', derived, refines, -, later⟩ := h
  obtain ⟨closing', rest'', rfl, same, later'⟩ := later.of_cons (kind_ne_of_isPunctuation hc)
  exact ⟨inner', closing', rest'', _, derived, (isPunctuation_of_bare same ")").trans hc, refines,
    afterOperand_concat.2 (endsOperand_of_closing hc), later'⟩

/-- So is a minus chain, and the place behind it is no good for a number. -/
theorem Replaces.exists_chain {minus : Token} {chain : List Token}
    (h : Replaces bindings front (minus :: (chain ++ ts)) us)
    (signs : ∀ m ∈ minus :: chain, m.isOperator ["-"] = true) :
    ∃ minus' chain' us', us = minus' :: (chain' ++ us') ∧ chain'.length = chain.length ∧
      (∀ m ∈ minus' :: chain', m.isOperator ["-"] = true) ∧
      Replaces bindings (front ++ minus :: chain) ts us' := by
  replace h : Replaces bindings front ((minus :: chain) ++ ts) us := h
  obtain ⟨ys, us', rfl, same, later⟩ := h.of_append signs
  have signs' := isOperator_of_map_bare same signs
  obtain ⟨minus', chain', rfl, -, same'⟩ := List.map_eq_cons_iff.1 same
  have length := congrArg List.length same'
  rw [List.length_map, List.length_map] at length
  exact ⟨minus', chain', us', rfl, length, signs', later⟩

/-- What follows a minus chain and is neither a number nor a group stays so. -/
theorem Replaces.exists_operand (h : Replaces bindings front (t :: ts) us) (sign : AfterSign front)
    (word : t.kind ≠ .number) (unopened : t.isPunctuation "(" = false)
    (other : t.isOperator ["-"] = false) :
    ∃ u us', us = u :: us' ∧ u.kind ≠ .number ∧ u.isPunctuation "(" = false ∧
      u.isOperator ["-"] = false := by
  cases h with
  | @kept _ _ us _ u same _ =>
    refine ⟨u, us, rfl, ?_, ?_, ?_⟩
    · rw [Token.kind_of_bare same]
      exact word
    · rw [isPunctuation_of_bare same]
      exact unopened
    · rw [isOperator_of_bare same]
      exact other
  | @replaced _ _ us _ u v name _ denotes apart _ =>
    have kind : u.kind = .string := denotes.kind.resolve_right fun number => apart number sign
    refine ⟨u, us, rfl, ?_, ?_, ?_⟩
    · rw [kind]
      decide
    · rw [Token.isPunctuation, kind]
      rfl
    · rw [Token.isOperator, kind]
      rfl

/-- **Derivations with variables replaced.** Where no operand ends, an expression that comes next in
the one list comes next in the other. By induction on the derivation. -/
theorem Derives.replaced {level : Option Level} {tree : Tree} (h : Derives level ts tree rest)
    (start : ¬ AfterOperand front) (replaces : Replaces bindings front ts us) :
    Carries bindings level tree rest us := by
  induction h generalizing front us with
  | @number t rest kind =>
    obtain ⟨u, us, rfl, same, later⟩ := replaces.of_cons (by rw [kind]; decide)
    refine ⟨_, us, _, .number ((Token.kind_of_bare same).trans kind), ?_,
      afterOperand_concat.2 (endsOperand_of_mem kind (by decide)), later⟩
    rw [Token.text_of_bare same]
    exact fun v valued => valued
  | @string t rest kind =>
    obtain ⟨u, us, rfl, same, later⟩ := replaces.of_cons (by rw [kind]; decide)
    refine ⟨_, us, _, .string ((Token.kind_of_bare same).trans kind), ?_,
      afterOperand_concat.2 (endsOperand_of_mem kind (by decide)), later⟩
    rw [Token.text_of_bare same]
    exact fun v valued => valued
  | @name t rest kind =>
    have ends : AfterOperand (front ++ [t]) :=
      afterOperand_concat.2 (endsOperand_of_mem kind (by decide))
    cases replaces with
    | @kept _ _ us _ u same later =>
      exact ⟨_, us, _, .name ((Token.kind_of_bare same).trans kind),
        refines_name (Token.text_of_bare same), ends, later⟩
    | @replaced _ _ us _ u v _ bound denotes _ later =>
      obtain ⟨tree', derived, refines⟩ := refines_literal bound denotes
      exact ⟨tree', us, _, derived us, refines, ends, later⟩
  | @group opening closing ts rest inner ho hc _ ih =>
    obtain ⟨opening', us, rfl, same, later⟩ := replaces.of_cons (kind_ne_of_isPunctuation ho)
    have inside := ih (not_afterOperand_concat (endsOperand_of_opening ho)) later
    obtain ⟨inner', closing', rest', front', derived, hc', refines, ends, later'⟩ := inside.close hc
    exact ⟨_, rest', front', .group ((isPunctuation_of_bare same "(").trans ho) hc' derived,
      refines, ends, later'⟩
  | @negatedNumber minus t chain rest hm kind =>
    obtain ⟨minus', chain', us, rfl, length, hm', later⟩ := replaces.exists_chain hm
    obtain ⟨u, us, rfl, same, later'⟩ := later.of_cons (by rw [kind]; decide)
    refine ⟨_, us, _, .negatedNumber hm' ((Token.kind_of_bare same).trans kind), ?_,
      afterOperand_concat.2 (endsOperand_of_mem kind (by decide)), later'⟩
    rw [length, Token.text_of_bare same]
    exact refines_negation _ fun v valued => valued
  | @negatedGroup minus opening closing chain ts rest inner hm ho hc _ ih =>
    obtain ⟨minus', chain', us, rfl, length, hm', later⟩ := replaces.exists_chain hm
    obtain ⟨opening', us, rfl, same, later'⟩ := later.of_cons (kind_ne_of_isPunctuation ho)
    have inside := ih (not_afterOperand_concat (endsOperand_of_opening ho)) later'
    obtain ⟨inner', closing', rest', front', derived, hc', refines, ends, later''⟩ :=
      inside.close hc
    refine ⟨_, rest', front',
      .negatedGroup hm' ((isPunctuation_of_bare same "(").trans ho) hc' derived, ?_, ends, later''⟩
    rw [length]
    exact refines_negation _ refines
  | @negatedSum minus t chain ts rest operand hm word unopened other _ stops ih =>
    obtain ⟨minus', chain', us, rfl, length, hm', later⟩ := replaces.exists_chain hm
    obtain ⟨sign, start'⟩ := afterSign_append start hm
    -- what follows the chain is no number after the replacement either, so that the chain still
    -- takes the whole expression
    obtain ⟨u, us, rfl, word', unopened', other'⟩ := later.exists_operand sign word unopened other
    obtain ⟨operand', rest', front', derived, refines, ends, later'⟩ := ih start' later
    refine ⟨_, rest', front',
      .negatedSum hm' word' unopened' other' derived (stops.replaced later'), ?_, ends, later'⟩
    rw [length]
    exact refines_negation _ refines
  | operand _ ih =>
    obtain ⟨tree', rest', front', derived, refines, ends, later⟩ := ih start replaces
    exact ⟨tree', rest', front', .operand derived, refines, ends, later⟩
  | @binary level op ts vs rest left right _ hop _ ihl ihr =>
    obtain ⟨left', restL, frontL, derivedL, refinesL, -, laterL⟩ := ihl start replaces
    obtain ⟨op', us, rfl, same, laterR⟩ := laterL.of_cons (kind_ne_of_isOperator hop)
    have start' : ¬ AfterOperand (frontL ++ [op]) :=
      not_afterOperand_concat (endsOperand_of_isOperator hop)
    obtain ⟨right', rest', front', derivedR, refinesR, ends, later⟩ := ihr start' laterR
    exact ⟨_, rest', front',
      .binary derivedL ((isOperator_of_bare same _).trans hop) derivedR,
      refines_binary (Token.text_of_bare same) refinesL refinesR, ends, later⟩

/-- **Scripts with variables replaced** have the same values. -/
theorem Script.replaced {values : List Value} (h : Script bindings ts values)
    (start : AfterOperand front → ∀ t ∈ ts.head?, t.kind.endsStatement = true)
    (replaces : Replaces bindings front ts us) : Script bindings us values := by
  induction h generalizing front us with
  | @ended last kind =>
    obtain ⟨u, us, rfl, same, later⟩ := replaces.of_cons (by rw [kind]; decide)
    cases later
    exact .ended ((Token.kind_of_bare same).trans kind)
  | @line t ts values kind _ ih =>
    obtain ⟨u, us, rfl, same, later⟩ := replaces.of_cons (by rw [kind]; decide)
    have noOperand : t.endsOperand = false := by
      rw [Token.endsOperand, Token.isPunctuation, kind]
      rfl
    refine .line ((Token.kind_of_bare same).trans kind) (ih (fun ends => ?_) later)
    exact absurd ends (not_afterOperand_concat noOperand)
  | @expression ts rest tree v values derived valued ends _ ih =>
    have start' : ¬ AfterOperand front := by
      intro behind
      obtain ⟨t, ts, rfl⟩ := List.exists_cons_of_ne_nil derived.ne_nil
      have inside : ∀ kind ∈ expressionKinds, kind.endsStatement = false := by decide
      have first := inside t.kind derived.inside
      rw [start behind t rfl] at first
      cases first
    obtain ⟨tree', rest', front', derived', refines, -, later⟩ := derived.replaced start' replaces
    refine .expression derived' (refines v valued) (fun u hu => ?_) (ih (fun _ => ends) later)
    obtain ⟨t, ht, same, -⟩ := later.head u hu
    rw [same]
    exact ends t ht

end Replaces

/-- No function literal is announced by a literal of a value. -/
theorem Replaces.plain {bindings : Table Value} {front ts us : List Token}
    (h : Replaces bindings front ts us) (plain : ∀ t ∈ ts, t.kind ≠ .functionDeclaration) :
    ∀ u ∈ us, u.kind ≠ .functionDeclaration := by
  induction h with
  | nil => exact plain
  | kept same _ ih =>
    obtain ⟨first, later⟩ := List.forall_mem_cons.1 plain
    refine List.forall_mem_cons.2 ⟨?_, ih later⟩
    rw [Token.kind_of_bare same]
    exact first
  | replaced _ _ denotes _ _ ih =>
    refine List.forall_mem_cons.2 ⟨?_, ih (List.forall_mem_cons.1 plain).2⟩
    rcases denotes.kind with kind | kind <;> rw [kind] <;> decide

/-! ### Sources -/

/-- All pieces of a text are lexemes. -/
theorem Splits.wellFormed {cs rest : List Char} {pieces : List Piece} (h : Splits cs pieces rest) :
    ∀ p ∈ pieces, p.lexeme.WellFormed := by
  induction h with
  | done => exact fun p hp => absurd hp List.not_mem_nil
  | piece _ longest _ ih => exact List.forall_mem_cons.2 ⟨longest.wellFormed, ih⟩

/-- The tokens of a source are lexemes, and behind them comes the end of the input. -/
theorem wellFormed_of_tokens {source file : String} {ts : List Token} {last : Token} {z : Reader}
    (h : Reading.tokens (Reader.ofSource source file .raise) = .ok (ts ++ [last]) z) :
    (∀ t ∈ ts, t.lexeme.WellFormed) ∧ last.bare = (.endOfInput, "") := by
  obtain ⟨-, pieces, blanks, splits, -, whole⟩ := ((tokens_iff_splits source file).1 _).1 ⟨z, h⟩
  obtain ⟨rfl, same⟩ := List.append_inj' whole rfl
  cases same
  refine ⟨fun t ht => ?_, rfl⟩
  have among := List.mem_map_of_mem (f := Token.lexeme) ht
  rw [map_lexeme_tokensFrom] at among
  obtain ⟨p, hp, made⟩ := List.mem_map.1 among
  rw [← made]
  exact splits.wellFormed p hp

/-- Lexemes with spaces between them. -/
theorem writes_spellings {t : Token} {ts : List Token}
    (formed : ∀ u ∈ t :: ts, u.lexeme.WellFormed) :
    Writes (String.intercalate " " ((t :: ts).map Token.spelling)).toList
      ((t :: ts).map Token.lexeme) := by
  have first := writes_lexeme (formed t List.mem_cons_self)
  induction ts generalizing t with
  | nil =>
    rw [← Token.toList_spelling] at first
    simpa using first
  | cons u us ih =>
    have formed' := fun v hv => formed v (List.mem_cons_of_mem t hv)
    have later := (ih formed' (writes_lexeme (formed' u List.mem_cons_self))).indent blanks_space
    have whole := first.append later fun more => atBoundary_space _
    simp only [List.map_cons, String.intercalate_cons_cons, String.toList_append,
      Token.toList_spelling, List.append_assoc] at whole ⊢
    exact whole

/-- Lexemes with spaces between them are read as the same tokens. -/
theorem exists_tokens_of_spellings {ts : List Token} (some : ts ≠ [])
    (formed : ∀ t ∈ ts, t.lexeme.WellFormed) (file : String) :
    ∃ us last z, Reading.tokens (Reader.ofSource
        (String.intercalate " " (ts.map Token.spelling)) file .raise) = .ok (us ++ [last]) z ∧
      us.map Token.bare = ts.map Token.bare := by
  obtain ⟨t, ts, rfl⟩ := List.exists_cons_of_ne_nil some
  obtain ⟨pieces, same, splits⟩ := writes_spellings formed [] [] [] [] blanks_nil
    (fun c hc => nomatch hc) .done
  rw [List.nil_append, List.append_nil, List.append_nil] at splits
  obtain ⟨z, tokenizes⟩ := tokens_of_splits file splits (.ended blanks_nil)
  refine ⟨_, _, z, tokenizes, map_bare_of_map_lexeme ?_⟩
  exact (map_lexeme_tokensFrom file .start pieces).trans same

/-- The token is a literal of the value, as it may stand in a source. -/
structure Token.Literal (t : Token) (v : Value) : Prop where
  denotes : t.Denotes v
  wellFormed : t.lexeme.WellFormed

namespace Evaluating

/-- **A variable may be replaced by its value.** Let a source without function literals return
values, where the first diagnostic ends the run and groups leave the variables alone. One of its
tokens is the name of a variable; a literal of the value of this variable takes its place, which is
not right behind a minus chain if the value is a number. Then these tokens, with spaces between
them, return the same values. -/
theorem evaluateAll_of_replaced {source file : String} {bindings : Table Value}
    {front behind : List Token} {name literal last : Token} {v : Value} {values : List Value}
    {z : Reader} {t : Session}
    (tokenizes : Reading.tokens (Reader.ofSource source file .raise) =
      .ok (front ++ name :: behind ++ [last]) z)
    (plain : ∀ t ∈ front ++ name :: behind, t.kind ≠ .functionDeclaration)
    (returns : evaluateAll (Session.ofSource source file .raise false bindings) = .ok values t)
    (named : name.kind = .identifier) (bound : bindings.get? name.text = some v)
    (stands : literal.Literal v) (apart : ∀ x, v = .number x → ¬ AfterSign front)
    (other : String) :
    let printed := String.intercalate " " ((front ++ literal :: behind).map Token.spelling)
    ∃ u, evaluateAll (Session.ofSource printed other .raise false bindings) = .ok values u := by
  intro printed
  obtain ⟨formed, ends⟩ := wellFormed_of_tokens tokenizes
  have formed' : ∀ t ∈ front ++ literal :: behind, t.lexeme.WellFormed := by
    intro t ht
    rcases List.mem_append.1 ht with ht | ht
    · exact formed t (List.mem_append_left _ ht)
    rcases List.mem_cons.1 ht with rfl | ht
    · exact stands.wellFormed
    · exact formed t (List.mem_append_right _ (List.mem_cons_of_mem _ ht))
  have some : front ++ literal :: behind ≠ [] :=
    List.append_ne_nil_of_right_ne_nil front (List.cons_ne_nil literal behind)
  obtain ⟨us, last', z', tokenizes', same⟩ := exists_tokens_of_spellings some formed' other
  have ends' := (wellFormed_of_tokens tokenizes').2
  -- the tokens that are read are those that were printed, but for their locations
  rw [List.map_append, List.map_cons] at same
  obtain ⟨front', us', rfl, sameFront, same'⟩ := List.map_eq_append_iff.1 same
  obtain ⟨literal', behind', rfl, sameLiteral, sameBehind⟩ := List.map_eq_cons_iff.1 same'
  have denotes := stands.denotes.of_bare sameLiteral
  have apart' : literal'.kind = .number → ¬ AfterSign front := by
    intro number
    cases denotes with
    | string string =>
      rw [number] at string
      cases string
    | @number x _ _ => exact apart x rfl
  have replaces : Replaces bindings [] (front ++ name :: behind ++ [last])
      (front' ++ literal' :: behind' ++ [last']) := by
    rw [List.append_assoc, List.append_assoc]
    refine replaces_of_bare sameFront (.replaced named bound denotes apart' ?_)
    exact replaces_of_bare sameBehind (.kept (ends'.trans ends.symm) .nil)
  have plain' : ∀ t ∈ front ++ name :: behind ++ [last], t.kind ≠ .functionDeclaration := by
    have kind : last.kind = .endOfInput := congrArg Prod.fst ends
    refine List.forall_mem_append.2 ⟨plain, fun t ht => ?_⟩
    rw [List.mem_singleton.1 ht, kind]
    decide
  have script := (evaluateAll_iff_script ⟨z, tokenizes⟩ plain').1 ⟨t, returns⟩
  have start : AfterOperand [] → ∀ t ∈ (front ++ name :: behind ++ [last]).head?,
      t.kind.endsStatement = true := fun behind => absurd behind not_afterOperand_nil
  exact (evaluateAll_iff_script ⟨z', tokenizes'⟩ (replaces.plain plain')).2
    (script.replaced start replaces)

/-- The theorem at a variable behind a minus sign that is a binary operator. Another mention of the
variable, behind a minus chain, stays. -/
theorem evaluateAll_of_replaced_binary_minus :
    let bindings : Table Value := [("x", .number 2)]
    let front : List Token := [⟨.number, "1", ⟨1, 2, "in"⟩⟩, ⟨.operator, "-", ⟨1, 4, "in"⟩⟩]
    let name : Token := ⟨.identifier, "x", ⟨1, 6, "in"⟩⟩
    let behind : List Token := [⟨.operator, "*", ⟨1, 8, "in"⟩⟩, ⟨.number, "2", ⟨1, 10, "in"⟩⟩,
      ⟨.endOfLine, ";", ⟨1, 11, "in"⟩⟩, ⟨.operator, "-", ⟨1, 13, "in"⟩⟩,
      ⟨.identifier, "x", ⟨1, 14, "in"⟩⟩]
    let last : Token := ⟨.endOfInput, "", ⟨1, 14, "in"⟩⟩
    let literal : Token := ⟨.number, "2.0", ⟨0, 0, ""⟩⟩
    ∃ z values t, Reading.tokens (Reader.ofSource "1 - x * 2; -x" "in" .raise) =
        .ok (front ++ name :: behind ++ [last]) z ∧
      evaluateAll (Session.ofSource "1 - x * 2; -x" "in" .raise false bindings) = .ok values t ∧
      (∀ x, Value.number 2 = .number x → ¬ AfterSign front) ∧ literal.Literal (.number 2) ∧
      ∃ u, evaluateAll (Session.ofSource "1 - 2.0 * 2 ; - x" "out" .raise false bindings) =
        .ok values u := by
  intro bindings front name behind last literal
  obtain ⟨z, tokenizes⟩ : ∃ z, Reading.tokens (Reader.ofSource "1 - x * 2; -x" "in" .raise) =
      .ok (front ++ name :: behind ++ [last]) z := ⟨_, rfl⟩
  obtain ⟨values, t, returns, -⟩ : ∃ values t,
      evaluateAll (Session.ofSource "1 - x * 2; -x" "in" .raise false bindings) = .ok values t ∧
        values.length = 2 := by
    decide +kernel
  have plain : ∀ t ∈ front ++ name :: behind, t.kind ≠ .functionDeclaration := by decide
  have binary : ¬ AfterSign front := by
    rintro ⟨before, minus, split, -, noOperand⟩
    replace split : [(⟨.number, "1", ⟨1, 2, "in"⟩⟩ : Token)] ++ _ = before ++ [minus] := split
    obtain ⟨rfl, -⟩ := List.append_inj' split rfl
    exact noOperand ⟨[], _, rfl, rfl⟩
  have stands : literal.Literal (.number 2) := by
    refine ⟨.number rfl (by decide +kernel), ?_⟩
    have made : literal.lexeme = ⟨.number, ['2'] ++ '.' :: ['0']⟩ := by decide
    rw [made]
    exact .decimal (List.cons_ne_nil _ _) (Text.forall_mem_of_all (by decide))
      (Text.forall_mem_of_all (by decide))
  exact ⟨z, values, t, tokenizes, returns, fun _ _ => binary, stands,
    evaluateAll_of_replaced tokenizes plain returns rfl rfl stands (fun _ _ => binary) "out"⟩

end Evaluating

end Reckoner
