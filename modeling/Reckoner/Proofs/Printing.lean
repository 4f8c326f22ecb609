import Reckoner.Proofs.Derivation
import Reckoner.Proofs.Lexing.Decomposition
import Reckoner.Proofs.Numerals

/-!
# Printed expressions

Expressions without any tokens or locations, their values and their printed form, in which there
are as few parentheses as the levels of the operators allow. A printed expression is read back:
its text is taken apart into the lexemes that were printed, these are derived as a tree, and the
tree has the value of the expression.

* `Expression.value`, `Expression.print`
* `Writes`, `writes_print` — the lexemes of the printed text;
* `exists_derives` — the tree that they are derived as;
* `evaluateAll_print` — the value of the printed text is that of the expression.
-/

namespace Reckoner

open Reckoner.Text

/-! ### Expressions -/

/-- A word that is not reserved. -/
structure Identifier where
  first : Char
  rest : List Char
  letter : isLetter first = true
  inside : ∀ c ∈ rest, isWordChar c = true
  free : String.ofList (first :: rest) ∉ keywords.map (·.1)

/-- The characters of an identifier. -/
def Identifier.text (x : Identifier) : List Char := x.first :: x.rest

theorem Identifier.wellFormed (x : Identifier) : Lexeme.WellFormed ⟨.identifier, x.text⟩ := by
  have word := Lexeme.WellFormed.word x.letter x.inside
  rwa [Lexeme.wordKind_of_free x.free] at word

/-- Literals, variables, operations and negations. -/
inductive Expression where
  | number (text : List Char) (formed : Lexeme.WellFormed ⟨.number, text⟩)
  | string (text : List Char) (closed : '"' ∉ text)
  | name (x : Identifier)
  | binary (op : Operator) (left right : Expression)
  | negation (operand : Expression)

/-- The level that an operator belongs to. -/
def Operator.level : Operator → Level
  | .add | .subtract => .sum
  | .multiply | .divide | .modulo => .product
  | .power => .power

/-- The sign that an operator is written as. -/
def Operator.sign : Operator → Char
  | .add => '+'
  | .subtract => '-'
  | .multiply => '*'
  | .divide => '/'
  | .modulo => '%'
  | .power => '^'

theorem Operator.symbol_eq (op : Operator) : op.symbol = String.ofList [op.sign] := by
  cases op <;> rfl

theorem Operator.symbol_mem (op : Operator) : op.symbol ∈ op.level.symbols := by
  cases op <;> decide

theorem Operator.sign_mem (op : Operator) : op.sign ∈ operatorSigns := by
  cases op <;> decide

/-- The opposite of a number. -/
def Value.opposite : Value → Except Cause Value
  | .number x => .ok (.number (-x))
  | .text _ => .error (.negatedType .text)

namespace Expression

/-- **The value of an expression.** The left operand comes first, then the right one, then the
operation; the first cause of an error is the result. -/
def value (bindings : Table Value) : Expression → Except Cause Value
  | number text formed =>
    .ok (.number ((Number.read? (String.ofList text)).get (Number.isSome_read? formed)))
  | string text _ => .ok (.text (String.ofList text))
  | name x =>
    match bindings.get? (String.ofList x.text) with
    | some v => .ok v
    | none => .error (.undefinedVariable (String.ofList x.text))
  | binary op left right => do
    let x ← left.value bindings
    let y ← right.value bindings
    op.combine x y
  | negation operand => do
    let x ← operand.value bindings
    x.opposite

/-- The level of an operation; everything else binds tighter than every operator. -/
def level : Expression → Option Level
  | binary op _ _ => some op.level
  | _ => none

/-- The expression is a number literal. -/
def isNumber : Expression → Bool
  | number _ _ => true
  | _ => false

/-- A text in parentheses, with so many spaces on their inner sides, if parentheses are needed. -/
def enclose (margin : Nat) (needed : Bool) (text : List Char) : List Char :=
  if needed then
    '(' :: (List.replicate margin ' ' ++ (text ++ (List.replicate margin ' ' ++ [')'])))
  else text

/-- A left operand needs parentheses if it binds looser than its operator. -/
def leftNeeds (op : Operator) (left : Expression) : Bool :=
  decide (Level.tightness left.level < Level.tightness (some op.level))

/-- A right operand needs parentheses if it does not bind tighter than its operator. -/
def rightNeeds (op : Operator) (right : Expression) : Bool :=
  !decide (Level.tightness (some op.level) < Level.tightness right.level)

/-- **The text of an expression.** One space stands on each side of an operator, and none behind a
minus sign that negates; that stands right before a number or before a parenthesis. -/
def print (margin : Nat) : Expression → List Char
  | number text _ => text
  | string text _ => '"' :: (text ++ ['"'])
  | name x => x.text
  | binary op left right =>
    enclose margin (leftNeeds op left) (left.print margin) ++
      ' ' :: op.sign :: ' ' :: enclose margin (rightNeeds op right) (right.print margin)
  | negation operand => '-' :: enclose margin (!operand.isNumber) (operand.print margin)

/-! ### Printed lexemes -/

/-- Lexemes in parentheses if they are needed. -/
def encloseLexemes (needed : Bool) (ls : List Lexeme) : List Lexeme :=
  if needed then ⟨.punctuation, ['(']⟩ :: (ls ++ [⟨.punctuation, [')']⟩]) else ls

/-- The lexemes of the printed text. -/
def lexemes : Expression → List Lexeme
  | number text _ => [⟨.number, text⟩]
  | string text _ => [⟨.string, text⟩]
  | name x => [⟨.identifier, x.text⟩]
  | binary op left right =>
    encloseLexemes (leftNeeds op left) left.lexemes ++
      ⟨.operator, [op.sign]⟩ :: encloseLexemes (rightNeeds op right) right.lexemes
  | negation operand => ⟨.operator, ['-']⟩ :: encloseLexemes (!operand.isNumber) operand.lexemes

end Expression

/-- With any blanks in front and any text at a boundary behind, the text is taken apart into these
lexemes. -/
def Writes (text : List Char) (ls : List Lexeme) : Prop :=
  ∀ (blanks behind rest : List Char) (pieces : List Piece), (∀ c ∈ blanks, isBlank c = true) →
    AtBoundary behind → Splits behind pieces rest →
    ∃ front, front.map Piece.lexeme = ls ∧
      Splits (blanks ++ (text ++ behind)) (front ++ pieces) rest

/-- A space is a boundary. -/
theorem atBoundary_space (more : List Char) : AtBoundary (' ' :: more) := by
  intro c hc
  cases hc
  decide

/-- A closing parenthesis is one as well, with or without spaces before it. -/
theorem atBoundary_closing (margin : Nat) (more : List Char) :
    AtBoundary (List.replicate margin ' ' ++ ')' :: more) := by
  intro c hc
  cases margin with
  | zero =>
    cases hc
    decide
  | succ margin =>
    cases hc
    decide

theorem isBlank_of_mem_replicate {margin : Nat} {c : Char} (h : c ∈ List.replicate margin ' ') :
    isBlank c = true := by
  rw [List.eq_of_mem_replicate h]
  decide

section Writes

variable {text text' : List Char} {ls ls' : List Lexeme}

theorem writes_lexeme {l : Lexeme} (formed : l.WellFormed) : Writes l.spelling [l] := by
  intro blanks behind rest pieces inside boundary splits
  have longest := Scan.of_eq_lexeme_iff.1 (Scan.of_spelling_append formed boundary)
  exact ⟨[⟨blanks, l⟩], rfl, .piece inside longest splits⟩

/-- A sign that is a lexeme in front of everything may stand right before a text. -/
theorem Writes.sign {l : Lexeme} {c : Char} (spelled : l.spelling = [c])
    (scanned : ∀ more, Scan.of (c :: more) = .lexeme l) (h : Writes text ls) :
    Writes (c :: text) (l :: ls) := by
  intro blanks behind rest pieces inside boundary splits
  obtain ⟨front, same, later⟩ := h [] behind rest pieces
    (fun d hd => absurd hd List.not_mem_nil) boundary splits
  have longest : l.LongestAt (l.spelling ++ (text ++ behind)) := by
    rw [spelled]
    exact Scan.of_eq_lexeme_iff.1 (scanned _)
  refine ⟨⟨blanks, l⟩ :: front, by rw [List.map_cons, same], ?_⟩
  have whole := Splits.piece inside longest later
  rw [spelled] at whole
  exact whole

/-- Blanks may be written in front. -/
theorem Writes.indent {margin : List Char} (inside : ∀ c ∈ margin, isBlank c = true)
    (h : Writes text ls) : Writes (margin ++ text) ls := by
  intro blanks behind rest pieces inside' boundary splits
  have both : ∀ c ∈ blanks ++ margin, isBlank c = true := by
    intro c hc
    rcases List.mem_append.1 hc with hc | hc
    · exact inside' c hc
    · exact inside c hc
  obtain ⟨front, same, whole⟩ := h (blanks ++ margin) behind rest pieces both boundary splits
  rw [List.append_assoc] at whole ⊢
  exact ⟨front, same, whole⟩

/-- One text may stand behind another if it begins at a boundary. -/
theorem Writes.append (h : Writes text ls) (h' : Writes text' ls')
    (boundary : ∀ more, AtBoundary (text' ++ more)) : Writes (text ++ text') (ls ++ ls') := by
  intro blanks behind rest pieces inside boundary' splits
  obtain ⟨front', same', later⟩ := h' [] behind rest pieces
    (fun d hd => absurd hd List.not_mem_nil) boundary' splits
  obtain ⟨front, same, whole⟩ := h blanks (text' ++ behind) rest (front' ++ pieces) inside
    (boundary behind) later
  refine ⟨front ++ front', by rw [List.map_append, same, same'], ?_⟩
  rw [List.append_assoc text, List.append_assoc front]
  exact whole

theorem Writes.enclose (margin : Nat) (needed : Bool) (h : Writes text ls) :
    Writes (Expression.enclose margin needed text) (Expression.encloseLexemes needed ls) := by
  cases needed with
  | false => exact h
  | true =>
    have sign : '(' ∈ punctuationSigns ∧ ')' ∈ punctuationSigns := by decide
    have closing : Writes (List.replicate margin ' ' ++ [')']) [⟨.punctuation, [')']⟩] :=
      (writes_lexeme (.punctuation sign.2)).indent fun c => isBlank_of_mem_replicate
    have inner := h.append closing fun more => by
      rw [List.append_assoc]
      exact atBoundary_closing margin more
    exact (inner.indent fun c => isBlank_of_mem_replicate).sign rfl
      fun more => scan_of_punctuationSign sign.1 more

end Writes

/-- **What is printed is taken apart into the lexemes of the expression.** -/
theorem writes_print (margin : Nat) (e : Expression) : Writes (e.print margin) e.lexemes := by
  induction e with
  | number text formed => exact writes_lexeme formed
  | string text closed => exact writes_lexeme (.string closed)
  | name x => exact writes_lexeme x.wellFormed
  | binary op left right ihl ihr =>
    have space : ∀ c ∈ [' '], isBlank c = true := forall_mem_of_all (by decide)
    have sign : Lexeme.WellFormed ⟨.operator, [op.sign]⟩ :=
      .operator (List.mem_append_left _ op.sign_mem)
    have behind := (ihr.enclose margin (Expression.rightNeeds op right)).indent space
    have middle := (writes_lexeme sign).append behind fun more => atBoundary_space _
    exact (ihl.enclose margin (Expression.leftNeeds op left)).append (middle.indent space)
      fun more => atBoundary_space _
  | negation operand ih =>
    exact (ih.enclose margin (!operand.isNumber)).sign rfl
      fun more => scan_of_operatorSign (by decide) more

/-- A sum is in parentheses under a product, and so is a variable behind a minus sign. -/
example : String.ofList ((Expression.binary .multiply
      (.negation (.name ⟨'x', [], by decide, List.forall_mem_nil _, by decide⟩))
      (.binary .add (.string ['a'] (by decide)) (.string ['b'] (by decide)))).print 0) =
    "-(x) * (\"a\" + \"b\")" := by decide

/-! ### The tree of the printed lexemes -/

theorem map_lexeme_tokensFrom (file : String) (place : Place) (pieces : List Piece) :
    (tokensFrom file place pieces).map Token.lexeme = pieces.map Piece.lexeme := by
  induction pieces generalizing place with
  | nil => rfl
  | cons piece pieces ih =>
    simp only [tokensFrom, List.map_cons, ih, Token.lexeme_mk]

theorem text_of_lexeme {t : Token} {l : Lexeme} (h : t.lexeme = l) :
    t.kind = l.kind ∧ t.text = String.ofList l.text := by
  subst h
  exact ⟨rfl, String.ofList_toList.symm⟩

theorem isPunctuation_of_lexeme {t : Token} {text : List Char}
    (h : t.lexeme = ⟨.punctuation, text⟩) : t.isPunctuation (String.ofList text) = true := by
  obtain ⟨kind, same⟩ := text_of_lexeme h
  simp [Token.isPunctuation, kind, same]

theorem isOperator_of_lexeme {t : Token} {text : List Char} {symbols : List String}
    (h : t.lexeme = ⟨.operator, text⟩) (among : String.ofList text ∈ symbols) :
    t.isOperator symbols = true := by
  obtain ⟨kind, same⟩ := text_of_lexeme h
  simp [Token.isOperator, kind, same, among]

/-- The same value, or the same cause with a location. -/
inductive Agrees : Except Cause Value → Except Fault Value → Prop
  | ok (v : Value) : Agrees (.ok v) (.ok v)
  | error (cause : Cause) (p : Location) : Agrees (.error cause) (.error (.diagnostic ⟨cause, p⟩))

theorem Agrees.of_ok {v : Value} {result : Except Fault Value} (h : Agrees (.ok v) result) :
    result = .ok v := by
  cases h
  rfl

theorem Agrees.of_error {cause : Cause} {result : Except Fault Value}
    (h : Agrees (.error cause) result) : ∃ p, result = .error (.diagnostic ⟨cause, p⟩) := by
  cases h with
  | error cause p => exact ⟨p, rfl⟩

theorem Agrees.bind {result : Except Cause Value} {result' : Except Fault Value}
    {f : Value → Except Cause Value} {g : Value → Except Fault Value} (h : Agrees result result')
    (hf : ∀ v, Agrees (f v) (g v)) : Agrees (result >>= f) (result' >>= g) := by
  cases h with
  | ok v => exact hf v
  | error cause p => exact .error cause p

theorem agrees_mapError (result : Except Cause Value) (p : Location) :
    Agrees result ((result.mapError fun cause => (⟨cause, p⟩ : Diagnostic)).mapError
      Fault.diagnostic) := by
  cases result with
  | ok v => exact .ok v
  | error cause => exact .error cause p

theorem agrees_apply {t : Token} {op : Operator} (same : t.text = op.symbol) (x y : Value) :
    Agrees (op.combine x y) ((apply x t y).mapError .diagnostic) := by
  simp only [apply, same, Operator.ofSymbol?_symbol]
  exact agrees_mapError _ _

/-- One minus sign changes the sign of its operand. -/
theorem agrees_negate (minus : Token) (x : Value) :
    Agrees x.opposite (x.negated minus 1) := by
  cases x with
  | number x => exact .ok (.number (-x))
  | text s => exact .error (.negatedType .text) minus.location

/-- Tokens made of these lexemes are derived at the level, as a tree of the same value. -/
def Derived (e : Expression) (level : Option Level) (ls : List Lexeme) : Prop :=
  ∀ ts : List Token, ts.map Token.lexeme = ls →
    ∃ tree, (∀ rest, Derives level (ts ++ rest) tree rest) ∧
      ∀ bindings, Agrees (e.value bindings) (tree.value bindings)

/-- A single token is a primary. -/
theorem derived_single {e : Expression} {l : Lexeme}
    (h : ∀ t : Token, t.kind = l.kind → t.text = String.ofList l.text →
      ∃ tree, (∀ rest, Derives none (t :: rest) tree rest) ∧
        ∀ bindings, Agrees (e.value bindings) (tree.value bindings)) : Derived e none [l] := by
  intro ts same
  obtain ⟨t, nothing, rfl, made, empty⟩ := List.map_eq_cons_iff.1 same
  obtain rfl := List.map_eq_nil_iff.1 empty
  obtain ⟨kind, text⟩ := text_of_lexeme made
  exact h t kind text

/-- A literal writes the number that it stands for. -/
theorem agrees_number {text : List Char} (formed : Lexeme.WellFormed ⟨.number, text⟩)
    (bindings : Table Value) :
    Agrees ((Expression.number text formed).value bindings)
      ((Tree.number (String.ofList text)).value bindings) := by
  obtain ⟨x, known⟩ := Option.isSome_iff_exists.1 (Number.isSome_read? formed)
  simp only [Expression.value, Tree.value, known, Option.get_some]
  exact .ok _

/-- Tokens in parentheses are a group. -/
theorem Derived.group {e : Expression} {level : Option Level} {ls : List Lexeme}
    (h : Derived e level ls) {ts : List Token}
    (same : ts.map Token.lexeme = Expression.encloseLexemes true ls) :
    ∃ opening closing inner tree, ts = opening :: (inner ++ [closing]) ∧
      opening.isPunctuation "(" = true ∧ closing.isPunctuation ")" = true ∧
      (∀ rest, Derives (some .sum) (inner ++ closing :: rest) tree (closing :: rest)) ∧
      ∀ bindings, Agrees (e.value bindings) (tree.value bindings) := by
  obtain ⟨opening, ts', rfl, first, same'⟩ := List.map_eq_cons_iff.1 same
  obtain ⟨inner, last, rfl, same₁, same₂⟩ := List.map_eq_append_iff.1 same'
  obtain ⟨closing, nothing, rfl, ending, empty⟩ := List.map_eq_cons_iff.1 same₂
  obtain rfl := List.map_eq_nil_iff.1 empty
  obtain ⟨tree, derives, agrees⟩ := h inner same₁
  refine ⟨opening, closing, inner, tree, rfl, isPunctuation_of_lexeme first,
    isPunctuation_of_lexeme ending, fun rest => ?_, agrees⟩
  exact (derives (closing :: rest)).loosen (Nat.zero_le _)

/-- An operand is derived at the level of its place, in parentheses if it does not fit there. -/
theorem Derived.enclose {e : Expression} {ls : List Lexeme} (h : Derived e e.level ls)
    {level : Option Level} {needed : Bool}
    (fits : needed = false → Level.tightness level ≤ Level.tightness e.level) :
    Derived e level (Expression.encloseLexemes needed ls) := by
  intro ts same
  cases needed with
  | false =>
    obtain ⟨tree, derives, agrees⟩ := h ts same
    exact ⟨tree, fun rest => (derives rest).loosen (fits rfl), agrees⟩
  | true =>
    obtain ⟨opening, closing, inner, tree, rfl, ho, hc, derives, agrees⟩ := h.group same
    refine ⟨.group tree, fun rest => ?_, agrees⟩
    have group : Derives none (opening :: (inner ++ closing :: rest)) (.group tree) rest :=
      .group ho hc (derives rest)
    rw [List.cons_append, List.append_assoc]
    exact group.loosen (Level.tightness_le level)

/-- A minus sign takes the number behind it, or else the parentheses. -/
theorem derived_negation {operand : Expression}
    (h : Derived operand operand.level operand.lexemes) :
    Derived (.negation operand) none (Expression.negation operand).lexemes := by
  intro ts same
  obtain ⟨minus, ts', rfl, first, same'⟩ := List.map_eq_cons_iff.1 same
  have sign : minus.isOperator ["-"] = true := isOperator_of_lexeme first (by decide)
  have signs : ∀ u ∈ [minus], u.isOperator ["-"] = true := by
    intro u hu
    rw [List.mem_singleton.1 hu]
    exact sign
  by_cases number : operand.isNumber = true
  · cases operand with
    | number text formed =>
      obtain ⟨t, nothing, rfl, literal, empty⟩ := List.map_eq_cons_iff.1 same'
      obtain rfl := List.map_eq_nil_iff.1 empty
      obtain ⟨kind, read⟩ := text_of_lexeme literal
      refine ⟨_, fun rest => @Derives.negatedNumber minus t [] rest signs kind,
        fun bindings => ?_⟩
      rw [read]
      exact (agrees_number formed bindings).bind (agrees_negate minus)
    | _ => cases number
  · rw [Bool.not_eq_true] at number
    rw [number] at same'
    obtain ⟨opening, closing, inner, tree, rfl, ho, hc, derives, agrees⟩ := h.group same'
    refine ⟨.negation minus 1 (.group tree), fun rest => ?_, fun bindings => ?_⟩
    · have whole : minus :: opening :: (inner ++ [closing]) ++ rest =
          minus :: ([] ++ opening :: (inner ++ closing :: rest)) := by simp
      rw [whole]
      exact .negatedGroup signs ho hc (derives rest)
    · exact (agrees bindings).bind (agrees_negate minus)

/-- **The lexemes of an expression are derived at its level**, as a tree of the same value. -/
theorem exists_derives (e : Expression) : Derived e e.level e.lexemes := by
  induction e with
  | number text formed =>
    refine derived_single fun t kind read => ⟨.number t.text, fun rest => .number kind, ?_⟩
    rw [read]
    exact agrees_number formed
  | string text closed =>
    refine derived_single fun t kind read => ⟨.string t.text, fun rest => .string kind, ?_⟩
    rw [read]
    exact fun bindings => .ok _
  | name x =>
    refine derived_single fun t kind read => ⟨.name t, fun rest => .name kind, ?_⟩
    intro bindings
    simp only [Expression.value, Tree.value, read]
    cases bindings.get? (String.ofList x.text) with
    | some v => exact .ok v
    | none => exact .error _ t.location
  | binary op left right ihl ihr =>
    intro ts same
    obtain ⟨before, ts', rfl, sameL, same'⟩ := List.map_eq_append_iff.1 same
    obtain ⟨t, behind, rfl, middle, sameR⟩ := List.map_eq_cons_iff.1 same'
    obtain ⟨-, text⟩ := text_of_lexeme middle
    rw [← op.symbol_eq] at text
    have operator : t.isOperator op.level.symbols = true := by
      refine isOperator_of_lexeme middle ?_
      rw [← op.symbol_eq]
      exact op.symbol_mem
    have fitsL (bare : Expression.leftNeeds op left = false) :
        Level.tightness (some op.level) ≤ Level.tightness left.level := by
      simp only [Expression.leftNeeds, decide_eq_false_iff_not] at bare
      omega
    have fitsR (bare : Expression.rightNeeds op right = false) :
        Level.tightness op.level.tighter ≤ Level.tightness right.level := by
      simp only [Expression.rightNeeds, Bool.not_eq_false', decide_eq_true_eq] at bare
      rw [Level.tightness_tighter]
      omega
    obtain ⟨treeL, derivesL, agreesL⟩ := ihl.enclose fitsL before sameL
    obtain ⟨treeR, derivesR, agreesR⟩ := ihr.enclose fitsR behind sameR
    refine ⟨.binary t treeL treeR, fun rest => ?_, fun bindings => ?_⟩
    · rw [List.append_assoc]
      exact .binary (derivesL _) operator (derivesR rest)
    · refine (agreesL bindings).bind fun x => (agreesR bindings).bind fun y => ?_
      exact agrees_apply text x y
  | negation operand ih => exact derived_negation ih

/-! ### The value of the printed text -/

namespace Evaluating

/-- **Printing and evaluating.** A run over the text of an expression that raises and does not
clear the variables at groups returns the value of the expression and no other, or ends with the
cause that the evaluation of the expression meets first. This is so with any number of spaces
between parentheses and what they enclose. -/
theorem evaluateAll_print (e : Expression) (margin : Nat) (file : String)
    (bindings : Table Value) :
    let s := Session.ofSource (String.ofList (e.print margin)) file .raise false bindings
    match e.value bindings with
    | .ok v => ∃ t, evaluateAll s = .ok [v] t
    | .error cause => ∃ p t, evaluateAll s = .error (.diagnostic ⟨cause, p⟩) t := by
  intro s
  have nothing : AtBoundary [] := fun c hc => by cases hc
  have blankless : ∀ c ∈ ([] : List Char), isBlank c = true :=
    fun c hc => absurd hc List.not_mem_nil
  obtain ⟨pieces, same, splits⟩ := writes_print margin e [] [] [] [] blankless nothing .done
  rw [List.nil_append, List.append_nil, List.append_nil] at splits
  rw [← String.toList_ofList (l := e.print margin)] at splits
  have tokenizes := tokens_of_splits file splits (.ended blankless)
  have lexemes := (map_lexeme_tokensFrom file .start pieces).trans same
  obtain ⟨tree, derives, agrees⟩ := exists_derives e _ lexemes
  have run := evaluateAll_of_derives bindings tokenizes rfl ((derives _).loosen (Nat.zero_le _))
  have agreed := agrees bindings
  cases valued : e.value bindings with
  | ok v =>
    rw [valued] at agreed
    rw [agreed.of_ok] at run
    exact run
  | error cause =>
    rw [valued] at agreed
    obtain ⟨p, failed⟩ := agreed.of_error
    rw [failed] at run
    obtain ⟨t, run⟩ := run
    exact ⟨p, t, run⟩

end Evaluating

end Reckoner
