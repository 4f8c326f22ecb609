import Reckoner.Proofs.Grammar
import Reckoner.Proofs.Linking
import Reckoner.Proofs.Operations
import Reckoner.Proofs.Scanning

/-!
# Two runs of the rules side by side

A `Pairing` is a link of sessions together with the tokens and the causes of diagnostics that
correspond. It asks for what the rules rely on: above all, that tokens taken from states that
correspond do so themselves, and that the states correspond again once the tokens are put back.

For each pairing the rules for expressions lead from states that correspond to equal values in
such states. Both runs need only enough fuel for what is left to be read; it need not be the
same.

* `ends_evaluate` — one expression.
-/

namespace Reckoner

/-- The session with a token before all others. -/
def Session.push (t : Token) (s : Session) : Session := { s with reader := s.reader.push t }

/-- Both sessions report, under the same policy: it ends both runs, or both note it. -/
theorem Link.ends_report {M : Link Session} {l r : Session} {d e : Diagnostic}
    (states : M.states l r) (policy : l.reader.journal.policy = r.reader.journal.policy)
    (raised : M.faults (.diagnostic d) (.diagnostic e))
    (noted : M.states { l with reader := l.reader.note (.collected d) }
      { r with reader := r.reader.note (.collected e) }) :
    M.Ends
      (fun _ l' _ r' => M.states l' r' ∧ l'.reader.weight = l.reader.weight ∧
        r'.reader.weight = r.reader.weight)
      (Evaluating.reading (Reading.report d) l) (Evaluating.reading (Reading.report e) r) := by
  cases left : l.reader.journal.policy with
  | raise =>
    have right := policy.symm.trans left
    rw [Evaluating.reading_of_error (Reading.report_of_raise d left),
      Evaluating.reading_of_error (Reading.report_of_raise e right)]
    exact .error raised states
  | collect =>
    have right := policy.symm.trans left
    rw [Evaluating.reading_of_ok (Reading.report_of_collect d left),
      Evaluating.reading_of_ok (Reading.report_of_collect e right)]
    exact .ok ⟨noted, rfl, rfl⟩

open Evaluating in
/-- A link between sessions, with the tokens and the causes that correspond, and what the rules
need to hold of them. -/
structure Pairing extends Link Session where
  tokens : Token → Token → Prop
  causes : Cause → Cause → Prop
  keeps : toLink.Keeps Step
  /-- Tokens that correspond are the same, or both end a statement. -/
  alike {t u : Token} : tokens t u → t.kind = u.kind ∧ t.text = u.text ∨
    t.kind.endsStatement = true ∧ u.kind.endsStatement = true
  /-- All that the rules report besides a missing expression or parenthesis. -/
  known {c : Cause} : c.OfRules → causes c c
  missingExpression {t u : Token} : tokens t u →
    causes (.missingExpression t.kind t.text) (.missingExpression u.kind u.text)
  openGroup {t u : Token} : tokens t u →
    causes (.openGroup t.kind t.text) (.openGroup u.kind u.text)
  numeral {t u : Token} : tokens t u → t.kind = .number → Number.read? t.text = none →
    faults (.numeral t.text) (.numeral t.text)
  undefined {t u : Token} : tokens t u →
    faults (.diagnostic ⟨.undefinedVariable t.text, t.location⟩)
      (.diagnostic ⟨.undefinedVariable t.text, u.location⟩)
  bindings {l r : Session} : states l r → l.bindings = r.bindings
  next {l r : Session} : states l r →
    toLink.Ends (fun t l' u r' => tokens t u ∧ states (l'.push t) (r'.push u) ∧
      (t.kind.endsStatement = false → states l' r')) (next l) (next r)
  /-- What is reported is reported where tokens stand that correspond. -/
  report {l r : Session} {t u : Token} {c c' : Cause} : tokens t u → states l r → causes c c' →
    toLink.Ends (fun _ l' _ r' => states l' r' ∧ l'.reader.weight = l.reader.weight ∧
        r'.reader.weight = r.reader.weight)
      (reading (Reading.report ⟨c, t.location⟩) l) (reading (Reading.report ⟨c', u.location⟩) r)
  endGroup {l r : Session} : states l r → states (after endGroup l) (after endGroup r)

namespace Pairing

variable (P : Pairing)

/-- States that correspond, with no more than so much left to be read on each side. -/
structure Within (i j : Nat) (l r : Session) : Prop where
  states : P.states l r
  left : l.reader.weight ≤ i
  right : r.reader.weight ≤ j

/-- Two tokens have been taken. Put back they lead to states within the bounds, and those behind
them correspond unless the tokens end a statement. -/
structure Taken (i j : Nat) (t : Token) (l : Session) (u : Token) (r : Session) : Prop where
  tokens : P.tokens t u
  pushed : P.Within i j (l.push t) (r.push u)
  inside : t.kind.endsStatement = false → P.states l r

/-- The same result, in states within the bounds. -/
def Same {α : Type} (i j : Nat) (x : α) (l : Session) (y : α) (r : Session) : Prop :=
  x = y ∧ P.Within i j l r

variable {P} {i j i' j' : Nat} {l r : Session} {t u : Token}

theorem Within.mono (h : P.Within i j l r) (hi : i ≤ i') (hj : j ≤ j') : P.Within i' j' l r :=
  ⟨h.states, Nat.le_trans h.left hi, Nat.le_trans h.right hj⟩

theorem Same.mono {α : Type} {x y : α} (h : P.Same i j x l y r) (hi : i ≤ i') (hj : j ≤ j') :
    P.Same i' j' x l y r :=
  ⟨h.1, h.2.mono hi hj⟩

/-! ### Tokens that correspond -/

section Tokens

variable (h : P.tokens t u)
include h

theorem endsStatement_eq : u.kind.endsStatement = t.kind.endsStatement := by
  rcases P.alike h with ⟨kind, -⟩ | ⟨ht, hu⟩
  · rw [kind]
  · rw [ht, hu]

theorem kind_eq_iff {kind : TokenKind} (inside : kind.endsStatement = false) :
    t.kind = kind ↔ u.kind = kind := by
  rcases P.alike h with ⟨same, -⟩ | ⟨ht, hu⟩
  · rw [same]
  · constructor
    · intro hk
      rw [hk, inside] at ht
      cases ht
    · intro hk
      rw [hk, inside] at hu
      cases hu

/-- Inside a statement they are the same. -/
theorem same_of_inside (inside : t.kind.endsStatement = false) :
    t.kind = u.kind ∧ t.text = u.text := by
  rcases P.alike h with same | ⟨ht, -⟩
  · exact same
  · rw [ht] at inside
    cases inside

theorem isOperator_eq (symbols : List String) : u.isOperator symbols = t.isOperator symbols := by
  rcases P.alike h with ⟨kind, text⟩ | ⟨ht, hu⟩
  · rw [Token.isOperator, Token.isOperator, kind, text]
  · have apart {v : Token} (hv : v.kind.endsStatement = true) : v.isOperator symbols = false :=
      Bool.eq_false_iff.2 fun operator => by
        rw [inside_of_isOperator operator] at hv
        cases hv
    rw [apart ht, apart hu]

theorem isPunctuation_eq (symbol : String) :
    u.isPunctuation symbol = t.isPunctuation symbol := by
  rcases P.alike h with ⟨kind, text⟩ | ⟨ht, hu⟩
  · rw [Token.isPunctuation, Token.isPunctuation, kind, text]
  · have apart {v : Token} (hv : v.kind.endsStatement = true) : v.isPunctuation symbol = false :=
      Bool.eq_false_iff.2 fun sign => by
        rw [inside_of_isPunctuation sign] at hv
        cases hv
    rw [apart ht, apart hu]

end Tokens

/-- Behind a token inside a statement less is left on both sides. -/
theorem Taken.step (h : P.Taken i j t l u r) (inside : t.kind.endsStatement = false) :
    ∃ i' j', i = i' + 1 ∧ j = j' + 1 ∧ P.Within i' j' l r := by
  have ht := (TokenKind.inside_iff.1 inside).1
  have hu : u.kind ≠ .endOfInput := by
    rw [← (same_of_inside h.tokens inside).1]
    exact ht
  have left : (l.reader.push t).weight ≤ i := h.pushed.left
  have right : (r.reader.push u).weight ≤ j := h.pushed.right
  rw [Reader.weight_push_of_ne ht] at left
  rw [Reader.weight_push_of_ne hu] at right
  exact ⟨i - 1, j - 1, by omega, by omega, h.inside inside, by omega, by omega⟩

theorem Taken.mono (h : P.Taken i j t l u r) (hi : i ≤ i') (hj : j ≤ j') :
    P.Taken i' j' t l u r :=
  ⟨h.tokens, h.pushed.mono hi hj, h.inside⟩

/-- Inside a statement two tokens add one to what is left on each side. -/
theorem taken_of_states (tokens : P.tokens t u) (states : P.states l r)
    (pushed : P.states (l.push t) (r.push u)) (inside : t.kind.endsStatement = false) :
    P.Taken (l.reader.weight + 1) (r.reader.weight + 1) t l u r := by
  have ht := (TokenKind.inside_iff.1 inside).1
  have hu : u.kind ≠ .endOfInput := by
    rw [← (same_of_inside tokens inside).1]
    exact ht
  refine ⟨tokens, ⟨pushed, Nat.le_of_eq ?_, Nat.le_of_eq ?_⟩, fun _ => states⟩
  · exact Reader.weight_push_of_ne ht l.reader
  · exact Reader.weight_push_of_ne hu r.reader

end Pairing

namespace Evaluating

open Pairing (same_of_inside isOperator_eq isPunctuation_eq kind_eq_iff endsStatement_eq)

variable {P : Pairing} {i j : Nat} {l r : Session} {t u : Token}

/-! ### Steps -/

/-- Put back, a token that has been taken weighs no more than what was there before. -/
theorem weight_push_of_next {s v : Session} (taken : next s = .ok t v) :
    (v.push t).reader.weight ≤ s.reader.weight := by
  obtain ⟨q, first, rfl⟩ := reading_eq_ok taken
  exact Reader.weight_push_of_next first

theorem weight_lt_of_next {s v : Session} (taken : next s = .ok t v)
    (last : t.kind ≠ .endOfInput) : v.reader.weight < s.reader.weight := by
  obtain ⟨q, first, rfl⟩ := reading_eq_ok taken
  exact Reader.weight_lt_of_next first last

theorem ends_next (h : P.Within i j l r) : P.Ends (P.Taken i j) (next l) (next r) := by
  refine (P.next h.states).imp fun t l' u r' ranL ranR taken => ?_
  refine ⟨taken.1, ⟨taken.2.1, ?_, ?_⟩, taken.2.2⟩
  · exact Nat.le_trans (weight_push_of_next ranL) h.left
  · exact Nat.le_trans (weight_push_of_next ranR) h.right

theorem ends_pure {α : Type} (x : α) (h : P.Within i j l r) :
    P.Ends (P.Same i j) ((pure x : Evaluating α) l) ((pure x : Evaluating α) r) :=
  .ok ⟨rfl, h⟩

theorem ends_recover {c c' : Cause} (same : P.tokens t u) (h : P.Within i j l r)
    (hc : P.causes c c') :
    P.Ends (P.Same i j) (recover ⟨c, t.location⟩ l) (recover ⟨c', u.location⟩ r) := by
  refine (P.report same h.states hc).bind P.keeps fun _ l' _ r' reported => ?_
  obtain ⟨states, left, right⟩ := reported
  exact .ok ⟨rfl, states, left ▸ h.left, right ▸ h.right⟩

theorem ends_numeral (same : P.tokens t u) (number : t.kind = .number) (h : P.Within i j l r) :
    P.Ends (P.Same i j) (numeral t l) (numeral u r) := by
  have inside : t.kind.endsStatement = false := by rw [number]; rfl
  unfold numeral
  rw [← (same_of_inside same inside).2]
  cases read : Number.read? t.text with
  | some x => exact ends_pure _ h
  | none => exact .error (P.numeral same number read) h.states

theorem ends_valueOf (same : P.tokens t u) (name : t.kind = .identifier) (h : P.Within i j l r) :
    P.Ends (P.Same i j) (valueOf t l) (valueOf u r) := by
  have inside : t.kind.endsStatement = false := by rw [name]; rfl
  have text := (same_of_inside same inside).2
  have known : r.lookup u.text = l.lookup t.text := by
    rw [Session.lookup, Session.lookup, text, P.bindings h.states]
  unfold valueOf
  rw [known]
  cases l.lookup t.text with
  | some v => exact .ok ⟨rfl, h⟩
  | none =>
    rw [← text]
    exact .error (P.undefined same) h.states

theorem ends_settle (same : P.tokens t u) {result : Except Cause Value}
    (known : ∀ cause, result = .error cause → cause.OfRules)
    (h : P.Within i j l r) :
    P.Ends (P.Same i j) (settle (result.mapError fun cause => ⟨cause, t.location⟩) l)
      (settle (result.mapError fun cause => ⟨cause, u.location⟩) r) := by
  cases result with
  | ok v => exact ends_pure v h
  | error cause => exact ends_recover same h (P.known (known cause rfl))

/-- An operation of a level is a known one, on both sides the same. -/
theorem ends_apply {level : Level} (same : P.tokens t u)
    (operator : t.isOperator level.symbols = true) (left right : Value) (h : P.Within i j l r) :
    P.Ends (P.Same i j) (settle (apply left t right) l) (settle (apply left u right) r) := by
  have text := (same_of_inside same (inside_of_isOperator operator)).2
  obtain ⟨known, found⟩ := Option.isSome_iff_exists.1 (isSome_ofSymbol?_of_isOperator operator)
  rw [apply_of_known found, apply_of_known (text ▸ found)]
  exact ends_settle same (fun cause => Operator.ofRules_of_combine) h

/-! ### Rules -/

theorem ends_closeGroup (v : Value) (h : P.Within i j l r) :
    P.Ends (P.Same i j) (closeGroup v l) (closeGroup v r) := by
  refine (ends_next h).bind P.keeps fun t l' u r' taken => ?_
  refine .ite (by rw [isPunctuation_eq taken.tokens]) (fun closing => ?_) fun _ => ?_
  · obtain ⟨i', j', rfl, rfl, within⟩ := taken.step (inside_of_isPunctuation closing)
    exact ends_pure v (within.mono (Nat.le_succ _) (Nat.le_succ _))
  · exact ends_recover (l := l'.push t) (r := r'.push u) taken.tokens taken.pushed
      (P.openGroup taken.tokens)

/-- The action `a` runs against `b` within all bounds below `n` and `m`. -/
def Pairs (P : Pairing) (n m : Nat) (a b : Evaluating Value) : Prop :=
  ∀ (i j : Nat) (l r : Session), i < n → j < m → P.Within i j l r →
    P.Ends (P.Same i j) (a l) (b r)

theorem ends_group {n m : Nat} {nested nested' : Evaluating Value} [Composed Step nested]
    (hn : Pairs P n m nested nested') (hi : i < n) (hj : j < m) (h : P.Within i j l r) :
    P.Ends (P.Same i j) (group nested l) (group nested' r) := by
  refine (hn i j l r hi hj h).bind P.keeps fun v l' _ r' ended => ?_
  obtain ⟨rfl, within⟩ := ended
  have ended (s : Session) : endGroup s = .ok () (after endGroup s) := by
    unfold after endGroup
    cases s.clearOnGroup <;> rfl
  have weight (s : Session) : (after endGroup s).reader.weight = s.reader.weight := by
    rcases after_endGroup s with h | h <;> rw [h]
    rfl
  rw [bind_of_ok (ended l'), bind_of_ok (ended r')]
  refine ends_closeGroup v ⟨P.endGroup within.states, ?_, ?_⟩
  · rw [weight]
    exact within.left
  · rw [weight]
    exact within.right

/-- Both chains have as many signs, and the tokens behind them have been taken. -/
theorem ends_minusChain {n m : Nat} (odd : Bool) (taken : P.Taken i j t l u r) (hi : i < n)
    (hj : j < m) :
    P.Ends (fun p l' q r' => p.1 = q.1 ∧ P.Taken i j p.2 l' q.2 r')
      (minusChain n odd t l) (minusChain m odd u r) := by
  induction n generalizing i j m odd t u l r with
  | zero => exact absurd hi (Nat.not_lt_zero _)
  | succ n ih =>
    obtain ⟨m, rfl⟩ : ∃ k, m = k + 1 := ⟨m - 1, by omega⟩
    rw [minusChain_succ, minusChain_succ]
    refine .ite (by rw [isOperator_eq taken.tokens]) (fun sign => ?_) fun _ => .ok ⟨rfl, taken⟩
    obtain ⟨i', j', rfl, rfl, within⟩ := taken.step (inside_of_isOperator sign)
    refine (ends_next within).bind P.keeps fun t' l' u' r' taken' => ?_
    refine (ih (!odd) taken' (by omega) (by omega)).imp fun p l q r _ _ ended => ?_
    obtain ⟨same, behind⟩ := ended
    exact ⟨same, behind.mono (Nat.le_succ _) (Nat.le_succ _)⟩

theorem ends_negated {n m : Nat} {nested nested' : Evaluating Value} [Composed Step nested]
    (hn : Pairs P n m nested nested') (taken : P.Taken i j t l u r) (hi : i < n) (hj : j < m) :
    P.Ends (P.Same i j) (negated nested t l) (negated nested' u r) := by
  unfold negated
  refine .ite (kind_eq_iff taken.tokens rfl) (fun number => ?_) fun _ =>
    .ite (by rw [isPunctuation_eq taken.tokens]) (fun opening => ?_) fun _ => ?_
  · have inside : t.kind.endsStatement = false := by rw [number]; rfl
    obtain ⟨i', j', rfl, rfl, within⟩ := taken.step inside
    exact ends_numeral taken.tokens number (within.mono (Nat.le_succ _) (Nat.le_succ _))
  · obtain ⟨i', j', rfl, rfl, within⟩ := taken.step (inside_of_isPunctuation opening)
    have run := hn _ _ l r hi hj (within.mono (Nat.le_succ _) (Nat.le_succ _))
    refine run.bind P.keeps fun v l' _ r' ended => ?_
    obtain ⟨rfl, within'⟩ := ended
    exact ends_closeGroup v within'
  · exact hn i j (l.push t) (r.push u) hi hj taken.pushed

theorem ends_negation {n m : Nat} {nested nested' : Evaluating Value} [Composed Step nested]
    (hn : Pairs P n m nested nested') (minus : P.tokens t u) (sign : t.isOperator ["-"] = true)
    (within : P.Within i j l r) (hi : i < n) (hj : j < m) :
    P.Ends (P.Same i j) (negation (n + 1) nested t l) (negation (m + 1) nested' u r) := by
  have sign' : u.isOperator ["-"] = true := by rw [isOperator_eq minus, sign]
  have chain : P.Ends (fun p l' q r' => p.1 = q.1 ∧ P.Taken i j p.2 l' q.2 r')
      (minusChain (n + 1) false t l) (minusChain (m + 1) false u r) := by
    rw [minusChain_succ, minusChain_succ, if_pos sign, if_pos sign']
    exact (ends_next within).bind P.keeps fun t' l' u' r' taken' =>
      ends_minusChain true taken' hi hj
  refine chain.bind P.keeps (fun p l' q r' ended => ?_)
    (c := fun p => .bind (composed_negated p.2) fun v => by split <;> infer_instance)
  obtain ⟨odd, t'⟩ := p
  obtain ⟨odd', u'⟩ := q
  obtain ⟨same, behind⟩ := ended
  cases same
  refine (ends_negated hn behind hi hj).bind P.keeps
    (fun v l'' _ r'' ended => ?_) (c := fun v => by split <;> infer_instance)
  obtain ⟨rfl, within'⟩ := ended
  cases v with
  | number x => exact ends_pure _ within'
  | text w => exact ends_recover minus within' (P.known ⟨fun symbol => by simp, by simp [Cause.kind]⟩)

theorem belongsOutside_eq (h : P.tokens t u) : belongsOutside u = belongsOutside t := by
  rw [belongsOutside, belongsOutside, endsStatement_eq h, isPunctuation_eq h]

/-- A token that belongs to the expression is used up by the primary. -/
theorem ends_primaryFrom {n m : Nat} {nested nested' : Evaluating Value} [Composed Step nested]
    (hn : Pairs P n m nested nested') (hi : i < n) (hj : j < m) (ht : belongsOutside t = false)
    (same : P.tokens t u) (within : P.Within i j l r) :
    P.Ends (P.Same i j) (primaryFrom (n + 1) nested t l) (primaryFrom (m + 1) nested' u r) := by
  have text := (same_of_inside same (Bool.or_eq_false_iff.1 ht).1).2
  refine .ite (kind_eq_iff same rfl) (fun number => ends_numeral same number within) fun _ =>
    .ite (kind_eq_iff same rfl) (fun _ => text ▸ ends_pure _ within) fun _ =>
    .ite (kind_eq_iff same rfl) (fun name => ends_valueOf same name within) fun _ =>
    .ite (by rw [isPunctuation_eq same]) (fun _ => ends_group hn hi hj within) fun _ =>
    .ite (by rw [isOperator_eq same]) (fun sign => ?_) fun _ => ?_
  · exact ends_negation hn same sign within hi hj
  · unfold noExpression leaveOutside
    rw [belongsOutside_eq same, ht]
    exact ends_recover (l := l) (r := r) same within (P.missingExpression same)

/-- A token that does not belong to the expression is put back. -/
theorem primaryFrom_of_outside (fuel : Nat) (nested : Evaluating Value) (s : Session)
    (h : belongsOutside t = true) : primaryFrom fuel nested t s =
      recover ⟨.missingExpression t.kind t.text, t.location⟩ (s.push t) := by
  have run : noExpression t s =
      recover ⟨.missingExpression t.kind t.text, t.location⟩ (s.push t) := by
    unfold noExpression leaveOutside
    rw [h]
    rfl
  have apart (kind : TokenKind) (inside : kind.endsStatement = false) (hk : kind ≠ .punctuation) :
      t.kind ≠ kind := by
    rintro rfl
    rcases Bool.or_eq_true_iff.1 h with ends | closing
    · rw [inside] at ends
      cases ends
    · exact hk (kind_of_isPunctuation closing)
  have unopened : ¬ t.isPunctuation "(" = true := by
    intro opening
    rcases Bool.or_eq_true_iff.1 h with ends | closing
    · rw [inside_of_isPunctuation opening] at ends
      cases ends
    · have two := (beq_iff_eq.1 (Bool.and_eq_true_iff.1 opening).2).symm.trans
        (beq_iff_eq.1 (Bool.and_eq_true_iff.1 closing).2)
      simp at two
  have unsigned : ¬ t.isOperator ["-"] = true := fun sign =>
    apart .operator rfl (by decide) (kind_of_isOperator sign)
  rw [← run, primaryFrom, if_neg (apart .number rfl (by decide)),
    if_neg (apart .string rfl (by decide)), if_neg (apart .identifier rfl (by decide)),
    if_neg unopened, if_neg unsigned]

theorem pairs_primary {n m : Nat} {nested nested' : Evaluating Value} [Composed Step nested]
    (hn : Pairs P n m nested nested') :
    Pairs P (n + 1) (m + 1) (primary (n + 1) nested) (primary (m + 1) nested') := by
  intro i j l r hi hj within
  rw [primary_eq, primary_eq]
  refine (ends_next within).bind P.keeps fun t l' u r' taken => ?_
  cases ht : belongsOutside t with
  | true =>
    rw [primaryFrom_of_outside _ _ _ ht,
      primaryFrom_of_outside _ _ _ ((belongsOutside_eq taken.tokens).trans ht)]
    exact ends_recover taken.tokens taken.pushed (P.missingExpression taken.tokens)
  | false =>
    obtain ⟨i', j', rfl, rfl, behind⟩ := taken.step (Bool.or_eq_false_iff.1 ht).1
    refine (ends_primaryFrom hn (by omega) (by omega) ht taken.tokens behind).imp
      fun _ _ _ _ _ _ same => ?_
    exact same.mono (Nat.le_succ _) (Nat.le_succ _)

theorem ends_chain {n m k k' : Nat} (level : Level) {operand operand' : Evaluating Value}
    [Composed Step operand] (ho : Pairs P n m operand operand') (left : Value)
    (h : P.Within i j l r) (hi : i < n) (hj : j < m) (hk : i < k) (hk' : j < k') :
    P.Ends (P.Same i j) (chain level operand k left l) (chain level operand' k' left r) := by
  induction k generalizing i j k' left l r with
  | zero => exact absurd hk (Nat.not_lt_zero _)
  | succ k ih =>
    obtain ⟨k', rfl⟩ : ∃ n, k' = n + 1 := ⟨k' - 1, by omega⟩
    rw [chain_succ, chain_succ]
    refine (ends_next h).bind P.keeps fun t l' u r' taken => ?_
    refine .ite (by rw [isOperator_eq taken.tokens]) (fun operator => ?_) fun _ => ?_
    · have inside := inside_of_isOperator operator
      obtain ⟨i', j', rfl, rfl, behind⟩ := taken.step inside
      refine (ho i' j' l' r' (by omega) (by omega) behind).bind P.keeps
        fun right l₁ _ r₁ ended => ?_
      obtain ⟨rfl, within₁⟩ := ended
      refine (ends_apply taken.tokens operator left right within₁).bind P.keeps
        fun value l₂ _ r₂ ended => ?_
      obtain ⟨rfl, within₂⟩ := ended
      refine (ih value within₂ (by omega) (by omega) (by omega) (by omega)).imp
        fun _ _ _ _ _ _ same => ?_
      exact same.mono (Nat.le_succ _) (Nat.le_succ _)
    · exact ends_pure (l := l'.push t) (r := r'.push u) left taken.pushed

theorem ends_joined {n m : Nat} (level : Level) {operand operand' : Evaluating Value}
    [Composed Step operand] (ho : Pairs P n m operand operand') (hi : i < n) (hj : j < m)
    (first : P.Ends (P.Same i j) (operand l) (operand' r)) :
    P.Ends (P.Same i j) (joined level n operand l) (joined level m operand' r) := by
  refine first.bind P.keeps fun left l' _ r' ended => ?_
  obtain ⟨rfl, within⟩ := ended
  exact ends_chain level ho left within hi hj hi hj

theorem pairs_joined {n m : Nat} (level : Level) {operand operand' : Evaluating Value}
    [Composed Step operand] (ho : Pairs P n m operand operand') :
    Pairs P n m (joined level n operand) (joined level m operand') :=
  fun i j l r hi hj within => ends_joined level ho hi hj (ho i j l r hi hj within)

theorem pairs_expression (n m : Nat) : Pairs P n m (expression n) (expression m) := by
  induction n generalizing m with
  | zero => exact fun i j l r hi => absurd hi (Nat.not_lt_zero _)
  | succ n ih =>
    cases m with
    | zero => exact fun i j l r _ hj => absurd hj (Nat.not_lt_zero _)
    | succ m =>
      exact pairs_joined .sum (pairs_joined .product (pairs_joined .power (pairs_primary (ih m))))

/-- **One expression.** From states that correspond it has the same value in both runs. -/
theorem ends_evaluate (h : P.Within i j l r) :
    P.Ends (P.Same i j) (evaluate l) (evaluate r) := by
  have own : P.Within l.reader.weight r.reader.weight l r :=
    ⟨h.states, Nat.le_refl _, Nat.le_refl _⟩
  rw [evaluate_eq, evaluate_eq]
  refine (pairs_expression _ _ _ _ l r l.reader.weight_lt_budget r.reader.weight_lt_budget
    own).imp fun _ _ _ _ _ _ same => ?_
  exact same.mono h.left h.right

end Evaluating

end Reckoner
