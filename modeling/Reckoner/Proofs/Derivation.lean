import Reckoner.Proofs.Delivery
import Reckoner.Proofs.Grammar

/-!
# Evaluating while reading is evaluating a tree

Where the tokens of a source begin with a derivation, the single pass that computes while it
reads gives the value of the derived tree, or its first error, and leaves the tokens behind the
derivation to be read.

The proof is an induction on the derivation. `Loops` is what it carries for a level: the rule
has run up to the point where its loop holds the value of the tree read so far, so that a
derivation that associates to the left meets a loop that goes on from its left operand.
-/

namespace Reckoner

namespace Evaluating

/-! ### Single steps of the rules -/

theorem next_of_delivers {s : Session} {z : Reader} {t : Token} {ts : List Token}
    (h : s.reader.Delivers (t :: ts) z) :
    ∃ q, next s = .ok t { s with reader := q } ∧ q.Delivers ts z := by
  cases h with
  | next first later => exact ⟨_, reading_of_ok first, later⟩

theorem pushBack_eq (t : Token) (s : Session) :
    pushBack t s = .ok () { s with reader := s.reader.push t } := rfl

theorem endGroup_of_kept {s : Session} (h : s.clearOnGroup = false) :
    endGroup s = .ok () s := by
  rw [endGroup, h]
  rfl

theorem chain_of_operator {level : Level} {operand : Evaluating Value} {n : Nat} {left : Value}
    {s s' : Session} {t : Token} (taken : next s = .ok t s')
    (h : t.isOperator level.symbols = true) :
    chain level operand (n + 1) left s =
      (do chain level operand n (← settle (apply left t (← operand))) : Evaluating Value) s' := by
  rw [chain_succ, bind_of_ok taken, if_pos h]

theorem chain_of_other {level : Level} {operand : Evaluating Value} {n : Nat} {left : Value}
    {s s' : Session} {t : Token} (taken : next s = .ok t s')
    (h : t.isOperator level.symbols = false) :
    chain level operand (n + 1) left s =
      .ok left { s' with reader := s'.reader.push t } := by
  rw [chain_succ, bind_of_ok taken, if_neg (by rw [h]; exact Bool.false_ne_true)]
  rfl

theorem minusChain_of_minus {n : Nat} {odd : Bool} {t u : Token} {s s' : Session}
    (h : t.isOperator ["-"] = true) (taken : next s = .ok u s') :
    minusChain (n + 1) odd t s = minusChain n (!odd) u s' := by
  rw [minusChain_succ, if_pos h, bind_of_ok taken]

theorem minusChain_of_other {n : Nat} {odd : Bool} {t : Token} {s : Session}
    (h : t.isOperator ["-"] = false) : minusChain (n + 1) odd t s = .ok (odd, t) s := by
  rw [minusChain_succ, if_neg (by rw [h]; exact Bool.false_ne_true)]
  rfl

/-- A minus chain is taken up to the first other token, and its signs are counted. -/
theorem minusChain_of_delivers {z : Reader} {u : Token} {ts : List Token}
    (other : u.isOperator ["-"] = false) (more : List Token) (minus : Token)
    (h : ∀ t ∈ minus :: more, t.isOperator ["-"] = true) (c : Nat) {n : Nat}
    (enough : more.length + 1 < n) {s : Session}
    (delivered : s.reader.Delivers (more ++ u :: ts) z) :
    ∃ q, minusChain n (decide (c % 2 = 1)) minus s =
        .ok (decide ((c + (more.length + 1)) % 2 = 1), u) { s with reader := q } ∧
      q.Delivers ts z := by
  induction more generalizing minus c n s with
  | nil =>
    obtain ⟨n, rfl⟩ : ∃ k, n = k + 2 := ⟨n - 2, by rw [List.length_nil] at enough; omega⟩
    obtain ⟨q, taken, later⟩ := next_of_delivers delivered
    refine ⟨q, ?_, later⟩
    rw [minusChain_of_minus (h minus List.mem_cons_self) taken, minusChain_of_other other,
      not_decide_odd]
    rfl
  | cons m more ih =>
    obtain ⟨n, rfl⟩ : ∃ k, n = k + 1 := ⟨n - 1, by omega⟩
    obtain ⟨q, taken, later⟩ := next_of_delivers delivered
    have rest := ih m (fun t ht => h t (List.mem_cons_of_mem minus ht)) (c + 1)
      (n := n) (by rw [List.length_cons] at enough; omega) (s := { s with reader := q }) later
    rw [minusChain_of_minus (h minus List.mem_cons_self) taken, not_decide_odd]
    rw [List.length_cons, show c + (more.length + 1 + 1) = c + 1 + (more.length + 1) by omega]
    exact rest

/-! ### Runs on derived tokens -/

/-- From the session the action yields the result; in the case of a value it has changed
nothing but the reader, which delivers the rest. -/
def Gives (z : Reader) (a : Evaluating Value) (s : Session) (result : Except Fault Value)
    (rest : List Token) : Prop :=
  match result with
  | .ok v => ∃ q, a s = .ok v { s with reader := q } ∧ q.Delivers rest z
  | .error fault => ∃ t, a s = .error fault t

/-- An action that does the same as another one behind some tokens gives the same. -/
theorem Gives.of_eq {z q : Reader} {a b : Evaluating Value} {s : Session}
    {result : Except Fault Value} {rest : List Token} (same : a s = b { s with reader := q })
    (h : Gives z b { s with reader := q } result rest) : Gives z a s result rest := by
  unfold Gives at h ⊢
  rw [same]
  exact h

/-- Sequencing: the second action starts with what the first one leaves to be read. -/
theorem Gives.bind {z : Reader} {a : Evaluating Value} {f : Value → Evaluating Value}
    {g : Value → Except Fault Value} {s : Session} {result : Except Fault Value}
    {middle rest : List Token} (h : Gives z a s result middle)
    (hf : ∀ v q, q.Delivers middle z → Gives z (f v) { s with reader := q } (g v) rest) :
    Gives z (a >>= f) s (result >>= g) rest := by
  cases result with
  | error fault =>
    obtain ⟨t, run⟩ := h
    exact ⟨t, bind_of_error run⟩
  | ok v =>
    obtain ⟨q, run, later⟩ := h
    exact .of_eq (bind_of_ok run) (hf v q later)

theorem gives_recover {z : Reader} {s : Session} (d : Diagnostic) (rest : List Token)
    (raising : s.reader.journal.policy = .raise) :
    Gives z (recover d) s (.error (.diagnostic d)) rest :=
  ⟨s, recover_of_raise d raising⟩

theorem gives_settle {z : Reader} {s : Session} (result : Except Diagnostic Value)
    {rest : List Token} (raising : s.reader.journal.policy = .raise)
    (delivered : s.reader.Delivers rest z) :
    Gives z (settle result) s (result.mapError .diagnostic) rest := by
  cases result with
  | ok v => exact ⟨s.reader, rfl, delivered⟩
  | error d => exact gives_recover d rest raising

/-- On these tokens the rule of the level gives the value of the tree. -/
def Runs (z : Reader) (level : Option Level) (ts : List Token) (tree : Tree)
    (rest : List Token) : Prop :=
  ∀ (s : Session) (n : Nat), s.clearOnGroup = false → s.reader.Delivers ts z →
    ts.length ≤ n + 1 →
    Gives z (rule (n + 1) (expression n) level) s (tree.value s.bindings) rest

/-- The outcome is that of the level's loop, entered with the result; or the result is an error
and already the outcome. -/
def Arrives (z : Reader) (level : Level) (operand : Evaluating Value)
    (outcome : Outcome Session Value) (s : Session) (result : Except Fault Value)
    (rest : List Token) : Prop :=
  match result with
  | .ok v => ∃ q m, outcome = chain level operand (m + 1) v { s with reader := q } ∧
      q.Delivers rest z ∧ rest.length ≤ m + 1
  | .error fault => ∃ t, outcome = .error fault t

section Arrives

variable {z : Reader} {level : Level} {operand : Evaluating Value} {s : Session}
  {result : Except Fault Value} {middle rest : List Token} {g : Value → Except Fault Value}

/-- Something is read before the loop is entered. -/
theorem Gives.arrives {a : Evaluating Value} {f : Value → Evaluating Value}
    (h : Gives z a s result middle)
    (hf : ∀ v q, q.Delivers middle z →
      Arrives z level operand (f v { s with reader := q }) s (g v) rest) :
    Arrives z level operand ((a >>= f) s) s (result >>= g) rest := by
  cases result with
  | error fault =>
    obtain ⟨t, run⟩ := h
    exact ⟨t, bind_of_error run⟩
  | ok v =>
    obtain ⟨q, run, later⟩ := h
    rw [bind_of_ok run]
    exact hf v q later

/-- The loop is entered and from there it is entered again. -/
theorem Arrives.bind {outcome : Outcome Session Value}
    (h : Arrives z level operand outcome s result middle)
    (hf : ∀ v q m, q.Delivers middle z → middle.length ≤ m + 1 →
      Arrives z level operand (chain level operand (m + 1) v { s with reader := q }) s (g v) rest) :
    Arrives z level operand outcome s (result >>= g) rest := by
  cases result with
  | error fault => exact h
  | ok v =>
    obtain ⟨q, m, run, later, enough⟩ := h
    rw [run]
    exact hf v q m later enough

end Arrives

/-- On these tokens the rule of the level comes to its loop with the value of the tree. -/
def Loops (z : Reader) (level : Level) (ts : List Token) (tree : Tree)
    (rest : List Token) : Prop :=
  ∀ (s : Session) (n : Nat), s.clearOnGroup = false → s.reader.Delivers ts z →
    ts.length ≤ n + 1 →
    Arrives z level (rule (n + 1) (expression n) level.tighter)
      (rule (n + 1) (expression n) (some level) s) s (tree.value s.bindings) rest

/-- What the induction carries: primaries run, levels come to their loop. -/
def Reaches (z : Reader) : Option Level → List Token → Tree → List Token → Prop
  | none, ts, tree, rest => Runs z none ts tree rest
  | some level, ts, tree, rest => Stops level.tighter rest → Loops z level ts tree rest

/-- The loop ends at the first token that it does not know. -/
theorem Reaches.runs {z : Reader} {level : Option Level} {ts rest : List Token} {tree : Tree}
    (h : Reaches z level ts tree rest) (nonempty : rest ≠ []) (stops : Stops level rest) :
    Runs z level ts tree rest := by
  cases level with
  | none => exact h
  | some level =>
    intro s n kept delivered enough
    have looped := h stops.tighter s n kept delivered enough
    revert looped
    unfold Arrives Gives
    cases tree.value s.bindings with
    | error fault => exact id
    | ok v =>
      rintro ⟨q, m, run, later, -⟩
      obtain ⟨t, rest, rfl⟩ := List.exists_cons_of_ne_nil nonempty
      obtain ⟨q', taken, later'⟩ := next_of_delivers (s := { s with reader := q }) later
      have other : t.isOperator level.symbols = false :=
        stops t rfl level (by rw [Level.upTo_some]; exact List.mem_cons_self)
      refine ⟨q'.push t, ?_, later'.push t⟩
      rw [run, chain_of_other taken other]

/-- After the opening parenthesis: the expression inside, then the closing one. What is done in
between has no effect where groups leave the variables alone. -/
theorem gives_closeGroup {z : Reader} {ts rest : List Token} {closing : Token} {inner : Tree}
    (ih : Reaches z (some .sum) ts inner (closing :: rest))
    (hc : closing.isPunctuation ")" = true) {between : Evaluating Unit}
    (idle : ∀ t : Session, t.clearOnGroup = false → between t = .ok () t) {s : Session} {n : Nat}
    (kept : s.clearOnGroup = false) (delivered : s.reader.Delivers ts z)
    (enough : ts.length ≤ n) (nonempty : ts ≠ []) :
    Gives z (expression n >>= fun v => between >>= fun _ => closeGroup v) s
      (inner.value s.bindings) rest := by
  have stops : Stops (some .sum) (closing :: rest) := by
    intro t ht l _
    cases ht
    rw [Token.isOperator, kind_of_isPunctuation hc]
    rfl
  obtain ⟨n, rfl⟩ : ∃ k, n = k + 1 := by
    have length := List.length_pos_iff.2 nonempty
    exact ⟨n - 1, by omega⟩
  have run := ih.runs (List.cons_ne_nil _ _) stops s n kept delivered enough
  rw [← expression_succ] at run
  rw [← bind_pure (inner.value s.bindings)]
  refine run.bind fun v q later => ?_
  obtain ⟨q', taken, later'⟩ := next_of_delivers (s := { s with reader := q }) later
  refine ⟨q', ?_, later'⟩
  rw [bind_of_ok (idle { s with reader := q } kept)]
  unfold closeGroup
  rw [bind_of_ok taken, if_pos hc]
  rfl

/-! ### Primaries -/

section Primaries

variable {fuel : Nat} {nested : Evaluating Value} {s s' : Session} {t : Token}

/-- The token decides which primary is read. -/
theorem primary_of_next (taken : next s = .ok t s') :
    primary fuel nested s = primaryFrom fuel nested t s' :=
  bind_of_ok taken

theorem primary_of_number (taken : next s = .ok t s') (h : t.kind = .number) :
    primary fuel nested s = numeral t s' := by
  rw [primary_of_next taken, primaryFrom, if_pos h]

theorem primary_of_string (taken : next s = .ok t s') (h : t.kind = .string) :
    primary fuel nested s = .ok (.text t.text) s' := by
  rw [primary_of_next taken, primaryFrom, h]
  rfl

theorem primary_of_name (taken : next s = .ok t s') (h : t.kind = .identifier) :
    primary fuel nested s = valueOf t s' := by
  rw [primary_of_next taken, primaryFrom, h]
  rfl

theorem primary_of_opening (taken : next s = .ok t s') (h : t.isPunctuation "(" = true) :
    primary fuel nested s = group nested s' := by
  rw [primary_of_next taken, primaryFrom, kind_of_isPunctuation h, if_pos h]
  rfl

theorem primary_of_minus (taken : next s = .ok t s') (h : t.isOperator ["-"] = true) :
    primary fuel nested s = negation fuel nested t s' := by
  have apart : t.isPunctuation "(" = false := by
    rw [Token.isPunctuation, kind_of_isOperator h]
    rfl
  rw [primary_of_next taken, primaryFrom, kind_of_isOperator h, apart, if_pos h]
  rfl

end Primaries

theorem gives_numeral {z : Reader} {s : Session} (t : Token) (bindings : Table Value)
    {rest : List Token} (delivered : s.reader.Delivers rest z) :
    Gives z (numeral t) s ((Tree.number t.text).value bindings) rest := by
  unfold numeral Tree.value
  cases Number.read? t.text with
  | none => exact ⟨s, rfl⟩
  | some x => exact ⟨s.reader, rfl, delivered⟩

theorem gives_valueOf {z : Reader} {s : Session} (t : Token) {rest : List Token}
    (delivered : s.reader.Delivers rest z) :
    Gives z (valueOf t) s ((Tree.name t).value s.bindings) rest := by
  cases known : s.bindings.get? t.text with
  | none =>
    rw [show (Tree.name t).value s.bindings = _ from by rw [Tree.value, known]]
    exact ⟨s, by rw [valueOf, Session.lookup, known]⟩
  | some v =>
    rw [show (Tree.name t).value s.bindings = _ from by rw [Tree.value, known]]
    exact ⟨s.reader, by rw [valueOf, Session.lookup, known], delivered⟩

/-- After a minus chain the operand decides: it is negated if the chain is odd, and if it cannot
be negated that is an error for any chain. -/
theorem gives_negation {z : Reader} (raising : z.journal.policy = .raise) {minus t : Token}
    {chain ts rest : List Token} {operand : Tree}
    (hm : ∀ u ∈ minus :: chain, u.isOperator ["-"] = true)
    (other : t.isOperator ["-"] = false) {s : Session} {n : Nat}
    (enough : chain.length + 1 < n) {nested : Evaluating Value}
    (delivered : s.reader.Delivers (minus :: (chain ++ t :: ts)) z)
    (run : ∀ q : Reader, q.Delivers ts z →
      Gives z (negated nested t) { s with reader := q } (operand.value s.bindings) rest) :
    Gives z (primary n nested) s
      ((Tree.negation minus (chain.length + 1) operand).value s.bindings) rest := by
  obtain ⟨q, taken, later⟩ := next_of_delivers delivered
  refine .of_eq (primary_of_minus taken (hm minus List.mem_cons_self)) ?_
  obtain ⟨q, counted, later⟩ := minusChain_of_delivers other chain minus hm 0 enough
    (s := { s with reader := q }) later
  rw [Nat.zero_add] at counted
  refine Gives.of_eq (bind_of_ok counted) ?_
  refine (run q later).bind fun v q' later' => ?_
  cases v with
  | text t => exact gives_recover _ rest (later'.policy.trans raising)
  | number x =>
    rw [Value.negated_number]
    exact ⟨q', rfl, later'⟩

/-! ### One lemma for each rule that goes on -/

section Rules

variable {z : Reader} {level : Level} {minus t opening closing op : Token}
  {chain ts us rest : List Token} {tree inner operand left right : Tree}

theorem runs_negatedNumber (raising : z.journal.policy = .raise)
    (hm : ∀ u ∈ minus :: chain, u.isOperator ["-"] = true) (kind : t.kind = .number)
    (nonempty : rest ≠ []) :
    Runs z none (minus :: (chain ++ t :: rest))
      (.negation minus (chain.length + 1) (.number t.text)) rest := by
  intro s n kept delivered enough
  have other : t.isOperator ["-"] = false := by rw [Token.isOperator, kind]; rfl
  have behind := List.length_pos_iff.2 nonempty
  rw [List.length_cons, List.length_append, List.length_cons] at enough
  refine gives_negation raising hm other (by omega) delivered fun q later => ?_
  rw [negated, if_pos kind]
  exact gives_numeral t s.bindings later

theorem runs_negatedGroup (raising : z.journal.policy = .raise)
    (hm : ∀ u ∈ minus :: chain, u.isOperator ["-"] = true)
    (ho : opening.isPunctuation "(" = true) (hc : closing.isPunctuation ")" = true)
    (nonempty : ts ≠ []) (ih : Reaches z (some .sum) ts inner (closing :: rest)) :
    Runs z none (minus :: (chain ++ opening :: ts))
      (.negation minus (chain.length + 1) (.group inner)) rest := by
  intro s n kept delivered enough
  have kind := kind_of_isPunctuation ho
  have other : opening.isOperator ["-"] = false := by rw [Token.isOperator, kind]; rfl
  have word : opening.kind ≠ .number := by rw [kind]; decide
  have inside := List.length_pos_iff.2 nonempty
  rw [List.length_cons, List.length_append, List.length_cons] at enough
  refine gives_negation raising hm other (by omega) delivered fun q later => ?_
  rw [negated, if_neg word, if_pos ho]
  exact gives_closeGroup (s := { s with reader := q }) ih hc
    (fun _ _ => pure_eq_ok.2 ⟨rfl, rfl⟩) kept later (by omega) nonempty

/-- The token behind the chain is put back, and the sum is read from it on. -/
theorem runs_negatedSum (raising : z.journal.policy = .raise)
    (hm : ∀ u ∈ minus :: chain, u.isOperator ["-"] = true) (word : t.kind ≠ .number)
    (unopened : t.isPunctuation "(" = false) (other : t.isOperator ["-"] = false)
    (shorter : rest.length < (t :: ts).length) (nonempty : rest ≠ [])
    (ih : Runs z (some .sum) (t :: ts) operand rest) :
    Runs z none (minus :: (chain ++ t :: ts)) (.negation minus (chain.length + 1) operand)
      rest := by
  intro s n kept delivered enough
  have behind := List.length_pos_iff.2 nonempty
  rw [List.length_cons] at shorter
  rw [List.length_cons, List.length_append, List.length_cons] at enough
  refine gives_negation raising hm other (by omega) delivered fun q later => ?_
  rw [negated, if_neg word, unopened]
  obtain ⟨n, rfl⟩ : ∃ k, n = k + 1 := ⟨n - 1, by omega⟩
  have run := ih { s with reader := q.push t } n kept (later.push t)
    (by rw [List.length_cons]; omega)
  exact .of_eq (q := q.push t) rfl run

/-- An operand of the tighter level is what the loop starts with. -/
theorem loops_of_operand (shorter : rest.length < ts.length)
    (ih : Runs z level.tighter ts tree rest) : Loops z level ts tree rest := by
  intro s n kept delivered enough
  have run := ih s n kept delivered enough
  rw [rule_some, ← bind_pure (tree.value s.bindings)]
  exact run.arrives fun v q later => ⟨q, n, rfl, later, by omega⟩

/-- The loop finds the operator, and the right operand and the operation follow. -/
theorem loops_of_operation (raising : z.journal.policy = .raise)
    (hop : op.isOperator level.symbols = true) (shorterL : (op :: us).length < ts.length)
    (shorterR : rest.length < us.length) (ihl : Loops z level ts left (op :: us))
    (ihr : Runs z level.tighter us right rest) :
    Loops z level ts (.binary op left right) rest := by
  intro s n kept delivered enough
  refine (ihl s n kept delivered enough).bind fun x q m later enoughL => ?_
  obtain ⟨q₁, taken, later₁⟩ := next_of_delivers (s := { s with reader := q }) later
  rw [List.length_cons] at shorterL enoughL
  obtain ⟨m, rfl⟩ : ∃ k, m = k + 1 := ⟨m - 1, by omega⟩
  rw [chain_of_operator taken hop]
  have runR := ihr { s with reader := q₁ } n kept later₁ (by omega)
  refine runR.arrives fun y q₂ later₂ => ?_
  rw [← bind_pure ((apply x op y).mapError Fault.diagnostic)]
  have settled := gives_settle (s := { s with reader := q₂ }) (apply x op y)
    (later₂.policy.trans raising) later₂
  exact settled.arrives fun v q₃ later₃ => ⟨q₃, m, rfl, later₃, by omega⟩

end Rules

/-! ### Derivations -/

/-- **What is derived is computed.** By induction on the derivation. -/
theorem reaches_of_derives {z : Reader} (raising : z.journal.policy = .raise)
    {level : Option Level} {ts rest : List Token} {tree : Tree}
    (h : Derives level ts tree rest) (nonempty : rest ≠ []) : Reaches z level ts tree rest := by
  induction h with
  | @number t rest kind =>
    intro s n kept delivered enough
    obtain ⟨q, taken, later⟩ := next_of_delivers delivered
    exact .of_eq (primary_of_number taken kind) (gives_numeral t s.bindings later)
  | @string t rest kind =>
    intro s n kept delivered enough
    obtain ⟨q, taken, later⟩ := next_of_delivers delivered
    exact ⟨q, primary_of_string taken kind, later⟩
  | @name t rest kind =>
    intro s n kept delivered enough
    obtain ⟨q, taken, later⟩ := next_of_delivers delivered
    exact .of_eq (primary_of_name taken kind)
      (gives_valueOf (s := { s with reader := q }) t later)
  | @group opening closing ts rest inner ho hc derived ih =>
    intro s n kept delivered enough
    obtain ⟨q, taken, later⟩ := next_of_delivers delivered
    refine .of_eq (primary_of_opening taken ho) ?_
    exact gives_closeGroup (s := { s with reader := q }) (ih (List.cons_ne_nil _ _)) hc
      (fun t => endGroup_of_kept) kept later (Nat.le_of_succ_le_succ enough) derived.ne_nil
  | negatedNumber hm kind => exact runs_negatedNumber raising hm kind nonempty
  | negatedGroup hm ho hc derived ih =>
    exact runs_negatedGroup raising hm ho hc derived.ne_nil (ih (List.cons_ne_nil _ _))
  | negatedSum hm word unopened other derived stops ih =>
    exact runs_negatedSum raising hm word unopened other derived.length_lt nonempty
      ((ih nonempty).runs nonempty stops)
  | operand derived ih =>
    intro stops
    exact loops_of_operand derived.length_lt ((ih nonempty).runs nonempty stops)
  | @binary level op ts us rest left right dl hop dr ihl ihr =>
    intro stops
    -- the operator ends the operands of the tighter level on its left
    have before := ihl (List.cons_ne_nil _ _) (stops_of_isOperator hop us)
    exact loops_of_operation raising hop dl.length_lt dr.length_lt before
      ((ihr nonempty).runs nonempty stops)

/-- Of a complete list something is left behind a derivation: the end of the input. -/
theorem rest_ne_nil_of_derives {level : Option Level} {ts rest : List Token} {tree : Tree}
    (h : Derives level ts tree rest) (complete : Complete ts) : rest ≠ [] := by
  intro nothing
  obtain ⟨used, split, -, plain⟩ := h.used
  obtain ⟨inside, last, whole, -, ends⟩ := complete
  have among : last ∈ used := by
    rw [← List.append_nil used, ← nothing, ← split, whole]
    exact List.mem_append_right inside List.mem_cons_self
  have inner := Tree.not_endsStatement_of_mem_kinds (plain last among)
  rw [ends] at inner
  cases inner

/-- Where the tokens to come begin with a derivation and no operator follows, evaluation gives the
value of the derived tree. -/
theorem gives_evaluate {z : Reader} (raising : z.journal.policy = .raise) {s : Session}
    (kept : s.clearOnGroup = false) {ts rest : List Token} {tree : Tree} (complete : Complete ts)
    (delivered : s.reader.Delivers ts z) (derived : Derives (some .sum) ts tree rest)
    (stops : Stops (some .sum) rest) : Gives z evaluate s (tree.value s.bindings) rest := by
  have nonempty := rest_ne_nil_of_derives derived complete
  have enough := complete.length_le_budget delivered
  obtain ⟨n, budget⟩ : ∃ n, s.reader.budget = n + 1 := ⟨_, rfl⟩
  rw [budget] at enough
  have run := (reaches_of_derives raising derived nonempty).runs nonempty stops s n kept
    delivered enough
  rw [← expression_succ, ← budget] at run
  exact .of_eq (q := s.reader) (evaluate_eq s) run

/-- **Evaluating while reading is evaluating the tree.** Where the tokens of a source begin with
the derivation of a tree, and no operator follows, a run that raises and does not clear the
variables at groups returns the value of the tree; then nothing but the reader has changed, and
the tokens behind the derivation are left. Otherwise it ends with the first error in the
evaluation of the tree. -/
theorem evaluate_of_derives {source file : String} {bindings : Table Value} {ts rest : List Token}
    {tree : Tree} (tokenizes : ∃ z, Reading.tokens (Reader.ofSource source file .raise) = .ok ts z)
    (derived : Derives (some .sum) ts tree rest) (stops : Stops (some .sum) rest) :
    let s := Session.ofSource source file .raise false bindings
    match tree.value bindings with
    | .ok v => ∃ q, evaluate s = .ok v { s with reader := q } ∧
        ∃ last, Reading.tokens q = .ok rest last
    | .error fault => ∃ t, evaluate s = .error fault t := by
  intro s
  obtain ⟨complete, z, delivered⟩ := tokens_eq_ok_iff.1 tokenizes
  have run : Gives z evaluate s (tree.value bindings) rest :=
    gives_evaluate delivered.policy.symm rfl complete delivered derived stops
  have nonempty := rest_ne_nil_of_derives derived complete
  obtain ⟨used, split, -⟩ := derived.used
  revert run
  unfold Gives
  cases tree.value bindings with
  | error fault => exact id
  | ok v =>
    rintro ⟨q, run, later⟩
    rw [split] at complete
    exact ⟨q, run, tokens_eq_ok_iff.2 ⟨complete.of_append nonempty, z, later⟩⟩

/-- The theorem at a group that joins two texts and is followed by a second statement. -/
theorem evaluate_of_derives_group :
    ∃ q, evaluate (Session.ofSource "(\"a\" + x); y" "in" .raise false [("x", .text "b")]) =
        .ok (.text "ab") { Session.ofSource "(\"a\" + x); y" "in" .raise false [("x", .text "b")]
          with reader := q } ∧
      ∃ last, Reading.tokens q = .ok [⟨.endOfLine, ";", ⟨1, 11, "in"⟩⟩,
        ⟨.identifier, "y", ⟨1, 13, "in"⟩⟩, ⟨.endOfInput, "", ⟨1, 13, "in"⟩⟩] last :=
  @evaluate_of_derives "(\"a\" + x); y" "in" [("x", .text "b")] _ _ _ ⟨_, rfl⟩
    (.operand (.operand (.operand (.group rfl rfl (.binary
      (.operand (.operand (.operand (.string rfl)))) rfl
      (.operand (.operand (.name rfl))))))))
    (by intro t ht l _; cases ht; rfl)

/-! ### Sources of one expression -/

theorem statementsFrom_of_expression {fuel : Nat} {t : Token} (h : t.kind ∈ expressionKinds) :
    statementsFrom fuel t = do
      pushBack t
      let value ← evaluate
      endStatement
      return value :: (← statements fuel) := by
  have apart : ∀ kind ∈ expressionKinds,
      kind ≠ .endOfInput ∧ kind ≠ .endOfLine ∧ kind ≠ .functionDeclaration := by decide
  obtain ⟨input, line, declaration⟩ := apart t.kind h
  rw [statementsFrom, if_neg input, if_neg line, if_neg declaration]

theorem endStatement_of_end {s s' : Session} {t : Token} (taken : next s = .ok t s')
    (ends : t.kind.endsStatement = true) :
    endStatement s = .ok () { s' with reader := s'.reader.push t } := by
  unfold endStatement
  rw [bind_of_ok taken, if_pos ends]
  rfl

/-- Where all tokens but the end of the input are derived, there is one statement, and it has the
value of the tree. -/
theorem evaluateAll_of_derives {source file : String} (bindings : Table Value) {ts : List Token}
    {last : Token} {tree : Tree}
    (tokenizes : ∃ z, Reading.tokens (Reader.ofSource source file .raise) = .ok (ts ++ [last]) z)
    (ends : last.kind = .endOfInput)
    (derived : Derives (some .sum) (ts ++ [last]) tree [last]) :
    let s := Session.ofSource source file .raise false bindings
    match tree.value bindings with
    | .ok v => ∃ t, evaluateAll s = .ok [v] t
    | .error fault => ∃ t, evaluateAll s = .error fault t := by
  intro s
  obtain ⟨complete, z, delivered⟩ := tokens_eq_ok_iff.1 tokenizes
  have raising : z.journal.policy = .raise := delivered.policy.symm
  obtain ⟨used, split, some, kinds⟩ := derived.used
  obtain rfl := List.append_cancel_right split
  obtain ⟨t, ts, rfl⟩ := List.exists_cons_of_ne_nil some
  obtain ⟨n, budget⟩ : ∃ n, s.reader.budget = n + 2 := by
    have enough : _ ≤ s.reader.budget := complete.length_le_budget delivered
    rw [List.length_append, List.length_cons, List.length_singleton] at enough
    exact ⟨s.reader.budget - 2, by omega⟩
  obtain ⟨q, taken, later⟩ := next_of_delivers (s := s) delivered
  have first := tree.mem_expressionKinds (kinds t List.mem_cons_self)
  have stops : Stops (.some .sum) [last] := by
    intro u hu l _
    cases hu
    rw [Token.isOperator, ends]
    rfl
  have run : Gives z evaluate { s with reader := q.push t } (tree.value bindings) [last] :=
    gives_evaluate raising rfl complete (later.push t) derived stops
  rw [evaluateAll_eq, budget, statements_succ, bind_of_ok taken, statementsFrom_of_expression first,
    bind_of_ok (pushBack_eq t _)]
  revert run
  unfold Gives
  cases tree.value bindings with
  | error fault =>
    intro run
    obtain ⟨s', run⟩ := run
    exact ⟨s', bind_of_error run⟩
  | ok v =>
    intro run
    obtain ⟨q₁, run, later₁⟩ := run
    obtain ⟨q₂, taken₂, later₂⟩ := next_of_delivers (s := { s with reader := q₁ }) later₁
    obtain ⟨q₃, taken₃, -⟩ := next_of_delivers (s := { s with reader := q₂.push last })
      (later₂.push last)
    have ended : last.kind.endsStatement = true := by
      rw [ends]
      rfl
    have nothing : statements (n + 1) { s with reader := q₂.push last } =
        .ok [] { s with reader := q₃ } := by
      rw [statements_succ, bind_of_ok taken₃, statementsFrom, if_pos ends]
      rfl
    refine ⟨{ s with reader := q₃ }, ?_⟩
    rw [bind_of_ok run, bind_of_ok (endStatement_of_end taken₂ ended), bind_of_ok nothing]
    rfl

end Evaluating

end Reckoner
