import Reckoner.Proofs.Derivation
import Reckoner.Proofs.Untainted

/-!
# Scripts

A script is a list of tokens that is made of statements: semicolons and derived expressions, each of
which ends with a semicolon or with the input. Its values are those of the trees. Where the first
diagnostic ends the run and groups leave the variables alone, the sources without function literals
that evaluation returns values for are just those whose tokens are a script, and it returns the
values of the script.

* `Evaluating.derives_of_evaluate` — what is returned for an expression has been derived;
* `Script` — statements and their values;
* `Evaluating.evaluateAll_iff_script`
-/

namespace Reckoner

/-! ### What is left behind some tokens -/

/-- Of tokens that are complete some may have been taken already. -/
theorem Reader.Delivers.exists_rest {r q z : Reader} {ts us : List Token} (h : r.Delivers us q)
    (whole : r.Delivers ts z) (complete : Complete ts) (inside : ∀ t ∈ us, t.kind ≠ .endOfInput) :
    ∃ rest, ts = us ++ rest ∧ rest ≠ [] ∧ q.Delivers rest z := by
  induction h generalizing ts with
  | done alike =>
    exact ⟨ts, rfl, complete.ne_nil, whole.congr alike⟩
  | @next r r' q t us first _ ih =>
    cases whole with
    | done alike => exact absurd rfl complete.ne_nil
    | next first' later =>
      cases first.symm.trans first'
      obtain ⟨here, inside'⟩ := List.forall_mem_cons.1 inside
      obtain ⟨rest, rfl, some, behind⟩ := ih later (complete.tail here) inside'
      exact ⟨rest, rfl, some, behind⟩

/-- No operator ends a statement. -/
theorem stops_of_endsStatement {level : Option Level} {ts : List Token}
    (ends : ∀ t ∈ ts.head?, t.kind.endsStatement = true) : Stops level ts := by
  intro t ht l _
  refine Bool.eq_false_iff.2 fun operator => ?_
  have ends' := ends t ht
  rw [inside_of_isOperator operator] at ends'
  cases ends'

/-- What is derived begins with a token that does not end a statement. -/
theorem Derives.inside {level : Option Level} {t : Token} {ts rest : List Token} {tree : Tree}
    (h : Derives level (t :: ts) tree rest) : t.kind ∈ expressionKinds := by
  obtain ⟨used, split, some, kinds⟩ := h.used
  obtain ⟨u, used, rfl⟩ := List.exists_cons_of_ne_nil some
  cases split
  exact tree.mem_expressionKinds (kinds t List.mem_cons_self)

/-- Behind an expression the tokens still go up to the end of the input. -/
theorem Derives.complete_rest {level : Option Level} {ts rest : List Token} {tree : Tree}
    (h : Derives level ts tree rest) (complete : Complete ts) : Complete rest := by
  have some := Evaluating.rest_ne_nil_of_derives h complete
  obtain ⟨used, rfl, -⟩ := h.used
  exact complete.of_append some

/-! ### Scripts and their values -/

/-- The tokens are statements up to the end of the input, and these are the values. -/
inductive Script (bindings : Table Value) : List Token → List Value → Prop
  | ended {last : Token} : last.kind = .endOfInput → Script bindings [last] []
  | line {t : Token} {ts : List Token} {values : List Value} : t.kind = .endOfLine →
      Script bindings ts values → Script bindings (t :: ts) values
  | expression {ts rest : List Token} {tree : Tree} {v : Value} {values : List Value} :
      Derives (some .sum) ts tree rest → tree.value bindings = .ok v →
      (∀ t ∈ rest.head?, t.kind.endsStatement = true) → Script bindings rest values →
      Script bindings ts (v :: values)

namespace Evaluating

variable {z : Reader} {s s' : Session} {ts : List Token} {v : Value} {values : List Value}

/-- **What is computed is derived.** Where the first diagnostic ends the run, an expression that has
a value is derived from the tokens it has taken, and the others are left. -/
theorem derives_of_evaluate (raising : z.journal.policy = .raise) (kept : s.clearOnGroup = false)
    (complete : Complete ts) (delivered : s.reader.Delivers ts z)
    (run : evaluate s = .ok v s') :
    ∃ tree rest q, Derives (some .sum) ts tree rest ∧ tree.value s.bindings = .ok v ∧
      s' = { s with reader := q } ∧ q.Delivers rest z := by
  have firm : Firm s v := Or.inl (delivered.policy.trans raising)
  have computed := run
  rw [evaluate_eq] at computed
  obtain ⟨taken, tree, mid, before, rests, derived, valued⟩ :=
    sound_rules _ s v s' (Or.inl rfl) firm computed
  -- the tokens of the expression are not the last ones, since none of them ends the input
  have nothing : mid.Fits [] := fun u hu => by cases hu
  obtain ⟨used, split, -, kinds⟩ := (derived [] nothing).used
  rw [List.append_nil, List.append_nil] at split
  subst split
  have inside : ∀ t ∈ taken, t.kind ≠ .endOfInput := fun t ht =>
    (TokenKind.inside_iff.1 (Tree.not_endsStatement_of_mem_kinds (kinds t ht))).1
  obtain ⟨rest, rfl, some, behind⟩ := before.exists_rest delivered complete inside
  have fits : mid.Fits rest := by
    intro t ht
    cases behind with
    | done alike => exact absurd rfl some
    | next first later =>
      cases ht
      exact ⟨_, first⟩
  have derives := derived rest fits
  have gives := gives_evaluate raising kept complete delivered derives (rests.stops fits)
  rw [valued] at gives
  obtain ⟨q, again, later⟩ := gives
  cases run.symm.trans again
  exact ⟨tree, rest, q, derives, valued, rfl, later⟩

/-- Behind an expression only the end of its statement may come, and it is left pending. -/
theorem endStatement_eq_ok {rest : List Token} (raising : z.journal.policy = .raise)
    (delivered : s.reader.Delivers rest z) (some : rest ≠ []) (run : endStatement s = .ok () s') :
    (∀ t ∈ rest.head?, t.kind.endsStatement = true) ∧
      ∃ q, s' = { s with reader := q } ∧ q.Delivers rest z := by
  obtain ⟨t, rest, rfl⟩ := List.exists_cons_of_ne_nil some
  obtain ⟨q, taken, later⟩ := next_of_delivers delivered
  unfold endStatement at run
  rw [bind_of_ok taken] at run
  split at run
  · rename_i ends
    cases run
    refine ⟨fun u hu => ?_, q.push t, rfl, later.push t⟩
    cases hu
    exact ends
  · obtain ⟨_, s₁, reported, -⟩ := bind_eq_ok.1 run
    obtain ⟨q', reported, -⟩ := reading_eq_ok reported
    rw [Reading.report_of_raise _ (later.policy.trans raising)] at reported
    cases reported

/-- Statements that return are a script. -/
theorem script_of_statements (raising : z.journal.policy = .raise) (kept : s.clearOnGroup = false)
    (complete : Complete ts) (plain : ∀ t ∈ ts, t.kind ≠ .functionDeclaration)
    (delivered : s.reader.Delivers ts z) {n : Nat} (run : statements n s = .ok values s') :
    Script s.bindings ts values := by
  induction n generalizing s ts values with
  | zero => exact absurd run throw_ne_ok
  | succ n ih =>
    obtain ⟨t, ts, rfl⟩ := List.exists_cons_of_ne_nil complete.ne_nil
    obtain ⟨q, taken, later⟩ := next_of_delivers delivered
    rw [statements_succ, bind_of_ok taken] at run
    unfold statementsFrom at run
    split at run
    · rename_i last
      cases run
      rw [complete.eq_nil last]
      exact .ended last
    rename_i inside
    have complete' := complete.tail inside
    have plain' := fun u hu => plain u (List.mem_cons_of_mem t hu)
    split at run
    · rename_i line
      exact .line line (ih (s := { s with reader := q }) kept complete' plain' later run)
    rw [if_neg (plain t List.mem_cons_self), bind_of_ok (pushBack_eq t _)] at run
    obtain ⟨v, s₁, evaluated, run⟩ := bind_eq_ok.1 run
    obtain ⟨_, s₂, ended, run⟩ := bind_eq_ok.1 run
    obtain ⟨values, s₃, others, returned⟩ := bind_eq_ok.1 run
    cases returned
    obtain ⟨tree, rest, q₁, derived, valued, rfl, later₁⟩ :=
      derives_of_evaluate (s := { s with reader := q.push t }) raising kept complete
        (later.push t) evaluated
    have some := rest_ne_nil_of_derives derived complete
    obtain ⟨ends, q₂, rfl, later₂⟩ :=
      endStatement_eq_ok (s := { s with reader := q₁ }) raising later₁ some ended
    obtain ⟨used, split, -⟩ := derived.used
    have plain₂ : ∀ u ∈ rest, u.kind ≠ .functionDeclaration := by
      intro u hu
      refine plain u ?_
      rw [split]
      exact List.mem_append_right used hu
    exact .expression derived valued ends (ih (s := { s with reader := q₂ }) kept
      (derived.complete_rest complete) plain₂ later₂ others)

/-- A script is evaluated to its values. -/
theorem statements_of_script (raising : z.journal.policy = .raise)
    (h : Script s.bindings ts values) (kept : s.clearOnGroup = false) (complete : Complete ts)
    (delivered : s.reader.Delivers ts z) {n : Nat} (enough : ts.length ≤ n) :
    ∃ s', statements n s = .ok values s' := by
  generalize same : s.bindings = bindings at h
  induction h generalizing s n with
  | ended last =>
    obtain ⟨n, rfl⟩ : ∃ k, n = k + 1 := ⟨n - 1, by rw [List.length_singleton] at enough; omega⟩
    obtain ⟨q, taken, -⟩ := next_of_delivers delivered
    refine ⟨{ s with reader := q }, ?_⟩
    rw [statements_succ, bind_of_ok taken, statementsFrom, if_pos last]
    rfl
  | @line t ts values line _ ih =>
    obtain ⟨n, rfl⟩ : ∃ k, n = k + 1 := ⟨n - 1, by rw [List.length_cons] at enough; omega⟩
    obtain ⟨q, taken, later⟩ := next_of_delivers delivered
    have inside : t.kind ≠ .endOfInput := by
      rw [line]
      decide
    obtain ⟨s', run⟩ := ih (s := { s with reader := q }) kept (complete.tail inside) later
      (Nat.le_of_succ_le_succ enough) same
    refine ⟨s', ?_⟩
    rw [statements_succ, bind_of_ok taken, statementsFrom, if_neg inside, if_pos line]
    exact run
  | @expression ts rest tree v values derived valued ends _ ih =>
    subst same
    have shorter := derived.length_lt
    obtain ⟨t, ts, rfl⟩ := List.exists_cons_of_ne_nil derived.ne_nil
    obtain ⟨n, rfl⟩ : ∃ k, n = k + 1 := ⟨n - 1, by rw [List.length_cons] at enough; omega⟩
    obtain ⟨q, taken, later⟩ := next_of_delivers delivered
    have gives := gives_evaluate raising (s := { s with reader := q.push t }) kept complete
      (later.push t) derived (stops_of_endsStatement ends)
    rw [valued] at gives
    obtain ⟨q₁, run, later₁⟩ := gives
    obtain ⟨u, us, rfl⟩ :=
      List.exists_cons_of_ne_nil (rest_ne_nil_of_derives derived complete)
    obtain ⟨q₂, taken₂, later₂⟩ := next_of_delivers (s := { s with reader := q₁ }) later₁
    obtain ⟨s', others⟩ := ih (s := { s with reader := q₂.push u }) kept
      (derived.complete_rest complete) (later₂.push u)
      (Nat.le_of_lt_succ (Nat.lt_of_lt_of_le shorter enough)) rfl
    refine ⟨s', ?_⟩
    rw [statements_succ, bind_of_ok taken, statementsFrom_of_expression derived.inside,
      bind_of_ok (pushBack_eq t _), bind_of_ok run,
      bind_of_ok (endStatement_of_end taken₂ (ends u rfl)), bind_of_ok others]
    rfl

/-- **Sources are scripts.** Where the first diagnostic ends the run and groups leave the variables
alone, a source without function literals returns just the values that its tokens have as a
script. -/
theorem evaluateAll_iff_script {source file : String} {bindings : Table Value}
    (tokenizes : ∃ z, Reading.tokens (Reader.ofSource source file .raise) = .ok ts z)
    (plain : ∀ t ∈ ts, t.kind ≠ .functionDeclaration) :
    (∃ t, evaluateAll (Session.ofSource source file .raise false bindings) = .ok values t) ↔
      Script bindings ts values := by
  obtain ⟨complete, z, delivered⟩ := tokens_eq_ok_iff.1 tokenizes
  have raising : z.journal.policy = .raise := delivered.policy.symm
  constructor
  · rintro ⟨t, run⟩
    rw [evaluateAll_eq] at run
    exact script_of_statements (s := Session.ofSource source file .raise false bindings) raising rfl
      complete plain delivered run
  · intro script
    rw [evaluateAll_eq]
    exact statements_of_script (s := Session.ofSource source file .raise false bindings) raising
      script rfl complete delivered (complete.length_le_budget delivered)

end Evaluating

end Reckoner
