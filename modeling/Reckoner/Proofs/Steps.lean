import Reckoner.Evaluation

/-!
# Actions as compositions of steps

Reading and evaluating are built from a few primitive steps by sequencing alone: nothing
catches a fault. `Composed Step a` says that `a` is such a composition, and what holds of
every step and is kept by sequencing therefore holds of every rule of the grammar.

* `Reading.Step`, `Evaluating.Step` — the primitive steps;
* `composed_functionLiteral`, `composed_evaluateAll` — the rules are composed of them.
-/

namespace Reckoner

/-- How a run ends: with a result or a fault, and in a state. -/
abbrev Outcome (σ α : Type) := EStateM.Result Fault σ α

/-- The state in which a run of the action ends. -/
def after {σ α : Type} (a : EStateM Fault σ α) (s : σ) : σ :=
  match a s with
  | .ok _ t => t
  | .error _ t => t

/-! ### Sequencing -/

section Sequencing

variable {σ α β : Type} {a b : EStateM Fault σ α} {f g : α → EStateM Fault σ β} {s t : σ}

theorem bind_of_ok {x : α} (h : a s = .ok x t) : (a >>= f) s = f x t := by
  show EStateM.bind a f s = f x t
  rw [EStateM.bind, h]

theorem bind_of_error {fault : Fault} (h : a s = .error fault t) :
    (a >>= f) s = .error fault t := by
  show EStateM.bind a f s = .error fault t
  rw [EStateM.bind, h]

/-- A sequence yields a result just if its parts do, one after the other. -/
theorem bind_eq_ok {y : β} {u : σ} :
    (a >>= f) s = .ok y u ↔ ∃ x t, a s = .ok x t ∧ f x t = .ok y u := by
  cases h : a s with
  | ok x t =>
    rw [bind_of_ok h]
    constructor
    · intro hf
      exact ⟨x, t, rfl, hf⟩
    · rintro ⟨_, _, hx, hf⟩
      cases hx
      exact hf
  | error fault t =>
    rw [bind_of_error h]
    constructor
    · intro hf
      cases hf
    · rintro ⟨_, _, hx, _⟩
      cases hx

theorem pure_eq_ok {x y : α} : (pure x : EStateM Fault σ α) s = .ok y t ↔ x = y ∧ s = t := by
  show (EStateM.Result.ok x s : Outcome σ α) = .ok y t ↔ x = y ∧ s = t
  constructor
  · intro h
    cases h
    exact ⟨rfl, rfl⟩
  · rintro ⟨rfl, rfl⟩
    rfl

theorem after_of_ok {x : α} (h : a s = .ok x t) : after a s = t := by
  rw [after, h]

theorem after_of_error {fault : Fault} (h : a s = .error fault t) : after a s = t := by
  rw [after, h]

theorem after_bind_of_ok {x : α} (h : a s = .ok x t) : after (a >>= f) s = after (f x) t := by
  rw [after, bind_of_ok h, after]

theorem after_bind_of_error {fault : Fault} (h : a s = .error fault t) :
    after (a >>= f) s = t :=
  after_of_error (bind_of_error h)

/-- Sequences that begin alike and go on alike from where that leads are alike. -/
theorem bind_congr_at (h : a s = b s) (hfg : ∀ x t, a s = .ok x t → f x t = g x t) :
    (a >>= f) s = (b >>= g) s := by
  cases run : a s with
  | ok x t => rw [bind_of_ok run, bind_of_ok (h.symm.trans run), hfg x t run]
  | error fault t => rw [bind_of_error run, bind_of_error (h.symm.trans run)]

/-- What is made of a result does not matter for the state. -/
theorem after_bind_pure (a : EStateM Fault σ α) (make : α → β) (s : σ) :
    after (a >>= fun x => pure (make x)) s = after a s := by
  cases run : a s with
  | ok x t =>
    rw [after_bind_of_ok run, after_of_ok run]
    rfl
  | error fault t => rw [after_bind_of_error run, after_of_error run]

theorem throw_ne_ok {fault : Fault} {x : α} : (throw fault : EStateM Fault σ α) s ≠ .ok x t := by
  intro h
  cases h

end Sequencing

/-! ### Compositions -/

/-- Built from steps, results and faults by sequencing. A class, so that for the rules this is
found by following their definitions. -/
class inductive Composed {σ : Type} (Step : (α : Type) → EStateM Fault σ α → Prop) :
    {α : Type} → EStateM Fault σ α → Prop
  | step {α : Type} {a : EStateM Fault σ α} : Step α a → Composed Step a
  | pure {α : Type} (x : α) : Composed Step (pure x)
  | throw {α : Type} (fault : Fault) : Composed Step (throw fault : EStateM Fault σ α)
  | bind {α β : Type} {a : EStateM Fault σ α} {f : α → EStateM Fault σ β} :
      Composed Step a → (∀ x, Composed Step (f x)) → Composed Step (a >>= f)

section Instances

variable {σ α β : Type} {Step : (α : Type) → EStateM Fault σ α → Prop}

instance composed_pure (x : α) : Composed Step (pure x) := .pure x

instance composed_throw (fault : Fault) : Composed Step (throw fault : EStateM Fault σ α) :=
  .throw fault

instance composed_bind {a : EStateM Fault σ α} {f : α → EStateM Fault σ β} [ha : Composed Step a]
    [hf : ∀ x, Composed Step (f x)] : Composed Step (a >>= f) := .bind ha hf

instance composed_ite {c : Prop} [Decidable c] {a b : EStateM Fault σ α} [ha : Composed Step a]
    [hb : Composed Step b] : Composed Step (if c then a else b) := by
  split
  · exact ha
  · exact hb

end Instances

/-- A relation that steps establish between the states before and after them holds of all that
is composed of them, however it ends. -/
theorem Composed.after_related {σ α : Type} {Step : (α : Type) → EStateM Fault σ α → Prop}
    {R : σ → σ → Prop} (refl : ∀ s, R s s) (trans : ∀ {s t u}, R s t → R t u → R s u)
    (step : ∀ {α : Type} {a : EStateM Fault σ α} (s : σ), Step α a → R s (after a s))
    {a : EStateM Fault σ α} (h : Composed Step a) (s : σ) : R s (after a s) := by
  induction h generalizing s with
  | step h => exact step s h
  | pure x => exact refl s
  | throw fault => exact refl s
  | @bind α β a f _ _ iha ihf =>
    have first := iha s
    cases run : a s with
    | ok x t =>
      rw [after_of_ok run] at first
      rw [after_bind_of_ok run]
      exact trans first (ihf x t)
    | error fault t =>
      rw [after_of_error run] at first
      rw [after_bind_of_error run]
      exact first

namespace Reading

/-- The steps of a reader: it looks at what is to be read, moves on, handles pending tokens,
and notes or reports something. Only a report may look at the policy. -/
inductive Step : (α : Type) → Reading α → Prop
  | observe {α : Type} (view : Cursor → List Token → String → α) :
      Step α fun r => .ok (view r.cursor r.pending r.file) r
  | skip (n : Nat) : Step Unit (skip n)
  | popPending? : Step (Option Token) popPending?
  | pushBack (t : Token) : Step Unit (pushBack t)
  | captured (f : FunctionLiteral) : Step Unit (note (.captured f))
  | report (d : Diagnostic) : Step Unit (report d)

theorem composed_observe {α : Type} (view : Cursor → List Token → String → α) :
    Composed Step fun r => .ok (view r.cursor r.pending r.file) r :=
  .step (.observe view)

instance composed_rest : Composed Step rest := composed_observe fun c _ _ => c.rest

instance composed_peek? : Composed Step peek? := composed_observe fun c _ _ => c.rest.head?

instance composed_here : Composed Step here :=
  composed_observe fun c _ file => (⟨c.place.line, c.place.column, file⟩ : Location)

instance composed_budget : Composed Step budget :=
  composed_observe fun c pending _ => c.rest.length + pending.length + 1

instance composed_skip (n : Nat) : Composed Step (skip n) := .step (.skip n)

instance composed_popPending? : Composed Step popPending? := .step .popPending?

instance composed_pushBack (t : Token) : Composed Step (pushBack t) := .step (.pushBack t)

instance composed_captured (f : FunctionLiteral) : Composed Step (note (.captured f)) :=
  .step (.captured f)

instance composed_report (d : Diagnostic) : Composed Step (report d) := .step (.report d)

instance composed_takeWhile (test : Char → Bool) : Composed Step (takeWhile test) := by
  unfold takeWhile
  infer_instance

instance composed_skipBlanks : Composed Step skipBlanks := by
  unfold skipBlanks
  infer_instance

instance composed_reportHere (cause : Cause) : Composed Step (reportHere cause) := by
  unfold reportHere
  infer_instance

instance composed_token (kind : TokenKind) (text : List Char) :
    Composed Step (token kind text) := by
  unfold token
  infer_instance

instance composed_scan : Composed Step scan := by
  refine .bind inferInstance fun _ => .bind inferInstance fun text => ?_
  cases Scan.of text with
  | nothing => exact composed_token _ _
  | lexeme l => exact composed_bind
  | unterminated text => exact composed_bind
  | stray c => exact .bind inferInstance fun _ => .throw _

instance composed_next : Composed Step next := by
  refine .bind inferInstance fun popped => ?_
  cases popped with
  | none => exact composed_scan
  | some t => exact .pure t

/-! ### Function literals -/

instance composed_word : Composed Step word := by
  unfold word
  infer_instance

instance composed_requireName : Composed Step requireName := by
  unfold requireName
  infer_instance

instance composed_functionName : Composed Step functionName := by
  unfold functionName
  infer_instance

instance composed_openParameters : Composed Step openParameters := by
  unfold openParameters
  infer_instance

instance composed_passComma : Composed Step passComma := by
  unfold passComma
  infer_instance

instance composed_parameter (first : Char) : Composed Step (parameter first) := by
  unfold parameter
  infer_instance

instance composed_parameters (fuel : Nat) : Composed Step (parameters fuel) := by
  induction fuel with
  | zero => exact .throw _
  | succ fuel ih =>
    refine .bind inferInstance fun c => ?_
    split <;> infer_instance

instance composed_closeParameters : Composed Step closeParameters := by
  unfold closeParameters
  infer_instance

instance composed_parameterList : Composed Step parameterList := by
  unfold parameterList
  infer_instance

instance composed_scanLink? : Composed Step scanLink? := by
  refine .bind inferInstance fun _ => .bind inferInstance fun text => ?_
  split <;> infer_instance

instance composed_requireLink : Composed Step requireLink := by
  unfold requireLink
  infer_instance

instance composed_body (fuel : Nat) : Composed Step (body fuel) := by
  induction fuel with
  | zero => exact .throw _
  | succ fuel ih =>
    unfold body
    infer_instance

instance composed_functionLiteral : Composed Step functionLiteral := by
  unfold functionLiteral
  infer_instance

end Reading

namespace Evaluating

/-- The steps of a session: those of its reader, and those that use or change its tables. -/
inductive Step : (α : Type) → Evaluating α → Prop
  | reading {α : Type} {action : Reading α} :
      Composed Reading.Step action → Step α (reading action)
  | valueOf (t : Token) : Step Value (valueOf t)
  | endGroup : Step Unit endGroup
  | define (f : FunctionLiteral) : Step Unit (define f)

theorem reading_of_ok {α : Type} {action : Reading α} {s : Session} {x : α} {r : Reader}
    (h : action s.reader = .ok x r) : reading action s = .ok x { s with reader := r } := by
  rw [reading, h]

theorem reading_of_error {α : Type} {action : Reading α} {s : Session} {fault : Fault}
    {r : Reader} (h : action s.reader = .error fault r) :
    reading action s = .error fault { s with reader := r } := by
  rw [reading, h]

theorem reading_eq_ok {α : Type} {action : Reading α} {s s' : Session} {x : α}
    (h : reading action s = .ok x s') :
    ∃ r, action s.reader = .ok x r ∧ s' = { s with reader := r } := by
  unfold reading at h
  cases run : action s.reader with
  | ok y r =>
    rw [run] at h
    cases h
    exact ⟨r, rfl, rfl⟩
  | error fault r =>
    rw [run] at h
    cases h

theorem reading_eq_error {α : Type} {action : Reading α} {s s' : Session} {fault : Fault}
    (h : reading action s = .error fault s') :
    ∃ r, action s.reader = .error fault r ∧ s' = { s with reader := r } := by
  unfold reading at h
  cases run : action s.reader with
  | ok x r =>
    rw [run] at h
    cases h
  | error stop r =>
    rw [run] at h
    cases h
    exact ⟨r, rfl, rfl⟩

theorem after_reading {α : Type} (action : Reading α) (s : Session) :
    after (reading action) s = { s with reader := after action s.reader } := by
  unfold after reading
  cases action s.reader <;> rfl

theorem after_valueOf (t : Token) (s : Session) : after (valueOf t) s = s := by
  unfold after valueOf
  cases s.lookup t.text <;> rfl

/-- The end of a group changes nothing or empties the table of variables, which is noted. -/
theorem after_endGroup (s : Session) :
    after endGroup s = s ∨
      after endGroup s =
        { s with reader := s.reader.note (.cleared s.bindings.length), bindings := [] } := by
  unfold after endGroup
  cases s.clearOnGroup
  · exact Or.inl rfl
  · exact Or.inr rfl

instance composed_reading {α : Type} {action : Reading α} [h : Composed Reading.Step action] :
    Composed Step (reading action) :=
  .step (.reading h)

instance composed_next : Composed Step next := by
  unfold next
  infer_instance

instance composed_pushBack (t : Token) : Composed Step (pushBack t) := by
  unfold pushBack
  infer_instance

instance composed_budget : Composed Step budget := by
  unfold budget
  infer_instance

instance composed_valueOf (t : Token) : Composed Step (valueOf t) := .step (.valueOf t)

instance composed_endGroup : Composed Step endGroup := .step .endGroup

instance composed_define (f : FunctionLiteral) : Composed Step (define f) := .step (.define f)

instance composed_recover (d : Diagnostic) : Composed Step (recover d) := by
  unfold recover
  infer_instance

instance composed_settle (result : Except Diagnostic Value) : Composed Step (settle result) := by
  cases result with
  | ok v => exact .pure v
  | error d => exact composed_recover d

instance composed_numeral (t : Token) : Composed Step (numeral t) := by
  unfold numeral
  split <;> infer_instance

/-! ### The rules of the grammar -/

section Rules

variable {nested operand : Evaluating Value}

instance composed_closeGroup (value : Value) : Composed Step (closeGroup value) := by
  unfold closeGroup
  infer_instance

instance composed_group [Composed Step nested] : Composed Step (group nested) := by
  unfold group
  infer_instance

instance composed_minusChain (fuel : Nat) (odd : Bool) (t : Token) :
    Composed Step (minusChain fuel odd t) := by
  induction fuel generalizing odd t with
  | zero => exact .throw _
  | succ fuel ih =>
    unfold minusChain
    infer_instance

instance composed_negated [Composed Step nested] (t : Token) :
    Composed Step (negated nested t) := by
  unfold negated
  infer_instance

instance composed_negation [Composed Step nested] (fuel : Nat) (minus : Token) :
    Composed Step (negation fuel nested minus) := by
  refine .bind inferInstance fun chain => .bind (composed_negated _) fun operand => ?_
  split <;> infer_instance

instance composed_leaveOutside (t : Token) : Composed Step (leaveOutside t) := by
  unfold leaveOutside
  infer_instance

instance composed_noExpression (t : Token) : Composed Step (noExpression t) := by
  unfold noExpression
  infer_instance

instance composed_primary [Composed Step nested] (fuel : Nat) :
    Composed Step (primary fuel nested) := by
  unfold primary
  infer_instance

instance composed_chain [Composed Step operand] (level : Level) (fuel : Nat) (left : Value) :
    Composed Step (chain level operand fuel left) := by
  induction fuel generalizing left with
  | zero => exact .throw _
  | succ fuel ih =>
    unfold chain
    infer_instance

instance composed_joined [Composed Step operand] (level : Level) (fuel : Nat) :
    Composed Step (joined level fuel operand) := by
  unfold joined
  infer_instance

instance composed_levels [Composed Step nested] (fuel : Nat) :
    Composed Step (levels fuel nested) := by
  unfold levels
  infer_instance

end Rules

instance composed_expression (fuel : Nat) : Composed Step (expression fuel) := by
  induction fuel with
  | zero => exact .throw _
  | succ fuel ih => exact composed_levels (fuel + 1)

instance composed_evaluate : Composed Step evaluate := by
  unfold evaluate
  infer_instance

/-! ### Statements -/

instance composed_skipStatement (fuel : Nat) (t : Token) :
    Composed Step (skipStatement fuel t) := by
  induction fuel generalizing t with
  | zero => exact .throw _
  | succ fuel ih =>
    unfold skipStatement
    infer_instance

instance composed_endStatement : Composed Step endStatement := by
  unfold endStatement
  infer_instance

instance composed_statements (fuel : Nat) : Composed Step (statements fuel) := by
  induction fuel with
  | zero => exact .throw _
  | succ fuel ih =>
    unfold statements
    infer_instance

instance composed_evaluateAll : Composed Step evaluateAll := by
  unfold evaluateAll
  infer_instance

end Evaluating

end Reckoner
