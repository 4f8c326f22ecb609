import Reckoner.Proofs.Actions
import Reckoner.Proofs.Moves
import Reckoner.Proofs.Operations

/-!
# Guarded reading

A `Guard` says what holds of the readers and the tokens that come up in a run, where things may be
reported and which faults may end it. It asks this of the primitive actions only. From these it
follows for every part of a function literal, and no loop runs out of fuel, since each of its turns
leaves less to be read. Of a run whose cursor has gone past what a guard is about nothing is
claimed.

* `Guard.ends_functionLiteral` — a whole function literal;
* `Guard.ends_pulls` — all tokens.
-/

namespace Reckoner

open Reckoner.Text

/-- The run ends with a result and in a state that satisfy `Q`, or with a fault and in a state
that satisfy `F`. -/
inductive Meets {σ α : Type} (F : Fault → σ → Prop) (Q : α → σ → Prop) : Outcome σ α → Prop
  | ok {x : α} {s : σ} : Q x s → Meets F Q (.ok x s)
  | error {fault : Fault} {s : σ} : F fault s → Meets F Q (.error fault s)

section Meets

variable {σ α β : Type} {F : Fault → σ → Prop} {Q Q' : α → σ → Prop} {R : β → σ → Prop}

theorem Meets.imp {o : Outcome σ α} (h : Meets F Q o) (hQ : ∀ x s, Q x s → Q' x s) :
    Meets F Q' o := by
  cases h with
  | ok hq => exact .ok (hQ _ _ hq)
  | error hf => exact .error hf

theorem Meets.imp_error {F' : Fault → σ → Prop} {o : Outcome σ α} (h : Meets F Q o)
    (hF : ∀ fault s, F fault s → F' fault s) : Meets F' Q o := by
  cases h with
  | ok hq => exact .ok hq
  | error hf => exact .error (hF _ _ hf)

theorem Meets.of_ok {o : Outcome σ α} {x : α} {s : σ} (h : Meets F Q o) (run : o = .ok x s) :
    Q x s := by
  rw [run] at h
  cases h with
  | ok hq => exact hq

theorem Meets.of_error {o : Outcome σ α} {fault : Fault} {s : σ} (h : Meets F Q o)
    (run : o = .error fault s) : F fault s := by
  rw [run] at h
  cases h with
  | error hf => exact hf

/-- What holds of either end holds of the state afterwards. -/
theorem Meets.after {a : EStateM Fault σ α} {s : σ} {P : σ → Prop} (h : Meets F Q (a s))
    (hF : ∀ fault t, F fault t → P t) (hQ : ∀ x t, Q x t → P t) : P (after a s) := by
  cases run : a s with
  | ok x t =>
    rw [after_of_ok run]
    exact hQ x t (h.of_ok run)
  | error fault t =>
    rw [after_of_error run]
    exact hF fault t (h.of_error run)

theorem Meets.bind {a : EStateM Fault σ α} {f : α → EStateM Fault σ β} {s : σ}
    (h : Meets F Q (a s)) (hf : ∀ x t, a s = .ok x t → Q x t → Meets F R (f x t)) :
    Meets F R ((a >>= f) s) := by
  cases run : a s with
  | ok x t =>
    rw [bind_of_ok run]
    exact hf x t run (h.of_ok run)
  | error fault t =>
    rw [bind_of_error run]
    exact .error (h.of_error run)

end Meets

/-- What holds of readers, tokens and literals, where things may be reported and which faults are
allowed, and what the rules need to hold of them. -/
structure Guard where
  readers : Reader → Prop
  /-- What is asked of the pending tokens where characters are read or passed. -/
  calm : List Token → Prop
  tokens : Token → Prop
  places : Location → Prop
  literals : FunctionLiteral → Prop
  faults : Fault → Prop
  /-- Cursors behind which nothing is claimed any more. -/
  lost : Cursor → Prop
  keepsLost {c d : Cursor} : c.Reaches d → lost c → lost d
  advance {r : Reader} (n : Nat) : readers r → calm r.pending →
    readers (r.advance n) ∨ lost (r.advance n).cursor
  note {r : Reader} {e : Event} : e.diagnostic? = none → (∀ f, e = .captured f → literals f) →
    readers r → readers (r.note e)
  collected {r : Reader} {d : Diagnostic} : d.cause.Known → places d.location → readers r →
    r.journal.policy = .collect → readers (r.note (.collected d))
  raised {r : Reader} {d : Diagnostic} : d.cause.Known → places d.location → readers r →
    r.journal.policy = .raise → faults (.diagnostic d)
  here {r : Reader} : readers r → places r.here
  place {t : Token} : tokens t → places t.location
  captured {name : String} {names : List String} {ts : List Token} {t : Token} :
    (∀ u ∈ ts, tokens u ∧ u.kind.endsStatement = false) → tokens t →
    literals (.capture name names ts t)
  /-- A token that has been taken may be put back, unless something else is read first. -/
  delivered {r q : Reader} {t : Token} : readers r → Reading.next r = .ok t q →
    (tokens t ∧ readers q ∧ calm q.pending ∧ readers (q.push t)) ∨ lost q.cursor
  stopped {r q : Reader} {fault : Fault} : readers r → Reading.next r = .error fault q →
    (faults fault ∧ readers q) ∨ lost q.cursor
  numeral {t : Token} : tokens t → t.kind = .number → Number.read? t.text = none →
    faults (.numeral t.text)
  undefined {t : Token} : tokens t → faults (.diagnostic ⟨.undefinedVariable t.text, t.location⟩)

namespace Guard

variable {G : Guard} {α β : Type} {r : Reader}

/-- An outcome within the guard, with `Q` of the result and the reader, or one that is lost. -/
inductive Ends (G : Guard) {α : Type} (Q : α → Reader → Prop) : Outcome Reader α → Prop
  | ok {x : α} {q : Reader} : Q x q → Ends G Q (.ok x q)
  | error {fault : Fault} {q : Reader} : G.faults fault → G.readers q → Ends G Q (.error fault q)
  | lost {o : Outcome Reader α} : G.lost o.state.cursor → Ends G Q o

section Ends

variable {Q Q' : α → Reader → Prop} {R : β → Reader → Prop}

theorem Ends.imp {o : Outcome Reader α} (h : G.Ends Q o) (hQ : ∀ x q, Q x q → Q' x q) :
    G.Ends Q' o := by
  cases h with
  | ok hq => exact .ok (hQ _ _ hq)
  | error allowed readers => exact .error allowed readers
  | lost hl => exact .lost hl

theorem Ends.bind {a : Reading α} {f : α → Reading β} [c : ∀ x, Composed Reading.Step (f x)]
    (h : G.Ends Q (a r)) (hf : ∀ x q, a r = .ok x q → Q x q → G.Ends R (f x q)) :
    G.Ends R ((a >>= f) r) := by
  cases run : a r with
  | ok x q =>
    rw [bind_of_ok run]
    rw [run] at h
    cases h with
    | ok hq => exact hf x q run hq
    | lost hl => exact .lost (G.keepsLost (Reading.reaches (c x) q) hl)
  | error fault q =>
    rw [bind_of_error run]
    rw [run] at h
    cases h with
    | error allowed readers => exact .error allowed readers
    | lost hl => exact .lost hl

/-- A run that is not lost ends within the guard. -/
theorem Ends.meets {o : Outcome Reader α} (h : G.Ends Q o) (kept : ¬ G.lost o.state.cursor) :
    Meets (fun fault q => G.faults fault ∧ G.readers q) Q o := by
  cases h with
  | ok hq => exact .ok hq
  | error allowed readers => exact .error ⟨allowed, readers⟩
  | lost hl => exact absurd hl kept

end Ends

/-- Within the guard, where characters may be read. -/
structure Between (G : Guard) (r : Reader) : Prop where
  readers : G.readers r
  calm : G.calm r.pending

/-- Within the guard, with no more left to be read than before. -/
def Behind (G : Guard) (r : Reader) (_ : α) (q : Reader) : Prop :=
  G.Between q ∧ q.weight ≤ r.weight

/-- Within the guard, with less left to be read than before. -/
def Past (G : Guard) (r : Reader) (_ : α) (q : Reader) : Prop :=
  G.Between q ∧ q.weight < r.weight

theorem ends_advance {Q : α → Reader → Prop} (h : G.Between r) (n : Nat) (x : α)
    (hQ : G.Between (r.advance n) → Q x (r.advance n)) : G.Ends Q (.ok x (r.advance n)) := by
  rcases G.advance n h.readers h.calm with readers | lost
  · exact .ok (hQ ⟨readers, h.calm⟩)
  · exact .lost lost

/-- What is taken weighs no more than what was there before. -/
theorem ends_next (h : G.readers r) :
    G.Ends (fun t q => G.tokens t ∧ G.Between q ∧ G.readers (q.push t) ∧
      (q.push t).weight ≤ r.weight) (Reading.next r) := by
  cases run : Reading.next r with
  | error fault q =>
    rcases G.stopped h run with allowed | lost
    · exact .error allowed.1 allowed.2
    · exact .lost lost
  | ok t q =>
    rcases G.delivered h run with ⟨token, readers, calm, pushed⟩ | lost
    · exact .ok ⟨token, ⟨readers, calm⟩, pushed, Reader.weight_push_of_next run⟩
    · exact .lost lost

theorem ends_report {c : Cause} {p : Location} (known : c.Known) (place : G.places p)
    (h : G.readers r) :
    G.Ends (fun _ q => G.readers q ∧ q.pending = r.pending ∧ q.weight = r.weight)
      (Reading.report ⟨c, p⟩ r) := by
  cases policy : r.journal.policy with
  | raise =>
    rw [Reading.report_of_raise _ policy]
    exact .error (G.raised known place h policy) h
  | collect =>
    rw [Reading.report_of_collect _ policy]
    exact .ok ⟨G.collected known place h policy, rfl, rfl⟩

/-! ### Actions that keep the guard -/

/-- Readers within the guard are led to such readers, and nothing is added to what is left. -/
class Keeps (G : Guard) (a : Reading α) : Prop where
  composed : Composed Reading.Step a
  ends {r : Reader} : G.Between r → G.Ends (G.Behind r) (a r)

instance keeps_pure (x : α) : G.Keeps (pure x) where
  composed := inferInstance
  ends h := .ok ⟨h, Nat.le_refl _⟩

instance keeps_peek? : G.Keeps Reading.peek? where
  composed := inferInstance
  ends h := .ok ⟨h, Nat.le_refl _⟩

instance keeps_here : G.Keeps Reading.here where
  composed := inferInstance
  ends h := .ok ⟨h, Nat.le_refl _⟩

instance keeps_rest : G.Keeps Reading.rest where
  composed := inferInstance
  ends h := .ok ⟨h, Nat.le_refl _⟩

instance keeps_bind {a : Reading α} {f : α → Reading β} [ha : G.Keeps a]
    [hf : ∀ x, G.Keeps (f x)] : G.Keeps (a >>= f) where
  composed := .bind ha.composed fun x => (hf x).composed
  ends h := (ha.ends h).bind (c := fun x => (hf x).composed) fun x _ _ first =>
    ((hf x).ends first.1).imp fun _ _ later => ⟨later.1, Nat.le_trans later.2 first.2⟩

instance keeps_ite {c : Prop} [Decidable c] {a b : Reading α} [ha : G.Keeps a]
    [hb : G.Keeps b] : G.Keeps (if c then a else b) := by
  split
  · exact ha
  · exact hb

instance keeps_skip (n : Nat) : G.Keeps (Reading.skip n) where
  composed := inferInstance
  ends {r} h := ends_advance h n () fun between => ⟨between, r.weight_advance_le n⟩

theorem keeps_reportHere {c : Cause} (known : c.Known) : G.Keeps (Reading.reportHere c) where
  composed := inferInstance
  ends {r} h := (ends_report known (G.here h.readers) h.readers).imp fun _ q reported => by
    obtain ⟨readers, pending, weight⟩ := reported
    exact ⟨⟨readers, pending ▸ h.calm⟩, Nat.le_of_eq weight⟩

/-! ### Parts of a function literal -/

instance keeps_takeWhile (test : Char → Bool) : G.Keeps (Reading.takeWhile test) := by
  unfold Reading.takeWhile
  infer_instance

instance keeps_skipBlanks : G.Keeps Reading.skipBlanks := by
  unfold Reading.skipBlanks
  infer_instance

instance keeps_word : G.Keeps Reading.word := by
  unfold Reading.word
  infer_instance

instance keeps_token (kind : TokenKind) (text : List Char) :
    G.Keeps (Reading.token kind text) := by
  unfold Reading.token
  infer_instance

instance keeps_functionName : G.Keeps Reading.functionName := by
  have reported : G.Keeps (Reading.reportHere .missingFunctionName) :=
    keeps_reportHere (by simp [Cause.Known])
  unfold Reading.functionName Reading.requireName
  infer_instance

instance keeps_openParameters : G.Keeps Reading.openParameters := by
  have reported : G.Keeps (Reading.reportHere .missingParameterList) :=
    keeps_reportHere (by simp [Cause.Known])
  unfold Reading.openParameters
  infer_instance

instance keeps_passComma : G.Keeps Reading.passComma := by
  unfold Reading.passComma
  infer_instance

instance keeps_closeParameters : G.Keeps Reading.closeParameters := by
  have reported : G.Keeps (Reading.reportHere .openParameterList) :=
    keeps_reportHere (by simp [Cause.Known])
  unfold Reading.closeParameters
  infer_instance

instance keeps_scanLink? : G.Keeps Reading.scanLink? := by
  have decided (text : List Char) : G.Keeps (match text with
      | '=' :: '>' :: _ => do
        Reading.skip 2
        return some (← Reading.token .functionLink ['=', '>'])
      | _ => return none : Reading (Option Token)) := by
    split <;> infer_instance
  exact @keeps_bind G _ _ _ _ _ fun _ => @keeps_bind G _ _ _ _ _ decided

instance keeps_requireLink : G.Keeps Reading.requireLink := by
  have reported : G.Keeps (Reading.reportHere .missingLink) :=
    keeps_reportHere (by simp [Cause.Known])
  unfold Reading.requireLink
  infer_instance

/-! ### Parameters -/

variable {c : Char} {cs : List Char}

/-- A first character that passes the test is taken. -/
theorem ends_takeWhile_of_pos {test : Char → Bool} (h : G.Between r)
    (rest : r.cursor.rest = c :: cs) (pos : test c = true) :
    G.Ends (G.Past r) (Reading.takeWhile test r) := by
  have taken : 0 < (r.cursor.rest.takeWhile test).length := by
    rw [rest, List.takeWhile_cons_of_pos pos]
    exact Nat.succ_pos _
  have left : r.cursor.rest ≠ [] := by
    rw [rest]
    exact List.cons_ne_nil c cs
  rw [Reading.takeWhile_eq_ok]
  exact ends_advance h _ _ fun between => ⟨between, Reader.weight_advance_lt taken left⟩

/-- A first character that does not pass the test is left. -/
theorem takeWhile_of_neg {test : Char → Bool} (rest : r.cursor.rest = c :: cs)
    (neg : test c = false) : Reading.takeWhile test r = .ok [] (r.advance 0) := by
  rw [Reading.takeWhile_eq_ok, rest, List.takeWhile_cons_of_neg (by simp [neg])]
  rfl

/-- A parameter uses up something, or a comma comes next. -/
theorem ends_parameter (h : G.Between r) (rest : r.cursor.rest = c :: cs) (inside : c ≠ ')') :
    G.Ends (fun _ q => G.Between q ∧
        (q.weight < r.weight ∨ q.weight ≤ r.weight ∧ q.cursor.rest = ',' :: cs))
      (Reading.parameter c r) := by
  unfold Reading.parameter
  by_cases letter : isLetter c = true
  · rw [if_pos letter]
    have taken : G.Ends (G.Past r) (Reading.word r) :=
      (ends_takeWhile_of_pos h rest (isWordChar_of_isLetter letter)).bind
        fun _ _ _ past => .ok past
    exact taken.bind fun _ _ _ past => .ok ⟨past.1, Or.inl past.2⟩
  · rw [if_neg letter]
    have known : Cause.missingParameter.Known := by simp [Cause.Known]
    refine ((keeps_reportHere known).ends h).bind fun _ q reported behind => ?_
    have rest' : q.cursor.rest = c :: cs := by
      rw [Reading.reportHere_eq_ok reported]
      exact rest
    by_cases comma : c = ','
    · subst comma
      rw [bind_of_ok (takeWhile_of_neg rest' rfl)]
      exact ends_advance behind.1 0 _ fun between =>
        ⟨between, Or.inr ⟨Nat.le_trans (q.weight_advance_le 0) behind.2, rest'⟩⟩
    · have passed : (fun d => d != ',' && d != ')') c = true := by simp [comma, inside]
      exact (ends_takeWhile_of_pos behind.1 rest' passed).bind fun _ _ _ past =>
        .ok ⟨past.1, Or.inl (Nat.lt_of_lt_of_le past.2 behind.2)⟩

/-- A comma is passed. -/
theorem ends_passComma (h : G.Between r) (rest : r.cursor.rest = ',' :: cs) :
    G.Ends (G.Past r) (Reading.passComma r) := by
  have none : (r.cursor.rest.takeWhile isBlank).length = 0 := by
    rw [rest, List.takeWhile_cons_of_neg (by decide)]
    rfl
  have same : r.advance 0 = r := rfl
  have blanks : Reading.skipBlanks r = .ok () r := by
    unfold Reading.skipBlanks
    rw [bind_of_ok (Reading.takeWhile_eq_ok isBlank r), none]
    rfl
  have left : r.cursor.rest ≠ [] := by
    rw [rest]
    exact List.cons_ne_nil ',' cs
  unfold Reading.passComma
  rw [bind_of_ok blanks, bind_of_ok (Reading.peek?_of_cons rest), if_pos rfl]
  have skipped : G.Ends (G.Past r) (Reading.skip 1 r) :=
    ends_advance h 1 () fun between => ⟨between, Reader.weight_advance_lt Nat.one_pos left⟩
  exact skipped.bind fun _ _ _ past => (keeps_skipBlanks.ends past.1).imp fun _ _ behind =>
    ⟨behind.1, Nat.lt_of_le_of_lt behind.2 past.2⟩

/-- A parameter and the comma behind it use up something. -/
theorem ends_parameterTurn (h : G.Between r) (rest : r.cursor.rest = c :: cs)
    (inside : c ≠ ')') :
    G.Ends (G.Past r) (Reading.parameterTurn c r) := by
  refine (ends_parameter h rest inside).bind fun found q _ moved => ?_
  have passed : G.Ends (G.Past r) (Reading.passComma q) := by
    rcases moved.2 with less | ⟨no_more, comma⟩
    · exact (keeps_passComma.ends moved.1).imp fun _ _ behind =>
        ⟨behind.1, Nat.lt_of_le_of_lt behind.2 less⟩
    · exact (ends_passComma moved.1 comma).imp fun _ _ past =>
        ⟨past.1, Nat.lt_of_lt_of_le past.2 no_more⟩
  exact passed.bind fun _ _ _ past => .ok past

/-- **Parameters.** As much fuel as there is left to be read is enough. -/
theorem ends_parameters {n : Nat} (h : G.Between r) (enough : r.weight < n) :
    G.Ends (G.Behind r) (Reading.parameters n r) := by
  induction n generalizing r with
  | zero => exact absurd enough (Nat.not_lt_zero _)
  | succ n ih =>
    cases rest : r.cursor.rest with
    | nil =>
      rw [Reading.parameters_of_end n rest]
      exact .ok ⟨h, Nat.le_refl _⟩
    | cons c cs =>
      by_cases closing : c = ')'
      · subst closing
        rw [Reading.parameters_of_closing n rest]
        exact .ok ⟨h, Nat.le_refl _⟩
      rw [Reading.parameters_of_turn n rest closing]
      refine (ends_parameterTurn h rest closing).bind fun found q _ past => ?_
      have less := past.2
      refine (ih past.1 (by omega)).bind fun names z _ behind => ?_
      exact .ok ⟨behind.1, Nat.le_trans behind.2 (Nat.le_of_lt less)⟩

instance keeps_parameterList : G.Keeps Reading.parameterList := by
  have listed : G.Keeps (Reading.budget >>= Reading.parameters) :=
    ⟨inferInstance, fun {r} h => ends_parameters h r.weight_lt_budget⟩
  have same : Reading.parameterList =
      Reading.skipBlanks >>= fun _ => (Reading.budget >>= Reading.parameters) >>= fun names =>
        Reading.closeParameters >>= fun _ => pure names := rfl
  rw [same]
  infer_instance

/-! ### The whole literal -/

theorem ends_body {n : Nat} (h : G.Between r) (enough : r.weight < n) :
    G.Ends (fun x q => ((∀ u ∈ x.1, G.tokens u ∧ u.kind.endsStatement = false) ∧ G.tokens x.2) ∧
        G.Behind r x q)
      (Reading.body n r) := by
  induction n generalizing r with
  | zero => exact absurd enough (Nat.not_lt_zero _)
  | succ n ih =>
    unfold Reading.body
    refine (ends_next h.readers).bind fun t q _ taken => ?_
    obtain ⟨token, between, -, lighter⟩ := taken
    split
    · have behind := Nat.le_trans (q.weight_le_push t) lighter
      exact .ok ⟨⟨fun u hu => absurd hu List.not_mem_nil, token⟩, between, behind⟩
    · rename_i ongoing
      have inside := Bool.eq_false_iff.2 ongoing
      rw [Reader.weight_push_of_ne (TokenKind.inside_iff.1 inside).1] at lighter
      refine (ih between (by omega)).bind fun x z _ later => ?_
      obtain ⟨⟨tokens, terminator⟩, behind⟩ := later
      refine .ok ⟨⟨?_, terminator⟩, behind.1, Nat.le_trans behind.2 (Nat.le_of_succ_le lighter)⟩
      intro u hu
      rcases List.mem_cons.1 hu with rfl | hu
      · exact ⟨token, inside⟩
      · exact tokens u hu

/-- The four parts of the header. -/
instance keeps_header : G.Keeps Reading.header := by
  unfold Reading.header
  infer_instance

/-- **Function literals.** They are read within the guard. -/
theorem ends_functionLiteral (h : G.Between r) :
    G.Ends (fun f q => G.literals f ∧ G.Behind r f q) (Reading.functionLiteral r) := by
  rw [Reading.functionLiteral_eq]
  refine (keeps_header.ends h).bind fun heading q _ behind => ?_
  have read : G.Ends _ ((Reading.budget >>= Reading.body) q) :=
    ends_body behind.1 q.weight_lt_budget
  refine read.bind fun x z _ later => ?_
  obtain ⟨⟨tokens, terminator⟩, between, no_more⟩ := later
  have literal : G.literals (.capture heading.1 heading.2 x.1 x.2) := G.captured tokens terminator
  have noted := G.note rfl (fun f same => Event.captured.inj same ▸ literal) between.readers
  exact .ok ⟨literal, ⟨noted, between.calm⟩, Nat.le_trans no_more behind.2⟩

/-! ### All tokens -/

/-- **All tokens.** They are pulled within the guard, up to the end of the input. -/
theorem ends_pulls {n : Nat} (h : G.readers r) (enough : r.weight < n) :
    G.Ends (fun ts q => (∀ u ∈ ts, G.tokens u) ∧ G.readers q) (Reading.pulls n r) := by
  induction n generalizing r with
  | zero => exact absurd enough (Nat.not_lt_zero _)
  | succ n ih =>
    rw [Reading.pulls_succ]
    refine (ends_next h).bind fun t q _ taken => ?_
    obtain ⟨token, between, -, lighter⟩ := taken
    split
    · refine .ok ⟨?_, between.readers⟩
      intro u hu
      rw [List.mem_singleton.1 hu]
      exact token
    · rename_i inside
      rw [Reader.weight_push_of_ne inside] at lighter
      refine (ih between.readers (by omega)).bind fun ts z _ later => ?_
      refine .ok ⟨?_, later.2⟩
      intro u hu
      rcases List.mem_cons.1 hu with rfl | hu
      · exact token
      · exact later.1 u hu

/-- A listing of a source ends, with a fault that is allowed if with any. -/
theorem faults_of_pullEntries {n : Nat} {fault : Fault} (sure : ∀ c, ¬ G.lost c)
    (h : G.readers r) (enough : r.weight < n)
    (ended : fault ∈ (Reader.pullEntries n r).fault) : G.faults fault := by
  induction n generalizing r with
  | zero => exact absurd enough (Nat.not_lt_zero _)
  | succ n ih =>
    unfold Reader.pullEntries at ended
    have taken := (ends_next h).meets (sure _)
    cases run : Reading.next r with
    | error stop q =>
      rw [run] at taken ended
      cases ended
      cases taken with
      | error allowed => exact allowed.1
    | ok t q =>
      rw [run] at taken ended
      have between : G.Between q := by
        cases taken with
        | ok delivered => exact delivered.2.1
      by_cases last : t.kind = .endOfInput
      · simp only [last, if_true] at ended
        cases ended
      have lighter := Reader.weight_lt_of_next run last
      by_cases declaration : t.kind = .functionDeclaration
      · have literal := (ends_functionLiteral between).meets (sure _)
        cases read : Reading.functionLiteral q with
        | error stop z =>
          rw [read] at literal
          simp only [declaration, if_true, read] at ended
          cases ended
          cases literal with
          | error allowed => exact allowed.1
        | ok f z =>
          rw [read] at literal
          simp only [declaration, if_true, read] at ended
          cases literal with
          | ok behind =>
            have less := behind.2.2
            exact ih behind.2.1.readers (by omega) ended
      · simp only [last, declaration, if_false] at ended
        exact ih between.readers (by omega) ended

end Guard

end Reckoner
