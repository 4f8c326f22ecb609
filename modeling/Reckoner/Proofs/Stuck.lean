import Reckoner.Proofs.Upkeep

/-!
# Stray characters stop the evaluator

A character that begins no token is not passed, so that the evaluator stops in front of it whenever
it is asked to go on. How deep in its rules a run has come to the character makes no difference:
nothing is pending then, and nothing is pushed back, noted or bound any more.

* `Reader.StuckAt`, `Evaluating.serve_of_stuckAt` — a stuck reader, and what the calls do there;
* `stuck_of_served` — a request that a stray character has ended, and all later calls.
-/

namespace Reckoner

/-- The calls that go on reading, or that assign something. -/
inductive Call.Resumes : Call → Prop
  | request (r : Request) : Resumes (.request r)
  | next : Resumes .next

/-- The calls that pull tokens. -/
def Call.pulls : List Call := [.request .evaluate, .request .evaluateAll, .next]

namespace Evaluating

variable {s : Session} {c : Char} {fault : Fault}

theorem next_of_stuckAt (h : s.reader.StuckAt c) :
    next s = .error (s.reader.strayFault c) s :=
  reading_of_error h.next

/-- Every expression begins with a pull. -/
theorem evaluate_of_next_error {t : Session} (h : next s = .error fault t) :
    evaluate s = .error fault t := by
  rw [evaluate_eq]
  refine bind_of_error (bind_of_error (bind_of_error ?_))
  rw [primary_eq]
  exact bind_of_error h

theorem evaluateAll_of_next_error {t : Session} (h : next s = .error fault t) :
    evaluateAll s = .error fault t := by
  have allowed : budget s = .ok s.reader.budget s := rfl
  rw [evaluateAll, bind_of_ok allowed]
  show statements (_ + 1) s = _
  rw [statements_of_turn]
  exact bind_of_error h

/-- **A stuck session** fails at every pull, and nothing in it changes. -/
theorem serve_of_stuckAt (h : s.reader.StuckAt c) :
    ∀ call ∈ Call.pulls, call.serve s = .error (s.reader.strayFault c) s := by
  have pulled := next_of_stuckAt h
  intro call among
  simp only [Call.pulls, List.mem_cons, List.not_mem_nil, or_false] at among
  rcases among with rfl | rfl | rfl
  · exact bind_of_error (evaluate_of_next_error pulled)
  · exact bind_of_error (evaluateAll_of_next_error pulled)
  · exact bind_of_error pulled

theorem after_of_stuckAt (h : s.reader.StuckAt c) {call : Call} (resumes : call.Resumes) :
    ∃ bindings, after call.serve s = { s with bindings := bindings } := by
  have pulls (among : call ∈ Call.pulls) : after call.serve s = { s with bindings := s.bindings } :=
    after_of_error (serve_of_stuckAt h call among)
  cases resumes with
  | next => exact ⟨s.bindings, pulls (by simp [Call.pulls])⟩
  | request request =>
    cases request with
    | evaluate => exact ⟨s.bindings, pulls (by simp [Call.pulls])⟩
    | evaluateAll => exact ⟨s.bindings, pulls (by simp [Call.pulls])⟩
    | assign name given => exact Request.after_assign name given s

end Evaluating

/-- Calls of a stuck session change nothing but what is assigned. -/
theorem History.session_of_stuckAt {t : Session} {c : Char} (h : t.reader.StuckAt c)
    {calls : List Call} (resume : ∀ call ∈ calls, call.Resumes) :
    ∃ bindings, (History.of t calls).session = { t with bindings := bindings } := by
  have goesOn (before : History)
      (same : ∃ bindings, before.session = { t with bindings := bindings }) :
      ∃ bindings, (calls.foldl call before).session = { t with bindings := bindings } := by
    induction calls generalizing before with
    | nil => exact same
    | cons call later ih =>
      obtain ⟨bindings, same⟩ := same
      have stuck : before.session.reader.StuckAt c := by
        rw [same]
        exact h
      obtain ⟨bindings', changed⟩ :=
        Evaluating.after_of_stuckAt stuck (resume call List.mem_cons_self)
      refine ih (fun call hc => resume call (List.mem_cons_of_mem _ hc)) _ ⟨bindings', ?_⟩
      rw [session_call, changed, same]
  exact goesOn _ ⟨t.bindings, rfl⟩

/-- **Stray characters.** Where a request ends with an invalid character, however deep in the rules
and under whatever policy, nothing is pending and the cursor stands in front of that character. From
then on every expression, every run over the statements and every pull ends with the very same
fault, and none of them changes the session; assigning changes the variables only. -/
theorem stuck_of_served (source file : String) (policy : Policy) (clearOnGroup : Bool)
    (bindings : Table Value) (requests : List Request) (request : Request) {d : Diagnostic}
    {t : Session}
    (stopped : request.serve ((Session.ofSource source file policy clearOnGroup bindings).served
      requests) = .error (.diagnostic d) t)
    (stray : d.cause.kind = .invalidCharacter) :
    (∃ c read behind, source.toList = read ++ c :: behind ∧
      t.reader.cursor = ⟨c :: behind, read.length, Place.start.after read⟩ ∧
      t.reader.pending = [] ∧ d = ⟨.invalidCharacter (String.singleton c), t.reader.here⟩) ∧
    ∀ calls : List Call, (∀ call ∈ calls, call.Resumes) →
      let u := (History.of t calls).session
      u = { t with bindings := u.bindings } ∧
        ∀ call ∈ Call.pulls, call.serve u = .error (.diagnostic d) u := by
  obtain ⟨fs, kept⟩ := Evaluating.kept_served
    ⟨[], Session.kept_ofSource source file policy clearOnGroup bindings⟩ requests
  obtain ⟨gs, halted⟩ := (Evaluating.meetsKept_serve kept request).of_error stopped
  obtain ⟨c, stuck, same⟩ := halted.left ⟨d, rfl, stray⟩
  refine ⟨?_, fun calls resume => ?_⟩
  · obtain ⟨read, split, pos, place⟩ := halted.kept.reader.cursor
    obtain ⟨behind, rest⟩ := stuck.rest_eq_cons
    rw [rest] at split
    refine ⟨c, read, behind, split, ?_, stuck.pending, Fault.diagnostic.inj same⟩
    rw [← rest, ← pos, ← place]
  · obtain ⟨bindings', changed⟩ := History.session_of_stuckAt stuck resume
    have later : (History.of t calls).session.reader = t.reader := by rw [changed]
    refine ⟨by rw [changed], fun call among => ?_⟩
    have stuck' : (History.of t calls).session.reader.StuckAt c := by
      rw [later]
      exact stuck
    rw [Evaluating.serve_of_stuckAt stuck' call among, later, same]

/-- The theorem where a stray character stands in the body of a function, behind a header with two
mistakes that have been collected, and where one stands in a group behind a minus sign. -/
theorem stuck_of_served_dollar :
    let start := Session.ofSource "function f(+) 1 $ 2" "in" .collect false []
    let start' := Session.ofSource "1; - (2 * $)" "in" .raise true []
    (∃ fault t, Request.evaluateAll.serve start = .error fault t ∧
      t.reader.cursor.pos = 16 ∧ t.collected.length = 2 ∧
      Call.next.serve t = .error fault t) ∧
    ∃ fault t, Request.evaluateAll.serve start' = .error fault t ∧
      t.reader.cursor.pos = 10 ∧ (Call.request .evaluate).serve t = .error fault t := by
  intro start start'
  obtain ⟨fault, t, stopped, rfl, pos, two⟩ : ∃ fault t,
      Request.evaluateAll.serve start = .error fault t ∧
        fault = .diagnostic ⟨.invalidCharacter "$", ⟨1, 17, "in"⟩⟩ ∧
        t.reader.cursor.pos = 16 ∧ t.collected.length = 2 := by
    decide +kernel
  obtain ⟨fault', t', stopped', rfl, pos'⟩ : ∃ fault t,
      Request.evaluateAll.serve start' = .error fault t ∧
        fault = .diagnostic ⟨.invalidCharacter "$", ⟨1, 11, "in"⟩⟩ ∧
        t.reader.cursor.pos = 10 := by
    decide +kernel
  have none (call : Call) (among : call ∈ ([] : List Call)) : call.Resumes :=
    absurd among List.not_mem_nil
  obtain ⟨-, later⟩ := stuck_of_served "function f(+) 1 $ 2" "in" .collect false [] []
    .evaluateAll stopped rfl
  obtain ⟨-, later'⟩ := stuck_of_served "1; - (2 * $)" "in" .raise true [] []
    .evaluateAll stopped' rfl
  refine ⟨⟨_, t, stopped, pos, two, (later [] none).2 .next ?_⟩,
    ⟨_, t', stopped', pos', (later' [] none).2 (.request .evaluate) ?_⟩⟩
  · simp [Call.pulls]
  · simp [Call.pulls]

end Reckoner
