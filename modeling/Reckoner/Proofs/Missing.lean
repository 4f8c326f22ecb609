import Reckoner.Proofs.Headers
import Reckoner.Proofs.Scans

/-!
# Headers that miss something

Where a reader that stops at the first diagnostic is to read a header, the text that comes next
begins with one, or an element of it is missing: the name, a parenthesis, a parameter or the
arrow. The first such element is what the run ends with, right at the place where it should be.

* `Missing` — the texts of headers up to an element that is not there;
* `Reading.header_eq_error` — just they end the reading of a header, and with that element;
* `Reading.literalFrom_iff` — the body is what is scanned up to the end of the statement;
* `Reading.functionLiteral_of_raise` — both cases of a whole literal.
-/

namespace Reckoner

open Reckoner.Text

/-! ### Texts -/

/-- What stands in front of a list of parameters. -/
inductive Opening : List Char → Prop
  | mk {a b name : List Char} : Blanks a → IsName name → Blanks b →
      Opening (a ++ name ++ (b ++ ['(']))

/-- The element that a header misses first, the header up to it, and what is there instead. -/
inductive Missing : Cause → List Char → List Char → Prop
  | name {a next : List Char} : Blanks a →
      (∀ c ∈ next.head?, isBlank c = false ∧ isLetter c = false) →
      Missing .missingFunctionName a next
  | opening {a b name next : List Char} : Blanks a → IsName name → Blanks b →
      (∀ c ∈ (b ++ next).head?, isWordChar c = false) →
      (∀ c ∈ next.head?, isBlank c = false ∧ c ≠ '(') →
      Missing .missingParameterList (a ++ name ++ b) next
  | parameter {front c text next : List Char} {d : Char} {names : List (List Char)} :
      Opening front → Blanks c → Listed text names (d :: next) →
      isBlank d = false → isLetter d = false → d ≠ ')' →
      Missing .missingParameter (front ++ (c ++ text)) (d :: next)
  | closing {front c text : List Char} {names : List (List Char)} :
      Opening front → Blanks c → Listed text names [] →
      Missing .openParameterList (front ++ (c ++ text)) []
  | arrow {front c d text next : List Char} {names : List (List Char)} :
      Opening front → Blanks c → ParameterText text names → Blanks d →
      (∀ c ∈ next.head?, isBlank c = false) → ¬ ['=', '>'] <+: next →
      Missing .missingLink (front ++ (c ++ (text ++ [')'])) ++ d) next

theorem Missing.kind {cause : Cause} {text next : List Char} (h : Missing cause text next) :
    cause.kind = .malformed := by
  cases h <;> rfl

/-- What comes next neither begins a parameter nor closes the list of them. -/
def Reader.NoParameter (r : Reader) : Prop :=
  ∃ d, r.cursor.rest.head? = some d ∧ isBlank d = false ∧ isLetter d = false ∧ d ≠ ')'

namespace Reading

variable {α β : Type} {r q : Reader} {fault : Fault}

/-! ### Runs that stop -/

/-- The action never fails. -/
def Sure (a : Reading α) : Prop := ∀ r, ∃ x q, a r = .ok x q

theorem Sure.ne_error {a : Reading α} (h : Sure a) : a r ≠ .error fault q := by
  obtain ⟨x, m, run⟩ := h r
  rw [run]
  exact fun same => nomatch same

theorem sure_pure (x : α) : Sure (pure x) := fun r => ⟨x, r, rfl⟩

theorem Sure.bind {a : Reading α} {f : α → Reading β} (ha : Sure a) (hf : ∀ x, Sure (f x)) :
    Sure (a >>= f) := by
  intro r
  obtain ⟨x, m, run⟩ := ha r
  rw [bind_of_ok run]
  exact hf x m

theorem sure_takeWhile (test : Char → Bool) : Sure (takeWhile test) :=
  fun r => ⟨_, _, takeWhile_eq_ok test r⟩

theorem sure_skipBlanks : Sure skipBlanks := fun r => ⟨(), r.pastBlanks, rfl⟩

theorem sure_skip (n : Nat) : Sure (skip n) := fun r => ⟨(), r.advance n, rfl⟩

theorem sure_word : Sure word := fun _ => ⟨_, _, rfl⟩

theorem sure_passComma : Sure passComma := by
  refine sure_skipBlanks.bind fun _ => Sure.bind (fun r => ⟨r.cursor.rest.head?, r, rfl⟩) ?_
  intro next
  split
  · exact (sure_skip 1).bind fun _ => sure_skipBlanks
  · exact sure_pure ()

/-- Where nothing is collected, every run that succeeds is silent. -/
theorem Step.calm {a : Reading α} (h : Step α a) (raising : r.journal.policy = .raise) :
    (after a r).journal.collected = r.journal.collected := by
  cases h with
  | popPending? => obtain ⟨c, pending, file, j⟩ := r; cases pending <;> rfl
  | captured f => exact Journal.collected_note_captured r.journal f
  | report d => rw [after_of_error (report_of_raise d raising)]
  | _ => rfl

theorem quiet_of_raise {a : Reading α} [h : Composed Step a] {x : α}
    (raising : r.journal.policy = .raise) (run : a r = .ok x q) : Quiet a r x q := by
  have kept : r.journal.policy = .raise → (after a r).journal.policy = .raise ∧
      (after a r).journal.collected = r.journal.collected :=
    h.after_related (R := fun r q : Reader => r.journal.policy = .raise →
        q.journal.policy = .raise ∧ q.journal.collected = r.journal.collected)
      (fun _ raising => ⟨raising, rfl⟩)
      (fun first later raising =>
        have front := first raising
        have behind := later front.1
        ⟨behind.1, behind.2.trans front.2⟩)
      (fun r step raising => ⟨(step.grows.policy r).trans raising, step.calm raising⟩) r
  rw [after_of_ok run] at kept
  exact ⟨run, [], (kept raising).2.trans (List.append_nil _).symm,
    fun d hd => absurd hd List.not_mem_nil⟩

/-- A sequence stops in one of its parts, and what comes before that is silent. -/
theorem bind_eq_error {a : Reading α} {f : α → Reading β} [Composed Step a]
    (raising : r.journal.policy = .raise) :
    (a >>= f) r = .error fault q ↔
      a r = .error fault q ∨ ∃ x m, Quiet a r x m ∧ f x m = .error fault q := by
  cases run : a r with
  | error stop m =>
    rw [bind_of_error run, EStateM.Result.error.injEq, EStateM.Result.error.injEq]
    constructor
    · exact Or.inl
    · rintro (same | ⟨x, m', quiet, -⟩)
      · exact same
      · cases run.symm.trans quiet.run
  | ok x m =>
    rw [bind_of_ok run]
    constructor
    · exact fun later => Or.inr ⟨x, m, quiet_of_raise raising run, later⟩
    · rintro (same | ⟨y, m', quiet, later⟩)
      · cases same
      · cases run.symm.trans quiet.run
        exact later

theorem sure_bind_eq_error {a : Reading α} {f : α → Reading β} (sure : ∀ x, Sure (f x)) :
    (a >>= f) r = .error fault q ↔ a r = .error fault q := by
  cases run : a r with
  | error stop m =>
    rw [bind_of_error run, EStateM.Result.error.injEq, EStateM.Result.error.injEq]
  | ok x m =>
    rw [bind_of_ok run]
    exact iff_of_false (sure x).ne_error fun same => nomatch same

theorem reportHere_eq_error {c : Cause} (raising : r.journal.policy = .raise) :
    reportHere c r = .error fault q ↔ q = r ∧ fault = .diagnostic ⟨c, q.here⟩ := by
  rw [show reportHere c r = _ from report_of_raise ⟨c, r.here⟩ raising]
  constructor
  · intro same
    cases same
    exact ⟨rfl, rfl⟩
  · rintro ⟨rfl, rfl⟩
    rfl

/-- Where something is required that is not there, this is what the run ends with. -/
theorem ite_reportHere_eq_error {p : Prop} [Decidable p] {a : Reading Unit} {c : Cause}
    (sure : Sure a) (raising : r.journal.policy = .raise) :
    (if p then a else reportHere c) r = .error fault q ↔
      ¬ p ∧ q = r ∧ fault = .diagnostic ⟨c, q.here⟩ := by
  by_cases h : p
  · rw [if_pos h]
    exact iff_of_false sure.ne_error fun missing => missing.1 h
  · rw [if_neg h, reportHere_eq_error raising]
    exact (and_iff_right h).symm

/-! ### The parts of a header -/

theorem eq_pastBlanks_iff :
    q = r.pastBlanks ↔ ∃ a, Blanks a ∧ r.Passes a q ∧ q.EndsRun isBlank := by
  rw [← quiet_skipBlanks]
  constructor
  · intro same
    rw [same]
    exact quiet_pastBlanks r
  · intro quiet
    cases quiet.run
    rfl

/-- What is required behind blanks is missing where the blanks end. -/
theorem eq_error_of_pastBlanks {a : Reading α} {p : Reader → Prop} {c : Cause}
    (require : a r = .error fault q ↔
      ¬ p r.pastBlanks ∧ q = r.pastBlanks ∧ fault = .diagnostic ⟨c, q.here⟩) :
    a r = .error fault q ↔
      ∃ b, Blanks b ∧ r.Passes b q ∧ q.EndsRun isBlank ∧ ¬ p q ∧
        fault = .diagnostic ⟨c, q.here⟩ := by
  rw [require]
  constructor
  · rintro ⟨other, same, blamed⟩
    obtain ⟨b, blanks, before, stops⟩ := eq_pastBlanks_iff.1 same
    exact ⟨b, blanks, before, stops, same ▸ other, blamed⟩
  · rintro ⟨b, blanks, before, stops, other, blamed⟩
    have same := eq_pastBlanks_iff.2 ⟨b, blanks, before, stops⟩
    exact ⟨same ▸ other, same, blamed⟩

theorem functionName_eq_error (raising : r.journal.policy = .raise) :
    functionName r = .error fault q ↔
      ∃ a, Blanks a ∧ r.Passes a q ∧ q.EndsRun isBlank ∧
        ¬ q.cursor.rest.head?.any isLetter = true ∧
        fault = .diagnostic ⟨.missingFunctionName, q.here⟩ := by
  refine eq_error_of_pastBlanks (p := fun m => m.cursor.rest.head?.any isLetter = true) ?_
  show (requireName >>= fun _ => word : Reading String) r.pastBlanks = _ ↔ _
  rw [sure_bind_eq_error fun _ => sure_word]
  exact ite_reportHere_eq_error (sure_pure ()) raising

theorem openParameters_eq_error (raising : r.journal.policy = .raise) :
    openParameters r = .error fault q ↔
      ∃ b, Blanks b ∧ r.Passes b q ∧ q.EndsRun isBlank ∧ ¬ q.cursor.rest.head? = some '(' ∧
        fault = .diagnostic ⟨.missingParameterList, q.here⟩ :=
  eq_error_of_pastBlanks (p := fun m => m.cursor.rest.head? = some '(')
    (ite_reportHere_eq_error (sure_skip 1) raising)

theorem requireLink_eq_error (raising : r.journal.policy = .raise) :
    requireLink r = .error fault q ↔
      ∃ d, Blanks d ∧ r.Passes d q ∧ q.EndsRun isBlank ∧ ¬ ['=', '>'] <+: q.cursor.rest ∧
        fault = .diagnostic ⟨.missingLink, q.here⟩ := by
  refine eq_error_of_pastBlanks (p := fun m => ['=', '>'] <+: m.cursor.rest) ?_
  rw [← ite_reportHere_eq_error (p := ['=', '>'] <+: r.pastBlanks.cursor.rest) (sure_skip 2)
    (show r.pastBlanks.journal.policy = .raise from raising)]
  split
  · rename_i arrow
    obtain ⟨rest, split⟩ := arrow
    rw [requireLink_of_arrow split.symm]
    rfl
  · rename_i other
    rw [requireLink_of_other fun rest split => other ⟨rest, split.symm⟩]

theorem closeParameters_eq_error (raising : r.journal.policy = .raise) :
    closeParameters r = .error fault q ↔
      r.cursor.rest = [] ∧ q = r ∧ fault = .diagnostic ⟨.openParameterList, q.here⟩ := by
  refine (ite_reportHere_eq_error (p := r.cursor.rest.head?.isSome = true) (sure_skip 1)
    raising).trans ?_
  rw [Option.not_isSome_iff_eq_none, List.head?_eq_none_iff]

theorem parameterTurn_eq_error {c : Char} (raising : r.journal.policy = .raise) :
    parameterTurn c r = .error fault q ↔
      ¬ isLetter c = true ∧ q = r ∧ fault = .diagnostic ⟨.missingParameter, q.here⟩ := by
  unfold parameterTurn
  rw [sure_bind_eq_error fun found => sure_passComma.bind fun _ => sure_pure found]
  unfold parameter
  by_cases letter : isLetter c = true
  · rw [if_pos letter]
    exact iff_of_false (fun same => nomatch same) fun missing => missing.1 letter
  · rw [if_neg letter,
      sure_bind_eq_error fun _ => (sure_takeWhile _).bind fun _ => sure_pure [],
      reportHere_eq_error raising]
    exact (and_iff_right letter).symm

/-- Where the list ends, no parameter is missing. -/
theorem not_noParameter_of_end {text : List Char} {names : List (List Char)}
    (closing : ∀ c ∈ r.cursor.rest.head?, c = ')') (listed : Listed text names q.cursor.rest)
    (passes : r.Passes text q) : ¬ q.NoParameter := by
  rintro ⟨d, head, -, -, inside⟩
  obtain ⟨-, rfl⟩ := eq_of_listed_of_end closing listed passes
  exact inside (closing d head)

/-- **Parameters stop** where neither a name begins nor the list ends. -/
theorem parameters_eq_error {n : Nat} (enough : r.cursor.rest.length < n)
    (unblank : r.EndsRun isBlank) (raising : r.journal.policy = .raise) :
    parameters n r = .error fault q ↔
      ∃ text names, Listed text names q.cursor.rest ∧ r.Passes text q ∧ q.NoParameter ∧
        fault = .diagnostic ⟨.missingParameter, q.here⟩ := by
  induction n generalizing r with
  | zero => exact absurd enough (Nat.not_lt_zero _)
  | succ n ih =>
    have ended (ends : parameters (n + 1) r = .ok [] r)
        (closing : ∀ c ∈ r.cursor.rest.head?, c = ')') : parameters (n + 1) r = .error fault q ↔
          ∃ text names, Listed text names q.cursor.rest ∧ r.Passes text q ∧ q.NoParameter ∧
            fault = .diagnostic ⟨.missingParameter, q.here⟩ := by
      rw [ends]
      refine iff_of_false (fun same => nomatch same) ?_
      rintro ⟨text, names, listed, passes, bars, -⟩
      exact not_noParameter_of_end closing listed passes bars
    cases rest : r.cursor.rest with
    | nil => exact ended (parameters_of_end n rest) (by rw [rest]; exact fun c hc => nomatch hc)
    | cons c cs =>
      have head : r.cursor.rest.head? = some c := by rw [rest, List.head?_cons]
      by_cases closing : c = ')'
      · subst closing
        exact ended (parameters_of_closing n rest) fun c hc => Option.some.inj (hc.symm.trans head)
      rw [parameters_of_turn n rest closing, bind_eq_error raising, parameterTurn_eq_error raising]
      constructor
      · rintro (⟨other, rfl, blamed⟩ | ⟨found, m, turn, later⟩)
        · exact ⟨[], [], .none, .refl _,
            ⟨c, head, unblank c head, Bool.eq_false_iff.2 other, closing⟩, blamed⟩
        · rw [sure_bind_eq_error fun _ => sure_pure _] at later
          obtain ⟨shorter, unblank', kept⟩ := turn.of_parameterTurn head
          obtain ⟨text, names, listed, behind, bars⟩ :=
            (ih (by omega) unblank' (kept ▸ raising)).1 later
          obtain ⟨name, whole, -, listed', passes⟩ := listed_of_turn head turn listed behind
          exact ⟨whole, name :: names, listed', passes, bars⟩
      · rintro ⟨text, names, listed, passes, bars⟩
        cases listed with
        | none =>
          have same : q = r := passes.reader
          subst same
          obtain ⟨⟨d, first, -, other, -⟩, blamed⟩ := bars
          cases head.symm.trans first
          exact Or.inl ⟨Bool.eq_false_iff.1 other, rfl, blamed⟩
        | name named apart apart' listed =>
          obtain ⟨m, turn, behind⟩ := exists_turn head named apart apart' passes
          obtain ⟨shorter, unblank', kept⟩ := turn.of_parameterTurn head
          refine Or.inr ⟨_, m, turn, ?_⟩
          rw [sure_bind_eq_error fun _ => sure_pure _]
          exact (ih (by omega) unblank' (kept ▸ raising)).2 ⟨_, _, listed, behind, bars⟩

theorem parameterList_eq_error (raising : r.journal.policy = .raise) :
    parameterList r = .error fault q ↔
      ∃ c text names, Blanks c ∧ Listed text names q.cursor.rest ∧ r.Passes (c ++ text) q ∧
        (q.NoParameter ∧ fault = .diagnostic ⟨.missingParameter, q.here⟩ ∨
          q.cursor.rest = [] ∧ fault = .diagnostic ⟨.openParameterList, q.here⟩) := by
  obtain ⟨c, blanks, before, stops⟩ := eq_pastBlanks_iff.1 (Eq.refl r.pastBlanks)
  have enough := r.pastBlanks.length_rest_lt_budget
  have raising' : r.pastBlanks.journal.policy = .raise := raising
  show (parameters r.pastBlanks.budget >>= fun names => closeParameters >>= fun _ => pure names :
    Reading (List String)) r.pastBlanks = _ ↔ _
  rw [bind_eq_error raising', parameters_eq_error enough stops raising']
  constructor
  · rintro (⟨text, names, listed, passes, missing⟩ | ⟨xs, m, read, later⟩)
    · exact ⟨c, text, names, blanks, listed, before.trans passes, Or.inl missing⟩
    · obtain ⟨text, names, -, listed, passes, -⟩ := (quiet_parameters enough).1 read
      rw [sure_bind_eq_error fun _ => sure_pure _,
        closeParameters_eq_error (passes.journal_eq ▸ raising')] at later
      obtain ⟨ended, rfl, blamed⟩ := later
      exact ⟨c, text, names, blanks, listed, before.trans passes, Or.inr ⟨ended, blamed⟩⟩
  · rintro ⟨c', text, names, blanks', listed, passes, missing⟩
    obtain ⟨m, before', passes⟩ := passes.exists_between
    have unblank : q.EndsRun isBlank := by
      rcases missing with ⟨⟨d, head, unblank, -⟩, -⟩ | ⟨ended, -⟩
      · exact Reader.endsRun_of_head head unblank
      · unfold Reader.EndsRun
        rw [ended]
        exact fun c hc => nomatch hc
    obtain rfl := eq_pastBlanks_iff.2 ⟨c', blanks', before', passes.endsRun listed.unblank unblank⟩
    rcases missing with missing | ⟨ended, blamed⟩
    · exact Or.inl ⟨text, names, listed, passes, missing⟩
    · have closing : ∀ c ∈ q.cursor.rest.head?, c = ')' := by
        rw [ended]
        exact fun c hc => nomatch hc
      refine Or.inr ⟨_, q, (quiet_parameters enough).2 ⟨text, names, rfl, listed, passes, closing⟩, ?_⟩
      rw [sure_bind_eq_error fun _ => sure_pure _,
        closeParameters_eq_error (passes.journal_eq ▸ raising')]
      exact ⟨ended, rfl, blamed⟩

/-! ### The whole header -/

/-- A header stops in the first of its parts that does. -/
theorem header_eq_error_iff (raising : r.journal.policy = .raise) :
    header r = .error fault q ↔ functionName r = .error fault q ∨
      ∃ x m₁, Quiet functionName r x m₁ ∧ (openParameters m₁ = .error fault q ∨
        ∃ y m₂, Quiet openParameters m₁ y m₂ ∧ (parameterList m₂ = .error fault q ∨
          ∃ xs m₃, Quiet parameterList m₂ xs m₃ ∧ requireLink m₃ = .error fault q)) := by
  have kept {γ : Type} {a : Reading γ} [h : Composed Step a] {x : γ} {m m' : Reader}
      (raising : m.journal.policy = .raise) (quiet : Quiet a m x m') :
      m'.journal.policy = .raise := ((grows h).policy_of_ok quiet.run).trans raising
  unfold header
  rw [bind_eq_error raising]
  refine or_congr_right (exists_congr fun x => exists_congr fun m₁ => and_congr_right fun h₁ => ?_)
  have raising₁ := kept raising h₁
  rw [bind_eq_error raising₁]
  refine or_congr_right (exists_congr fun y => exists_congr fun m₂ => and_congr_right fun h₂ => ?_)
  have raising₂ := kept raising₁ h₂
  rw [bind_eq_error raising₂]
  refine or_congr_right (exists_congr fun xs => exists_congr fun m₃ => and_congr_right fun _ => ?_)
  exact sure_bind_eq_error fun _ => sure_pure _

/-- What opens a list of parameters is passed in silence. -/
theorem quiet_of_opening {front : List Char} (opening : Opening front) (passes : r.Passes front q) :
    ∃ x m, Quiet functionName r x m ∧ Quiet openParameters m () q := by
  cases opening with
  | @mk a b name ha hn hb =>
    obtain ⟨m, first, second⟩ := passes.exists_between
    obtain ⟨m', blanks, sign⟩ := second.exists_between
    have apart := blanks.endsRun
      (fun e he => isWordChar_of_isBlank (hb e (List.mem_of_mem_head? he)))
      (Reader.endsRun_of_head sign.head_of_sign (by decide))
    exact ⟨_, m, quiet_functionName.2 ⟨a, name, rfl, ha, hn, first, apart⟩,
      quiet_openParameters.2 ⟨b, hb, second⟩⟩

/-- What ends the reading of a header is something that is missing there. -/
theorem exists_missing_of_header (raising : r.journal.policy = .raise)
    (stopped : header r = .error fault q) :
    ∃ cause text, Missing cause text q.cursor.rest ∧ r.Passes text q ∧
      fault = .diagnostic ⟨cause, q.here⟩ := by
  have kept {m : Reader} {text : List Char} (passes : r.Passes text m) :
      m.journal.policy = .raise := passes.journal_eq ▸ raising
  rcases (header_eq_error_iff raising).1 stopped with stopped | ⟨x, m₁, named, later⟩
  · obtain ⟨a, ha, passes, unblank, none, blamed⟩ := (functionName_eq_error raising).1 stopped
    refine ⟨_, a, .name ha fun c hc => ⟨unblank c hc, ?_⟩, passes, blamed⟩
    rw [Option.mem_def.1 hc, Option.any_some] at none
    exact Bool.eq_false_iff.2 none
  obtain ⟨a, name, rfl, ha, hn, first, apart⟩ := quiet_functionName.1 named
  rcases later with stopped | ⟨_, m₂, opened, later⟩
  · obtain ⟨b, hb, passes, unblank, none, blamed⟩ :=
      (openParameters_eq_error (kept first)).1 stopped
    unfold Reader.EndsRun at apart
    rw [passes.split] at apart
    refine ⟨_, a ++ name ++ b, .opening ha hn hb apart fun c hc => ⟨unblank c hc, ?_⟩,
      first.trans passes, blamed⟩
    rintro rfl
    exact none hc
  obtain ⟨b, hb, second⟩ := quiet_openParameters.1 opened
  have front := first.trans second
  rcases later with stopped | ⟨xs, m₃, listed, stopped⟩
  · obtain ⟨c, text, names, hc, listed, passes, missing⟩ :=
      (parameterList_eq_error (kept front)).1 stopped
    rcases missing with ⟨⟨d, head, unblank, other, inside⟩, blamed⟩ | ⟨ended, blamed⟩
    · obtain ⟨next, rest⟩ := List.head?_eq_some_iff.1 head
      rw [rest] at listed ⊢
      exact ⟨_, _, .parameter (.mk ha hn hb) hc listed unblank other inside,
        front.trans passes, blamed⟩
    · rw [ended] at listed ⊢
      exact ⟨_, _, .closing (.mk ha hn hb) hc listed, front.trans passes, blamed⟩
  · obtain ⟨c, text, names, -, hc, hp, third⟩ := quiet_parameterList.1 listed
    obtain ⟨d, hd, passes, unblank, none, blamed⟩ :=
      (requireLink_eq_error (kept (front.trans third))).1 stopped
    exact ⟨_, _, .arrow (.mk ha hn hb) hc hp hd unblank none,
      (front.trans third).trans passes, blamed⟩

/-- What is missing ends the reading of a header. -/
theorem header_of_missing (raising : r.journal.policy = .raise) {cause : Cause} {text : List Char}
    (missing : Missing cause text q.cursor.rest) (passes : r.Passes text q) :
    header r = .error (.diagnostic ⟨cause, q.here⟩) q := by
  have kept {m : Reader} {text : List Char} (passes : r.Passes text m) :
      m.journal.policy = .raise := passes.journal_eq ▸ raising
  refine (header_eq_error_iff raising).2 ?_
  generalize rest : q.cursor.rest = next at missing
  cases missing with
  | name ha none =>
    refine Or.inl ((functionName_eq_error raising).2 ⟨text, ha, passes, ?_, ?_, rfl⟩)
    · intro c hc
      exact (none c (rest ▸ hc)).1
    · rw [Option.any_eq_true]
      rintro ⟨c, hc, letter⟩
      rw [(none c (rest ▸ hc)).2] at letter
      cases letter
  | @opening a b name _ ha hn hb apart none =>
    obtain ⟨m, first, passes⟩ := passes.exists_between
    have apart' : m.EndsRun isWordChar := by
      unfold Reader.EndsRun
      rw [passes.split, rest]
      exact apart
    refine Or.inr ⟨_, m, quiet_functionName.2 ⟨a, name, rfl, ha, hn, first, apart'⟩, Or.inl ?_⟩
    refine (openParameters_eq_error (kept first)).2 ⟨b, hb, passes, ?_, ?_, rfl⟩
    · intro c hc
      exact (none c (rest ▸ hc)).1
    · intro head
      exact (none '(' (rest ▸ head)).2 rfl
  | @parameter front c text next d names opening hc listed unblank other inside =>
    obtain ⟨m, before, passes⟩ := passes.exists_between
    obtain ⟨x, m', named, opened⟩ := quiet_of_opening opening before
    refine Or.inr ⟨x, m', named, Or.inr ⟨(), m, opened, Or.inl ?_⟩⟩
    refine (parameterList_eq_error (kept before)).2 ⟨c, text, names, hc, rest ▸ listed, passes, ?_⟩
    exact Or.inl ⟨⟨d, by rw [rest]; rfl, unblank, other, inside⟩, rfl⟩
  | @closing front c text names opening hc listed =>
    obtain ⟨m, before, passes⟩ := passes.exists_between
    obtain ⟨x, m', named, opened⟩ := quiet_of_opening opening before
    refine Or.inr ⟨x, m', named, Or.inr ⟨(), m, opened, Or.inl ?_⟩⟩
    exact (parameterList_eq_error (kept before)).2
      ⟨c, text, names, hc, rest ▸ listed, passes, Or.inr ⟨rest, rfl⟩⟩
  | @arrow front c d text next names opening hc listed hd unblank none =>
    obtain ⟨m₃, before, behind⟩ := passes.exists_between
    obtain ⟨m, before', passes⟩ := before.exists_between
    obtain ⟨x, m', named, opened⟩ := quiet_of_opening opening before'
    have read := quiet_parameterList.2 ⟨c, text, names, rfl, hc, listed, passes⟩
    refine Or.inr ⟨x, m', named, Or.inr ⟨(), m, opened, Or.inr ⟨_, m₃, read, ?_⟩⟩⟩
    refine (requireLink_eq_error (kept before)).2 ⟨d, hd, behind, ?_, rest ▸ none, rfl⟩
    intro c hc
    exact unblank c (rest ▸ hc)

/-- **A header stops at what it misses.** Where nothing is collected, the reading of a header ends
in no other way. -/
theorem header_eq_error (raising : r.journal.policy = .raise) :
    header r = .error fault q ↔
      ∃ cause text, Missing cause text q.cursor.rest ∧ r.Passes text q ∧
        fault = .diagnostic ⟨cause, q.here⟩ := by
  constructor
  · exact exists_missing_of_header raising
  · rintro ⟨cause, text, missing, passes, rfl⟩
    exact header_of_missing raising missing passes

/-! ### Whole literals -/

/-- A literal whose header is there is its body and what the header announces. -/
theorem functionLiteral_of_heading {text next name : List Char} {names : List (List Char)}
    (heading : Heading text name names) (split : r.cursor.rest = text ++ next) :
    functionLiteral r =
      literalFrom (String.ofList name, names.map String.ofList) (r.advance text.length) := by
  have passes := (Reader.passes_of_split split).1
  have announced := quiet_header.2 ⟨text, name, names, rfl, rfl, heading, passes⟩
  rw [functionLiteral_eq, bind_of_ok announced.run]

/-- The body of a literal is what is scanned up to the end of its statement. -/
theorem literalFrom_iff {heading : String × List String} {f : FunctionLiteral}
    (none : r.pending = []) :
    (∃ z, literalFrom heading r = .ok f z ∧ q.SamePlace z) ↔
      ∃ ts e, r.Scans (ts ++ [e]) q ∧ (∀ t ∈ ts, t.kind.endsStatement = false) ∧
        e.kind.endsStatement = true ∧
        f = ⟨heading.1, heading.2, ts ++ [⟨.endOfLine, ";", e.location⟩]⟩ := by
  constructor
  · rintro ⟨z, run, same⟩
    obtain ⟨ts, e, m, read, rfl, rfl⟩ := body_of_literalFrom run
    obtain ⟨scanned, inside, last⟩ := scans_of_body none read
    have here : m.SamePlace q := ⟨same.cursor.symm, same.file.symm, same.policy.symm⟩
    exact ⟨ts, e, scanned.congr_end here, inside, last, rfl⟩
  · rintro ⟨ts, e, scanned, inside, last, rfl⟩
    obtain ⟨z, read, same⟩ := body_of_scans none r.weight_lt_budget scanned inside last
    exact ⟨_, literalFrom_of_body read, same.cursor, same.file, same.policy⟩

/-- **The language of headers.** Where a reader stops at the first diagnostic, it gets past a header
just if one comes next. Then the literal has the name and the parameters of the header, and with
nothing pending its body is what is scanned from behind the arrow up to the first end of a
statement, for which a semicolon stands. Otherwise something is missing, and the run ends with the
first such element, in the place where it is missing. -/
theorem functionLiteral_of_raise (raising : r.journal.policy = .raise) :
    ((∃ announced q, header r = .ok announced q) ↔
      ∃ text name names, Heading text name names ∧ text <+: r.cursor.rest) ∧
    (∀ text next name names, Heading text name names → r.cursor.rest = text ++ next →
      let m := r.advance text.length
      let announced := (String.ofList name, names.map String.ofList)
      m.cursor.rest = next ∧ functionLiteral r = literalFrom announced m ∧
      (r.pending = [] → ∀ f q, (∃ z, functionLiteral r = .ok f z ∧ q.SamePlace z) ↔
        ∃ ts e, m.Scans (ts ++ [e]) q ∧ (∀ t ∈ ts, t.kind.endsStatement = false) ∧
          e.kind.endsStatement = true ∧
          f = ⟨announced.1, announced.2, ts ++ [⟨.endOfLine, ";", e.location⟩]⟩)) ∧
    ((∀ text name names, Heading text name names → ¬ text <+: r.cursor.rest) →
      ∃ cause text next, Missing cause text next ∧ r.cursor.rest = text ++ next) ∧
    ∀ cause text next, Missing cause text next → r.cursor.rest = text ++ next →
      let q := r.advance text.length
      cause.kind = .malformed ∧ functionLiteral r = .error (.diagnostic ⟨cause, q.here⟩) q := by
  have read : (∃ announced q, header r = .ok announced q) ↔
      ∃ text name names, Heading text name names ∧ text <+: r.cursor.rest := by
    constructor
    · rintro ⟨⟨x, xs⟩, q, run⟩
      obtain ⟨text, name, names, -, -, heading, passes⟩ :=
        quiet_header.1 (quiet_of_raise raising run)
      exact ⟨text, name, names, heading, q.cursor.rest, passes.split.symm⟩
    · rintro ⟨text, name, names, heading, next, split⟩
      have passes := (Reader.passes_of_split split.symm).1
      exact ⟨_, _, (quiet_header.2 ⟨text, name, names, rfl, rfl, heading, passes⟩).run⟩
  refine ⟨read, ?_, ?_, ?_⟩
  · intro text next name names heading split m announced
    have whole := functionLiteral_of_heading heading split
    refine ⟨(Reader.passes_of_split split).2, whole, fun none f q => ?_⟩
    rw [whole]
    exact literalFrom_iff none
  · intro none
    cases run : header r with
    | ok announced q =>
      obtain ⟨text, name, names, heading, within⟩ := read.1 ⟨announced, q, run⟩
      exact absurd within (none text name names heading)
    | error fault q =>
      obtain ⟨cause, text, missing, passes, -⟩ := (header_eq_error raising).1 run
      exact ⟨cause, text, _, missing, passes.split⟩
  · intro cause text next missing split q
    obtain ⟨passes, behind⟩ := Reader.passes_of_split split
    rw [← behind] at missing
    have stopped := (header_eq_error raising).2 ⟨cause, text, missing, passes, rfl⟩
    exact ⟨missing.kind, functionLiteral_eq ▸ bind_of_error stopped⟩

/-- The theorem where the body is glued to the arrow, and where a digit stands for a parameter. -/
theorem functionLiteral_of_raise_glued_body :
    let r := Reader.ofSource "f(a b,)=>=1;2" "in" .raise
    let r' := Reader.ofSource " f(a, b 1) => x" "in" .raise
    (r.journal.policy = .raise ∧ ∃ f z ts e, functionLiteral r = .ok f z ∧ f.name = "f" ∧
      f.parameters = ["a", "b"] ∧ (r.advance 9).Scans (ts ++ [e]) z ∧
      f.body = ts ++ [⟨.endOfLine, ";", e.location⟩]) ∧
    r'.journal.policy = .raise ∧
      functionLiteral r' = .error (.diagnostic ⟨.missingParameter, ⟨1, 9, "in"⟩⟩) (r'.advance 8) := by
  intro r r'
  have a : IsName ['a'] := ⟨⟨'a', rfl, by decide⟩, forall_mem_of_all (by decide)⟩
  have b : IsName ['b'] := ⟨⟨'b', rfl, by decide⟩, forall_mem_of_all (by decide)⟩
  have f : IsName ['f'] := ⟨⟨'f', rfl, by decide⟩, forall_mem_of_all (by decide)⟩
  constructor
  · have comma : Gap [','] := .comma blanks_nil blanks_nil
    have last : ParameterText (['b'] ++ ([','] ++ [])) [['b']] :=
      .name b comma (fun c hc => by cases hc; decide) .none
    have listed : ParameterText ['a', ' ', 'b', ','] [['a'], ['b']] :=
      .name a (.blanks blanks_space) (fun c hc => by cases hc; decide) last
    have heading : Heading "f(a b,)=>".toList ['f'] [['a'], ['b']] :=
      .mk blanks_nil f blanks_nil blanks_nil listed blanks_nil
    obtain ⟨-, -, bodies⟩ :=
      (functionLiteral_of_raise (r := r) rfl).2.1 _ "=1;2".toList _ _ heading rfl
    obtain ⟨g, z, run, -⟩ : ∃ g z, functionLiteral r = .ok g z ∧ g.name = "f" := by
      decide +kernel
    obtain ⟨ts, e, scanned, -, -, rfl⟩ := (bodies rfl g z).1 ⟨z, run, .refl z⟩
    exact ⟨rfl, _, z, ts, e, run, rfl, rfl, scanned, rfl⟩
  · have gap : GapBefore [',', ' '] ['b', ' ', '1', ')', ' ', '=', '>', ' ', 'x'] :=
      ⟨.comma blanks_nil blanks_space, fun c hc => by cases hc; decide, Or.inl (by decide)⟩
    have space : GapBefore [' '] ['1', ')', ' ', '=', '>', ' ', 'x'] :=
      ⟨.blanks blanks_space, fun c hc => by cases hc; decide, Or.inr (by decide)⟩
    have last : Listed (['b'] ++ ([' '] ++ [])) [['b']] ['1', ')', ' ', '=', '>', ' ', 'x'] :=
      .name b space (fun c hc => by cases hc; decide) .none
    have listed : Listed ['a', ',', ' ', 'b', ' '] [['a'], ['b']]
        ['1', ')', ' ', '=', '>', ' ', 'x'] :=
      .name a gap (fun c hc => by cases hc; decide) last
    have missing : Missing .missingParameter " f(a, b ".toList "1) => x".toList :=
      .parameter (.mk blanks_space f blanks_nil) blanks_nil listed (by decide) (by decide)
        (by decide)
    exact ⟨rfl, ((functionLiteral_of_raise (r := r') rfl).2.2.2 _ _ _ missing rfl).2⟩

end Reading

end Reckoner
