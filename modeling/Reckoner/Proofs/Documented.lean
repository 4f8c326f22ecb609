import Reckoner.Command.Run
import Reckoner.Proofs.Guard.Sessions
import Reckoner.Proofs.Numerals

/-!
# Only documented faults

Whatever the source and the variables, a run ends with nothing but a diagnostic, and where
diagnostics are collected only with one of the two kinds that never are. No number token of a
source fails to be read, no operator of an expression is unknown, and no budget runs out. A
command that finds its source therefore always has an exit code. Runs are as deep as their sources
ask for: that the stack of a machine has an end is not part of the model, here or in the evaluation
itself.

* `Reader.Orderly`, `orderly` — what holds throughout a run, and the guard it makes;
* `Command.exits_onSource` — every command on its source;
* `Command.documents_and_exits` — the statement for runs and commands.
-/

namespace Reckoner

/-- The faults that may end a run under the policy. -/
def Policy.Documents (policy : Policy) (fault : Fault) : Prop :=
  ∃ d, fault = .diagnostic d ∧ d.cause.Known ∧
    (policy = .collect → d.cause.kind = .undefinedVariable ∨ d.cause.kind = .invalidCharacter)

/-- Where nothing is collected, everything recoverable may end a run. -/
theorem Policy.documents_raise {d : Diagnostic} (known : d.cause.Known) :
    Policy.raise.Documents (.diagnostic d) :=
  ⟨d, rfl, known, fun collecting => by cases collecting⟩

/-- All pending numbers can be read, and no unknown operator has been collected. -/
structure Reader.Orderly (policy : Policy) (r : Reader) : Prop where
  runs : r.journal.policy = policy
  pending : ∀ t ∈ r.pending, t.Readable
  collected : ∀ d ∈ r.journal.collected, d.cause.Known

namespace Reader

variable {policy : Policy} {r q : Reader}

theorem orderly_ofSource (source file : String) (policy : Policy) :
    (Reader.ofSource source file policy).Orderly policy :=
  ⟨rfl, fun _ ht => absurd ht List.not_mem_nil, fun _ hd => absurd hd List.not_mem_nil⟩

theorem Orderly.push {t : Token} (h : r.Orderly policy) (token : t.Readable) :
    (r.push t).Orderly policy := by
  refine ⟨h.runs, ?_, h.collected⟩
  intro u hu
  rcases List.mem_cons.1 hu with rfl | hu
  · exact token
  · exact h.pending u hu

theorem Orderly.note {e : Event} (h : r.Orderly policy) (none : e.diagnostic? = none) :
    (r.note e).Orderly policy := by
  have same : (r.note e).journal.collected = r.journal.collected := by
    cases e with
    | collected d => cases none
    | captured f => exact Journal.collected_note_captured r.journal f
    | cleared n => exact Journal.collected_note_cleared r.journal n
  refine ⟨h.runs, h.pending, ?_⟩
  rw [same]
  exact h.collected

/-- One more known cause. -/
theorem known_of_mem_append {ds : List Diagnostic} {d : Diagnostic}
    (h : ∀ u ∈ ds, u.cause.Known) (known : d.cause.Known) : ∀ u ∈ ds ++ [d], u.cause.Known := by
  intro u hu
  rcases List.mem_append.1 hu with hu | hu
  · exact h u hu
  · rw [List.mem_singleton.1 hu]
    exact known

theorem Orderly.collect {d : Diagnostic} (h : r.Orderly policy) (known : d.cause.Known) :
    (r.note (.collected d)).Orderly policy := by
  have more : (r.note (.collected d)).journal.collected = r.journal.collected ++ [d] :=
    Journal.collected_note_collected r.journal d
  refine ⟨h.runs, h.pending, ?_⟩
  rw [more]
  exact known_of_mem_append h.collected known

/-- What is delivered can be read, and what is collected with it is known. -/
theorem Orderly.next {t : Token} (h : r.Orderly policy) (run : Reading.next r = .ok t q) :
    t.Readable ∧ q.Orderly policy := by
  obtain ⟨token, pending⟩ := readable_of_next run h.pending
  refine ⟨token, (policy_of_next run).trans h.runs, pending, ?_⟩
  rcases collected_of_next run with same | ⟨-, -, -, more⟩
  · rw [same]
    exact h.collected
  · rw [more]
    exact known_of_mem_append h.collected (by simp [Cause.Known])

/-- Only a character that begins no token stops a reader that collects. -/
theorem Orderly.documents {fault : Fault} (h : r.Orderly policy)
    (run : Reading.next r = .error fault q) : policy.Documents fault ∧ q.Orderly policy := by
  cases Reading.failure_of_next run with
  | stray none scanned =>
    exact ⟨⟨_, rfl, by simp [Cause.Known], fun _ => Or.inr rfl⟩, h.runs, h.pending, h.collected⟩
  | unterminated none scanned raising =>
    refine ⟨?_, h.runs, h.pending, h.collected⟩
    rw [← h.runs, raising]
    exact Policy.documents_raise (by simp [Cause.Known])

end Reader

/-- Runs are in order, and then only what is documented ends them. -/
def orderly (policy : Policy) : Guard where
  readers := Reader.Orderly policy
  calm _ := True
  tokens := Token.Readable
  places _ := True
  literals _ := True
  faults := policy.Documents
  lost _ := False
  keepsLost _ := id
  advance _ h _ := Or.inl ⟨h.runs, h.pending, h.collected⟩
  note none _ h := h.note none
  collected known _ h _ := h.collect known
  raised := by
    intro r d known _ h raising
    rw [← h.runs, raising]
    exact Policy.documents_raise known
  here _ := trivial
  place _ := trivial
  captured _ _ := trivial
  delivered h run := by
    obtain ⟨token, readers⟩ := h.next run
    exact Or.inl ⟨token, readers, trivial, readers.push token⟩
  stopped h run := Or.inl (h.documents run)
  numeral := by
    intro t token number unread
    have read := token number
    rw [unread] at read
    cases read
  undefined _ := ⟨_, rfl, by simp [Cause.Known], fun _ => Or.inl rfl⟩

namespace Command

/-- A report that ends with an exit code of zero or one. -/
def Report.Exits (r : Report) : Prop := r.ending = .exit 0 ∨ r.ending = .exit 1

theorem exits_faultReport {policy : Policy} {fault : Fault} (h : policy.Documents fault)
    (lead : String) (lines : List String) (log : List Event) :
    (faultReport lead lines log fault).Exits := by
  obtain ⟨d, rfl, -⟩ := h
  exact Or.inr rfl

theorem exits_tokenize (source file : String) : (tokenize source file).Exits := by
  have documented {fault : Fault}
      (ended : fault ∈ (Reader.ofSource source file .raise).listing.fault) :
      Policy.raise.Documents fault :=
    Guard.faults_of_pullEntries (G := orderly .raise) (fun _ => id)
      (Reader.orderly_ofSource source file .raise) (Reader.weight_lt_budget _) ended
  unfold tokenize
  dsimp only
  split
  · exact Or.inl rfl
  · rename_i fault ended
    exact exits_faultReport (documented ended) _ _ _

/-- A run over a source within the guard. -/
theorem meets_ofSource (source file : String) (policy : Policy) (clearOnGroup : Bool)
    (bindings : Table Value) :
    Meets (fun fault t => policy.Documents fault ∧ t.reader.Orderly policy)
      (fun _ t => t.reader.Orderly policy)
      (Evaluating.evaluateAll (Session.ofSource source file policy clearOnGroup bindings)) := by
  have inside : (orderly policy).Inside
      (Session.ofSource source file policy clearOnGroup bindings) :=
    ⟨Reader.orderly_ofSource source file policy, fun _ _ => trivial⟩
  have meets := Guard.meets_of_ends (Guard.ends_evaluateAll inside) id
  revert meets
  generalize Evaluating.evaluateAll (Session.ofSource source file policy clearOnGroup bindings) = o
  rintro (finished | ended)
  · exact .ok finished.2.1.2.reader
  · exact .error ⟨ended.1, ended.2.reader⟩

theorem exits_evaluate (source file : String) (o : Options) : (evaluate source file o).Exits := by
  have meets := meets_ofSource source file o.policy o.clearOnGroup o.bindings
  unfold evaluate
  dsimp only
  split
  · rename_i fault t ended
    exact exits_faultReport (meets.of_error ended).1 _ _ _
  · split
    · exact Or.inl rfl
    · exact Or.inr rfl

theorem exits_evaluateWith (source file : String) (options : List String) :
    (evaluateWith source file options).Exits := by
  unfold evaluateWith
  split
  · exact Or.inr rfl
  · exact exits_evaluate source file _

theorem exits_functions (source file : String) : (functions source file).Exits := by
  have meets := meets_ofSource source file .raise false []
  unfold functions
  split
  · rename_i fault t ended
    exact exits_faultReport (meets.of_error ended).1 _ _ _
  · exact Or.inl rfl

theorem exits_onSource (command source file : String) (options : List String) :
    (onSource command source file options).Exits := by
  unfold onSource
  split
  · exact exits_tokenize source file
  split
  · exact exits_evaluateWith source file options
  split
  · exact exits_functions source file
  · exact Or.inr rfl

/-- **Only documented faults.** Whatever the source, the variables and the policy, a run ends with
a fault that the policy documents if with any, and it never finds an operator unknown. Hence a
command on a file that decodes ends with exit code zero or one, whatever its options. -/
theorem documents_and_exits :
    (∀ (source file : String) (policy : Policy) (clearOnGroup : Bool) (bindings : Table Value),
      let start := Session.ofSource source file policy clearOnGroup bindings
      (∀ fault t, Evaluating.evaluateAll start = .error fault t → policy.Documents fault) ∧
      ∀ d ∈ (after Evaluating.evaluateAll start).collected, d.cause.Known) ∧
    ∀ (look : Path → Found) (command name source : String) (options : List String)
      (bytes : ByteArray), command ∈ ["tokenize", "eval", "functions"] →
      look (Path.ofString name) = .file bytes → Text.ofBytes? bytes = some source →
      (run look (command :: name :: options)).Exits := by
  constructor
  · intro source file policy clearOnGroup bindings start
    have meets := meets_ofSource source file policy clearOnGroup bindings
    constructor
    · intro fault t ended
      rw [ended] at meets
      cases meets with
      | error allowed => exact allowed.1
    · unfold after
      revert meets
      show Meets _ _ (Evaluating.evaluateAll start) → _
      generalize Evaluating.evaluateAll start = o
      intro meets
      cases meets with
      | ok readers => exact readers.collected
      | error allowed => exact allowed.2.collected
  · intro look command name source options bytes listed found decoded
    have ran : run look (command :: name :: options) =
        onSource command source (Path.ofString name).text options := by
      have noHelp : ¬ (command = "--help" ∨ command = "-h") := by
        rintro (rfl | rfl) <;> revert listed <;> decide
      have noVersion : command ≠ "--version" := by
        rintro rfl
        revert listed
        decide
      unfold run onFile
      simp only [noHelp, noVersion, if_false, found, decoded]
    rw [ran]
    exact exits_onSource command source _ options

/-- The theorem at a file with a return, where a missing operand, an open group and a trailing token
are collected before a character that begins no token ends the run. -/
theorem documents_and_exits_stray_character :
    let bytes := "(2 + ;\r1 y $".toUTF8
    let look : Path → Found := fun _ => .file bytes
    let start := Session.ofSource "(2 + ;\n1 y $" "in" .collect true [("y", .number 1)]
    (∃ fault t, Evaluating.evaluateAll start = .error fault t ∧ Policy.collect.Documents fault) ∧
      Text.ofBytes? bytes = some "(2 + ;\n1 y $" ∧
      (run look ["eval", "in", "--collect", "--set", "y=1", "--clear-on-group"]).Exits := by
  intro bytes look start
  have stops : (match Evaluating.evaluateAll start with
      | .ok _ _ => false
      | .error _ _ => true) = true := by decide +kernel
  have decoded : Text.ofBytes? bytes = some "(2 + ;\n1 y $" := by decide +kernel
  refine ⟨?_, decoded, documents_and_exits.2 look "eval" "in" _ _ bytes (by decide) rfl decoded⟩
  cases run : Evaluating.evaluateAll start with
  | ok values t =>
    rw [run] at stops
    cases stops
  | error fault t =>
    exact ⟨fault, t, rfl, (documents_and_exits.1 _ "in" .collect true _).1 fault t run⟩

end Command

end Reckoner
