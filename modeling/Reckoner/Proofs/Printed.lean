import Reckoner.Proofs.Verdict

/-!
# What is printed of collected diagnostics

A command that collects diagnostics prints them behind the values, each on a line of its own and in
the order of collection, but only where its run has gone through. A character that begins no token
or an unbound variable still ends the run, and then this alone is printed. In both cases the exit
code tells whether something was wrong.

* `evaluate_of_ok`, `evaluate_of_stopped` — the report of a run that goes through or is ended;
* `lines_of_collecting` — when a collecting command prints what it has collected;
* `lost_before_unbound_name` — a diagnostic that is not printed.
-/

namespace Reckoner.Command

/-- The last line of output about a number of diagnostics, if there are any. -/
def verdictLines (file : String) (ds : List Diagnostic) : List String :=
  if ds = [] then [] else [file ++ ": FAIL (" ++ ds.length.repr ++ " error(s))"]

/-- Lines about collected diagnostics begin differently from lines about what ends a run. -/
theorem diagnosticLine_ne_error (d : Diagnostic) (message : String) :
    diagnosticLine d ≠ "Error: " ++ message := by
  intro same
  have initials : (diagnosticLine d).toList.head? = ("Error: " ++ message).toList.head? :=
    congrArg (fun line => line.toList.head?) same
  unfold diagnosticLine at initials
  simp only [String.toList_append] at initials
  exact absurd (Option.some.inj initials) (by decide)

section Evaluate

variable {source file : String} {o : Options}

/-- A run that goes through: its values, what it has collected, and how many these are. -/
theorem evaluate_of_ok {values : List Value} {s : Session}
    (run : Evaluating.evaluateAll
      (Session.ofSource source file o.policy o.clearOnGroup o.bindings) = .ok values s) :
    (evaluate source file o).lines =
        values.map Value.display ++ s.collected.map diagnosticLine ++
          verdictLines file s.collected ∧
      (evaluate source file o).ending = .exit (if s.collected = [] then 0 else 1) := by
  unfold evaluate verdictLines
  simp only [run]
  by_cases clean : s.collected = []
  · simp only [clean, if_true, List.append_nil, and_self]
  · simp only [clean, if_false, and_self]

/-- A run that is ended: nothing but what has ended it. -/
theorem evaluate_of_stopped {d : Diagnostic} {s : Session}
    (run : Evaluating.evaluateAll
      (Session.ofSource source file o.policy o.clearOnGroup o.bindings) =
        .error (.diagnostic d) s) :
    (evaluate source file o).lines = ["Error: " ++ d.message] ∧
      (evaluate source file o).ending = .exit 1 := by
  unfold evaluate
  simp only [run]
  exact ⟨rfl, rfl⟩

end Evaluate

/-- **Collected diagnostics.** They are printed, in order and each on a line of its own, just if the
run goes through or nothing has been collected. If it goes through, they stand behind the values
and in front of their number. Otherwise an unbound name or a character that begins no token has
ended it, which is all that is printed, and no line is about what has been collected. The exit code
is zero just if the run goes through and has collected nothing, and else it is one. -/
theorem lines_of_collecting (source file : String) (options : List String) {its : List Item}
    (accepted : items options = .ok its) (asked : Item.collect ∈ its) :
    let start := Session.ofSource source file .collect (Options.ofItems its).clearOnGroup
      (Options.ofItems its).bindings
    let kept := (after Evaluating.evaluateAll start).collected
    let report := evaluateWith source file options
    (kept.map diagnosticLine <:+: report.lines ↔
      (∃ values t, Evaluating.evaluateAll start = .ok values t) ∨ kept = []) ∧
    (∀ values t, Evaluating.evaluateAll start = .ok values t →
      report.lines =
        values.map Value.display ++ kept.map diagnosticLine ++ verdictLines file kept ∧
      report.ending = .exit (if kept = [] then 0 else 1)) ∧
    ∀ fault t, Evaluating.evaluateAll start = .error fault t →
      ∃ d, fault = .diagnostic d ∧
        (d.cause.kind = .undefinedVariable ∨ d.cause.kind = .invalidCharacter) ∧
        report.lines = ["Error: " ++ d.message] ∧ report.ending = .exit 1 ∧
        ∀ e ∈ kept, diagnosticLine e ∉ report.lines := by
  intro start kept report
  have policy := (Options.policy_ofItems_iff its).2 asked
  have reported : report = evaluate source file (.ofItems its) := by
    simp only [report, evaluateWith, accepted]
  have started : start = Session.ofSource source file (Options.ofItems its).policy
      (Options.ofItems its).clearOnGroup (Options.ofItems its).bindings := by
    rw [policy]
  have meets := meets_ofSource source file .collect (Options.ofItems its).clearOnGroup
    (Options.ofItems its).bindings
  rw [reported]
  cases run : Evaluating.evaluateAll start with
  | ok values t =>
    have collected : kept = t.collected := congrArg Session.collected (after_of_ok run)
    rw [started] at run
    obtain ⟨lines, ending⟩ := evaluate_of_ok run
    rw [lines, ending, collected]
    refine ⟨iff_of_true ⟨_, _, rfl⟩ (Or.inl ⟨values, t, rfl⟩), ?_, ?_⟩
    · rintro _ _ ⟨rfl, rfl⟩
      exact ⟨rfl, rfl⟩
    · rintro _ _ ⟨⟩
  | error fault t =>
    obtain ⟨d, rfl, -, fatal⟩ := (meets.of_error run).1
    rw [started] at run
    obtain ⟨lines, ending⟩ := evaluate_of_stopped run
    have unprinted :
        ∀ e ∈ kept, diagnosticLine e ∉ (evaluate source file (.ofItems its)).lines := by
      intro e _ printed
      rw [lines] at printed
      exact diagnosticLine_ne_error e d.message (List.mem_singleton.1 printed)
    refine ⟨⟨fun printed => Or.inr ?_, ?_⟩, ?_, ?_⟩
    · refine List.eq_nil_iff_forall_not_mem.2 fun e he => unprinted e he ?_
      exact printed.subset (List.mem_map_of_mem he)
    · rintro (⟨_, _, other⟩ | none)
      · cases other
      · rw [none]
        exact List.nil_infix
    · rintro _ _ ⟨⟩
    · rintro _ _ ⟨rfl, rfl⟩
      exact ⟨d, rfl, fatal rfl, lines, ending, unprinted⟩

/-- The theorem where a run goes through and has collected two diagnostics, and where an unbound
name ends the run behind the first of them. -/
theorem lines_of_collecting_two_sources :
    let options := ["--set", "x=on", "--collect"]
    let its : List Item := [.set "x" (.text "on"), .collect]
    let start source := Session.ofSource source "in" .collect (Options.ofItems its).clearOnGroup
      (Options.ofItems its).bindings
    let kept source := (after Evaluating.evaluateAll (start source)).collected
    items options = .ok its ∧ Item.collect ∈ its ∧
      (kept "-x; (x").length = 2 ∧
      (kept "-x; (x").map diagnosticLine <:+: (evaluateWith "-x; (x" "in" options).lines ∧
      (kept "-x; y; (x").length = 1 ∧
      ¬ (kept "-x; y; (x").map diagnosticLine <:+: (evaluateWith "-x; y; (x" "in" options).lines := by
  intro options its start kept
  have accepted : items options = .ok its := by decide +kernel
  have asked : Item.collect ∈ its := by decide +kernel
  have goes : ∃ values t, Evaluating.evaluateAll (start "-x; (x") = .ok values t ∧
      t.collected.length = 2 := by decide +kernel
  have stops : ∃ fault t, Evaluating.evaluateAll (start "-x; y; (x") = .error fault t ∧
      t.collected.length = 1 := by decide +kernel
  obtain ⟨values, t, ran, two⟩ := goes
  obtain ⟨fault, t', stopped, one⟩ := stops
  have all : (kept "-x; (x").length = 2 :=
    (congrArg (·.collected.length) (after_of_ok ran)).trans two
  have first : (kept "-x; y; (x").length = 1 :=
    (congrArg (·.collected.length) (after_of_error stopped)).trans one
  refine ⟨accepted, asked, all, ?_, first, fun printed => ?_⟩
  · exact (lines_of_collecting "-x; (x" "in" options accepted asked).1.2 (Or.inl ⟨values, t, ran⟩)
  · rcases (lines_of_collecting "-x; y; (x" "in" options accepted asked).1.1 printed with
      ⟨_, _, other⟩ | none
    · cases stopped.symm.trans other
    · have empty : (kept "-x; y; (x").length = 0 := congrArg List.length none
      rw [first] at empty
      cases empty

/-- A diagnostic that is collected and yet not printed, since a name without a value comes after
it. -/
theorem lost_before_unbound_name :
    let start := Session.ofSource "\"a\" + 1; y" "in" .collect false []
    let report := evaluateWith "\"a\" + 1; y" "in" ["--collect"]
    items ["--collect"] = .ok [.collect] ∧
      report.output = "Error: in:1:11: Undefined variable 'y'\n" ∧
      ∃ d ∈ (after Evaluating.evaluateAll start).collected,
        diagnosticLine d =
          "  ERROR TYPE_MISMATCH: in:1:6: Invalid operands for '+': string and number" ∧
        diagnosticLine d ∉ report.lines := by
  decide +kernel

end Reckoner.Command
