import Reckoner.Proofs.Choices
import Reckoner.Proofs.Documented
import Reckoner.Proofs.Policies

/-!
# Collecting does not change the verdict

A command that stops at the first recoverable diagnostic and one that collects them all end
with the same exit code. The option that asks for collecting may stand behind any options that
are accepted: it sets the policy and touches nothing else. Then the runs of the two commands
start in the same state but for the policy, and agree up to the first diagnostic.

* `items_append_collect`, `Options.ofItems_append_collect` — what the option amounts to
  behind others;
* `firstDiagnostic?` — the diagnostic a run is judged by;
* `agree_collecting` — the two commands on a source, for any options that do not collect;
* `evaluateWith_append_collect` — the same for the options as they are written.
-/

namespace Reckoner.Command

/-! ### The option -/

/-- The option may stand behind all others, and it is read there as what it is. -/
theorem items_append_collect {options : List String} {its : List Item}
    (h : items options = .ok its) : items (options ++ ["--collect"]) = .ok (its ++ [.collect]) := by
  rw [items_of_allWritten (items_eq_ok_iff.1 h)]
  rfl

/-- Nothing else is read as the option. -/
theorem mem_of_collect_mem {options : List String} {its : List Item}
    (h : items options = .ok its) (asked : Item.collect ∈ its) : "--collect" ∈ options := by
  have written := items_eq_ok_iff.1 h
  clear h
  induction written with
  | nil => cases asked
  | cons item _ ih =>
    rcases List.mem_cons.1 asked with rfl | later
    · cases item
      exact List.mem_cons_self
    · exact List.mem_append_right _ (ih later)

namespace Options

theorem policy_ofItems {its : List Item} (absent : Item.collect ∉ its) :
    (ofItems its).policy = .raise := by
  have other := mt (policy_ofItems_iff its).1 absent
  cases policy : (ofItems its).policy with
  | raise => rfl
  | collect => exact absurd policy other

/-- Behind other items the option sets the policy and leaves the rest as it is. -/
theorem ofItems_append_collect (its : List Item) :
    ofItems (its ++ [.collect]) = { ofItems its with policy := .collect } := by
  show List.foldl add standard (its ++ [.collect]) = _
  rw [List.foldl_append]
  rfl

end Options

/-! ### The two runs -/

/-- The diagnostic a run is judged by: the first one collected, or else the one that ended it. -/
def firstDiagnostic? {α : Type} : Outcome Session α → Option Diagnostic
  | .ok _ s => s.collected.head?
  | .error (.diagnostic d) s => some (s.collected.headD d)
  | .error _ s => s.collected.head?

theorem firstDiagnostic?_of_collected {α : Type} {a : Evaluating α} {s : Session}
    {d : Diagnostic} {later : List Diagnostic} (h : (after a s).collected = d :: later) :
    firstDiagnostic? (a s) = some d := by
  unfold after at h
  cases run : a s with
  | ok x t =>
    rw [run] at h
    show t.collected.head? = some d
    rw [show t.collected = d :: later from h]
    rfl
  | error fault t =>
    rw [run] at h
    have head : t.collected = d :: later := h
    cases fault <;> simp only [firstDiagnostic?, head, List.headD_cons, List.head?_cons]

/-- What is printed for values: each on a line of its own. -/
def valueText (values : List Value) : String :=
  String.join (values.map fun v => v.display ++ "\n")

theorem evaluate_of_error {source file : String} {o : Options} {d : Diagnostic} {s : Session}
    (run : Evaluating.evaluateAll
      (Session.ofSource source file o.policy o.clearOnGroup o.bindings) =
        .error (.diagnostic d) s) :
    (evaluate source file o).ending = .exit 1 ∧
      (evaluate source file o).output = "Error: " ++ d.message ++ "\n" := by
  unfold evaluate
  simp only [run]
  refine ⟨rfl, ?_⟩
  show String.join ["Error: " ++ d.message ++ "\n"] = _
  simp only [String.join_cons, String.join_nil, String.append_empty]

theorem evaluate_of_clean {source file : String} {o : Options} {values : List Value} {s : Session}
    (run : Evaluating.evaluateAll
      (Session.ofSource source file o.policy o.clearOnGroup o.bindings) = .ok values s)
    (clean : s.collected = []) :
    (evaluate source file o).ending = .exit 0 ∧
      (evaluate source file o).output = valueText values := by
  unfold evaluate
  simp only [run, clean, if_true, List.map_nil, List.append_nil]
  refine ⟨trivial, ?_⟩
  show String.join ((values.map Value.display).map (· ++ "\n")) = _
  rw [List.map_map]
  rfl

/-- Whatever has been collected, the command fails. -/
theorem evaluate_of_collected {source file : String} {o : Options}
    (dirty : (after Evaluating.evaluateAll
      (Session.ofSource source file o.policy o.clearOnGroup o.bindings)).collected ≠ []) :
    (evaluate source file o).ending = .exit 1 := by
  rcases exits_evaluate source file o with zero | one
  · unfold evaluate at zero
    unfold after at dirty
    dsimp only at zero
    split at zero
    · rename_i fault s run
      cases fault <;> cases zero
    · rename_i values s run
      rw [run] at dirty
      rw [if_neg dirty] at zero
      cases zero
  · exact one

section Runs

variable {source file : String} {o : Options} {d : Diagnostic}

/-- Where the run that raises has stopped with a diagnostic, that is what is printed. -/
theorem evaluate_of_raised (raising : o.policy = .raise)
    (stopped : ∃ s, Evaluating.evaluateAll
      (Session.ofSource source file .raise o.clearOnGroup o.bindings) = .error (.diagnostic d) s) :
    (evaluate source file o).ending = .exit 1 ∧
      (evaluate source file o).output = "Error: " ++ d.message ++ "\n" := by
  obtain ⟨s, run⟩ := stopped
  apply evaluate_of_error
  rw [raising]
  exact run

/-- One run has stopped with the diagnostic, the other has kept it. -/
theorem raised_of_collected {later : List Diagnostic}
    (dirty : (after Evaluating.evaluateAll
      (Session.ofSource source file .collect o.clearOnGroup o.bindings)).collected = d :: later) :
    ∃ s, Evaluating.evaluateAll
      (Session.ofSource source file .raise o.clearOnGroup o.bindings) = .error (.diagnostic d) s :=
  (Evaluating.faithful Evaluating.composed_evaluateAll).stops
    (s := Session.ofSource source file .collect o.clearOnGroup o.bindings) rfl rfl dirty

/-- Where nothing is collected, nothing tells the two runs apart. -/
theorem raised_of_clean
    (clean : (after Evaluating.evaluateAll
      (Session.ofSource source file .collect o.clearOnGroup o.bindings)).collected = []) :
    Evaluating.evaluateAll (Session.ofSource source file .raise o.clearOnGroup o.bindings) =
      Outcome.mapState (Journaled.under .raise) (Evaluating.evaluateAll
        (Session.ofSource source file .collect o.clearOnGroup o.bindings)) :=
  (Evaluating.faithful Evaluating.composed_evaluateAll).same
    (s := Session.ofSource source file .collect o.clearOnGroup o.bindings) rfl rfl clean

end Runs

/-- The two runs of a source: both go through and print the same, or both fail with the same
first diagnostic. -/
theorem agree_collecting (source file : String) {o : Options} (raising : o.policy = .raise) :
    let run policy := Evaluating.evaluateAll
      (Session.ofSource source file policy o.clearOnGroup o.bindings)
    let plain := evaluate source file o
    let collecting := evaluate source file { o with policy := .collect }
    (plain.ending = .exit 0 ∧ collecting.ending = .exit 0 ∧
      ∃ values s t, run .raise = .ok values s ∧ run .collect = .ok values t ∧
        plain.output = valueText values ∧ collecting.output = valueText values) ∨
    (plain.ending = .exit 1 ∧ collecting.ending = .exit 1 ∧
      ∃ d, firstDiagnostic? (run .collect) = some d ∧
        plain.output = "Error: " ++ d.message ++ "\n") := by
  intro run plain collecting
  cases dirty : (after Evaluating.evaluateAll
      (Session.ofSource source file .collect o.clearOnGroup o.bindings)).collected with
  | cons d later =>
    have fails : collecting.ending = .exit 1 := by
      apply evaluate_of_collected
      rw [dirty]
      exact List.cons_ne_nil d later
    obtain ⟨plainly, printed⟩ := evaluate_of_raised raising (raised_of_collected dirty)
    exact Or.inr ⟨plainly, fails, d, firstDiagnostic?_of_collected dirty, printed⟩
  | nil =>
    have same : run .raise = Outcome.mapState (Journaled.under .raise) (run .collect) :=
      raised_of_clean dirty
    cases ended : run .collect with
    | ok values t =>
      rw [ended] at same
      have clean : t.collected = [] := by
        rw [← dirty, after_of_ok ended]
      have raised : run .raise = .ok values (Journaled.under .raise t) := same
      have plainly : plain.ending = .exit 0 ∧ plain.output = valueText values := by
        apply evaluate_of_clean (s := Journaled.under .raise t) _ clean
        rw [raising]
        exact raised
      have collected := evaluate_of_clean (o := { o with policy := .collect }) ended clean
      exact Or.inl ⟨plainly.1, collected.1, values, _, t, raised, rfl, plainly.2, collected.2⟩
    | error fault t =>
      have meets := meets_ofSource source file .collect o.clearOnGroup o.bindings
      obtain ⟨d, rfl, -⟩ := (meets.of_error ended).1
      rw [ended] at same
      have clean : t.collected = [] := by
        rw [← dirty, after_of_error ended]
      have first : firstDiagnostic? (.error (.diagnostic d) t : Outcome Session (List Value)) =
          some d := by
        simp only [firstDiagnostic?, clean, List.headD_nil]
      obtain ⟨plainly, printed⟩ := evaluate_of_raised raising ⟨_, same⟩
      have fails := (evaluate_of_error (o := { o with policy := .collect }) ended).1
      exact Or.inr ⟨plainly, fails, d, first, printed⟩

/-- **Collecting does not change the verdict.** To any accepted options that do not ask for it,
adding the option leaves the exit code as it is. If it is zero, both commands print the values, each
on a line; if it is one, the command without it prints the first diagnostic of the collecting run. -/
theorem evaluateWith_append_collect (source file : String) (options : List String)
    {its : List Item} (accepted : items options = .ok its) (absent : "--collect" ∉ options) :
    let run policy := Evaluating.evaluateAll (Session.ofSource source file policy
      (Options.ofItems its).clearOnGroup (Options.ofItems its).bindings)
    let plain := evaluateWith source file options
    let collecting := evaluateWith source file (options ++ ["--collect"])
    plain.ending = collecting.ending ∧
      ((plain.ending = .exit 0 ∧ plain.output = collecting.output ∧
          ∃ values s t, run .raise = .ok values s ∧ run .collect = .ok values t ∧
            plain.output = valueText values) ∨
        (plain.ending = .exit 1 ∧ ∃ d, firstDiagnostic? (run .collect) = some d ∧
          plain.output = "Error: " ++ d.message ++ "\n")) := by
  intro run plain collecting
  have raising : (Options.ofItems its).policy = .raise :=
    Options.policy_ofItems fun asked => absent (mem_of_collect_mem accepted asked)
  have plainly : plain = evaluate source file (Options.ofItems its) := by
    simp only [plain, evaluateWith, accepted]
  have collected : collecting =
      evaluate source file { Options.ofItems its with policy := .collect } := by
    simp only [collecting, evaluateWith, items_append_collect accepted,
      Options.ofItems_append_collect]
  rw [plainly, collected]
  rcases agree_collecting source file raising with
    ⟨zero, zero', values, s, t, raised, kept, one, two⟩ | ⟨one, one', failed⟩
  · exact ⟨zero.trans zero'.symm,
      Or.inl ⟨zero, one.trans two.symm, values, s, t, raised, kept, one⟩⟩
  · exact ⟨one.trans one'.symm, Or.inr ⟨one, failed⟩⟩

/-- The theorem at a group that is not closed, where the flag leaves `x` unbound behind it: that ends
the collecting run, but both are judged by the parenthesis. -/
theorem evaluateWith_append_collect_open_group :
    let options := ["--set", "x=on", "--clear-on-group"]
    let its := [.set "x" (.text "on"), .clearOnGroup]
    let start := Session.ofSource "(x; x" "in" .collect (Options.ofItems its).clearOnGroup
      (Options.ofItems its).bindings
    let plain := evaluateWith "(x; x" "in" options
    let collecting := evaluateWith "(x; x" "in" (options ++ ["--collect"])
    items options = .ok its ∧ "--collect" ∉ options ∧ plain.ending = .exit 1 ∧
      collecting.ending = .exit 1 ∧ collecting.output = "Error: in:1:6: Undefined variable 'x'\n" ∧
      ∃ d, firstDiagnostic? (Evaluating.evaluateAll start) = some d ∧
        plain.output = "Error: " ++ d.message ++ "\n" := by
  intro options its start plain collecting
  have accepted : items options = .ok its := by decide +kernel
  have fails : plain.ending = .exit 1 := by decide +kernel
  have printed : collecting.output = "Error: in:1:6: Undefined variable 'x'\n" := by
    decide +kernel
  obtain ⟨same, ⟨zero, -⟩ | ⟨-, first⟩⟩ :=
    evaluateWith_append_collect "(x; x" "in" options accepted (by decide)
  · have other : plain.ending = .exit 0 := zero
    rw [fails] at other
    cases other
  · exact ⟨accepted, by decide, fails, same.symm.trans fails, printed, first⟩

end Reckoner.Command
