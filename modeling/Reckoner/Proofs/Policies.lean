import Reckoner.Proofs.Collected

/-!
# The two policies agree up to the first diagnostic

A run that stops at the first recoverable diagnostic is a part of the run that collects them
all: it ends with exactly the first one collected, and where none is collected the two runs
end in the same way, with the same tables and at the same place of the source.

* `Faithful` — the two runs of an action agree in this sense;
* `Composed.faithful` — sequencing keeps it, so that only steps are to be checked;
* `evaluateAll_raise_of_collect` — the statement for whole sources.
-/

namespace Reckoner

open Journaled

/-- The same ending in another state. -/
def Outcome.mapState {σ α : Type} (f : σ → σ) : Outcome σ α → Outcome σ α
  | .ok x s => .ok x (f s)
  | .error fault s => .error fault (f s)

section Faithful

variable {σ : Type} [Journaled σ]

/-- Compares the runs under both policies from a state that has collected nothing. -/
def Faithful {α : Type} (a : EStateM Fault σ α) : Prop :=
  ∀ s : σ, (journal s).policy = .collect → (journal s).collected = [] →
    match (journal (after a s)).collected with
    | [] => a (under .raise s) = Outcome.mapState (under .raise) (a s)
    | d :: _ => ∃ t, a (under .raise s) = .error (.diagnostic d) t ∧ (journal t).collected = []

section Runs

variable {α : Type} {a : EStateM Fault σ α} {s : σ}

/-- Where nothing is collected, nothing tells the two runs apart. -/
theorem Faithful.same (h : Faithful a) (collecting : (journal s).policy = .collect)
    (clean : (journal s).collected = []) (none : (journal (after a s)).collected = []) :
    a (under .raise s) = Outcome.mapState (under .raise) (a s) := by
  have compared := h s collecting clean
  rw [none] at compared
  exact compared

/-- Where something is collected, the other run has stopped with the first of it. -/
theorem Faithful.stops {d : Diagnostic} {later : List Diagnostic} (h : Faithful a)
    (collecting : (journal s).policy = .collect) (clean : (journal s).collected = [])
    (some : (journal (after a s)).collected = d :: later) :
    ∃ t, a (under .raise s) = .error (.diagnostic d) t := by
  have compared := h s collecting clean
  rw [some] at compared
  obtain ⟨t, stopped, -⟩ := compared
  exact ⟨t, stopped⟩

end Runs

/-- An action that collects nothing and does not look at the policy is faithful. -/
theorem Faithful.of_eq {α : Type} {a : EStateM Fault σ α}
    (collected : ∀ s, (journal (after a s)).collected = (journal s).collected)
    (same : ∀ s, a (under .raise s) = Outcome.mapState (under .raise) (a s)) : Faithful a := by
  intro s _ clean
  rw [collected s, clean]
  exact same s

/-- **Sequencing keeps faithfulness.** Once the collecting run has a diagnostic, the other run
has stopped with it, and whatever comes later is collected behind it. -/
theorem Faithful.bind {α β : Type} {a : EStateM Fault σ α} {f : α → EStateM Fault σ β}
    (growsA : Grows a) (growsF : ∀ x, Grows (f x)) (ha : Faithful a)
    (hf : ∀ x, Faithful (f x)) : Faithful (a >>= f) := by
  intro s collecting clean
  have first := ha s collecting clean
  cases run : a s with
  | error fault t =>
    rw [after_of_error run] at first
    rw [after_bind_of_error run, bind_of_error run]
    cases collected : (journal t).collected with
    | nil =>
      rw [collected, run] at first
      exact bind_of_error first
    | cons d later =>
      rw [collected] at first
      obtain ⟨u, stopped, none⟩ := first
      exact ⟨u, bind_of_error stopped, none⟩
  | ok x t =>
    rw [after_of_ok run] at first
    rw [after_bind_of_ok run, bind_of_ok run]
    cases collected : (journal t).collected with
    | nil =>
      rw [collected, run] at first
      rw [bind_of_ok first]
      have policy := growsA.policy s
      rw [after_of_ok run, collecting] at policy
      exact hf x t policy collected
    | cons d later =>
      rw [collected] at first
      obtain ⟨u, stopped, none⟩ := first
      obtain ⟨more, whole⟩ := (growsF x).collected t
      rw [← whole, collected]
      exact ⟨u, bind_of_error stopped, none⟩

theorem Composed.faithful {Step : (α : Type) → EStateM Fault σ α → Prop}
    (grows : ∀ {α : Type} {a : EStateM Fault σ α}, Step α a → Grows a)
    (steps : ∀ {α : Type} {a : EStateM Fault σ α}, Step α a → Faithful a)
    {α : Type} {a : EStateM Fault σ α} (h : Composed Step a) : Faithful a := by
  induction h with
  | step h => exact steps h
  | pure x => exact .of_eq (fun _ => rfl) fun _ => rfl
  | throw fault => exact .of_eq (fun _ => rfl) fun _ => rfl
  | bind ha hf iha ihf => exact .bind (ha.grows grows) (fun x => (hf x).grows grows) iha ihf

end Faithful

namespace Reading

/-- The one place where the policies differ: one run stops where the other collects. -/
theorem faithful_report (d : Diagnostic) : Faithful (report d) := by
  rintro ⟨c, pending, file, policy, events⟩ collecting clean
  cases collecting
  have collected : (journal (after (report d) ⟨c, pending, file, .collect, events⟩)).collected =
      [d] := by
    show Journal.collected (Journal.note ⟨.collect, events⟩ (.collected d)) = [d]
    rw [Journal.collected_note_collected]
    show Journal.collected ⟨.collect, events⟩ ++ [d] = [d]
    rw [show Journal.collected ⟨.collect, events⟩ = [] from clean, List.nil_append]
  rw [collected]
  exact ⟨⟨c, pending, file, .raise, events⟩, rfl, clean⟩

theorem Step.faithful {α : Type} {a : Reading α} (h : Step α a) : Faithful a := by
  cases h with
  | observe view => exact .of_eq (fun _ => rfl) fun _ => rfl
  | skip n => exact .of_eq (fun _ => rfl) fun _ => rfl
  | popPending? =>
    refine .of_eq (fun r => ?_) fun r => ?_ <;> obtain ⟨c, pending, file, j⟩ := r <;>
      cases pending <;> rfl
  | pushBack t => exact .of_eq (fun _ => rfl) fun _ => rfl
  | captured f =>
    exact .of_eq (fun r => Journal.collected_note_captured r.journal f) fun _ => rfl
  | report d => exact faithful_report d

theorem faithful {α : Type} {a : Reading α} (h : Composed Step a) : Faithful a :=
  h.faithful Step.grows Step.faithful

end Reading

namespace Evaluating

theorem faithful_reading {α : Type} {action : Reading α} (h : Faithful action) :
    Faithful (reading action) := by
  intro s collecting clean
  have read := h s.reader collecting clean
  rw [after_reading]
  show match (journal (after action s.reader)).collected with
    | [] => reading action (under .raise s) = Outcome.mapState (under .raise) (reading action s)
    | d :: _ => ∃ t, reading action (under .raise s) = .error (.diagnostic d) t ∧
        (journal t).collected = []
  revert read
  cases (journal (after action s.reader)).collected with
  | nil =>
    intro same
    cases run : action s.reader with
    | ok x r =>
      rw [run] at same
      rw [reading_of_ok run]
      exact reading_of_ok (s := under .raise s) same
    | error fault r =>
      rw [run] at same
      rw [reading_of_error run]
      exact reading_of_error (s := under .raise s) same
  | cons d later =>
    rintro ⟨r, stopped, none⟩
    exact ⟨_, reading_of_error (s := under .raise s) stopped, none⟩

theorem faithful_valueOf (t : Token) : Faithful (valueOf t) := by
  refine .of_eq (fun s => by rw [after_valueOf]) fun s => ?_
  have same : (under .raise s).lookup t.text = s.lookup t.text := rfl
  unfold valueOf
  rw [same]
  cases s.lookup t.text <;> rfl

theorem faithful_endGroup : Faithful endGroup := by
  refine .of_eq (fun s => ?_) fun s => ?_
  · rcases after_endGroup s with h | h <;> rw [h]
    exact Journal.collected_note_cleared _ _
  · have same : (under .raise s).clearOnGroup = s.clearOnGroup := rfl
    unfold endGroup
    rw [same]
    cases s.clearOnGroup <;> rfl

theorem Step.faithful {α : Type} {a : Evaluating α} (h : Step α a) : Faithful a := by
  cases h with
  | reading h => exact faithful_reading (Reading.faithful h)
  | valueOf t => exact faithful_valueOf t
  | endGroup => exact faithful_endGroup
  | define f => exact .of_eq (fun _ => rfl) fun _ => rfl

theorem faithful {α : Type} {a : Evaluating α} (h : Composed Step a) : Faithful a :=
  h.faithful Step.grows Step.faithful

/-- A run that raises collects nothing. -/
theorem evaluateAll_raise_of_collect (source file : String) (clearOnGroup : Bool)
    (bindings : Table Value) :
    let collecting := Session.ofSource source file .collect clearOnGroup bindings
    let raising := Session.ofSource source file .raise clearOnGroup bindings
    (after evaluateAll raising).collected = [] ∧
      match (after evaluateAll collecting).collected with
      | [] => evaluateAll raising = Outcome.mapState (under .raise) (evaluateAll collecting)
      | d :: _ => ∃ s, evaluateAll raising = .error (.diagnostic d) s := by
  intro collecting raising
  have compared : match (after evaluateAll collecting).collected with
      | [] => evaluateAll raising = Outcome.mapState (under .raise) (evaluateAll collecting)
      | d :: _ => ∃ s, evaluateAll raising = .error (.diagnostic d) s ∧ s.collected = [] :=
    faithful composed_evaluateAll collecting rfl rfl
  revert compared
  cases collected : (after evaluateAll collecting).collected with
  | nil =>
    intro same
    refine ⟨?_, same⟩
    rw [← collected]
    unfold after
    rw [same]
    cases evaluateAll collecting <;> rfl
  | cons d later =>
    rintro ⟨s, stopped, none⟩
    refine ⟨?_, s, stopped⟩
    rw [after_of_error stopped]
    exact none

end Evaluating

end Reckoner
