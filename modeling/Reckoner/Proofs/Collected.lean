import Reckoner.Proofs.Steps

/-!
# What is collected stays collected

No action of a reader or a session changes the policy, and none takes back a diagnostic: the
list of the collected ones only grows at its end. A run in which the last state has collected
nothing has therefore collected nothing at any time, and the first diagnostic of a run is the
first of every later state.
-/

namespace Reckoner

/-- States that carry a journal, whose policy can be exchanged. -/
class Journaled (σ : Type) where
  journal : σ → Journal
  under : Policy → σ → σ

instance : Journaled Reader where
  journal := Reader.journal
  under policy r := { r with journal := { r.journal with policy := policy } }

instance : Journaled Session where
  journal s := s.reader.journal
  under policy s := { s with reader := Journaled.under policy s.reader }

open Journaled

/-- The action keeps the policy and only adds to the collected diagnostics. -/
structure Grows {σ α : Type} [Journaled σ] (a : EStateM Fault σ α) : Prop where
  policy (s : σ) : (journal (after a s)).policy = (journal s).policy
  collected (s : σ) : (journal s).collected <+: (journal (after a s)).collected

theorem Grows.policy_of_ok {σ α : Type} [Journaled σ] {a : EStateM Fault σ α} {s t : σ} {x : α}
    (h : Grows a) (run : a s = .ok x t) : (journal t).policy = (journal s).policy :=
  (congrArg (fun t => (journal t).policy) (after_of_ok run)).symm.trans (h.policy s)

/-- An action that leaves policy and diagnostics alone, however it ends. -/
theorem Grows.of_eq {σ α : Type} [Journaled σ] {a : EStateM Fault σ α}
    (policy : ∀ s, (journal (after a s)).policy = (journal s).policy)
    (collected : ∀ s, (journal (after a s)).collected = (journal s).collected) : Grows a where
  policy := policy
  collected s := ⟨[], by rw [List.append_nil, collected s]⟩

theorem Composed.grows {σ α : Type} [Journaled σ] {Step : (α : Type) → EStateM Fault σ α → Prop}
    (steps : ∀ {α : Type} {a : EStateM Fault σ α}, Step α a → Grows a)
    {a : EStateM Fault σ α} (h : Composed Step a) : Grows a where
  policy := h.after_related (R := fun s t => (journal t).policy = (journal s).policy)
    (fun _ => rfl) (fun first later => later.trans first) fun s step => (steps step).policy s
  collected := h.after_related (R := fun s t => (journal s).collected <+: (journal t).collected)
    (fun _ => List.prefix_refl _) (fun first later => first.trans later)
    fun s step => (steps step).collected s

namespace Reading

theorem grows_report (d : Diagnostic) : Grows (report d) := by
  constructor <;> intro r <;> obtain ⟨c, pending, file, policy, events⟩ := r <;> cases policy
  · rfl
  · rfl
  · exact List.prefix_refl _
  · show Journal.collected ⟨.collect, events⟩ <+:
      Journal.collected (Journal.note ⟨.collect, events⟩ (.collected d))
    rw [Journal.collected_note_collected]
    exact List.prefix_append _ _

theorem Step.grows {α : Type} {a : Reading α} (h : Step α a) : Grows a := by
  cases h with
  | observe view => exact .of_eq (fun _ => rfl) fun _ => rfl
  | skip n => exact .of_eq (fun _ => rfl) fun _ => rfl
  | popPending? =>
    refine .of_eq (fun r => ?_) fun r => ?_ <;> obtain ⟨c, pending, file, j⟩ := r <;>
      cases pending <;> rfl
  | pushBack t => exact .of_eq (fun _ => rfl) fun _ => rfl
  | captured f =>
    exact .of_eq (fun _ => rfl) fun r => Journal.collected_note_captured r.journal f
  | report d => exact grows_report d

theorem grows {α : Type} {a : Reading α} (h : Composed Step a) : Grows a := h.grows Step.grows

end Reading

namespace Evaluating

theorem grows_reading {α : Type} {action : Reading α} (h : Grows action) :
    Grows (reading action) := by
  constructor <;> intro s <;> rw [after_reading]
  · exact h.policy s.reader
  · exact h.collected s.reader

theorem grows_valueOf (t : Token) : Grows (valueOf t) :=
  .of_eq (fun s => by rw [after_valueOf]) fun s => by rw [after_valueOf]

theorem grows_endGroup : Grows endGroup := by
  refine .of_eq (fun s => ?_) fun s => ?_ <;> rcases after_endGroup s with h | h <;> rw [h]
  · rfl
  · exact Journal.collected_note_cleared _ _

theorem Step.grows {α : Type} {a : Evaluating α} (h : Step α a) : Grows a := by
  cases h with
  | reading h => exact grows_reading (Reading.grows h)
  | valueOf t => exact grows_valueOf t
  | endGroup => exact grows_endGroup
  | define f => exact .of_eq (fun _ => rfl) fun _ => rfl

theorem grows {α : Type} {a : Evaluating α} (h : Composed Step a) : Grows a := h.grows Step.grows

end Evaluating

end Reckoner
