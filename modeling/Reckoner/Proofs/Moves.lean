import Reckoner.Proofs.Steps

/-!
# The cursor only moves on

Whatever an action of a reader or a session does, and however it ends, its cursor ends up some
characters further on. So what holds of a cursor and is kept by moving on is kept by every action.

* `Reading.reaches`, `Evaluating.reaches` — each run moves the cursor on.
-/

namespace Reckoner

namespace Cursor

/-- Moving on twice is moving on. -/
theorem advance_advance (c : Cursor) (n m : Nat) :
    (c.advance n).advance m = c.advance (n + m) := by
  have split := List.take_add (l := c.rest) (i := n) (j := m)
  unfold advance
  simp only [split, List.drop_drop, List.length_append, Place.after_append, Nat.add_assoc]

/-- The same text, read a little further. -/
def Reaches (c d : Cursor) : Prop := ∃ n, d = c.advance n

theorem Reaches.refl (c : Cursor) : c.Reaches c := ⟨0, rfl⟩

theorem Reaches.trans {c d e : Cursor} (h : c.Reaches d) (h' : d.Reaches e) : c.Reaches e := by
  obtain ⟨n, rfl⟩ := h
  obtain ⟨m, rfl⟩ := h'
  exact ⟨n + m, c.advance_advance n m⟩

theorem reaches_advance (c : Cursor) (n : Nat) : c.Reaches (c.advance n) := ⟨n, rfl⟩

theorem Reaches.pos_le {c d : Cursor} (h : c.Reaches d) : c.pos ≤ d.pos := by
  obtain ⟨n, rfl⟩ := h
  exact c.pos_le_advance n

theorem Reaches.inSource {c d : Cursor} {source : List Char} (h : c.Reaches d)
    (inside : c.In source) : d.In source := by
  obtain ⟨n, rfl⟩ := h
  exact inside.advance n

end Cursor

/-- The state in which a run has ended. -/
def Outcome.state {σ α : Type} : Outcome σ α → σ
  | .ok _ s => s
  | .error _ s => s

/-- Whether a closed run yields a result with some property can be decided by running it. -/
instance decidableYields {σ α : Type} {o : Outcome σ α} {p : α → σ → Prop}
    [∀ x s, Decidable (p x s)] : Decidable (∃ x s, o = .ok x s ∧ p x s) :=
  match o with
  | .ok x s => decidable_of_iff (p x s)
      ⟨fun h => ⟨x, s, rfl, h⟩, fun ⟨_, _, same, h⟩ => by cases same; exact h⟩
  | .error _ _ => isFalse fun ⟨_, _, same, _⟩ => nomatch same

/-- Whether it ends with such a fault can be decided as well. -/
instance decidableStops {σ α : Type} {o : Outcome σ α} {p : Fault → σ → Prop}
    [∀ fault s, Decidable (p fault s)] : Decidable (∃ fault s, o = .error fault s ∧ p fault s) :=
  match o with
  | .ok _ _ => isFalse fun ⟨_, _, same, _⟩ => nomatch same
  | .error fault s => decidable_of_iff (p fault s)
      ⟨fun h => ⟨fault, s, rfl, h⟩, fun ⟨_, _, same, h⟩ => by cases same; exact h⟩

/-! ### Readers -/

namespace Reading

theorem Step.reaches {α : Type} {a : Reading α} (h : Step α a) (r : Reader) :
    r.cursor.Reaches (after a r).cursor := by
  cases h with
  | observe view => exact .refl _
  | skip n => exact r.cursor.reaches_advance n
  | popPending? => obtain ⟨c, pending, file, j⟩ := r; cases pending <;> exact .refl _
  | pushBack t => exact .refl _
  | captured f => exact .refl _
  | report d => obtain ⟨c, pending, file, ⟨policy, events⟩⟩ := r; cases policy <;> exact .refl _

/-- **Reading moves the cursor on.** -/
theorem reaches {α : Type} {a : Reading α} (h : Composed Step a) (r : Reader) :
    r.cursor.Reaches (after a r).cursor :=
  h.after_related (R := fun r q : Reader => r.cursor.Reaches q.cursor) (fun _ => .refl _)
    (fun first later => first.trans later) (fun r step => step.reaches r) r

theorem Step.file {α : Type} {a : Reading α} (h : Step α a) (r : Reader) :
    (after a r).file = r.file := by
  cases h with
  | popPending? => obtain ⟨c, pending, file, j⟩ := r; cases pending <;> rfl
  | report d => obtain ⟨c, pending, file, ⟨policy, events⟩⟩ := r; cases policy <;> rfl
  | _ => rfl

/-- Reading does not turn to another source. -/
theorem file_after {α : Type} {a : Reading α} (h : Composed Step a) (r : Reader) :
    (after a r).file = r.file :=
  h.after_related (R := fun r q : Reader => q.file = r.file) (fun _ => rfl)
    (fun first later => later.trans first) (fun r step => step.file r) r

section Ran

variable {α : Type} {a : Reading α} [h : Composed Step a] {r q : Reader}
include h

theorem reaches_of_ok {x : α} (run : a r = .ok x q) : r.cursor.Reaches q.cursor := by
  have moved := reaches h r
  rw [after_of_ok run] at moved
  exact moved

theorem reaches_of_error {fault : Fault} (run : a r = .error fault q) :
    r.cursor.Reaches q.cursor := by
  have moved := reaches h r
  rw [after_of_error run] at moved
  exact moved

theorem file_of_ok {x : α} (run : a r = .ok x q) : q.file = r.file := by
  have same := file_after h r
  rw [after_of_ok run] at same
  exact same

theorem file_of_error {fault : Fault} (run : a r = .error fault q) : q.file = r.file := by
  have same := file_after h r
  rw [after_of_error run] at same
  exact same

end Ran

end Reading

/-! ### Sessions -/

namespace Evaluating

theorem Step.reaches {α : Type} {a : Evaluating α} (h : Step α a) (s : Session) :
    s.reader.cursor.Reaches (after a s).reader.cursor := by
  cases h with
  | reading h =>
    rw [after_reading]
    exact Reading.reaches h s.reader
  | valueOf t =>
    rw [after_valueOf]
    exact .refl _
  | endGroup => rcases after_endGroup s with h | h <;> rw [h] <;> exact .refl _
  | define f => exact .refl _

/-- **Evaluating moves the cursor on.** -/
theorem reaches {α : Type} {a : Evaluating α} (h : Composed Step a) (s : Session) :
    s.reader.cursor.Reaches (after a s).reader.cursor :=
  h.after_related (R := fun s t : Session => s.reader.cursor.Reaches t.reader.cursor)
    (fun _ => .refl _) (fun first later => first.trans later) (fun s step => step.reaches s) s

end Evaluating

end Reckoner
