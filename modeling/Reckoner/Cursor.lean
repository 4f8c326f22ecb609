import Reckoner.Place

/-!
# Cursors

A cursor stands in a text: it has the characters that are still to be read, the number of
those already read and the place reached. It moves forward only.
-/

namespace Reckoner

/-- A position in a text. -/
structure Cursor where
  rest : List Char
  pos : Nat
  place : Place
  deriving DecidableEq, Repr

namespace Cursor

/-- Before the first character. -/
def atStart (text : List Char) : Cursor := ⟨text, 0, .start⟩

/-- Moves past the next `n` characters, or as many as are left. -/
def advance (c : Cursor) (n : Nat) : Cursor :=
  let run := c.rest.take n
  ⟨c.rest.drop n, c.pos + run.length, c.place.after run⟩

/-- The cursor is where reading `source` may lead to. -/
def In (c : Cursor) (source : List Char) : Prop :=
  ∃ read, source = read ++ c.rest ∧ c.pos = read.length ∧ c.place = Place.start.after read

theorem atStart_in (text : List Char) : (atStart text).In text :=
  ⟨[], rfl, rfl, rfl⟩

/-- Moving on keeps position and place true. -/
theorem In.advance {c : Cursor} {source : List Char} (h : c.In source) (n : Nat) :
    (c.advance n).In source := by
  obtain ⟨read, split, count, place⟩ := h
  refine ⟨read ++ c.rest.take n, ?_, ?_, ?_⟩
  · simp only [split, Cursor.advance, List.append_assoc, List.take_append_drop]
  · simp only [Cursor.advance, List.length_append, count]
  · simp only [Cursor.advance, Place.after_append, place]

theorem pos_le_advance (c : Cursor) (n : Nat) : c.pos ≤ (c.advance n).pos := by
  simp only [advance]; omega

end Cursor

end Reckoner
