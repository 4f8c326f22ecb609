/-!
# Places in a text

Lines and columns are counted from one. A newline ends its line; every other character,
whatever its width, takes one column.
-/

namespace Reckoner

/-- A line and a column of a text. -/
structure Place where
  line : Nat
  column : Nat
  deriving DecidableEq, Repr

namespace Place

/-- Where a text begins. -/
def start : Place := ⟨1, 1⟩

/-- The place after one more character. -/
def step (p : Place) (c : Char) : Place :=
  if c = '\n' then ⟨p.line + 1, 1⟩ else ⟨p.line, p.column + 1⟩

/-- The place after a run of characters. -/
def after (p : Place) (cs : List Char) : Place :=
  cs.foldl step p

@[simp] theorem after_nil (p : Place) : p.after [] = p := rfl

@[simp] theorem after_cons (p : Place) (c : Char) (cs : List Char) :
    p.after (c :: cs) = (p.step c).after cs := rfl

theorem after_append (p : Place) (cs ds : List Char) :
    p.after (cs ++ ds) = (p.after cs).after ds := by
  simp only [after, List.foldl_append]

end Place

end Reckoner
