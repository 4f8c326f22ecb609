/-!
# Classes of characters as ranges

A class of characters is listed as inclusive ranges of code points.
-/

namespace Reckoner.Text

/-- The character's code point lies in one of the ranges. -/
def covers (ranges : List (Nat × Nat)) (c : Char) : Bool :=
  ranges.any fun range => range.1 ≤ c.toNat && c.toNat ≤ range.2

theorem covers_iff {ranges : List (Nat × Nat)} {c : Char} :
    covers ranges c = true ↔ ∃ range ∈ ranges, range.1 ≤ c.toNat ∧ c.toNat ≤ range.2 := by
  simp only [covers, List.any_eq_true, Bool.and_eq_true, decide_eq_true_eq]

/-- Ranges that lie apart have no character in common. -/
theorem covers_eq_false_of_apart {ranges others : List (Nat × Nat)} {c : Char}
    (apart : ∀ range ∈ ranges, ∀ other ∈ others, range.2 < other.1 ∨ other.2 < range.1)
    (h : covers ranges c = true) : covers others c = false := by
  obtain ⟨range, inRanges, low, high⟩ := covers_iff.1 h
  refine Bool.eq_false_iff.2 fun covered => ?_
  obtain ⟨other, inOthers, low', high'⟩ := covers_iff.1 covered
  have := apart range inRanges other inOthers
  omega

end Reckoner.Text
