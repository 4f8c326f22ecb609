/-!
# Paths

A path is shown without empty components, without `.` components and without a slash at its
end. Leading slashes become one, but exactly two of them stay two. A path of which nothing
is left is `.`.
-/

namespace Reckoner.Command

/-- A root, which is empty for a relative path, and the components below it. -/
structure Path where
  root : String
  components : List String
  deriving DecidableEq, Repr

namespace Path

/-- The root that a number of leading slashes stands for. -/
def rootOf : Nat → String
  | 0 => ""
  | 2 => "//"
  | _ => "/"

/-- Reads a path. -/
def ofString (s : String) : Path :=
  let cs := s.toList
  let parts := (cs.splitOn '/').map String.ofList
  ⟨rootOf (cs.takeWhile (· == '/')).length, parts.filter fun part => part != "" && part != "."⟩

/-- The text of a path. -/
def text (p : Path) : String :=
  let body := String.intercalate "/" p.components
  if p.root = "" ∧ p.components = [] then "." else p.root ++ body

end Path

end Reckoner.Command
