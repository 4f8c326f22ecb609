import Reckoner.Token

/-!
# Function literals

A function literal is kept as it was read: its name, its parameters and the tokens of its
body, none of which is evaluated. The body always ends with a semicolon token.
-/

namespace Reckoner

/-- A named function whose body is a run of tokens. -/
structure FunctionLiteral where
  name : String
  parameters : List String
  body : List Token
  deriving DecidableEq, Repr

namespace FunctionLiteral

/-- Ends the body with a semicolon where the terminator stands, whatever ended it. -/
def capture (name : String) (parameters : List String) (body : List Token) (terminator : Token) :
    FunctionLiteral :=
  ⟨name, parameters, body ++ [⟨.endOfLine, ";", terminator.location⟩]⟩

/-- The name and the parameters in parentheses. -/
def signature (f : FunctionLiteral) : String :=
  f.name ++ "(" ++ String.intercalate ", " f.parameters ++ ")"

/-- The literal on one line, strings with their quotes, without the final semicolon. -/
def display (f : FunctionLiteral) : String :=
  f.signature ++ " => " ++ String.intercalate " " (f.body.dropLast.map Token.spelling)

/-- The texts of the body, the final semicolon included. -/
def bodyText (f : FunctionLiteral) : String :=
  String.intercalate " " (f.body.map Token.text)

theorem capture_dropLast (name : String) (parameters : List String) (body : List Token)
    (terminator : Token) : (capture name parameters body terminator).body.dropLast = body := by
  simp only [capture, List.dropLast_concat]

end FunctionLiteral

end Reckoner
