import Reckoner.Reader

/-!
# Function literals in a source

After the word `function` a function literal is read as `name(p, q) => body`, where the
body is every token up to a semicolon or the end of the input. The header is read from the
characters of the source and takes no pending token; the body is read token by token. A
missing part of the header is reported; if that is collected, reading goes on with what there
is. Parameters are to be separated by commas, but a comma that is missing between two of them
goes unreported, and so does one behind the last of them: `Reckoner.Proofs.Commas` says
exactly which commas are reported.
-/

namespace Reckoner

namespace Reading

open Reckoner.Text

/-- A run of word characters, which may be empty. -/
def word : Reading String := do
  return String.ofList (← takeWhile isWordChar)

/-- Requires that the name of the literal begins here. -/
def requireName : Reading Unit := do
  if (← peek?).any isLetter then return () else reportHere .missingFunctionName

/-- The name of the literal: what word characters there are, even if it is no name. -/
def functionName : Reading String := do
  skipBlanks
  requireName
  word

/-- The parenthesis that opens the parameter list. -/
def openParameters : Reading Unit := do
  skipBlanks
  if (← peek?) = some '(' then skip 1 else reportHere .missingParameterList

/-- Passes an optional comma and the blanks around it. -/
def passComma : Reading Unit := do
  skipBlanks
  if (← peek?) = some ',' then
    skip 1
    skipBlanks

/-- A parameter; what is no word is reported and passed up to a comma or parenthesis. -/
def parameter (first : Char) : Reading (List String) := do
  if isLetter first then
    return [← word]
  else
    reportHere .missingParameter
    let _ ← takeWhile fun c => c != ',' && c != ')'
    return []

/-- The parameters up to a closing parenthesis or the end of the source. -/
def parameters : Nat → Reading (List String)
  | 0 => throw .exhausted
  | fuel + 1 => do
    match ← peek? with
    | none | some ')' => return []
    | some c =>
      let found ← parameter c
      passComma
      return found ++ (← parameters fuel)

/-- The parenthesis that closes the parameter list. -/
def closeParameters : Reading Unit := do
  if (← peek?).isSome then skip 1 else reportHere .openParameterList

/-- The whole parameter list after its opening parenthesis. -/
def parameterList : Reading (List String) := do
  skipBlanks
  let names ← parameters (← budget)
  closeParameters
  return names

/-- The arrow before the body, if it comes next. -/
def scanLink? : Reading (Option Token) := do
  skipBlanks
  match ← rest with
  | '=' :: '>' :: _ =>
    skip 2
    return some (← token .functionLink ['=', '>'])
  | _ => return none

/-- Requires the arrow before the body. -/
def requireLink : Reading Unit := do
  if (← scanLink?).isSome then return () else reportHere .missingLink

/-- The tokens up to the end of a statement, and the token that ends it. -/
def body : Nat → Reading (List Token × Token)
  | 0 => throw .exhausted
  | fuel + 1 => do
    let t ← next
    if t.kind.endsStatement then
      return ([], t)
    else
      let (more, terminator) ← body fuel
      return (t :: more, terminator)

/-- Reads a function literal and notes it. -/
def functionLiteral : Reading FunctionLiteral := do
  let name ← functionName
  openParameters
  let names ← parameterList
  requireLink
  let (tokens, terminator) ← body (← budget)
  let literal := FunctionLiteral.capture name names tokens terminator
  note (.captured literal)
  return literal

end Reading

end Reckoner
