import Reckoner.Text.Quoted

/-!
# Tokens

A token has a kind, its text and the location just past its last character. The text of a
string is what stands between its quotes. Tokens may also come from elsewhere than a scanned
source, so a location may be any pair of integers and a text need not fit its kind.
-/

namespace Reckoner

/-- A line and a column of a named source. -/
structure Location where
  line : Int
  column : Int
  file : String
  deriving DecidableEq, Repr

/-- The name of a source that has none of its own. -/
def unnamedSource : String := "<input>"

/-- Written `file:line:column`. -/
def Location.text (l : Location) : String :=
  l.file ++ ":" ++ l.line.repr ++ ":" ++ l.column.repr

/-- Every kind of token. -/
inductive TokenKind where
  | number
  | string
  | identifier
  | operator
  | comparison
  | punctuation
  | functionLink
  | endOfLine
  | endOfInput
  | letWord
  | functionWord
  | ifWord
  | elseWord
  | inWord
  | printWord
  | functionDeclaration
  deriving DecidableEq, Repr

namespace TokenKind

/-- The name shown in messages. -/
def name : TokenKind → String
  | number => "NUMBER"
  | string => "STRING_LITERAL"
  | identifier => "IDENTIFIER"
  | operator => "OPERATOR"
  | comparison => "COMPARISON_OPERATOR"
  | punctuation => "PUNCTUATION"
  | functionLink => "FUNCTION_LINK"
  | endOfLine => "END_OF_LINE"
  | endOfInput => "END_OF_INPUT"
  | letWord => "LET"
  | functionWord => "FUNCTION"
  | ifWord => "IF"
  | elseWord => "ELSE"
  | inWord => "IN"
  | printWord => "PRINT"
  | functionDeclaration => "FUNCTION_DECLARATION"

/-- All kinds, in the order of their declaration. -/
def all : List TokenKind :=
  [number, string, identifier, operator, comparison, punctuation, functionLink, endOfLine,
   endOfInput, letWord, functionWord, ifWord, elseWord, inWord, printWord, functionDeclaration]

/-- The kind of that name. -/
def ofName? (name : String) : Option TokenKind :=
  all.find? fun kind => kind.name == name

/-- Ends a statement: a semicolon or the end of the input. -/
def endsStatement : TokenKind → Bool
  | endOfLine | endOfInput => true
  | _ => false

/-- Every other kind stands inside a statement. -/
theorem inside_iff {kind : TokenKind} :
    kind.endsStatement = false ↔ kind ≠ endOfInput ∧ kind ≠ endOfLine := by
  cases kind <;> decide

end TokenKind

/-- The reserved words. -/
def keywords : List (String × TokenKind) :=
  [("let", .letWord), ("function", .functionWord), ("if", .ifWord), ("else", .elseWord),
   ("in", .inWord), ("print", .printWord)]

/-- The kind of a word, reserved or not. -/
def TokenKind.ofWord (word : String) : TokenKind :=
  (keywords.lookup word).getD .identifier

/-- No word is a string. -/
theorem TokenKind.ofWord_ne_string (word : String) : TokenKind.ofWord word ≠ .string := by
  simp only [TokenKind.ofWord, keywords, List.lookup_cons, List.lookup_nil]
  repeat' split
  all_goals simp

/-- A piece of source text with its kind and its end. -/
structure Token where
  kind : TokenKind
  text : String
  location : Location
  deriving DecidableEq, Repr

namespace Token

/-- An operator whose text is one of the symbols. -/
def isOperator (t : Token) (symbols : List String) : Bool :=
  t.kind == .operator && symbols.contains t.text

/-- That punctuation sign. -/
def isPunctuation (t : Token) (symbol : String) : Bool :=
  t.kind == .punctuation && t.text == symbol

/-- The token as a token list shows it; the end of the input has no text. -/
def display (t : Token) : String :=
  "Token(" ++ t.kind.name ++
    (if t.kind = .endOfInput then "" else ", " ++ Text.quoted t.text) ++
    ", " ++ t.location.line.repr ++ ":" ++ t.location.column.repr ++ ")"

/-- The token as it was written: the text, or the text between quotes for a string. -/
def spelling (t : Token) : String :=
  if t.kind = .string then "\"" ++ t.text ++ "\"" else t.text

end Token

end Reckoner
