import Reckoner.Cursor
import Reckoner.Journal
import Reckoner.Lexeme

/-!
# Readers

A reader delivers the tokens of a source one at a time, on demand. A token may be pushed
back, and pushed-back tokens come first, the latest of them foremost. All reading is done by
actions on the reader, which either yield a result or end with a fault; what has been read
or noted by then stays read and noted.
-/

namespace Reckoner

/-- A cursor in a named source, the tokens that are to be delivered first, and the journal. -/
structure Reader where
  cursor : Cursor
  pending : List Token
  file : String
  journal : Journal
  deriving DecidableEq

namespace Reader

/-- A reader before the first character of a source. -/
def ofSource (source : String) (file : String) (policy : Policy) : Reader :=
  ⟨Cursor.atStart source.toList, [], file, Journal.empty policy⟩

/-- The current location. -/
def here (r : Reader) : Location :=
  ⟨r.cursor.place.line, r.cursor.place.column, r.file⟩

/-- Moves past some characters. -/
def advance (r : Reader) (n : Nat) : Reader :=
  { r with cursor := r.cursor.advance n }

/-- Adds an event to the journal. -/
def note (r : Reader) (e : Event) : Reader :=
  { r with journal := r.journal.note e }

/-- No run from here takes more steps than this: each step of a loop, and each level of nesting,
uses up a character or a pending token. -/
def budget (r : Reader) : Nat :=
  r.cursor.rest.length + r.pending.length + 1

end Reader

/-- An action on a reader. -/
abbrev Reading (α : Type) := EStateM Fault Reader α

namespace Reading

open Reckoner.Text

/-- The characters that are still to be read. -/
def rest : Reading (List Char) := fun r => .ok r.cursor.rest r

/-- The next character, if there is one. -/
def peek? : Reading (Option Char) := fun r => .ok r.cursor.rest.head? r

/-- The current location. -/
def here : Reading Location := fun r => .ok r.here r

/-- See `Reader.budget`. -/
def budget : Reading Nat := fun r => .ok r.budget r

/-- Moves past some characters. -/
def skip (n : Nat) : Reading Unit := fun r => .ok () (r.advance n)

/-- Takes the longest run of characters that satisfy a test. -/
def takeWhile (test : Char → Bool) : Reading (List Char) := do
  let taken := (← rest).takeWhile test
  skip taken.length
  return taken

/-- Moves past blanks. -/
def skipBlanks : Reading Unit := do
  let _ ← takeWhile isBlank

/-- Adds an event to the journal. -/
def note (e : Event) : Reading Unit := fun r => .ok () (r.note e)

/-- Ends with a diagnostic that no policy collects. -/
def fail {α : Type} (d : Diagnostic) : Reading α := throw (.diagnostic d)

/-- Applies the policy to a diagnostic. -/
def report (d : Diagnostic) : Reading Unit := fun r =>
  match r.journal.report d with
  | .error d => .error (.diagnostic d) r
  | .ok journal => .ok () { r with journal := journal }

/-- Reports a cause at the current location. -/
def reportHere (cause : Cause) : Reading Unit := do
  report ⟨cause, ← here⟩

/-- A token that ends at the current location. -/
def token (kind : TokenKind) (text : List Char) : Reading Token := do
  return ⟨kind, String.ofList text, ← here⟩

/-- Puts a token before all that are still to be delivered. -/
def pushBack (t : Token) : Reading Unit := fun r => .ok () { r with pending := t :: r.pending }

/-- The foremost pending token, if there is one. -/
def popPending? : Reading (Option Token) := fun r =>
  match r.pending with
  | [] => .ok none r
  | t :: pending => .ok (some t) { r with pending := pending }

/-- Scans the next token of the source, whatever is pending. An invalid character is not passed;
an unterminated string takes all that is left. -/
def scan : Reading Token := do
  skipBlanks
  match Scan.of (← rest) with
  | .nothing => token .endOfInput []
  | .lexeme l =>
    skip l.spelling.length
    token l.kind l.text
  | .unterminated text =>
    skip (text.length + 1)
    reportHere .unterminatedString
    token .string text
  | .stray c => fail ⟨.invalidCharacter (String.singleton c), ← here⟩

/-- The next token: a pending one or, if none is, the next of the source. -/
def next : Reading Token := do
  match ← popPending? with
  | some t => return t
  | none => scan

/-- A pending token is delivered without a look at the source. -/
theorem next_of_pending {r : Reader} {t : Token} {pending : List Token}
    (h : r.pending = t :: pending) : next r = .ok t { r with pending := pending } := by
  simp only [next, popPending?, bind, EStateM.bind, h]
  rfl

/-- With nothing pending the source is scanned. -/
theorem next_of_pending_nil {r : Reader} (h : r.pending = []) : next r = scan r := by
  simp only [next, popPending?, bind, EStateM.bind, h]

/-- Scans a number, which may have a minus sign in front and may lack digits, right here. -/
def scanNumber : Reading Token := do
  match ← rest with
  | [] => throw .endOfSource
  | text =>
    let number := Lexeme.signedNumberText text
    skip number.length
    token .number number

end Reading

end Reckoner
