import Reckoner.Text.Blank
import Reckoner.Text.Numeral
import Reckoner.Token

/-!
# Lexemes

A lexeme is the longest piece at the head of a text that makes one token: a number, a word,
a string between double quotes, a comparison or a single sign. `Scan.of` finds it; the main
statements are that a lexeme is never empty and that the text begins with its spelling.
-/

namespace Reckoner

open Reckoner.Text

/-- Signs that are operators by themselves. -/
def operatorSigns : List Char := ['+', '-', '*', '/', '%', '^', '.', '@']

/-- Signs that are punctuation. -/
def punctuationSigns : List Char := ['(', ')', '\x7b', '\x7d', '[', ']', ':', ',']

/-- Signs that an equals sign turns into a comparison; alone they are operators. -/
def comparisonLeaders : List Char := ['=', '<', '>', '!']

/-- A kind and a text, not yet anywhere in a source. -/
structure Lexeme where
  kind : TokenKind
  text : List Char
  deriving DecidableEq, Repr

namespace Lexeme

/-- The characters of the source that a lexeme takes up. -/
def spelling (l : Lexeme) : List Char :=
  if l.kind = .string then '"' :: (l.text ++ ['"']) else l.text

/-- Digits and, after them, an optional point that may have digits after it. -/
def numberText (cs : List Char) : List Char :=
  cs.takeWhile Char.isDigit ++
    match cs.dropWhile Char.isDigit with
    | '.' :: rest => '.' :: rest.takeWhile Char.isDigit
    | _ => []

/-- The same with an optional minus sign in front. -/
def signedNumberText : List Char → List Char
  | '-' :: rest => '-' :: numberText rest
  | cs => numberText cs

/-- A word is an identifier or reserved; `function` announces a function literal. -/
def ofWord (word : List Char) : Lexeme :=
  match TokenKind.ofWord (String.ofList word) with
  | .functionWord => ⟨.functionDeclaration, word⟩
  | kind => ⟨kind, word⟩

/-- One of the signs that may lead a comparison, and what it leads. -/
def ofLeader (c : Char) : List Char → Lexeme
  | '=' :: _ => ⟨.comparison, [c, '=']⟩
  | _ => ⟨.operator, [c]⟩

theorem exists_numberText_append (cs : List Char) : ∃ after, cs = numberText cs ++ after := by
  have whole := (List.takeWhile_append_dropWhile (p := Char.isDigit) (l := cs)).symm
  unfold numberText
  cases h : cs.dropWhile Char.isDigit with
  | nil =>
    rw [h] at whole
    exact ⟨[], by simpa only [List.append_nil] using whole⟩
  | cons c more =>
    rw [h] at whole
    by_cases point : c = '.'
    · subst point
      refine ⟨more.dropWhile Char.isDigit, ?_⟩
      simp only [List.append_assoc, List.cons_append, List.takeWhile_append_dropWhile]
      exact whole
    · exact ⟨c :: more, by simpa [point] using whole⟩

theorem exists_signedNumberText_append (cs : List Char) :
    ∃ after, cs = signedNumberText cs ++ after := by
  unfold signedNumberText
  split
  · rename_i rest
    obtain ⟨after, whole⟩ := exists_numberText_append rest
    exact ⟨after, congrArg ('-' :: ·) whole⟩
  · exact exists_numberText_append cs

theorem numberText_ne_nil {c : Char} (digit : c.isDigit = true) (rest : List Char) :
    numberText (c :: rest) ≠ [] := by
  simp [numberText, digit]

@[simp] theorem spelling_ofWord (word : List Char) : (ofWord word).spelling = word := by
  have apart := TokenKind.ofWord_ne_string (String.ofList word)
  unfold ofWord spelling
  split <;> simp_all

theorem exists_ofLeader_append (c : Char) (rest : List Char) :
    ∃ after, c :: rest = (ofLeader c rest).spelling ++ after := by
  unfold ofLeader
  split
  · exact ⟨_, rfl⟩
  · exact ⟨rest, rfl⟩

theorem spelling_ofLeader_ne_nil (c : Char) (rest : List Char) :
    (ofLeader c rest).spelling ≠ [] := by
  unfold ofLeader
  split <;> simp [spelling]

/-- Up to a character that is in the text, the text is what comes before it. -/
theorem exists_closing {c : Char} {cs : List Char} (closed : c ∈ cs) :
    ∃ after, cs = cs.takeWhile (· != c) ++ c :: after := by
  induction cs with
  | nil => exact absurd closed List.not_mem_nil
  | cons d ds ih =>
    by_cases same : d = c
    · subst same
      exact ⟨ds, by simp⟩
    · obtain ⟨after, h⟩ := ih ((List.mem_cons.1 closed).resolve_left (Ne.symm same))
      refine ⟨after, ?_⟩
      rw [List.takeWhile_cons_of_pos (by simpa using same), List.cons_append, ← h]

end Lexeme

/-- What stands at the head of a text. -/
inductive Scan where
  /-- Nothing is left. -/
  | nothing
  | lexeme (l : Lexeme)
  /-- An opening quote without a closing one, and all that follows it. -/
  | unterminated (text : List Char)
  /-- A character that begins no token. -/
  | stray (c : Char)
  deriving DecidableEq, Repr

/-- Looks at the head of a text in which leading blanks have been skipped. -/
def Scan.of : List Char → Scan
  | [] => .nothing
  | c :: rest =>
    if c.isDigit then .lexeme ⟨.number, Lexeme.numberText (c :: rest)⟩
    else if isLetter c then .lexeme (Lexeme.ofWord ((c :: rest).takeWhile isWordChar))
    else if c = '"' then
      if '"' ∈ rest then .lexeme ⟨.string, rest.takeWhile (· != '"')⟩ else .unterminated rest
    else if c ∈ operatorSigns then .lexeme ⟨.operator, [c]⟩
    else if c ∈ punctuationSigns then .lexeme ⟨.punctuation, [c]⟩
    else if c = ';' then .lexeme ⟨.endOfLine, [c]⟩
    else if c ∈ comparisonLeaders then .lexeme (Lexeme.ofLeader c rest)
    else .stray c

namespace Scan

/-- The text begins with the spelling of its lexeme. -/
theorem exists_spelling_append {cs : List Char} {l : Lexeme} (h : Scan.of cs = .lexeme l) :
    ∃ after, cs = l.spelling ++ after := by
  cases cs with
  | nil => simp [Scan.of] at h
  | cons c rest =>
    simp only [Scan.of] at h
    split at h
    · cases h
      exact Lexeme.exists_numberText_append (c :: rest)
    split at h
    · cases h
      rw [Lexeme.spelling_ofWord]
      exact ⟨_, List.takeWhile_append_dropWhile.symm⟩
    split at h
    · rename_i quote
      split at h
      · rename_i closed
        cases h
        obtain ⟨after, whole⟩ := Lexeme.exists_closing closed
        refine ⟨after, ?_⟩
        simp only [Lexeme.spelling, if_true, List.cons_append, List.append_assoc, List.nil_append]
        rw [quote, ← whole]
      · cases h
    split at h
    · cases h
      exact ⟨rest, rfl⟩
    split at h
    · cases h
      exact ⟨rest, rfl⟩
    split at h
    · cases h
      exact ⟨rest, rfl⟩
    split at h
    · cases h
      exact Lexeme.exists_ofLeader_append c rest
    · cases h

/-- A lexeme takes up at least one character. -/
theorem spelling_ne_nil {cs : List Char} {l : Lexeme} (h : Scan.of cs = .lexeme l) :
    l.spelling ≠ [] := by
  cases cs with
  | nil => simp [Scan.of] at h
  | cons c rest =>
    simp only [Scan.of] at h
    split at h
    · rename_i digit
      cases h
      exact Lexeme.numberText_ne_nil digit rest
    split at h
    · rename_i letter
      cases h
      simp [isWordChar_of_isLetter letter]
    split at h
    · split at h
      · cases h
        simp [Lexeme.spelling]
      · cases h
    split at h
    · cases h
      simp [Lexeme.spelling]
    split at h
    · cases h
      simp [Lexeme.spelling]
    split at h
    · cases h
      simp [Lexeme.spelling]
    split at h
    · cases h
      exact Lexeme.spelling_ofLeader_ne_nil c rest
    · cases h

end Scan

end Reckoner
