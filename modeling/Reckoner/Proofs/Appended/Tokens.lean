import Reckoner.Proofs.Collected
import Reckoner.Proofs.Lexing.Classes
import Reckoner.Proofs.Pairing

/-!
# Reading with more text behind

A text is read as if it were alone when nothing or a semicolon comes behind it: all tokens are
the same, but that a semicolon takes the place of the end of the input. Two things would tell
the difference, a string without its end and a malformed header of a function literal. Both
are reported where the text is alone, so such a run is lost for the comparison.

* `Appended.ends_next` — both readers deliver the same token.
-/

namespace Reckoner

open Reckoner.Text

/-- What comes behind a text: nothing, or a semicolon and then this. -/
def tailOf : Option (List Char) → List Char
  | none => []
  | some text => ';' :: text

/-! ### Lexemes in front of a tail -/

variable {behind : Option (List Char)}

/-- A run of characters without semicolons ends where the tail begins. -/
theorem dropWhile_append_tailOf {test : Char → Bool} (h : behind ≠ none → test ';' = false)
    (cs : List Char) :
    (cs ++ tailOf behind).dropWhile test = cs.dropWhile test ++ tailOf behind := by
  have tail : (tailOf behind).dropWhile test = tailOf behind := by
    cases behind with
    | none => rfl
    | some text => rw [tailOf, List.dropWhile_cons_of_neg (by rw [h (by simp)]; simp)]
  rw [List.dropWhile_append, tail]
  split
  · rename_i nothing
    rw [List.isEmpty_iff.1 nothing]
    rfl
  · rfl

theorem takeWhile_append_tailOf {test : Char → Bool} (h : behind ≠ none → test ';' = false)
    (cs : List Char) : (cs ++ tailOf behind).takeWhile test = cs.takeWhile test := by
  have whole := List.takeWhile_append_dropWhile (p := test) (l := cs ++ tailOf behind)
  rw [dropWhile_append_tailOf h, ← List.append_assoc] at whole
  have front := List.append_cancel_right whole
  have same := List.takeWhile_append_dropWhile (p := test) (l := cs)
  exact List.append_cancel_right (front.trans same.symm)

theorem numberText_append_tailOf (behind : Option (List Char)) (cs : List Char) :
    Lexeme.numberText (cs ++ tailOf behind) = Lexeme.numberText cs := by
  have digit : behind ≠ none → Char.isDigit ';' = false := fun _ => by decide
  unfold Lexeme.numberText
  rw [takeWhile_append_tailOf digit, dropWhile_append_tailOf digit]
  congr 1
  cases cs.dropWhile Char.isDigit with
  | nil => cases behind <;> rfl
  | cons c rest =>
    by_cases point : c = '.'
    · subst point
      show '.' :: (rest ++ tailOf behind).takeWhile Char.isDigit = _
      rw [takeWhile_append_tailOf digit]
      rfl
    · simp [point]

theorem ofLeader_append_tailOf (behind : Option (List Char)) (c : Char) (cs : List Char) :
    Lexeme.ofLeader c (cs ++ tailOf behind) = Lexeme.ofLeader c cs := by
  cases cs with
  | nil => cases behind <;> rfl
  | cons d rest => by_cases equals : d = '=' <;> simp [Lexeme.ofLeader, equals]

/-- What is scanned at the head of a text is the same with a tail behind, unless it is a string
without its end. -/
theorem Scan.of_append_tailOf {cs : List Char} (nonempty : cs ≠ [])
    (closed : ∀ text, Scan.of cs ≠ .unterminated text) :
    Scan.of (cs ++ tailOf behind) = Scan.of cs := by
  obtain ⟨c, rest, rfl⟩ := List.exists_cons_of_ne_nil nonempty
  have word : behind ≠ none → isWordChar ';' = false := fun _ => by decide
  have number := numberText_append_tailOf behind (c :: rest)
  have letters := takeWhile_append_tailOf word (c :: rest)
  have leader := ofLeader_append_tailOf behind c rest
  rw [List.cons_append] at number letters ⊢
  unfold Scan.of at closed ⊢
  simp only [number, letters, leader]
  by_cases quote : c = '"'
  · subst quote
    have sign : Char.isDigit '"' = false := by decide
    have noLetter : isLetter '"' = false := by decide
    simp only [sign, noLetter, Bool.false_eq_true, if_false, if_true] at closed ⊢
    by_cases closing : '"' ∈ rest
    · have longer : '"' ∈ rest ++ tailOf behind := List.mem_append_left _ closing
      obtain ⟨after, split⟩ := Lexeme.exists_closing closing
      have ends : (rest.takeWhile (· != '"')).length ≠ rest.length := by
        have length := congrArg List.length split
        rw [List.length_append, List.length_cons] at length
        omega
      rw [if_pos closing, if_pos longer, List.takeWhile_append, if_neg ends]
    · rw [if_neg closing] at closed
      exact absurd rfl (closed rest)
  · simp only [quote, if_false]

theorem any_head?_append_tailOf (behind : Option (List Char)) {test : Char → Bool}
    (h : test ';' = false) (cs : List Char) :
    (cs ++ tailOf behind).head?.any test = cs.head?.any test := by
  cases cs with
  | cons c rest => rfl
  | nil =>
    cases behind with
    | none => rfl
    | some text => exact h

theorem head?_append_tailOf_eq (behind : Option (List Char)) {c : Char} (h : c ≠ ';')
    (cs : List Char) :
    (cs ++ tailOf behind).head? = some c ↔ cs.head? = some c := by
  cases cs with
  | cons d rest => rfl
  | nil =>
    cases behind with
    | none => rfl
    | some text =>
      constructor
      · intro head
        cases head
        exact absurd rfl h
      · intro head
        cases head

/-! ### Readers that correspond -/

/-- Faults that differ at most in the location they are reported at. -/
inductive Fault.Alike : Fault → Fault → Prop
  | same (fault : Fault) : Alike fault fault
  | moved (c : Cause) (p q : Location) : Alike (.diagnostic ⟨c, p⟩) (.diagnostic ⟨c, q⟩)

/-- A token without its location. -/
def Token.bare (t : Token) : TokenKind × String := (t.kind, t.text)

/-- The causes for which the header of a function literal is malformed. -/
def Cause.inHeader : Cause → Bool
  | missingFunctionName | missingParameterList | missingParameter | openParameterList
  | missingLink => true
  | _ => false

/-- The kinds of the diagnostics collected so far. -/
def Journal.kinds (j : Journal) : List DiagnosticKind := j.collected.map fun d => d.cause.kind

/-- Something has been collected that may depend on what comes behind the text. -/
def Journal.Tells (j : Journal) : Prop :=
  ∃ d ∈ j.collected, d.cause = .unterminatedString ∨ d.cause.inHeader = true

namespace Appended

/-- On the right there is a history of diagnostics before those of the left. -/
structure Journals (history : List DiagnosticKind) (j k : Journal) : Prop where
  policy : j.policy = k.policy
  kinds : k.kinds = history ++ j.kinds

/-- Both readers stand between the same two tokens of the text. -/
structure Between (behind : Option (List Char)) (history : List DiagnosticKind)
    (l r : Reader) : Prop where
  left : l.pending = []
  right : r.pending = []
  text : r.cursor.rest = l.cursor.rest ++ tailOf behind
  journals : Journals history l.journal r.journal

/-- Both readers have read the text, the right one also the semicolon that may be behind it. -/
structure Finished (behind : Option (List Char)) (history : List DiagnosticKind)
    (l r : Reader) : Prop where
  left : l.pending = []
  right : r.pending = []
  nothing : l.cursor.rest = []
  text : r.cursor.rest = behind.getD []
  journals : Journals history l.journal r.journal

/-- The tokens that end the text. -/
def Last : Option (List Char) → Token → Token → Prop
  | none, t, u => t.kind = .endOfInput ∧ u.kind = .endOfInput ∧ t.text = u.text
  | some _, t, u => t.kind = .endOfInput ∧ u.kind = .endOfLine

/-- Readers that correspond, with up to one token put back on each side. -/
inductive Coupled (behind : Option (List Char)) (history : List DiagnosticKind) :
    Reader → Reader → Prop
  | between {l r : Reader} : Between behind history l r → Coupled behind history l r
  | held {l r : Reader} {t u : Token} : Between behind history l r → t.kind ≠ .endOfInput →
      t.kind = u.kind → t.text = u.text → Coupled behind history (l.push t) (r.push u)
  | ended {l r : Reader} {t u : Token} : Finished behind history l r → Last behind t u →
      Coupled behind history (l.push t) (r.push u)

/-- The link of two readers. A left run is lost where something comes behind and the run ends
with a fault or has collected what may depend on that. -/
def link (behind : Option (List Char)) (history : List DiagnosticKind) : Link Reader where
  states := Coupled behind history
  faults := Fault.Alike
  lost fault r := behind ≠ none ∧ (fault ≠ none ∨ r.journal.Tells)

variable {history : List DiagnosticKind} {l r : Reader}

theorem tells_mono {j k : Journal} (h : j.collected <+: k.collected) (tells : j.Tells) :
    k.Tells := by
  obtain ⟨d, hd, cause⟩ := tells
  exact ⟨d, h.subset hd, cause⟩

theorem keeps_link : (link behind history).Keeps Reading.Step := by
  intro α a r composed lost
  have grown := (Reading.grows composed).collected r
  cases run : a r with
  | ok x q =>
    rw [after_of_ok run] at grown
    refine ⟨lost.1, Or.inr (tells_mono grown ?_)⟩
    exact lost.2.resolve_left fun h => h rfl
  | error fault q => exact ⟨lost.1, Or.inl (by simp)⟩

/-! ### Tokens -/

/-- The same token has been taken from both, or each has come to its end. -/
inductive Pulled (behind : Option (List Char)) (history : List DiagnosticKind) :
    Token → Reader → Token → Reader → Prop
  | inside {t u : Token} {l r : Reader} : t.kind ≠ .endOfInput → t.kind = u.kind →
      t.text = u.text → Between behind history l r → Pulled behind history t l u r
  | last {t u : Token} {l r : Reader} : Last behind t u → Finished behind history l r →
      Pulled behind history t l u r

theorem Between.advance (h : Between behind history l r) {n : Nat}
    (enough : n ≤ l.cursor.rest.length) :
    Between behind history (l.advance n) (r.advance n) where
  left := h.left
  right := h.right
  text := by
    show r.cursor.rest.drop n = l.cursor.rest.drop n ++ tailOf behind
    rw [h.text, List.drop_append_of_le_length enough]
  journals := h.journals

theorem Between.advance_alone (h : Between none history l r) (n : Nat) :
    Between none history (l.advance n) (r.advance n) where
  left := h.left
  right := h.right
  text := by
    show r.cursor.rest.drop n = l.cursor.rest.drop n ++ []
    rw [h.text, tailOf, List.append_nil, List.append_nil]
  journals := h.journals

theorem Between.pastBlanks (h : Between behind history l r) :
    Between behind history l.pastBlanks r.pastBlanks where
  left := h.left
  right := h.right
  text := by
    rw [Reader.rest_pastBlanks, Reader.rest_pastBlanks, h.text]
    exact dropWhile_append_tailOf (fun _ => by decide) _
  journals := h.journals

theorem Journals.note {j k : Journal} (h : Journals history j k) {d e : Diagnostic}
    (same : d.cause.kind = e.cause.kind) :
    Journals history (j.note (.collected d)) (k.note (.collected e)) where
  policy := h.policy
  kinds := by
    have kinds := h.kinds
    unfold Journal.kinds at kinds ⊢
    rw [Journal.collected_note_collected, Journal.collected_note_collected, List.map_append,
      List.map_append, kinds, List.append_assoc]
    simp only [List.map_cons, List.map_nil, same]

theorem tells_note {j : Journal} {d : Diagnostic}
    (h : d.cause = .unterminatedString ∨ d.cause.inHeader = true) :
    (j.note (.collected d)).Tells := by
  refine ⟨d, ?_, h⟩
  rw [Journal.collected_note_collected]
  exact List.mem_append_right _ List.mem_cons_self

/-- Both readers report a cause, each in its own place. -/
theorem between_reportHere (h : Between behind history l r) (c : Cause) :
    (link behind history).Ends (fun _ l' _ r' => Between behind history l' r')
      (Reading.reportHere c l) (Reading.reportHere c r) := by
  show (link behind history).Ends _ (Reading.report ⟨c, l.here⟩ l) (Reading.report ⟨c, r.here⟩ r)
  cases policy : l.journal.policy with
  | raise =>
    rw [Reading.report_of_raise _ policy, Reading.report_of_raise _ (h.journals.policy ▸ policy)]
    exact .error (.moved _ _ _) (.between h)
  | collect =>
    rw [Reading.report_of_collect _ policy,
      Reading.report_of_collect _ (h.journals.policy ▸ policy)]
    exact .ok ⟨h.left, h.right, h.text, h.journals.note rfl⟩

/-- Some reports tell that nothing was behind their place. -/
theorem lost_reportHere (r : Reader) {c : Cause}
    (telling : c = .unterminatedString ∨ c.inHeader = true) (followed : behind ≠ none) :
    (link behind history).Lost (Reading.reportHere c r) := by
  show (link behind history).Lost (Reading.report ⟨c, r.here⟩ r)
  cases policy : r.journal.policy with
  | raise =>
    rw [Reading.report_of_raise _ policy]
    exact ⟨followed, Or.inl (by simp)⟩
  | collect =>
    rw [Reading.report_of_collect _ policy]
    exact ⟨followed, Or.inr (tells_note telling)⟩

theorem ends_openString (h : Between behind history l r) (text : List Char) :
    (link behind history).Ends (Pulled behind history) (Reading.openString text l)
      (Reading.openString text r) :=
  (between_reportHere h .unterminatedString).bind keeps_link fun _ _ _ _ h' =>
    .ok (.inside (by simp) rfl rfl h')

/-- A string without its end is such a report. -/
theorem lost_openString (r : Reader) (text : List Char) (followed : behind ≠ none) :
    (link behind history).Lost (Reading.openString text r) :=
  (lost_reportHere r (Or.inl rfl) followed).bind keeps_link

theorem ends_scan (h : Between behind history l r) :
    (link behind history).Ends (Pulled behind history) (Reading.scan l) (Reading.scan r) := by
  have hb := h.pastBlanks
  rw [Reading.scan_eq, Reading.scan_eq, hb.text]
  by_cases nothing : l.pastBlanks.cursor.rest = []
  · have rest : r.pastBlanks.cursor.rest = tailOf behind := by
      rw [hb.text, nothing]
      rfl
    rw [nothing]
    cases behind with
    | none =>
      exact .ok (.last ⟨rfl, rfl, rfl⟩ ⟨hb.left, hb.right, nothing, rest, hb.journals⟩)
    | some text =>
      have scanned : Scan.of (';' :: text) = .lexeme ⟨.endOfLine, [';']⟩ := by rfl
      rw [List.nil_append, tailOf, scanned]
      refine .ok (.last ⟨rfl, rfl⟩ ⟨hb.left, hb.right, nothing, ?_, hb.journals⟩)
      rw [Reader.rest_advance, rest]
      rfl
  · cases scanned : Scan.of l.pastBlanks.cursor.rest with
    | nothing => exact absurd (Scan.eq_nil_of_nothing scanned) nothing
    | lexeme x =>
      rw [Scan.of_append_tailOf nothing (by rw [scanned]; simp), scanned]
      obtain ⟨after, split⟩ := Scan.exists_spelling_append scanned
      refine .ok (.inside (Scan.kind_ne_endOfInput scanned) rfl rfl (hb.advance ?_))
      rw [split, List.length_append]
      exact Nat.le_add_right _ _
    | stray c =>
      rw [Scan.of_append_tailOf nothing (by rw [scanned]; simp), scanned]
      exact .error (.moved _ _ _) (.between hb)
    | unterminated text =>
      cases behind with
      | none =>
        rw [tailOf, List.append_nil, scanned]
        exact ends_openString (hb.advance_alone _) text
      | some more => exact .lost (lost_openString _ _ (by simp))

theorem ends_next (h : Coupled behind history l r) :
    (link behind history).Ends (Pulled behind history) (Reading.next l) (Reading.next r) := by
  cases h with
  | between h =>
    rw [Reading.next_of_pending_nil h.left, Reading.next_of_pending_nil h.right]
    exact ends_scan h
  | held h ht kind text =>
    rw [Reader.next_push, Reader.next_push]
    exact .ok (.inside ht kind text h)
  | ended h last =>
    rw [Reader.next_push, Reader.next_push]
    exact .ok (.last last h)

end Appended

end Reckoner
