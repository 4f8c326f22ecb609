import Mathlib.Logic.Function.Iterate
import Reckoner.Proofs.Lexing.Decomposition

/-!
# One scan after the other

The scans of a source come to the elements of a tape. The tape is fixed by the decomposition of the
source into pieces and a halt: it has the tokens of the pieces, and from then on it is what the halt
makes of it, for ever. An end of the input and a character that begins no token stay where they are;
a string without its end is one element, which is reported, with ends of the input behind it.

* `tape`, `Reader.yields_tape`
-/

namespace Reckoner

open Reckoner.Text

/-! ### The tape -/

/-- What a scan comes to: a token and what is reported along with it, or the end of the run. -/
inductive Element where
  | token (t : Token) (reported : List Diagnostic)
  | fault (d : Diagnostic)

namespace Element

/-- What a pull gets. -/
def result : Element → Except Fault Token
  | token t _ => .ok t
  | fault d => .error (.diagnostic d)

/-- What is collected. -/
def reported : Element → List Diagnostic
  | token _ ds => ds
  | fault _ => []

end Element

/-- What stands behind the quote of a string without its end. -/
def openText (passed : List Char) : List Char := (passed.dropWhile isBlank).tail

/-- The elements from a halt on. An end of the input and a character that begins no token remain
there; a string without its end is one element, with the end of the input behind it. -/
def Halt.element (policy : Policy) (passed : List Char) (p : Location) : Halt → Nat → Element
  | ended, _ => .token ⟨.endOfInput, "", p⟩ []
  | stray c, _ => .fault ⟨.invalidCharacter (String.singleton c), p⟩
  | openString, 0 =>
    match policy with
    | .raise => .fault ⟨.unterminatedString, p⟩
    | .collect =>
      .token ⟨.string, String.ofList (openText passed), p⟩ [⟨.unterminatedString, p⟩]
  | openString, _ + 1 => .token ⟨.endOfInput, "", p⟩ []

/-- The elements of a source that consists of these pieces up to a halt. -/
def tape (file : String) (policy : Policy) (pieces : List Piece) (passed : List Char) (halt : Halt)
    (n : Nat) : Element :=
  match (tokensFrom file .start pieces)[n]? with
  | some t => .token t []
  | none => halt.element policy passed (haltLocation file pieces passed) (n - pieces.length)

theorem length_tokensFrom (file : String) (place : Place) (pieces : List Piece) :
    (tokensFrom file place pieces).length = pieces.length := by
  induction pieces generalizing place with
  | nil => rfl
  | cons piece pieces ih => exact congrArg (· + 1) (ih _)

/-! ### One scan after the other -/

/-- The result of a run, whatever state it leads to. -/
def Outcome.result {σ α : Type} : Outcome σ α → Except Fault α
  | .ok x _ => .ok x
  | .error fault _ => .error fault

namespace Reader

/-- The reader after so many scans. -/
def scans (r : Reader) (n : Nat) : Reader := (after Reading.scan)^[n] r

theorem scans_succ (r : Reader) (n : Nat) : r.scans (n + 1) = (after Reading.scan r).scans n :=
  Function.iterate_succ_apply _ _ _

theorem after_scan_scans (r : Reader) (n : Nat) :
    after Reading.scan (r.scans n) = r.scans (n + 1) :=
  (Function.iterate_succ_apply' _ _ _).symm

/-- A scan from here comes to the element. -/
structure Yields (r : Reader) (e : Element) : Prop where
  result : Outcome.result (Reading.scan r) = e.result
  reported : (after Reading.scan r).journal.collected = r.journal.collected ++ e.reported

variable {r q : Reader} {t : Token}

theorem yields_of_ok {reported : List Diagnostic} (h : Reading.scan r = .ok t q)
    (more : q.journal.collected = r.journal.collected ++ reported) :
    r.Yields (.token t reported) := by
  refine ⟨by rw [h]; rfl, ?_⟩
  rw [after_of_ok h]
  exact more

theorem yields_of_error {d : Diagnostic} (h : Reading.scan r = .error (.diagnostic d) q)
    (same : q.journal.collected = r.journal.collected) : r.Yields (.fault d) := by
  refine ⟨by rw [h]; rfl, ?_⟩
  rw [after_of_error h, same]
  exact (List.append_nil _).symm

/-- Where a scan changes nothing it comes to the same for ever. -/
theorem Yields.scans {e : Element} (h : r.Yields e) (stays : after Reading.scan r = r) (n : Nat) :
    (r.scans n).Yields e := by
  have fixed : r.scans n = r := Function.iterate_fixed stays n
  rw [fixed]
  exact h

theorem pastBlanks_of_head (h : ∀ c ∈ r.cursor.rest.head?, isBlank c = false) :
    r.pastBlanks = r := by
  have nothing : r.cursor.rest.takeWhile isBlank = [] := by
    cases text : r.cursor.rest with
    | nil => rfl
    | cons c cs => rw [List.takeWhile_cons_of_neg (by rw [h c (by rw [text]; rfl)]; simp)]
  unfold pastBlanks
  rw [nothing]
  rfl

/-- At the end of the source there are ends of the input, all at the same location. -/
theorem yields_of_nothing (h : r.cursor.rest = []) (n : Nat) :
    (r.scans n).Yields (.token ⟨.endOfInput, "", r.here⟩ []) := by
  have still : r.pastBlanks = r := pastBlanks_of_head (by rw [h]; intro c hc; cases hc)
  have scanned : Reading.scan r = .ok ⟨.endOfInput, "", r.here⟩ r := by
    rw [Reading.scan_eq, still, h]
    rfl
  exact (yields_of_ok scanned (List.append_nil _).symm).scans (after_of_ok scanned) n

/-- The scans of pieces come to their tokens. -/
theorem scans_of_splits {cs rest : List Char} {pieces : List Piece} (h : Splits cs pieces rest)
    (empty : r.pending = []) (text : r.cursor.rest = cs) :
    (∀ n t, (tokensFrom r.file r.cursor.place pieces)[n]? = some t →
      (r.scans n).Yields (.token t [])) ∧
    r.Behind (r.scans pieces.length) (pieces.flatMap Piece.text) rest := by
  induction h generalizing r with
  | done =>
    refine ⟨fun n t found => ?_, empty, text, rfl, rfl, rfl⟩
    cases found
  | @piece blanks behind rest l pieces inside longest _ ih =>
    obtain ⟨q, taken, first⟩ := next_of_piece inside longest empty text
    have scanned := (Reading.next_of_pending_nil empty).symm.trans taken
    obtain ⟨tokens, all⟩ := ih first.pending first.rest
    have moves (n : Nat) : r.scans (n + 1) = q.scans n := by
      rw [scans_succ, after_of_ok scanned]
    refine ⟨fun n t found => ?_, ?_⟩
    · cases n with
      | zero =>
        cases found
        have same : q.journal.collected = r.journal.collected ++ [] := by
          rw [first.journal, List.append_nil]
        exact yields_of_ok scanned same
      | succ n =>
        rw [moves]
        rw [first.place, first.file] at tokens
        exact tokens n t found
    · rw [List.length_cons, moves]
      refine ⟨all.pending, all.rest, ?_, all.file.trans first.file,
        all.journal.trans first.journal⟩
      rw [all.place, first.place, List.flatMap_cons]
      exact (Place.after_append _ _ _).symm

section Halts

variable {blanks : List Char} (inside : ∀ c ∈ blanks, isBlank c = true)
include inside

theorem yields_of_ended (empty : r.pending = []) (text : r.cursor.rest = blanks) (n : Nat) :
    (r.scans n).Yields
      (.token ⟨.endOfInput, "", (r.cursor.place.after blanks).inFile r.file⟩ []) := by
  have scanned := (Reading.next_of_pending_nil empty).symm.trans (next_of_blanks inside empty text)
  have nothing : ∀ c ∈ ([] : List Char).head?, isBlank c = false := fun c hc => by cases hc
  obtain ⟨left, place⟩ := pastBlanks_of_split inside nothing (text.trans (List.append_nil _).symm)
  cases n with
  | zero => exact yields_of_ok scanned (List.append_nil _).symm
  | succ n =>
    rw [scans_succ, after_of_ok scanned, ← place]
    exact yields_of_nothing left n

/-- The scan passes the blanks and stays in front of the character. -/
theorem yields_of_stray {c : Char} {more : List Char} (unblank : isBlank c = false)
    (other : ¬ Lexeme.Begins c) (text : r.cursor.rest = blanks ++ c :: more) (n : Nat) :
    (r.scans n).Yields (.fault ⟨.invalidCharacter (String.singleton c),
      (r.cursor.place.after blanks).inFile r.file⟩) := by
  have first : ∀ d ∈ (c :: more).head?, isBlank d = false := by
    intro d hd
    cases hd
    exact unblank
  obtain ⟨left, place⟩ := pastBlanks_of_split inside first text
  have scanned : Scan.of (c :: more) = .stray c := Scan.of_eq_stray_iff.2 ⟨rfl, other⟩
  have stopped (q : Reader) (same : q.pastBlanks = r.pastBlanks) : Reading.scan q =
      .error (.diagnostic ⟨.invalidCharacter (String.singleton c),
        (r.cursor.place.after blanks).inFile r.file⟩) r.pastBlanks := by
    rw [Reading.scan_eq, same, left, scanned, ← place]
    rfl
  have again := stopped r.pastBlanks (pastBlanks_of_head (by rw [left]; exact first))
  cases n with
  | zero => exact yields_of_error (stopped r rfl) rfl
  | succ n =>
    rw [scans_succ, after_of_error (stopped r rfl)]
    exact (yields_of_error again rfl).scans (after_of_error again) n

/-- All that is left is taken up, and then it is reported that the string does not end. -/
theorem scan_of_openString {opened : List Char} (unclosed : '"' ∉ opened)
    (text : r.cursor.rest = blanks ++ '"' :: opened) :
    ∃ q, Reading.scan r = Reading.openString opened q ∧ q.cursor.rest = [] ∧
      q.here = (r.cursor.place.after (blanks ++ '"' :: opened)).inFile r.file ∧
      q.journal = r.journal := by
  have first : ∀ d ∈ ('"' :: opened).head?, isBlank d = false := by
    intro d hd
    cases hd
    decide
  obtain ⟨left, place⟩ := pastBlanks_of_split inside first text
  have scanned : Scan.of ('"' :: opened) = .unterminated opened :=
    Scan.of_eq_unterminated_iff.2 ⟨rfl, unclosed⟩
  refine ⟨r.pastBlanks.advance (opened.length + 1), ?_, ?_, ?_, rfl⟩
  · rw [Reading.scan_eq, left, scanned]
  · rw [rest_advance, left]
    exact List.drop_length
  · show (r.pastBlanks.cursor.place.after (r.pastBlanks.cursor.rest.take _)).inFile r.file = _
    rw [left, place, Place.after_append, ← List.length_cons, List.take_length]

theorem yields_of_openString {opened : List Char} (unclosed : '"' ∉ opened)
    (text : r.cursor.rest = blanks ++ '"' :: opened) (n : Nat) :
    (r.scans n).Yields (Halt.openString.element r.journal.policy (blanks ++ '"' :: opened)
      ((r.cursor.place.after (blanks ++ '"' :: opened)).inFile r.file) n) := by
  obtain ⟨q, taken, last, here, journal⟩ := scan_of_openString inside unclosed text
  rw [← here, ← journal]
  cases policy : q.journal.policy with
  | raise =>
    have stopped := taken.trans (Reading.openString_of_raise opened policy)
    cases n with
    | zero =>
      have same : q.journal.collected = r.journal.collected := by rw [journal]
      exact yields_of_error stopped same
    | succ n =>
      rw [scans_succ, after_of_error stopped]
      exact yields_of_nothing last n
  | collect =>
    have delivered := taken.trans (Reading.openString_of_collect opened policy)
    have behind : openText (blanks ++ '"' :: opened) = opened := by
      have first : ∀ d ∈ ('"' :: opened).head?, isBlank d = false := by
        intro d hd
        cases hd
        decide
      rw [openText, dropWhile_append_of_head? inside first]
      rfl
    cases n with
    | zero =>
      have more : (q.note (.collected ⟨.unterminatedString, q.here⟩)).journal.collected =
          r.journal.collected ++ [⟨.unterminatedString, q.here⟩] := by
        rw [← journal]
        exact Journal.collected_note_collected q.journal _
      unfold Halt.element
      rw [behind]
      exact yields_of_ok delivered more
    | succ n =>
      rw [scans_succ, after_of_ok delivered]
      exact yields_of_nothing (r := q.note (.collected _)) last n

end Halts

/-- The scans at a halt come to the same for ever, but for a string without its end, which is taken
at once. -/
theorem yields_of_halts {rest passed : List Char} {halt : Halt} (h : Halts rest passed halt)
    (empty : r.pending = []) (text : r.cursor.rest = rest) (n : Nat) :
    (r.scans n).Yields (halt.element r.journal.policy passed
      ((r.cursor.place.after passed).inFile r.file) n) := by
  cases h with
  | ended inside => exact yields_of_ended inside empty text n
  | stray inside unblank other => exact yields_of_stray inside unblank other text n
  | openString inside unclosed => exact yields_of_openString inside unclosed text n

/-- **Scans.** Whatever has been scanned of a source, the next scan comes to the next element. -/
theorem yields_tape {source : String} {pieces : List Piece} {rest passed : List Char} {halt : Halt}
    (splits : Splits source.toList pieces rest) (halts : Halts rest passed halt) (file : String)
    (policy : Policy) (n : Nat) :
    ((ofSource source file policy).scans n).Yields (tape file policy pieces passed halt n) := by
  obtain ⟨tokens, behind⟩ := scans_of_splits splits (r := ofSource source file policy) rfl rfl
  unfold tape
  cases found : (tokensFrom file .start pieces)[n]? with
  | some t => exact tokens n t found
  | none =>
    have past := List.getElem?_eq_none_iff.1 found
    rw [length_tokensFrom] at past
    have later := yields_of_halts halts behind.pending behind.rest (n - pieces.length)
    have moved : ((ofSource source file policy).scans pieces.length).scans (n - pieces.length) =
        (ofSource source file policy).scans n := by
      unfold scans
      rw [← Function.iterate_add_apply, Nat.sub_add_cancel past]
    have location : (((ofSource source file policy).scans pieces.length).cursor.place.after
        passed).inFile ((ofSource source file policy).scans pieces.length).file =
        haltLocation file pieces passed := by
      rw [behind.place, behind.file, haltLocation, Place.after_append]
      rfl
    rw [moved, location, behind.journal] at later
    exact later

/-- Scans leave nothing pending. -/
theorem pending_scans (h : r.pending = []) (n : Nat) : (r.scans n).pending = [] := by
  induction n with
  | zero => exact h
  | succ n ih =>
    rw [← after_scan_scans]
    have alone := Reading.next_of_pending_nil ih
    cases run : Reading.next (r.scans n) with
    | ok t q =>
      rw [after_of_ok (alone.symm.trans run)]
      exact (Reading.scan_of_next ih run).1
    | error fault q =>
      rw [after_of_error (alone.symm.trans run)]
      exact Reading.pending_of_failure run

/-- What has been collected by scans is what has been reported along with the elements. -/
theorem collected_scans {elements : Nat → Element} (yields : ∀ n, (r.scans n).Yields (elements n))
    (clean : r.journal.collected = []) (n : Nat) :
    (r.scans n).journal.collected = (List.range n).flatMap fun n => (elements n).reported := by
  induction n with
  | zero => exact clean
  | succ n ih =>
    rw [← after_scan_scans, (yields n).reported, ih, List.range_succ, List.flatMap_append,
      List.flatMap_singleton]

end Reader

end Reckoner
