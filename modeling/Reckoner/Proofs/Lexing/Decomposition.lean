import Reckoner.Proofs.Delivery
import Reckoner.Proofs.Lexing.Classes

/-!
# A source as blanks and lexemes

`Splits cs pieces rest` takes a text apart without a scanner: each piece is a run of blanks and
the longest lexeme behind it, and `rest` is left. `Halts` lists the three reasons to stop there:
only blanks are left, or a character that begins no lexeme comes next, or a string without its
end.

Pulling tokens from a source follows this decomposition step by step, so that the tokens, the
fault if there is one, and all locations are those of the decomposition.

* `Splits.pull_eq`, `Halts.pull_eq` — what a run of pulls does on a piece and at a halt;
* `exists_splits` — every text comes to a halt;
* `tokens_iff_splits` — the statement for whole sources.
-/

namespace Reckoner

open Reckoner.Text

/-- The place in a named source. -/
def Place.inFile (p : Place) (file : String) : Location := ⟨p.line, p.column, file⟩

/-- A run of blanks and the lexeme behind it. -/
structure Piece where
  blanks : List Char
  lexeme : Lexeme

/-- The characters that a piece takes up. -/
def Piece.text (p : Piece) : List Char := p.blanks ++ p.lexeme.spelling

/-- The tokens of pieces that begin at a place. Each is located just past its lexeme. -/
def tokensFrom (file : String) : Place → List Piece → List Token
  | _, [] => []
  | place, piece :: pieces =>
    ⟨piece.lexeme.kind, String.ofList piece.lexeme.text, (place.after piece.text).inFile file⟩ ::
      tokensFrom file (place.after piece.text) pieces

/-- The text consists of the pieces and the rest. -/
inductive Splits : List Char → List Piece → List Char → Prop
  | done {rest : List Char} : Splits rest [] rest
  | piece {blanks behind rest : List Char} {l : Lexeme} {pieces : List Piece} :
      (∀ c ∈ blanks, isBlank c = true) → l.LongestAt (l.spelling ++ behind) →
      Splits behind pieces rest →
      Splits (blanks ++ (l.spelling ++ behind)) (⟨blanks, l⟩ :: pieces) rest

/-- Why no further piece is found. -/
inductive Halt where
  | ended
  | stray (c : Char)
  | openString

/-- The rest of a text begins with no piece; the characters `passed` are read all the same. -/
inductive Halts : List Char → List Char → Halt → Prop
  | ended {blanks : List Char} : (∀ c ∈ blanks, isBlank c = true) →
      Halts blanks blanks .ended
  | stray {blanks more : List Char} {c : Char} : (∀ d ∈ blanks, isBlank d = true) →
      isBlank c = false → ¬ Lexeme.Begins c → Halts (blanks ++ c :: more) blanks (.stray c)
  | openString {blanks text : List Char} : (∀ c ∈ blanks, isBlank c = true) → '"' ∉ text →
      Halts (blanks ++ '"' :: text) (blanks ++ '"' :: text) .openString

namespace Halt

/-- The token that is made of a halt at this location. -/
def tokens (p : Location) : Halt → List Token
  | ended => [⟨.endOfInput, "", p⟩]
  | _ => []

/-- The fault that is made of a halt at this location. -/
def fault? (p : Location) : Halt → Option Fault
  | ended => none
  | stray c => some (.diagnostic ⟨.invalidCharacter (String.singleton c), p⟩)
  | openString => some (.diagnostic ⟨.unterminatedString, p⟩)

end Halt

/-! ### Blanks in front -/

section Blanks

variable {blanks more : List Char}

theorem Reader.pastBlanks_of_split {r : Reader} (inside : ∀ c ∈ blanks, isBlank c = true)
    (other : ∀ c ∈ more.head?, isBlank c = false) (text : r.cursor.rest = blanks ++ more) :
    r.pastBlanks.cursor.rest = more ∧
      r.pastBlanks.cursor.place = r.cursor.place.after blanks := by
  constructor
  · rw [rest_pastBlanks, text, dropWhile_append_of_head? inside other]
  · show r.cursor.place.after (r.cursor.rest.take _) = _
    rw [text, takeWhile_append_of_head? inside other, List.take_left]

end Blanks

/-! ### Pulls along the decomposition -/

/-- Items in front of those pulled later. -/
def Pulled.prepend {α : Type} (items : List α) (later : Pulled α) : Pulled α :=
  { later with items := items ++ later.items }

/-- The reader behind a text, with nothing noted on the way. -/
structure Reader.Behind (r q : Reader) (read rest : List Char) : Prop where
  pending : q.pending = []
  rest : q.cursor.rest = rest
  place : q.cursor.place = r.cursor.place.after read
  file : q.file = r.file
  journal : q.journal = r.journal

/-- One piece is one token. -/
theorem next_of_piece {blanks behind : List Char} {l : Lexeme} {r : Reader}
    (inside : ∀ c ∈ blanks, isBlank c = true) (longest : l.LongestAt (l.spelling ++ behind))
    (empty : r.pending = []) (text : r.cursor.rest = blanks ++ (l.spelling ++ behind)) :
    ∃ q, Reading.next r = .ok ⟨l.kind, String.ofList l.text,
        (r.cursor.place.after (blanks ++ l.spelling)).inFile r.file⟩ q ∧
      r.Behind q (blanks ++ l.spelling) behind := by
  have unblank : ∀ c ∈ (l.spelling ++ behind).head?, isBlank c = false := by
    obtain ⟨d, more, spelled, first⟩ := longest.wellFormed.exists_cons
    intro c hc
    rw [spelled] at hc
    cases hc
    exact first
  obtain ⟨rest, place⟩ := Reader.pastBlanks_of_split inside unblank text
  have scanned : Scan.of r.pastBlanks.cursor.rest = .lexeme l := by
    rw [rest]
    exact Scan.of_eq_lexeme_iff.2 longest
  have behindPlace : (r.pastBlanks.advance l.spelling.length).cursor.place =
      r.cursor.place.after (blanks ++ l.spelling) := by
    show r.pastBlanks.cursor.place.after (r.pastBlanks.cursor.rest.take l.spelling.length) = _
    rw [rest, place, List.take_left, Place.after_append]
  refine ⟨r.pastBlanks.advance l.spelling.length, ?_, empty, ?_, behindPlace, rfl, rfl⟩
  · rw [Reading.next_of_pending_nil empty, Reading.scan_eq, scanned, ← behindPlace]
    rfl
  · rw [Reader.rest_advance, rest, List.drop_left]

/-- Where only blanks are left, the end of the input comes next. -/
theorem next_of_blanks {blanks : List Char} {r : Reader}
    (inside : ∀ c ∈ blanks, isBlank c = true) (empty : r.pending = [])
    (text : r.cursor.rest = blanks) :
    Reading.next r =
      .ok ⟨.endOfInput, "", (r.cursor.place.after blanks).inFile r.file⟩ r.pastBlanks := by
  have nothing : ∀ c ∈ ([] : List Char).head?, isBlank c = false := fun c hc => by cases hc
  obtain ⟨left, place⟩ := Reader.pastBlanks_of_split inside nothing
    (text.trans (List.append_nil _).symm)
  rw [Reading.next_of_pending_nil empty, Reading.scan_eq, left, ← place]
  rfl

/-- Pulling takes up the pieces and goes on with the rest. -/
theorem Splits.pull_eq {cs rest : List Char} {pieces : List Piece} (h : Splits cs pieces rest)
    {r : Reader} (empty : r.pending = []) (text : r.cursor.rest = cs) {n : Nat}
    (enough : cs.length < n) :
    ∃ q m, r.Behind q (pieces.flatMap Piece.text) rest ∧ rest.length < m ∧
      Reader.pull n r = (Reader.pull m q).prepend (tokensFrom r.file r.cursor.place pieces) := by
  induction h generalizing r n with
  | done => exact ⟨r, n, ⟨empty, text, rfl, rfl, rfl⟩, enough, rfl⟩
  | @piece blanks behind rest l pieces inside longest _ ih =>
    obtain ⟨q, taken, behindPiece⟩ := next_of_piece inside longest empty text
    obtain ⟨c, more, spelled, -⟩ := longest.wellFormed.exists_cons
    have shorter : behind.length < n - 1 := by
      rw [spelled] at enough
      simp only [List.length_append, List.length_cons] at enough
      omega
    obtain ⟨n, rfl⟩ : ∃ k, n = k + 1 := ⟨n - 1, by omega⟩
    obtain ⟨z, m, behindAll, enough', pulled⟩ := ih behindPiece.pending behindPiece.rest shorter
    have inner : l.kind ≠ .endOfInput :=
      Scan.kind_ne_endOfInput (Scan.of_eq_lexeme_iff.2 longest)
    refine ⟨z, m, ⟨behindAll.pending, behindAll.rest, ?_, ?_, ?_⟩, enough', ?_⟩
    · rw [behindAll.place, behindPiece.place, List.flatMap_cons, Piece.text]
      exact (Place.after_append _ _ _).symm
    · rw [behindAll.file, behindPiece.file]
    · rw [behindAll.journal, behindPiece.journal]
    · rw [Nat.add_sub_cancel] at pulled
      simp only [Reader.pull, taken, inner, if_false]
      rw [pulled, behindPiece.place, behindPiece.file]
      rfl

/-- At a halt the run of pulls ends, under the policy that stops at every diagnostic. -/
theorem Halts.pull_eq {rest passed : List Char} {halt : Halt} (h : Halts rest passed halt)
    {r : Reader} (empty : r.pending = []) (text : r.cursor.rest = rest)
    (raising : r.journal.policy = .raise) (n : Nat) :
    ∃ q, Reader.pull (n + 1) r =
      ⟨halt.tokens ((r.cursor.place.after passed).inFile r.file),
        halt.fault? ((r.cursor.place.after passed).inFile r.file), q⟩ := by
  cases h with
  | ended inside =>
    refine ⟨r.pastBlanks, ?_⟩
    simp only [Reader.pull, next_of_blanks inside empty text, if_true]
    rfl
  | @stray _ more c inside unblank other =>
    have first : ∀ d ∈ (c :: more).head?, isBlank d = false := by
      intro d hd
      cases hd
      exact unblank
    obtain ⟨left, place⟩ := Reader.pastBlanks_of_split inside first text
    have scanned : Scan.of (c :: more) = .stray c := Scan.of_eq_stray_iff.2 ⟨rfl, other⟩
    have stopped : Reading.next r = .error (.diagnostic ⟨.invalidCharacter (String.singleton c),
        (r.cursor.place.after passed).inFile r.file⟩) r.pastBlanks := by
      rw [Reading.next_of_pending_nil empty, Reading.scan_eq, left, scanned, ← place]
      rfl
    refine ⟨r.pastBlanks, ?_⟩
    simp only [Reader.pull, stopped]
    rfl
  | @openString blanks text' inside opened =>
    have first : ∀ d ∈ ('"' :: text').head?, isBlank d = false := by
      intro d hd
      cases hd
      decide
    obtain ⟨left, place⟩ := Reader.pastBlanks_of_split inside first text
    have scanned : Scan.of ('"' :: text') = .unterminated text' :=
      Scan.of_eq_unterminated_iff.2 ⟨rfl, opened⟩
    have behind : (r.pastBlanks.advance (text'.length + 1)).cursor.place =
        r.cursor.place.after (blanks ++ '"' :: text') := by
      show r.pastBlanks.cursor.place.after (r.pastBlanks.cursor.rest.take _) = _
      rw [left, place, Place.after_append, ← List.length_cons, List.take_length]
    have stopped : Reading.next r = .error (.diagnostic ⟨.unterminatedString,
        (r.cursor.place.after (blanks ++ '"' :: text')).inFile r.file⟩)
        (r.pastBlanks.advance (text'.length + 1)) := by
      rw [Reading.next_of_pending_nil empty, Reading.scan_eq, left, scanned, ← behind]
      exact Reading.openString_of_raise _ raising
    refine ⟨r.pastBlanks.advance (text'.length + 1), ?_⟩
    simp only [Reader.pull, stopped]
    rfl

/-! ### Every text comes to a halt -/

/-- Whatever the text, it is split as far as it can be. -/
theorem exists_splits (cs : List Char) :
    ∃ pieces rest passed halt, Splits cs pieces rest ∧ Halts rest passed halt := by
  have blanks : ∀ c ∈ cs.takeWhile isBlank, isBlank c = true :=
    fun c hc => List.mem_takeWhile_imp hc
  have whole := List.takeWhile_append_dropWhile (p := isBlank) (l := cs)
  have first := head?_dropWhile_eq_false isBlank cs
  cases scanned : Scan.of (cs.dropWhile isBlank) with
  | nothing =>
    rw [Scan.eq_nil_of_nothing scanned, List.append_nil] at whole
    rw [whole] at blanks
    exact ⟨[], cs, cs, .ended, .done, .ended blanks⟩
  | lexeme l =>
    obtain ⟨behind, split⟩ := Scan.exists_spelling_append scanned
    rw [split] at scanned
    have longest := Scan.of_eq_lexeme_iff.1 scanned
    have shorter : behind.length < cs.length := by
      obtain ⟨c, more, spelled, -⟩ := longest.wellFormed.exists_cons
      have length := congrArg List.length whole
      rw [split, spelled] at length
      simp only [List.length_append, List.length_cons] at length
      omega
    obtain ⟨pieces, rest, passed, halt, splits, halts⟩ := exists_splits behind
    have front : Splits (cs.takeWhile isBlank ++ (l.spelling ++ behind)) _ rest :=
      .piece blanks longest splits
    rw [← split, whole] at front
    exact ⟨_, rest, passed, halt, front, halts⟩
  | unterminated text =>
    obtain ⟨split, opened⟩ := Scan.of_eq_unterminated_iff.1 scanned
    rw [split] at whole
    refine ⟨[], cs, cs, .openString, .done, ?_⟩
    rw [← whole]
    exact .openString blanks opened
  | stray c =>
    obtain ⟨head, other⟩ := Scan.of_eq_stray_iff.1 scanned
    obtain ⟨more, split⟩ : ∃ more, cs.dropWhile isBlank = c :: more := by
      cases left : cs.dropWhile isBlank with
      | nil => rw [left] at head; cases head
      | cons d more => rw [left] at head; cases head; exact ⟨more, rfl⟩
    rw [split] at whole
    refine ⟨[], cs, cs.takeWhile isBlank, .stray c, .done, ?_⟩
    have halted : Halts (cs.takeWhile isBlank ++ c :: more) _ (.stray c) :=
      .stray blanks (first c head) other
    rw [whole] at halted
    exact halted
termination_by cs.length

/-! ### Whole sources -/

/-- Where reading stops that has come to these pieces and passed something behind them. -/
def haltLocation (file : String) (pieces : List Piece) (passed : List Char) : Location :=
  (Place.start.after (pieces.flatMap Piece.text ++ passed)).inFile file

theorem stream_of_splits {source : String} (file : String) {pieces : List Piece}
    {rest passed : List Char} {halt : Halt} (splits : Splits source.toList pieces rest)
    (halts : Halts rest passed halt) :
    ∃ q, (Reader.ofSource source file .raise).stream =
      ⟨tokensFrom file .start pieces ++ halt.tokens (haltLocation file pieces passed),
        halt.fault? (haltLocation file pieces passed), q⟩ := by
  have enough : source.toList.length < (Reader.ofSource source file .raise).budget :=
    Nat.lt_succ_of_le (Nat.le_add_right _ _)
  obtain ⟨q, m, behind, more, pulled⟩ := splits.pull_eq
    (r := Reader.ofSource source file .raise) rfl rfl enough
  obtain ⟨m, rfl⟩ : ∃ k, m = k + 1 := ⟨m - 1, by omega⟩
  have raising : q.journal.policy = .raise := by
    rw [behind.journal]
    rfl
  obtain ⟨z, halted⟩ := halts.pull_eq behind.pending behind.rest raising m
  have location : (q.cursor.place.after passed).inFile q.file =
      haltLocation file pieces passed := by
    rw [behind.place, behind.file, haltLocation, Place.after_append]
    rfl
  refine ⟨z, ?_⟩
  rw [location] at halted
  rw [Reader.stream, pulled, halted]
  rfl

theorem tokens_of_splits {source : String} (file : String) {pieces : List Piece}
    {rest passed : List Char} {halt : Halt} (splits : Splits source.toList pieces rest)
    (halts : Halts rest passed halt) :
    ∃ q, Reading.tokens (Reader.ofSource source file .raise) =
      match halt.fault? (haltLocation file pieces passed) with
      | none => .ok (tokensFrom file .start pieces ++
          halt.tokens (haltLocation file pieces passed)) q
      | some fault => .error fault q := by
  obtain ⟨q, stream⟩ := stream_of_splits file splits halts
  refine ⟨q, ?_⟩
  rw [Reading.tokens, stream]
  cases halt <;> rfl

/-- **Tokenizing is longest-match decomposition.** Reading a source to its end gives the tokens
of a decomposition that only blanks are left of, and one end of the input behind them. It stops
at a character just if the decomposition halts there since no lexeme begins with it, and at the
end of the source just if a string without its end is left. Each source comes to one of these
halts. -/
theorem tokens_iff_splits (source file : String) :
    let r := Reader.ofSource source file .raise
    (∀ ts, (∃ q, Reading.tokens r = .ok ts q) ↔
      Complete ts ∧ ∃ pieces blanks, Splits source.toList pieces blanks ∧
        Halts blanks blanks .ended ∧ ts = tokensFrom file .start pieces ++
          [⟨.endOfInput, "", haltLocation file pieces blanks⟩]) ∧
    (∀ c p, (∃ q, Reading.tokens r =
        .error (.diagnostic ⟨.invalidCharacter (String.singleton c), p⟩) q) ↔
      ∃ pieces rest passed, Splits source.toList pieces rest ∧ Halts rest passed (.stray c) ∧
        p = haltLocation file pieces passed) ∧
    (∀ p, (∃ q, Reading.tokens r = .error (.diagnostic ⟨.unterminatedString, p⟩) q) ↔
      ∃ pieces rest, Splits source.toList pieces rest ∧ Halts rest rest .openString ∧
        p = haltLocation file pieces rest) ∧
    ∃ pieces rest passed halt, Splits source.toList pieces rest ∧ Halts rest passed halt := by
  intro r
  obtain ⟨pieces, rest, passed, halt, splits, halts⟩ := exists_splits source.toList
  obtain ⟨z, outcome⟩ := tokens_of_splits file splits halts
  refine ⟨fun ts => ⟨?_, ?_⟩, fun c p => ⟨?_, ?_⟩, fun p => ⟨?_, ?_⟩,
    pieces, rest, passed, halt, splits, halts⟩
  · rintro ⟨q, returned⟩
    refine ⟨(tokens_eq_ok_iff.1 ⟨q, returned⟩).1, ?_⟩
    have same := returned.symm.trans outcome
    cases halts with
    | ended inside =>
      cases same
      exact ⟨pieces, _, splits, .ended inside, rfl⟩
    | stray _ _ _ => cases same
    | openString _ _ => cases same
  · rintro ⟨-, pieces, blanks, splits, halts, rfl⟩
    exact tokens_of_splits file splits halts
  · rintro ⟨q, stopped⟩
    have same := stopped.symm.trans outcome
    cases halts with
    | ended _ => cases same
    | @stray _ more d inside unblank other =>
      simp only [Halt.fault?, EStateM.Result.error.injEq, Fault.diagnostic.injEq,
        Diagnostic.mk.injEq, Cause.invalidCharacter.injEq] at same
      obtain ⟨⟨text, location⟩, -⟩ := same
      have chars := congrArg String.toList text
      rw [String.toList_singleton, String.toList_singleton] at chars
      cases chars
      exact ⟨pieces, _, passed, splits, .stray inside unblank other, location⟩
    | openString _ _ => cases same
  · rintro ⟨pieces, rest, passed, splits, halts, rfl⟩
    exact tokens_of_splits file splits halts
  · rintro ⟨q, stopped⟩
    have same := stopped.symm.trans outcome
    cases halts with
    | ended _ => cases same
    | stray _ _ _ => cases same
    | openString inside opened =>
      cases same
      exact ⟨pieces, _, splits, .openString inside opened, rfl⟩
  · rintro ⟨pieces, rest, splits, halts, rfl⟩
    exact tokens_of_splits file splits halts

end Reckoner
