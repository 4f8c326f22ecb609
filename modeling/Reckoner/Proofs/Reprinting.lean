import Reckoner.Proofs.Appended.Header
import Reckoner.Proofs.Capture
import Reckoner.Proofs.Printing

/-!
# Reprinted function literals

The display of a function literal is a source of it. Its first line up to the arrow is a header, and
each token of the body is spelled behind a space, which is a boundary. So whatever has been captured
in silence about its header is read back from its display, but for the locations.

* `body_of_splits` — a body is read along the decomposition of its text;
* `Reading.functionLiteral_display` — what is displayed is read back.
-/

namespace Reckoner

open Reckoner.Text

variable {r q : Reader}

/-! ### Bodies -/

/-- A body is read along the decomposition of its text, up to the end of the input. -/
theorem body_of_splits {cs rest : List Char} {pieces : List Piece} (h : Splits cs pieces rest)
    (blanks : Blanks rest) (inside : ∀ p ∈ pieces, p.lexeme.kind.endsStatement = false)
    (empty : r.pending = []) (text : r.cursor.rest = cs) {n : Nat} (enough : cs.length < n) :
    ∃ e q, Reading.body n r = .ok (tokensFrom r.file r.cursor.place pieces, e) q := by
  obtain ⟨n, rfl⟩ : ∃ k, n = k + 1 := ⟨n - 1, by omega⟩
  induction h generalizing r n with
  | done =>
    unfold Reading.body
    rw [bind_of_ok (next_of_blanks blanks empty text)]
    exact ⟨_, _, rfl⟩
  | @piece front behind rest l pieces unblank longest _ ih =>
    obtain ⟨m, taken, behindPiece⟩ := next_of_piece unblank longest empty text
    have shorter : behind.length < n := by
      obtain ⟨c, more, spelled, -⟩ := longest.wellFormed.exists_cons
      rw [spelled] at enough
      simp only [List.length_append, List.length_cons] at enough
      omega
    obtain ⟨n, rfl⟩ : ∃ k, n = k + 1 := ⟨n - 1, by omega⟩
    have ongoing : l.kind.endsStatement = false := inside ⟨front, l⟩ List.mem_cons_self
    obtain ⟨e, z, run⟩ := ih blanks (fun p hp => inside p (List.mem_cons_of_mem _ hp))
      behindPiece.pending behindPiece.rest n shorter
    rw [behindPiece.file, behindPiece.place] at run
    refine ⟨e, z, ?_⟩
    unfold Reading.body
    rw [bind_of_ok taken, ongoing, if_neg Bool.false_ne_true, bind_of_ok run]
    rfl

/-! ### Displays -/

/-- Lexemes, each behind a space. -/
def spaced (ls : List Lexeme) : List Char := ls.flatMap fun l => ' ' :: l.spelling

theorem spaced_cons (l : Lexeme) (ls : List Lexeme) :
    spaced (l :: ls) = ' ' :: (l.spelling ++ spaced ls) := rfl

/-- The space in front of each lexeme keeps it apart from the one before. -/
theorem exists_splits_spaced {ls : List Lexeme} (formed : ∀ l ∈ ls, l.WellFormed)
    {margin : List Char} (boundary : AtBoundary margin) :
    ∃ pieces, pieces.map Piece.lexeme = ls ∧ Splits (spaced ls ++ margin) pieces margin := by
  induction ls with
  | nil => exact ⟨[], rfl, .done⟩
  | cons l ls ih =>
    obtain ⟨pieces, same, splits⟩ := ih fun l' hl => formed l' (List.mem_cons_of_mem _ hl)
    have apart : AtBoundary (spaced ls ++ margin) := by
      cases ls with
      | nil => exact boundary
      | cons l' ls => exact atBoundary_space _
    have longest := Scan.of_eq_lexeme_iff.1
      (Scan.of_spelling_append (formed l List.mem_cons_self) apart)
    refine ⟨⟨[' '], l⟩ :: pieces, by rw [List.map_cons, same], ?_⟩
    have whole := Splits.piece blanks_space longest splits
    rw [← List.append_assoc, ← List.append_assoc] at whole
    exact whole

/-- The display of a body is its lexemes behind spaces; for an empty body a space remains. -/
theorem exists_spaced (ts : List Token) :
    ∃ margin, Blanks margin ∧ AtBoundary margin ∧
      ' ' :: (String.intercalate " " (ts.map Token.spelling)).toList =
        spaced (ts.map Token.lexeme) ++ margin := by
  induction ts with
  | nil => exact ⟨[' '], blanks_space, atBoundary_space [], rfl⟩
  | cons t ts ih =>
    cases ts with
    | nil =>
      refine ⟨[], blanks_nil, fun c hc => (nomatch hc), ?_⟩
      simp [spaced, Token.toList_spelling]
    | cons u us =>
      obtain ⟨margin, blanks, boundary, same⟩ := ih
      refine ⟨margin, blanks, boundary, ?_⟩
      have whole := congrArg (fun text => ' ' :: (t.lexeme.spelling ++ text)) same
      simp only [List.map_cons, String.intercalate_cons_cons, String.toList_append,
        Token.toList_spelling, spaced_cons, List.cons_append, List.append_assoc] at whole ⊢
      exact whole

/-- Names between commas and spaces are a list of parameters. -/
theorem parameterText_intercalate {names : List (List Char)} (named : ∀ w ∈ names, IsName w) :
    ParameterText (String.intercalate ", " (names.map String.ofList)).toList names := by
  induction names with
  | nil => exact .none
  | cons w names ih =>
    have first := named w List.mem_cons_self
    cases names with
    | nil =>
      have end_ : ∀ c ∈ (([] : List Char) ++ []).head?, isWordChar c = false := fun c hc => by
        cases hc
      have alone := ParameterText.name first (.blanks blanks_nil) end_ .none
      simpa using alone
    | cons w' names =>
      have later := ih fun v hv => named v (List.mem_cons_of_mem _ hv)
      have gap : Gap [',', ' '] := .comma blanks_nil blanks_space
      have apart (more : List Char) : ∀ c ∈ ([',', ' '] ++ more).head?, isWordChar c = false := by
        intro c hc
        cases hc
        decide
      have whole := ParameterText.name first gap (apart _) later
      simp only [List.map_cons, String.intercalate_cons_cons, String.toList_append,
        String.toList_ofList, List.append_assoc] at whole ⊢
      exact whole

/-- A display begins with a header that announces what is displayed, and goes on with the body. -/
theorem FunctionLiteral.exists_heading {name : List Char} {names : List (List Char)}
    (named : IsName name) (named' : ∀ w ∈ names, IsName w) (ts : List Token) (e : Token) :
    ∃ text, Heading text name names ∧
      (capture (String.ofList name) (names.map String.ofList) ts e).display.toList =
        text ++ ' ' :: (String.intercalate " " (ts.map Token.spelling)).toList := by
  have listed := parameterText_intercalate named'
  refine ⟨_, .mk blanks_nil named blanks_nil blanks_nil listed blanks_space, ?_⟩
  simp [display, signature, capture]

theorem map_bare_of_map_lexeme {ts us : List Token}
    (h : us.map Token.lexeme = ts.map Token.lexeme) : us.map Token.bare = ts.map Token.bare := by
  have bare (t : Token) : t.bare = (t.lexeme.kind, String.ofList t.lexeme.text) := by
    rw [Token.lexeme, String.ofList_toList, Token.bare]
  have made (vs : List Token) : vs.map Token.bare =
      (vs.map Token.lexeme).map fun l => (l.kind, String.ofList l.text) := by
    rw [List.map_map]
    exact List.map_congr_left fun t _ => bare t
  rw [made us, h, ← made ts]

/-- The display shows neither locations nor what is behind the body. -/
theorem FunctionLiteral.display_congr {f g : FunctionLiteral} (name : g.name = f.name)
    (parameters : g.parameters = f.parameters)
    (body : g.body.map Token.bare = f.body.map Token.bare) : g.display = f.display := by
  have shown (h : FunctionLiteral) : h.body.dropLast.map Token.spelling =
      (h.body.map Token.bare).dropLast.map fun kindText =>
        (⟨kindText.1, kindText.2, ⟨0, 0, ""⟩⟩ : Token).spelling := by
    rw [← List.map_dropLast, List.map_map]
    rfl
  rw [display, signature, name, parameters, shown g, body, ← shown f]
  rfl

/-! ### Reading what is displayed -/

namespace Reading

/-- What has been captured with nothing said about its header: its names are names, and its body is
made of lexemes. -/
theorem exists_capture {f : FunctionLiteral} (empty : r.pending = [])
    (h : Quiet functionLiteral r f q) :
    ∃ (name : List Char) (names : List (List Char)) (ts : List Token) (e : Token),
      f = .capture (String.ofList name) (names.map String.ofList) ts e ∧ IsName name ∧
      (∀ w ∈ names, IsName w) ∧ ∀ t ∈ ts, t.lexeme.WellFormed ∧ t.kind.endsStatement = false := by
  rw [functionLiteral_eq] at h
  obtain ⟨⟨x, xs⟩, m, announced, later⟩ := quiet_bind.1 h
  obtain ⟨text, name, names, rfl, rfl, heading, passes⟩ := quiet_header.1 announced
  have empty' : m.pending = [] := by
    rw [passes.reader]
    exact empty
  obtain ⟨⟨ts, e⟩, m', read, noted⟩ := bind_eq_ok.1 (quiet_budget_bind.1 later).run
  cases noted
  exact ⟨name, names, ts, e, rfl, heading.named.1, heading.named.2,
    (meets_body empty').of_ok read⟩

/-- What is made of names and lexemes is read from its display. -/
theorem exists_reading {f : FunctionLiteral} {name : List Char} {names : List (List Char)}
    {ts : List Token} {e : Token}
    (made : f = .capture (String.ofList name) (names.map String.ofList) ts e)
    (named : IsName name) (named' : ∀ w ∈ names, IsName w)
    (inside : ∀ t ∈ ts, t.lexeme.WellFormed ∧ t.kind.endsStatement = false) (file : String) :
    ∃ us e' z, functionLiteral (Reader.ofSource f.display file .raise) =
        .ok (.capture (String.ofList name) (names.map String.ofList) us e') z ∧
      us.map Token.lexeme = ts.map Token.lexeme := by
  obtain ⟨text, heading, split⟩ := FunctionLiteral.exists_heading named named' ts e
  obtain ⟨margin, blanks, boundary, spaces⟩ := exists_spaced ts
  have formed : ∀ l ∈ ts.map Token.lexeme, l.WellFormed := by
    simpa using fun t ht => (inside t ht).1
  obtain ⟨pieces, lexemes, splits⟩ := exists_splits_spaced formed boundary
  rw [← made, spaces] at split
  have start : (Reader.ofSource f.display file .raise).cursor.rest = f.display.toList := rfl
  obtain ⟨passes, behind⟩ := Reader.passes_of_split (start.trans split)
  generalize (Reader.ofSource f.display file .raise).advance text.length = m at passes behind
  have announced := (quiet_header.2 ⟨text, name, names, rfl, rfl, heading, passes⟩).run
  have empty : m.pending = [] := by
    rw [passes.reader]
    rfl
  have ongoing : ∀ p ∈ pieces, p.lexeme.kind.endsStatement = false := by
    intro p hp
    have among := List.mem_map_of_mem (f := Piece.lexeme) hp
    rw [lexemes] at among
    obtain ⟨t, ht, made⟩ := List.mem_map.1 among
    rw [← made]
    exact (inside t ht).2
  have enough : (spaced (ts.map Token.lexeme) ++ margin).length < m.budget := by
    rw [← behind]
    exact Nat.lt_succ_of_le (Nat.le_add_right _ _)
  obtain ⟨e', z, read⟩ := body_of_splits splits blanks ongoing empty behind enough
  have run := (bind_of_ok (f := literalFrom) announced).trans (literalFrom_of_body read)
  rw [← functionLiteral_eq] at run
  exact ⟨_, e', _, run, (map_lexeme_tokensFrom _ _ _).trans lexemes⟩

/-- **A literal is read back from its display**, whatever its header was written like and whatever
has been collected in its body: the name, the parameters and the body are the same but for the
locations, and so the display is the same again. -/
theorem functionLiteral_display {f : FunctionLiteral} (empty : r.pending = [])
    (run : functionLiteral r = .ok f q)
    (silent : ∀ d ∈ q.journal.collected.drop r.journal.collected.length,
      d.cause.inHeader = false) (file : String) :
    ∃ g z, functionLiteral (Reader.ofSource f.display file .raise) = .ok g z ∧
      g.name = f.name ∧ g.parameters = f.parameters ∧
      g.body.map Token.bare = f.body.map Token.bare ∧ g.display = f.display := by
  have grown := (grows composed_functionLiteral).collected r
  rw [after_of_ok run] at grown
  have later := (List.prefix_iff_eq_append.1 grown).symm
  obtain ⟨name, names, ts, e, rfl, named, named', inside⟩ :=
    exists_capture empty ⟨run, _, later, silent⟩
  obtain ⟨us, e', z, read, same⟩ := exists_reading rfl named named' inside file
  have bodies := map_bare_of_map_lexeme same
  have whole : (FunctionLiteral.capture (String.ofList name) (names.map String.ofList) us
      e').body.map Token.bare = (FunctionLiteral.capture (String.ofList name)
      (names.map String.ofList) ts e).body.map Token.bare := by
    simp only [FunctionLiteral.capture, List.map_append, bodies]
    rfl
  exact ⟨_, z, read, rfl, rfl, whole, FunctionLiteral.display_congr rfl rfl whole⟩

/-- The theorem where commas are missing or left over, the body stands right behind the arrow, and
its last string has no end. -/
theorem functionLiteral_display_open_string :
    let r := Reader.ofSource "f(a b, c,) =>=>=1 \"x;\ny\" 7. function \"open" "in" .collect
    ∃ f q, functionLiteral r = .ok f q ∧
      q.journal.collected.map Diagnostic.cause = [.unterminatedString] ∧
      f.display = "f(a, b, c) => = >= 1 \"x;\ny\" 7. function \"open\"" ∧
      ∃ g z, functionLiteral (Reader.ofSource f.display "out" .raise) = .ok g z ∧
        g.name = f.name ∧ g.parameters = f.parameters ∧
        g.body.map Token.bare = f.body.map Token.bare ∧ g.display = f.display := by
  intro r
  obtain ⟨f, q, run, silent, causes, shown⟩ : ∃ f q, functionLiteral r = .ok f q ∧
      (∀ d ∈ q.journal.collected.drop r.journal.collected.length, d.cause.inHeader = false) ∧
      q.journal.collected.map Diagnostic.cause = [.unterminatedString] ∧
      f.display = "f(a, b, c) => = >= 1 \"x;\ny\" 7. function \"open\"" := by
    decide +kernel
  exact ⟨f, q, run, causes, shown, functionLiteral_display rfl run silent "out"⟩

end Reading

end Reckoner
