import Reckoner.Proofs.Rounds

/-!
# A value for each statement

The statements of a source are what stands between the ends of its lines. Where everything that can
be is collected, a run adds a value for each of them, whatever tokens it is made of: no rule of the
grammar uses the end of a statement, and each statement uses up its first token.

* `segments` — the statements of a list of tokens;
* `length_of_rounds` — the rounds through a source without literals add a value for each of them;
* `length_of_evaluateAll` — the statement for runs, together with what the rules use.
-/

namespace Reckoner

/-- The statements of a list of tokens: what stands between the ends of lines, if anything does. -/
def segments (ts : List Token) : List (List Token) :=
  ((ts.filter (·.kind != .endOfInput)).splitOnP (·.kind == .endOfLine)).filter (· != [])

section Segments

variable {t e : Token} {ts used : List Token}

/-- The end of a line divides the statements in front of it from those behind it. -/
theorem segments_divide (front : List Token) (line : t.kind = .endOfLine) :
    segments (front ++ t :: ts) = segments front ++ segments ts := by
  have kept : (t :: ts).filter (·.kind != .endOfInput) = t :: ts.filter (·.kind != .endOfInput) :=
    List.filter_cons_of_pos (by rw [line]; decide)
  have divided := List.splitOnP_append_cons (p := fun u : Token => u.kind == .endOfLine)
    (front.filter (·.kind != .endOfInput)) (ts.filter (·.kind != .endOfInput)) (beq_iff_eq.2 line)
  unfold segments
  rw [List.filter_append, kept, divided, List.filter_append]

theorem segments_line (line : t.kind = .endOfLine) : segments (t :: ts) = segments ts :=
  segments_divide [] line

/-- The end of the input belongs to no statement. -/
theorem segments_concat_last (front : List Token) (last : t.kind = .endOfInput) :
    segments (front ++ [t]) = segments front := by
  have none : [t].filter (·.kind != .endOfInput) = [] :=
    List.filter_cons_of_neg (by rw [last]; decide)
  unfold segments
  rw [List.filter_append, none, List.append_nil]

theorem segments_of_inside (some : used ≠ [])
    (inside : ∀ t ∈ used, t.kind.endsStatement = false) : segments used = [used] := by
  have kinds (t : Token) (ht : t ∈ used) := TokenKind.inside_iff.1 (inside t ht)
  have all : used.filter (·.kind != .endOfInput) = used :=
    List.filter_eq_self.2 fun t ht => bne_iff_ne.2 (kinds t ht).1
  unfold segments
  rw [all, List.splitOnP_eq_singleton fun t ht => beq_eq_false_iff_ne.2 (kinds t ht).2]
  exact List.filter_cons_of_pos (bne_iff_ne.2 some)

/-- A statement is what stands in front of the first end. -/
theorem segments_append (some : used ≠ []) (inside : ∀ t ∈ used, t.kind.endsStatement = false)
    (ends : e.kind.endsStatement = true) (complete : Complete (e :: ts)) :
    segments (used ++ e :: ts) = used :: segments (e :: ts) := by
  have first := segments_of_inside some inside
  by_cases line : e.kind = .endOfLine
  · rw [segments_divide used line, segments_line line, first]
    rfl
  · have last : e.kind = .endOfInput := by
      by_contra other
      exact absurd ends (Bool.eq_false_iff.1 (TokenKind.inside_iff.2 ⟨other, line⟩))
    obtain ⟨-, rfl⟩ := complete.of_cons.resolve_right fun other => other.1 last
    rw [segments_concat_last used last, first, ← List.nil_append [e], segments_concat_last [] last]
    rfl

end Segments

/-- The rounds through a source without literals add a value for each statement. -/
theorem length_of_rounds {p : Policy} {r q : Reader} {values : List Value}
    {log : List Reader.Entry} {ts : List Token} (rounds : Rounds p r values log)
    (whole : r.Scans ts q) (complete : Complete ts) (plain : ∀ t ∈ ts, t.kind ≠ .functionDeclaration) :
    values.length = (segments ts).length := by
  induction rounds generalizing ts with
  | finish scanned last =>
    rw [whole.eq_of_complete scanned complete
      ⟨[], _, rfl, fun u hu => absurd hu List.not_mem_nil, last⟩, ← List.nil_append [_],
      segments_concat_last [] last]
    rfl
  | line scanned line _ ih =>
    obtain ⟨rest, rfl, behind, complete⟩ := scanned.exists_rest (by simp [line]) whole complete
    rw [List.singleton_append, segments_line line]
    exact ih behind complete fun t ht => plain t (List.mem_append_right _ ht)
  | literal scanned declares _ _ _ _ =>
    obtain ⟨rest, rfl⟩ := scanned.exists_cons whole complete
    exact absurd declares (plain _ List.mem_cons_self)
  | value scanned some spendable last ends _ ih =>
    have inside := fun t ht => (spendable t ht).inside
    obtain ⟨rest, rfl, behind, complete⟩ :=
      scanned.exists_rest (fun t ht => (TokenKind.inside_iff.1 (inside t ht)).1) whole complete
    obtain ⟨rest, rfl⟩ := last.exists_cons behind complete
    rw [segments_append some inside ends complete, List.length_cons, List.length_cons]
    exact congrArg (· + 1) (ih behind complete fun t ht => plain t (List.mem_append_right _ ht))

namespace Evaluating

/-- **A value for each statement.** Where everything that can be is collected and the source has no
literals, a run that returns yields as many values as there are statements. For this no rule uses
the end of a statement: what was pending, with what is scanned behind it, is what the rule has used
with what is then pending behind it, and all that it has used stands inside of a statement. -/
theorem length_of_evaluateAll {source file : String} {clearOnGroup : Bool}
    {bindings : Table Value} {ts : List Token} {q : Reader} {values : List Value} {t : Session}
    (whole : Reading.tokens (Reader.ofSource source file .collect) = .ok ts q)
    (plain : ∀ u ∈ ts, u.kind ≠ .functionDeclaration)
    (ran : evaluateAll (Session.ofSource source file .collect clearOnGroup bindings) =
      .ok values t) :
    values.length = (segments ts).length ∧
    (∀ n, Frugal .collect [] (expression n)) ∧
    (∀ n m level, Frugal .collect [] (rule m (expression n) level)) ∧
    (∀ n, Frugal .collect [] (group (expression n))) ∧
    (∀ n m minus, Frugal .collect [minus] (negation m (expression n) minus)) ∧
    Frugal .collect [] endStatement := by
  have rounds := rounds_of_evaluateAll source file .collect clearOnGroup bindings ran
  obtain ⟨complete, z, delivered⟩ := tokens_eq_ok_iff.1 ⟨q, whole⟩
  refine ⟨length_of_rounds rounds (delivered.scans rfl) complete plain, frugal_expression,
    fun n m level => frugal_rule (frugal_expression n) m level,
    fun n => frugal_group (frugal_expression n),
    fun n m minus => frugal_negation (frugal_expression n) m minus, frugal_endStatement⟩

/-- The theorem for a stray operator, a stray parenthesis with more behind it, an empty statement
and an open group. -/
theorem length_of_evaluateAll_stray_tokens :
    let source := "+; ) \"a\" * ;; (x"
    ∃ ts q values t, Reading.tokens (Reader.ofSource source "in" .collect) = .ok ts q ∧
      (∀ u ∈ ts, u.kind ≠ .functionDeclaration) ∧
      evaluateAll (Session.ofSource source "in" .collect true [("x", .text "z")]) =
        .ok values t ∧
      values.length = (segments ts).length ∧ values.length = 3 := by
  intro source
  obtain ⟨ts, q, whole, plain⟩ : ∃ ts q,
      Reading.tokens (Reader.ofSource source "in" .collect) = .ok ts q ∧
        ∀ u ∈ ts, u.kind ≠ .functionDeclaration := by
    decide +kernel
  obtain ⟨values, t, ran, three⟩ : ∃ values t,
      evaluateAll (Session.ofSource source "in" .collect true [("x", .text "z")]) =
        .ok values t ∧ values.length = 3 := by
    decide +kernel
  exact ⟨ts, q, values, t, whole, plain, ran, (length_of_evaluateAll whole plain ran).1, three⟩

end Evaluating

end Reckoner
