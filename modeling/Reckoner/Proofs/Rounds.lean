import Reckoner.Proofs.Capture
import Reckoner.Proofs.Consumption
import Reckoner.Proofs.Lookahead
import Reckoner.Proofs.Missing

/-!
# The statements round by round

A run over all statements goes through its source in rounds, from the place in front of what is
pending. A round passes the end of a line, reads a function literal, or uses up the tokens of one
statement, up to the token that ends it, and adds one value.

* `Rounds` — the rounds through a source, with the values and what is scanned and read;
* `Turns`, `turns_of_statements` — the turns of a run, with what they get;
* `rounds_of_turns`, `rounds_of_evaluateAll` — the rounds of a run over all statements;
* `captures_of_turns` — the literals that a run captures are those that it reads.
-/

namespace Reckoner

/-- The rounds through a source from here: the values that they add, and what they scan and read. -/
inductive Rounds (policy : Policy) : Reader → List Value → List Reader.Entry → Prop
  | finish {r q : Reader} {t : Token} : r.Scans [t] q → t.kind = .endOfInput →
      Rounds policy r [] [.token t]
  | line {r q : Reader} {t : Token} {values : List Value} {log : List Reader.Entry} :
      r.Scans [t] q → t.kind = .endOfLine → Rounds policy q values log →
      Rounds policy r values (.token t :: log)
  | literal {r q z : Reader} {t : Token} {f : FunctionLiteral} {values : List Value}
      {log : List Reader.Entry} :
      r.Scans [t] q → t.kind = .functionDeclaration → q.pending = [] →
      Reading.functionLiteral q = .ok f z → Rounds policy z values log →
      Rounds policy r values (.token t :: .literal f :: log)
  | value {r q z : Reader} {used : List Token} {e : Token} {x : Value} {values : List Value}
      {log : List Reader.Entry} :
      r.Scans used q → used ≠ [] → (∀ t ∈ used, Spendable policy t) →
      q.Scans [e] z → e.kind.endsStatement = true → Rounds policy q values log →
      Rounds policy r (x :: values) (used.map .token ++ log)

namespace Evaluating

/-- The turns of a run over the statements, with their values and what they get. -/
inductive Turns : Session → List Value → List Reader.Entry → Session → Prop
  | finish {s u : Session} {t : Token} : next s = .ok t u → t.kind = .endOfInput →
      Turns s [] (entries next s) u
  | turn {s v u z : Session} {t : Token} {front values : List Value} {log : List Reader.Entry} :
      next s = .ok t v → t.kind ≠ .endOfInput → turn t v = .ok front u → Turns u values log z →
      Turns s (front ++ values) (entries next s ++ (entries (turn t) v ++ log)) z

variable {source : List Char} {p : Policy} {s u v z : Session} {t : Token} {n : Nat}
  {front values : List Value} {log : List Reader.Entry} {r : Reader}

theorem turns_of_statements (ran : statements n s = .ok values z) :
    Turns s values (entries (statements n) s) z := by
  induction n generalizing s values with
  | zero => exact absurd ran throw_ne_ok
  | succ n ih =>
    rw [statements_of_turn] at ran
    obtain ⟨t, v, taken, later⟩ := bind_eq_ok.1 ran
    have log : entries (statements (n + 1)) s = entries next s ++ entries (statementsFrom n t) v :=
      entries_bind_of_ok taken
    rw [log]
    by_cases last : t.kind = .endOfInput
    · rw [if_pos last] at later
      cases later
      rw [entries_statementsFrom_of_last last, List.append_nil]
      exact .finish taken last
    · rw [if_neg last] at later
      obtain ⟨front, u, turned, later⟩ := bind_eq_ok.1 later
      obtain ⟨values, z, rest, returned⟩ := bind_eq_ok.1 later
      cases returned
      rw [(turned_of_turn turned).entries_statementsFrom last]
      exact .turn taken last turned (ih rest)

/-- From the place in front of what is pending, the next token is scanned. -/
theorem scans_next (ahead : s.reader.Ahead source) (taken : next s = .ok t v)
    (before : r.Scans s.reader.pending s.reader) :
    r.Scans [t] v.reader ∧ v.reader.Ahead source ∧ v.reader.pending = [] ∧
      s.reader.pending.map .token ++ entries next s = [Reader.Entry.token t] := by
  obtain ⟨q, pulled, rfl⟩ := reading_eq_ok taken
  obtain ⟨inside, none', -⟩ := ahead.next pulled
  have ahead' : q.Ahead source := ⟨inside, Or.inl none'⟩
  rcases Reader.scans_of_next pulled with ⟨waiting, same⟩ | ⟨none, -, scanned⟩
  · rw [none'] at waiting
    rw [entries_next_of_pending waiting]
    rw [waiting] at before ⊢
    exact ⟨before.congr_end same, ahead', none', rfl⟩
  · rw [entries_next_of_scan none taken]
    rw [none] at before ⊢
    exact ⟨before.append scanned, ahead', none', rfl⟩

theorem spends_statement {x : Value} {w : Session} (policy : s.reader.journal.policy = p)
    (found : evaluate s = .ok x w) (ended : endStatement w = .ok () u) :
    Spends p s.reader (entries evaluate s ++ entries endStatement w) u.reader ∧
      u.functions = s.functions := by
  have first : Spends p s.reader (entries evaluate s) w.reader ∧ w.functions = s.functions :=
    frugal_evaluate s x w policy found
  obtain ⟨spent, same⟩ := first
  obtain ⟨spent', same'⟩ :=
    frugal_endStatement w () u (spent.policy_eq.symm.trans policy) ended
  exact ⟨spent.trans spent', same'.trans same⟩

/-- Nothing but its end is pending behind a statement. -/
theorem pending_of_ended (ended : endStatement s = .ok () u) (ahead : u.reader.Ahead source) :
    ∃ e, u.reader.pending = [e] ∧ e.kind.endsStatement = true := by
  obtain ⟨e, head, ends⟩ := pending_of_endStatement ended
  rcases ahead.pending with empty | ⟨e', one, -⟩
  · rw [empty] at head
    cases head
  · rw [one] at head
    cases head
    exact ⟨e, one, ends⟩

/-- A statement uses the tokens from its first one up to the end, which is left pending. -/
theorem scans_statement {x : Value} {w : Session} (policy : v.reader.journal.policy = p)
    (none : v.reader.pending = []) (inside : t.kind.endsStatement = false)
    (found : evaluate (v.push t) = .ok x w) (ended : endStatement w = .ok () u)
    (ahead : u.reader.Ahead source) (scanned : r.Scans [t] v.reader) :
    ∃ used e m, used ≠ [] ∧ r.Scans used m ∧ (∀ t ∈ used, Spendable p t) ∧
      m.Scans [e] u.reader ∧ e.kind.endsStatement = true ∧ u.reader.pending = [e] ∧
      [Reader.Entry.token t] ++ (entries evaluate (v.push t) ++ entries endStatement w) =
        used.map .token ++ [.token e] := by
  obtain ⟨e, waiting, ends⟩ := pending_of_ended ended ahead
  obtain ⟨@⟨ts, used, made, scanned', -, kept, spendable⟩, -⟩ :=
    spends_statement (s := v.push t) policy found ended
  have split : [t] ++ ts = used ++ [e] := by
    rw [← waiting, ← kept]
    show [t] ++ ts = t :: v.reader.pending ++ ts
    rw [none]
  have back : (v.push t).reader.SamePlace v.reader := ⟨rfl, rfl, rfl⟩
  have behind := scanned'.congr back
  obtain ⟨m, front, last⟩ := (split ▸ scanned.append behind : r.Scans (used ++ [e]) _).exists_init
  refine ⟨used, e, m, ?_, front, spendable, last, ends, waiting, ?_⟩
  · rintro rfl
    cases split
    rw [inside] at ends
    cases ends
  · rw [made]
    have same := congrArg (List.map Reader.Entry.token) split
    rw [List.map_append, List.map_append] at same
    exact same

/-- **A run goes round by round**, from the place in front of what is pending. -/
theorem rounds_of_turns (run : Turns s values log z) (inside : (ahead source).Inside s)
    (policy : s.reader.journal.policy = p) (before : r.Scans s.reader.pending s.reader) :
    Rounds p r values (s.reader.pending.map .token ++ log) := by
  -- a statement leaves its end pending, and the next round begins in front of that
  induction run generalizing r with
  | finish taken last =>
    obtain ⟨scanned, -, -, log⟩ := scans_next inside.reader taken before
    rw [log]
    exact .finish scanned last
  | @turn s v u z t front values later taken ongoing ran _ ih =>
    have inside' := Ahead.heads inside (.turn .start taken ongoing ran)
    obtain ⟨scanned, ahead, none, log⟩ := scans_next inside.reader taken before
    have policy' : v.reader.journal.policy = p :=
      (spends_next (p := p) taken).policy_eq.symm.trans policy
    have kept : u.reader.journal.policy = v.reader.journal.policy :=
      (grows (composed_turn t)).policy_of_ok ran
    have rest {r : Reader} := ih (r := r) inside' (kept.trans policy')
    have turned := turned_of_turn ran
    rw [← List.append_assoc, log]
    revert turned
    generalize entries (turn t) v = got
    intro turned
    cases turned with
    | line line =>
      rw [none] at rest
      exact .line scanned line (rest (.done (.refl _)))
    | @literal f u declares read =>
      obtain ⟨q, parsed, rfl⟩ := reading_eq_ok read
      have none' : q.pending = [] := (Reading.drained_functionLiteral none).of_ok parsed
      rw [show ({ v with reader := q } : Session).reader.pending = [] from none'] at rest
      exact .literal scanned declares none parsed (rest (.done (.refl q)))
    | value line plain found ended =>
      obtain ⟨used, e, m, some, front, spendable, last, ends, waiting, whole⟩ :=
        scans_statement policy' none (TokenKind.inside_iff.2 ⟨ongoing, line⟩) found ended
          inside'.reader scanned
      rw [waiting] at rest
      rw [← List.append_assoc, whole, List.append_assoc]
      exact .value front some spendable last ends (rest last)

/-- The literals that are among the entries have been captured and are kept under their names. -/
structure Captures (s : Session) (log : List Reader.Entry) (u : Session) : Prop where
  captured : u.reader.journal.captured =
    s.reader.journal.captured ++ log.filterMap Reader.Entry.literal?
  functions : u.functions =
    s.functions.bindAll ((log.filterMap Reader.Entry.literal?).map fun f => (f.name, f))

theorem Captures.trans {later : List Reader.Entry} (h : Captures s log u)
    (h' : Captures u later z) : Captures s (log ++ later) z where
  captured := by
    rw [h'.captured, h.captured, List.filterMap_append, List.append_assoc]
  functions := by
    rw [h'.functions, h.functions, List.filterMap_append, List.map_append]
    exact List.foldl_append.symm

theorem captures_of_spends {q : Reader} (h : Spends p r log q)
    (before : r.journal = s.reader.journal) (behind : q.journal = u.reader.journal)
    (same : u.functions = s.functions) : Captures s log u where
  captured := by
    rw [← before, ← behind]
    exact h.captured_eq
  functions := by
    obtain ⟨made, -, -, -, -⟩ := h
    rw [made, Reader.Entry.filterMap_literal?, same]
    rfl

/-- What is captured in a turn is what it reads. -/
theorem captures_of_turned (raising : v.reader.journal.policy = .raise)
    (turned : Turned t v front log u) : Captures v log u := by
  cases turned with
  | line line => exact ⟨(List.append_nil _).symm, rfl⟩
  | literal declares read =>
    obtain ⟨q, parsed, rfl⟩ := reading_eq_ok read
    exact ⟨Reading.captured_of_functionLiteral parsed, rfl⟩
  | value line plain found ended =>
    obtain ⟨spent, same⟩ := spends_statement (s := v.push t) raising found ended
    exact captures_of_spends spent rfl rfl same

theorem captures_of_next (taken : next s = .ok t v) : Captures s (entries next s) v :=
  captures_of_spends (spends_next (p := .raise) taken) rfl rfl (functions_of_reading taken)

/-- **What a run captures** are the literals that it reads. -/
theorem captures_of_turns (run : Turns s values log z) (raising : s.reader.journal.policy = .raise) :
    Captures s log z := by
  induction run with
  | finish taken last => exact captures_of_next taken
  | @turn s v u z t front values log taken ongoing ran _ ih =>
    have raising' : v.reader.journal.policy = .raise :=
      (spends_next (p := .raise) taken).policy_eq.symm.trans raising
    have kept : u.reader.journal.policy = v.reader.journal.policy :=
      (grows (composed_turn t)).policy_of_ok ran
    have turned := captures_of_turned raising' (turned_of_turn ran)
    exact (captures_of_next taken).trans (turned.trans (ih (kept.trans raising')))

/-! ### Runs over all statements -/

theorem turns_of_evaluateAll (ran : evaluateAll s = .ok values z) :
    Turns s values (entries evaluateAll s) z := by
  have allowed : budget s = .ok s.reader.budget s := rfl
  have log : entries evaluateAll s = entries (statements s.reader.budget) s :=
    entries_bind_of_ok allowed
  rw [log]
  exact turns_of_statements ran

/-- A run over all statements goes through its source round by round. -/
theorem rounds_of_evaluateAll (source file : String) (policy : Policy) (clearOnGroup : Bool)
    (bindings : Table Value)
    (ran : evaluateAll (Session.ofSource source file policy clearOnGroup bindings) = .ok values z) :
    Rounds policy (Reader.ofSource source file policy) values
      (entries evaluateAll (Session.ofSource source file policy clearOnGroup bindings)) := by
  have fresh : (ahead source.toList).Inside
      (Session.ofSource source file policy clearOnGroup bindings) :=
    ⟨Reader.ahead_ofSource source file policy, fun _ _ => trivial⟩
  exact rounds_of_turns (turns_of_evaluateAll ran) fresh rfl (.done (.refl _))

end Evaluating

end Reckoner
