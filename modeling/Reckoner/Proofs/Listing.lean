import Reckoner.Command.Run
import Reckoner.Proofs.Fuel
import Reckoner.Proofs.Rounds

/-!
# Listing what a run goes through

A listing goes from token to token and reads a literal behind every word `function`, whereas a run
over all statements reads one only where a statement begins. Where the first diagnostic ends a run,
one that returns has found no such word anywhere else, so that both get the same from the source.

* `Reader.Lists` — what is listed from a place;
* `lists_of_rounds` — what rounds scan and read is listed;
* `complete_of_listed` — a listing that comes to its end has just one end of the input;
* `Command.tokenize_of_evaluateAll` — the listing of a source whose run returns.
-/

namespace Reckoner

namespace Reading

variable {r q z : Reader} {f : FunctionLiteral}

/-- Where nothing is pending, a literal depends on nothing but the place. -/
theorem functionLiteral_of_samePlace (raising : r.journal.policy = .raise) (same : r.SamePlace q)
    (none : r.pending = []) (none' : q.pending = []) (run : functionLiteral r = .ok f z) :
    ∃ z', functionLiteral q = .ok f z' ∧ z.SamePlace z' ∧ z'.pending = [] := by
  obtain ⟨⟨x, xs⟩, m, announced, -⟩ := bind_eq_ok.1 (functionLiteral_eq ▸ run)
  obtain ⟨text, name, names, -, -, heading, passes⟩ :=
    quiet_header.1 (quiet_of_raise raising announced)
  have split := passes.split
  rw [functionLiteral_of_heading heading split] at run
  rw [functionLiteral_of_heading heading (same.cursor ▸ split)]
  have behind : (r.advance text.length).SamePlace (q.advance text.length) :=
    ⟨congrArg (·.advance text.length) same.cursor, same.file, same.policy⟩
  obtain ⟨ts, e, scanned, inside, last, made⟩ :=
    (literalFrom_iff (r := r.advance text.length) none).1 ⟨z, run, .refl z⟩
  obtain ⟨z', run', same'⟩ := (literalFrom_iff (r := q.advance text.length) none').2
    ⟨ts, e, scanned.congr behind, inside, last, made⟩
  exact ⟨z', run', same', (drained_literalFrom (r := q.advance text.length) none').of_ok run'⟩

end Reading

namespace Reader

variable {r q z : Reader} {t : Token} {ts : List Token} {log : List Entry}

/-- What is listed from this place, wherever nothing is pending and there is enough fuel. -/
def Lists (r : Reader) (log : List Entry) : Prop :=
  ∀ q : Reader, r.SamePlace q → q.pending = [] → ∀ n, q.weight < n →
    (pullEntries n q).fault = none ∧ (pullEntries n q).items = log

theorem Lists.congr (same : r.SamePlace q) (h : q.Lists log) : r.Lists log :=
  fun m same' => h m (same.symm.trans same')

/-- What is scanned from a place is pulled there, if nothing is pending. -/
theorem Scans.next (h : r.Scans [t] q) (same : r.SamePlace z) (none : z.pending = []) :
    ∃ z', Reading.next z = .ok t z' ∧ q.SamePlace z' ∧ z'.pending = [] := by
  cases h with
  | scan first done =>
    cases done with
    | done there =>
      obtain ⟨z', scanned, same', none'⟩ := same.scan first
      exact ⟨z', (Reading.next_of_pending_nil none).trans scanned, there.symm.trans same',
        none'.trans none⟩

/-! ### One entry after the other -/

section Steps

variable (n : Nat) {f : FunctionLiteral}

theorem pullEntries_of_last (taken : Reading.next r = .ok t q) (last : t.kind = .endOfInput) :
    pullEntries (n + 1) r = ⟨[.token t], Option.none, q⟩ := by
  rw [pullEntries]
  simp only [taken, last, if_true]

theorem pullEntries_of_literal (taken : Reading.next r = .ok t q)
    (declares : t.kind = .functionDeclaration) (read : Reading.functionLiteral q = .ok f z) :
    pullEntries (n + 1) r = ((pullEntries n z).cons (.literal f)).cons (.token t) := by
  have ongoing : TokenKind.functionDeclaration ≠ .endOfInput := by decide
  rw [pullEntries]
  simp only [taken, declares, ongoing, read, if_true, if_false]

theorem pullEntries_of_token (taken : Reading.next r = .ok t q) (ongoing : t.kind ≠ .endOfInput)
    (plain : t.kind ≠ .functionDeclaration) :
    pullEntries (n + 1) r = (pullEntries n q).cons (.token t) := by
  rw [pullEntries]
  simp only [taken, ongoing, plain, if_false]

end Steps

theorem lists_last (scanned : r.Scans [t] q) (last : t.kind = .endOfInput) :
    r.Lists [.token t] := by
  intro m same none n enough
  obtain ⟨n, rfl⟩ : ∃ k, n = k + 1 := ⟨n - 1, by omega⟩
  obtain ⟨m', taken, -, -⟩ := scanned.next same none
  rw [pullEntries_of_last n taken last]
  exact ⟨rfl, rfl⟩

theorem lists_token (scanned : r.Scans [t] q) (ongoing : t.kind ≠ .endOfInput)
    (plain : t.kind ≠ .functionDeclaration) (later : q.Lists log) :
    r.Lists (.token t :: log) := by
  intro m same none n enough
  obtain ⟨n, rfl⟩ : ∃ k, n = k + 1 := ⟨n - 1, by omega⟩
  obtain ⟨m', taken, same', none'⟩ := scanned.next same none
  have lighter := weight_lt_of_next taken ongoing
  obtain ⟨fault, items⟩ := later m' same' none' n (by omega)
  rw [pullEntries_of_token n taken ongoing plain]
  exact ⟨fault, congrArg (Entry.token t :: ·) items⟩

theorem lists_literal {f : FunctionLiteral} (raising : q.journal.policy = .raise)
    (scanned : r.Scans [t] q) (declares : t.kind = .functionDeclaration) (none : q.pending = [])
    (read : Reading.functionLiteral q = .ok f z) (later : z.Lists log) :
    r.Lists (.token t :: .literal f :: log) := by
  intro m same none' n enough
  obtain ⟨n, rfl⟩ : ∃ k, n = k + 1 := ⟨n - 1, by omega⟩
  obtain ⟨m', taken, same', empty⟩ := scanned.next same none'
  obtain ⟨z', read', there, none''⟩ :=
    Reading.functionLiteral_of_samePlace raising same' none empty read
  have lighter := weight_lt_of_next taken (by rw [declares]; decide)
  have shorter := (Running.of_ok (Guard.ends_functionLiteral (Running.between m')) read').2.2
  obtain ⟨fault, items⟩ := later z' there none'' n (by omega)
  rw [pullEntries_of_literal n taken declares read']
  exact ⟨fault, congrArg (Entry.token t :: Entry.literal f :: ·) items⟩

theorem lists_append (scanned : r.Scans ts q)
    (plain : ∀ t ∈ ts, t.kind ≠ .endOfInput ∧ t.kind ≠ .functionDeclaration)
    (later : q.Lists log) : r.Lists (ts.map .token ++ log) := by
  induction scanned with
  | done same => exact later.congr same
  | scan first _ ih =>
    obtain ⟨ongoing, other⟩ := plain _ List.mem_cons_self
    exact lists_token (.single first) ongoing other
      (ih (fun u hu => plain u (List.mem_cons_of_mem _ hu)) later)

/-- A listing that comes to its end has just one end of the input, its last token. -/
theorem complete_of_listed {n : Nat} (h : (pullEntries n r).fault = none) :
    Complete ((pullEntries n r).items.filterMap Entry.token?) := by
  induction n generalizing r with
  | zero => cases h
  | succ n ih =>
    cases taken : Reading.next r with
    | error fault q =>
      rw [pullEntries, taken] at h
      cases h
    | ok t q =>
      by_cases last : t.kind = .endOfInput
      · rw [pullEntries_of_last n taken last]
        exact ⟨[], t, rfl, fun u hu => absurd hu List.not_mem_nil, last⟩
      by_cases declares : t.kind = .functionDeclaration
      · cases read : Reading.functionLiteral q with
        | error fault z =>
          rw [pullEntries, taken] at h
          simp only [declares, read, if_true] at h
          cases h
        | ok f z =>
          rw [pullEntries_of_literal n taken declares read] at h ⊢
          exact .cons last (ih h)
      · rw [pullEntries_of_token n taken last declares] at h ⊢
        exact .cons last (ih h)

end Reader

/-- **Both get the same.** What is scanned and read in rounds is listed. -/
theorem lists_of_rounds {r : Reader} {values : List Value} {log : List Reader.Entry}
    (rounds : Rounds .raise r values log) (raising : r.journal.policy = .raise) : r.Lists log := by
  induction rounds with
  | finish scanned last => exact Reader.lists_last scanned last
  | line scanned line _ ih =>
    have later := ih (scanned.policy.symm.trans raising)
    exact Reader.lists_token scanned (by rw [line]; decide) (by rw [line]; decide) later
  | @literal r q z t f values log scanned declares none read _ ih =>
    have raising' := scanned.policy.symm.trans raising
    have kept : z.journal.policy = q.journal.policy :=
      (Reading.grows Reading.composed_functionLiteral).policy_of_ok read
    exact Reader.lists_literal raising' scanned declares none read (ih (kept.trans raising'))
  | value scanned some spendable _ _ _ ih =>
    refine Reader.lists_append scanned (fun t ht => ?_) (ih (scanned.policy.symm.trans raising))
    have used := spendable t ht
    exact ⟨(TokenKind.inside_iff.1 used.inside).1, used.plain rfl⟩

namespace Command

open Evaluating

/-- **Listing and evaluating agree.** Where a run that stops at the first diagnostic returns, the
source can be listed, and the listing has the tokens that were scanned in the run outside of
literals and the literals that it read, each once and in order. The literals are those that the run
has captured and has kept under their names, and the last token is the only end of the input. -/
theorem tokenize_of_evaluateAll {source file : String} {clearOnGroup : Bool}
    {bindings : Table Value} {values : List Value} {t : Session}
    (ran : evaluateAll (Session.ofSource source file .raise clearOnGroup bindings) = .ok values t) :
    let log := entries evaluateAll (Session.ofSource source file .raise clearOnGroup bindings)
    let listing := (Reader.ofSource source file .raise).listing
    tokenize source file = .exit 0 (log.map entryLine) ∧
    listing.fault = none ∧ listing.items = log ∧
    listing.items.filterMap Reader.Entry.literal? = t.reader.journal.captured ∧
    t.functions = Table.bindAll [] (t.reader.journal.captured.map fun f => (f.name, f)) ∧
    ∃ inside last, listing.items.filterMap Reader.Entry.token? = inside ++ [last] ∧
      (∀ t ∈ inside, t.kind ≠ .endOfInput) ∧ last.kind = .endOfInput := by
  intro log listing
  have rounds := rounds_of_evaluateAll source file .raise clearOnGroup bindings ran
  have listed : listing.fault = none ∧ listing.items = log :=
    lists_of_rounds rounds rfl (Reader.ofSource source file .raise) (.refl _) rfl _
      (Reader.weight_lt_budget _)
  obtain ⟨fault, items⟩ := listed
  obtain ⟨captured, functions⟩ := captures_of_turns (turns_of_evaluateAll ran) rfl
  have same : listing.items.filterMap Reader.Entry.literal? = t.reader.journal.captured := by
    rw [items, captured]
    rfl
  refine ⟨?_, fault, items, same, ?_, Reader.complete_of_listed fault⟩
  · unfold tokenize
    simp only [show (Reader.ofSource source file .raise).listing.fault = none from fault,
      show (Reader.ofSource source file .raise).listing.items = log from items]
  · rw [functions, ← same, items]
    rfl

/-- The theorem where two literals stand between statements, and where a group clears the
variables. -/
theorem tokenize_of_evaluateAll_two_literals :
    let source := "function f(a b) => 1 + a;; (x); function f() => \"y\""
    let start := Session.ofSource source "in" .raise true [("x", .text "z")]
    ∃ values t, evaluateAll start = .ok values t ∧ t.reader.journal.captured.length = 2 ∧
      tokenize source "in" = .exit 0 ((entries evaluateAll start).map entryLine) ∧
      (Reader.ofSource source "in" .raise).listing.items.filterMap Reader.Entry.literal? =
        t.reader.journal.captured := by
  intro source start
  obtain ⟨values, t, ran, two⟩ : ∃ values t, evaluateAll start = .ok values t ∧
      t.reader.journal.captured.length = 2 := by
    decide +kernel
  obtain ⟨whole, -, -, literals, -, -⟩ := tokenize_of_evaluateAll ran
  exact ⟨values, t, ran, two, whole, literals⟩

end Command

end Reckoner
