import Mathlib.Data.List.Induction
import Reckoner.Proofs.Rounds

/-!
# The table of functions

Whatever the evaluator is asked for, and however that ends, its table of functions is the one that
the literals make that have been captured, each bound to its name in the order of their capture.
All of them are well formed. Along with this it is shown that a run which a stray character ends
leaves the reader in front of that character.

* `FunctionLiteral.table` — the table made of literals, `names_table` and `get?_table` say which;
* `Session.Kept`, `upkeep` — what holds throughout, and the pairing it makes;
* `Evaluating.meetsKept_serve` — every request, with either outcome;
* `functions_of_served` — the statement for all requests.
-/

namespace Reckoner

/-- The table that keeps these literals, each under its name, in this order. -/
def FunctionLiteral.table (fs : List FunctionLiteral) : Table FunctionLiteral :=
  Table.bindAll [] (fs.map fun f => (f.name, f))

namespace FunctionLiteral

theorem table_append (fs gs : List FunctionLiteral) :
    table (fs ++ gs) = (table fs).bindAll (gs.map fun f => (f.name, f)) := by
  unfold table Table.bindAll
  rw [List.map_append, List.foldl_append]

theorem table_concat (fs : List FunctionLiteral) (f : FunctionLiteral) :
    table (fs ++ [f]) = (table fs).bind f.name f := table_append fs [f]

/-- The names stand in the order in which they were first bound. -/
theorem names_table (fs : List FunctionLiteral) :
    (table fs).names = (fs.map FunctionLiteral.name).eraseDups := by
  induction fs using List.reverseRecOn with
  | nil => rfl
  | append_singleton fs f ih =>
    rw [table_concat, Table.names_bind, ih, List.map_append, List.eraseDups_append]
    by_cases known : f.name ∈ fs.map FunctionLiteral.name
    · have none : [f.name].removeAll (fs.map FunctionLiteral.name) = [] := by
        simp [List.removeAll, known, -List.mem_map]
      rw [if_pos (List.mem_eraseDups.2 known), List.map_singleton, none]
      exact (List.append_nil _).symm
    · have some : [f.name].removeAll (fs.map FunctionLiteral.name) = [f.name] := by
        simp [List.removeAll, known, -List.mem_map]
      rw [if_neg fun h => known (List.mem_eraseDups.1 h), List.map_singleton, some]
      rfl

/-- The last literal of a name counts. -/
theorem get?_table (fs : List FunctionLiteral) (name : String) :
    (table fs).get? name = fs.reverse.find? fun f => f.name == name := by
  induction fs using List.reverseRecOn with
  | nil => rfl
  | append_singleton fs f ih =>
    rw [table_concat, List.reverse_concat, List.find?_cons]
    by_cases same : f.name = name
    · rw [← same, Table.get?_bind_self, beq_self_eq_true]
    · rw [Table.get?_bind_of_ne _ _ (Ne.symm same), ih, beq_false_of_ne same]

/-- Every entry of the table is one of the literals, under its own name. -/
theorem mem_of_mem_table {fs : List FunctionLiteral} {entry : String × FunctionLiteral}
    (h : entry ∈ table fs) : entry.2 ∈ fs ∧ entry.1 = entry.2.name := by
  induction fs using List.reverseRecOn with
  | nil => exact absurd h List.not_mem_nil
  | append_singleton fs f ih =>
    rw [table_concat] at h
    rcases Table.mem_bind h with rfl | old
    · exact ⟨List.mem_append_right fs (List.mem_singleton_self f), rfl⟩
    · exact ⟨List.mem_append_left [f] (ih old).1, (ih old).2⟩

end FunctionLiteral

/-! ### What holds throughout -/

/-- These literals have been captured so far. They are well formed and make up the table. -/
structure Session.Kept (source : List Char) (fs : List FunctionLiteral) (s : Session) : Prop where
  reader : s.reader.Ahead source
  captured : s.reader.journal.captured = fs
  literals : ∀ f ∈ fs, f.WellFormed
  functions : s.functions = FunctionLiteral.table fs

/-- A run that the fault has ended has kept all that, and has stopped at a stray character if that
is to blame. -/
structure Session.Halted (source : List Char) (fs : List FunctionLiteral) (fault : Fault)
    (s : Session) : Prop where
  kept : s.Kept source fs
  left : fault.LeftIn s.reader

namespace Session

variable {source : List Char} {fs : List FunctionLiteral} {s t : Session}

theorem kept_ofSource (source file : String) (policy : Policy) (clearOnGroup : Bool)
    (bindings : Table Value) :
    (ofSource source file policy clearOnGroup bindings).Kept source.toList [] :=
  ⟨Reader.ahead_ofSource source file policy, rfl, fun _ hf => absurd hf List.not_mem_nil, rfl⟩

/-- Nothing has been captured, and no function is new. -/
theorem Kept.congr (h : s.Kept source fs) (ahead : t.reader.Ahead source)
    (captured : t.reader.journal.captured = s.reader.journal.captured)
    (functions : t.functions = s.functions) : t.Kept source fs :=
  ⟨ahead, captured.trans h.captured, h.literals, functions.trans h.functions⟩

/-- A literal that has been captured is kept. -/
theorem Kept.define {f : FunctionLiteral} {q : Reader} (h : s.Kept source fs)
    (ahead : q.Ahead source) (captured : q.journal.captured = s.reader.journal.captured ++ [f])
    (formed : f.WellFormed) :
    ({ s with reader := q, functions := s.functions.bind f.name f } : Session).Kept source
      (fs ++ [f]) := by
  refine ⟨ahead, by rw [captured, h.captured], ?_, ?_⟩
  · intro g hg
    rcases List.mem_append.1 hg with old | new
    · exact h.literals g old
    · exact List.mem_singleton.1 new ▸ formed
  · rw [FunctionLiteral.table_concat, ← h.functions]

theorem halted_of_not_stray {fault : Fault} (h : s.Kept source fs) (other : ¬ fault.Stray) :
    s.Halted source fs fault :=
  ⟨h, .of_not_stray other⟩

end Session

namespace Evaluating

variable {source : List Char} {fs : List FunctionLiteral} {s u v w : Session} {t : Token}

/-- A pull leaves nothing pending, and the token may be put back. -/
theorem meets_next (h : s.Kept source fs) :
    Meets (fun fault u => u.Halted source fs fault)
      (fun t u => u.Kept source fs ∧ u.reader.pending = [] ∧ (u.push t).Kept source fs)
      (next s) := by
  unfold next
  cases run : Reading.next s.reader with
  | ok t q =>
    rw [reading_of_ok run]
    have captured := Reader.captured_of_next run
    obtain ⟨inside, none, scanned⟩ := h.reader.next run
    have taken : ({ s with reader := q } : Session).Kept source fs :=
      h.congr ⟨inside, Or.inl none⟩ captured rfl
    refine .ok ⟨taken, none, h.congr ⟨inside, Or.inr ⟨t, ?_, scanned⟩⟩ captured rfl⟩
    show t :: q.pending = [t]
    rw [none]
  | error fault q =>
    rw [reading_of_error run]
    have stopped : ({ s with reader := q } : Session).Kept source fs :=
      h.congr (h.reader.stopped run) (Reading.captured_of_failure run) rfl
    exact .error ⟨stopped, Reading.leftIn_of_next run⟩

/-- The session twice. What is lost is only how a run has ended that a fault has ended. -/
def keeping (source : List Char) (fs : List FunctionLiteral) : Link Session where
  states l r := l = r ∧ l.Kept source fs
  faults f g := f = g ∧ ¬ f.Stray
  lost fault s := ∃ f, fault = some f ∧ s.Halted source fs f

theorem ends_of_meets {α : Type} {o : Outcome Session α} {Q : α → Session → Prop}
    (h : Meets (fun fault u => u.Halted source fs fault) Q o) :
    (keeping source fs).Ends (fun x l y r => x = y ∧ l = r ∧ Q x l) o o := by
  cases h with
  | ok hq => exact .ok ⟨rfl, rfl, hq⟩
  | error halted => exact .lost ⟨_, rfl, halted⟩

/-- A run that keeps up with itself has kept what holds. -/
theorem meets_of_ends {α : Type} {o : Outcome Session α} {Q : α → Session → α → Session → Prop}
    (h : (keeping source fs).Ends Q o o) :
    Meets (fun fault u => u.Halted source fs fault) (fun x u => Q x u x u) o := by
  cases o with
  | ok x u =>
    cases h with
    | ok hq => exact .ok hq
    | lost lost =>
      obtain ⟨_, same, _⟩ := lost
      cases same
  | error fault u =>
    cases h with
    | error faults states => exact .error (Session.halted_of_not_stray states.2 faults.2)
    | lost lost =>
      obtain ⟨_, same, halted⟩ := lost
      cases same
      exact .error halted

theorem keeps_keeping : (keeping source fs).Keeps Step := by
  rintro _ _ _ _ ⟨_, same, _⟩
  cases same

theorem alike_of_eq {t u : Token} (same : t = u) :
    t.kind = u.kind ∧ t.text = u.text ∨
      t.kind.endsStatement = true ∧ u.kind.endsStatement = true :=
  Or.inl ⟨congrArg Token.kind same, congrArg Token.text same⟩

/-- The pairing for what holds throughout. -/
def upkeep (source : List Char) (fs : List FunctionLiteral) : Pairing where
  toLink := keeping source fs
  tokens t u := t = u
  causes c c' := c = c' ∧ c.kind ≠ .invalidCharacter
  keeps := keeps_keeping
  alike := @alike_of_eq
  known ofRules := ⟨rfl, ofRules.kind⟩
  missingExpression := by
    rintro t _ rfl
    exact ⟨rfl, fun same => DiagnosticKind.noConfusion same⟩
  openGroup := by
    rintro t _ rfl
    exact ⟨rfl, fun same => DiagnosticKind.noConfusion same⟩
  numeral _ _ _ := ⟨rfl, Fault.numeral_not_stray⟩
  undefined := by
    rintro t _ rfl
    exact ⟨rfl, Fault.not_stray fun same => DiagnosticKind.noConfusion same⟩
  bindings same := by rw [same.1]
  next := by
    rintro s _ ⟨rfl, kept⟩
    refine (ends_of_meets (meets_next kept)).imp fun t l u r _ _ taken => ?_
    obtain ⟨rfl, rfl, behind, -, back⟩ := taken
    exact ⟨rfl, ⟨rfl, back⟩, fun _ => ⟨rfl, behind⟩⟩
  report := by
    rintro s _ t _ c _ rfl ⟨rfl, kept⟩ ⟨rfl, other⟩
    refine Link.ends_report ⟨rfl, kept⟩ rfl ⟨rfl, Fault.not_stray other⟩ ⟨rfl, ?_⟩
    exact kept.congr ⟨kept.reader.cursor, kept.reader.pending⟩
      (Journal.captured_note_collected _ _) rfl
  endGroup := by
    rintro s _ ⟨rfl, kept⟩
    refine ⟨rfl, ?_⟩
    rcases after_endGroup s with same | cleared
    · rw [same]
      exact kept
    · rw [cleared]
      exact kept.congr ⟨kept.reader.cursor, kept.reader.pending⟩
        (Journal.captured_note_cleared _ _) rfl

/-! ### Runs -/

theorem within_upkeep (h : s.Kept source fs) :
    (upkeep source fs).Within s.reader.weight s.reader.weight s s :=
  ⟨⟨rfl, h⟩, Nat.le_refl _, Nat.le_refl _⟩

/-- An expression captures nothing. -/
theorem meets_evaluate (h : s.Kept source fs) :
    Meets (fun fault u => u.Halted source fs fault) (fun _ u => u.Kept source fs) (evaluate s) :=
  (meets_of_ends (ends_evaluate (within_upkeep h))).imp fun _ _ same => same.2.states.2

theorem meets_endStatement (h : s.Kept source fs) :
    Meets (fun fault u => u.Halted source fs fault) (fun _ u => u.Kept source fs)
      (endStatement s) :=
  (meets_of_ends (ends_endStatement (within_upkeep h))).imp fun _ _ same => same.2.states.2

/-- A declaration keeps the literal that is read, or none if it cannot be read. -/
theorem meets_declaration (h : s.Kept source fs) (none : s.reader.pending = [])
    (declares : t.kind = .functionDeclaration) :
    (∀ f q, Reading.functionLiteral s.reader = .ok f q →
      ∃ u, turn t s = .ok [] u ∧ u.Kept source (fs ++ [f])) ∧
    ∀ fault q, Reading.functionLiteral s.reader = .error fault q →
      ∃ u, turn t s = .error fault u ∧ u.Halted source fs fault := by
  have calm : (ahead source).Between s.reader := ⟨h.reader, none⟩
  have placed := (Guard.ends_functionLiteral calm).meets id
  have read := Reading.meets_functionLiteral none
  have line : t.kind ≠ .endOfLine := by
    rw [declares]
    decide
  unfold turn
  rw [if_neg line, if_pos declares]
  refine ⟨fun f q run => ?_, fun fault q run => ?_⟩
  · have behind := (placed.of_ok run).2.1
    have captured := Reading.captured_of_functionLiteral run
    rw [bind_of_ok (reading_of_ok run)]
    exact ⟨_, rfl, h.define behind.readers captured (read.of_ok run)⟩
  · obtain ⟨left, same⟩ := read.of_error run
    rw [bind_of_error (reading_of_error run)]
    exact ⟨_, rfl, h.congr (placed.of_error run).2 same rfl, left⟩

/-- No other turn captures anything. -/
theorem meets_turn_of_ne (h : s.Kept source fs) (back : (s.push t).Kept source fs)
    (other : t.kind ≠ .functionDeclaration) :
    Meets (fun fault u => u.Halted source fs fault) (fun _ u => u.Kept source fs) (turn t s) := by
  unfold turn
  rw [if_neg other]
  split
  · exact .ok h
  · refine Meets.bind (Q := fun _ u => u.Kept source fs) (.ok back) fun _ u _ pushed => ?_
    refine (meets_evaluate pushed).bind fun value u _ evaluated => ?_
    refine (meets_endStatement evaluated).bind fun _ u _ ended => ?_
    exact .ok ended

/-- What holds, whatever has been captured. -/
def MeetsKept {α : Type} (source : List Char) (o : Outcome Session α) : Prop :=
  Meets (fun fault u => ∃ fs, u.Halted source fs fault) (fun _ u => ∃ fs, u.Kept source fs) o

theorem meetsKept_of_meets {α : Type} {o : Outcome Session α}
    (h : Meets (fun fault u => u.Halted source fs fault) (fun _ u => u.Kept source fs) o) :
    MeetsKept source o :=
  (h.imp fun _ _ kept => ⟨fs, kept⟩).imp_error fun _ _ halted => ⟨fs, halted⟩

/-- **A turn** keeps what holds, whether it ends with values or with a fault. -/
theorem meetsKept_turn (h : s.Kept source fs) (none : s.reader.pending = [])
    (back : (s.push t).Kept source fs) : MeetsKept source (turn t s) := by
  by_cases declares : t.kind = .functionDeclaration
  · obtain ⟨captures, fails⟩ := meets_declaration h none declares
    cases run : Reading.functionLiteral s.reader with
    | ok f q =>
      obtain ⟨u, turned, kept⟩ := captures f q run
      rw [turned]
      exact .ok ⟨_, kept⟩
    | error fault q =>
      obtain ⟨u, turned, halted⟩ := fails fault q run
      rw [turned]
      exact .error ⟨_, halted⟩
  · exact meetsKept_of_meets (meets_turn_of_ne h back declares)

/-- **Statements** keep it turn by turn. -/
theorem meetsKept_statements {n : Nat} (h : s.Kept source fs) :
    MeetsKept source (statements n s) := by
  induction n generalizing s fs with
  | zero => exact .error ⟨fs, Session.halted_of_not_stray h Fault.exhausted_not_stray⟩
  | succ n ih =>
    rw [statements_of_turn]
    refine ((meets_next h).imp_error fun _ _ halted => ⟨fs, halted⟩).bind fun t u _ taken => ?_
    obtain ⟨kept, none, back⟩ := taken
    split
    · exact .ok ⟨fs, kept⟩
    · refine (meetsKept_turn kept none back).bind fun front v _ turned => ?_
      obtain ⟨_, turned⟩ := turned
      exact (ih turned).bind fun values w _ later => .ok later

/-- **Requests** keep it. -/
theorem meetsKept_serve (h : s.Kept source fs) (request : Request) :
    MeetsKept source (request.serve s) := by
  cases request with
  | evaluate => exact (meetsKept_of_meets (meets_evaluate h)).bind fun _ _ _ kept => .ok kept
  | evaluateAll =>
    have run : MeetsKept source (evaluateAll s) := meetsKept_statements h
    exact run.bind fun _ _ _ kept => .ok kept
  | assign name given =>
    rcases Request.serve_assign name given s with ⟨value, served⟩ | ⟨refusal, served⟩
    · rw [served]
      exact .ok ⟨fs, h.congr h.reader rfl rfl⟩
    · rw [served]
      exact .ok ⟨fs, h⟩

theorem MeetsKept.after {α : Type} {a : Evaluating α} (h : MeetsKept source (a s)) :
    ∃ fs, (after a s).Kept source fs :=
  Meets.after h (fun _ _ halted => halted.imp fun _ => Session.Halted.kept) fun _ _ kept => kept

theorem kept_served (h : ∃ fs, s.Kept source fs) (requests : List Request) :
    ∃ fs, (s.served requests).Kept source fs := by
  induction requests generalizing s with
  | nil => exact h
  | cons request later ih =>
    obtain ⟨fs, kept⟩ := h
    exact ih (meetsKept_serve kept request).after

theorem kept_heads (h : ∃ fs, s.Kept source fs) (reached : s.Heads u) :
    ∃ fs, u.Kept source fs := by
  induction reached with
  | start => exact h
  | @turn u v w t front _ taken last ran ih =>
    obtain ⟨fs, kept⟩ := ih
    obtain ⟨behind, none, back⟩ := (meets_next kept).of_ok taken
    have turned := (meetsKept_turn behind none back).after
    rw [after_of_ok ran] at turned
    exact turned

/-- Between two states a literal has been captured that only the later one has. -/
theorem captures_literal {f : FunctionLiteral} (before : s.Kept source fs)
    (behind : u.Kept source (fs ++ [f])) : Captures s [.literal f] u where
  captured := behind.captured.trans (congrArg (· ++ [f]) before.captured.symm)
  functions := by
    rw [behind.functions, before.functions, FunctionLiteral.table_append]
    rfl

theorem captures_nil (before : s.Kept source fs) (behind : u.Kept source fs) :
    Captures s [] u where
  captured := behind.captured.trans (before.captured.symm.trans (List.append_nil _).symm)
  functions := behind.functions.trans before.functions.symm

end Evaluating

open Evaluating in
/-- **The table of functions.** In every state that requests lead to, its entries are well-formed
literals under their own names. It is made of the literals that have been captured: a name stands
where it was first bound, and the last literal of that name counts. A turn that declares a function
captures the literal that is read. If it cannot be read, the turn captures nothing and leaves the
table as it was, and so do all other turns and every expression, however they end. -/
theorem functions_of_served (source file : String) (policy : Policy) (clearOnGroup : Bool)
    (bindings : Table Value) (requests : List Request) :
    let s := (Session.ofSource source file policy clearOnGroup bindings).served requests
    let captured := s.reader.journal.captured
    (∀ entry ∈ s.functions, entry.1 = entry.2.name ∧ entry.2.WellFormed) ∧
    s.functions = FunctionLiteral.table captured ∧
    s.functions.names = (captured.map FunctionLiteral.name).eraseDups ∧
    (∀ name, s.functions.get? name = captured.reverse.find? fun f => f.name == name) ∧
    Captures s [] (after evaluate s) ∧
    ∀ u t v, s.Heads u → next u = .ok t v →
      (∀ f q, t.kind = .functionDeclaration → Reading.functionLiteral v.reader = .ok f q →
        Captures u [.literal f] (after (turn t) v)) ∧
      ((∀ f q, t.kind = .functionDeclaration → Reading.functionLiteral v.reader ≠ .ok f q) →
        Captures u [] (after (turn t) v)) := by
  intro s captured
  obtain ⟨fs, kept⟩ := kept_served
    ⟨[], Session.kept_ofSource source file policy clearOnGroup bindings⟩ requests
  have table : s.functions = FunctionLiteral.table captured := by
    rw [kept.functions, ← kept.captured]
  refine ⟨?_, table, ?_, ?_, ?_, ?_⟩
  · intro entry among
    rw [kept.functions] at among
    obtain ⟨literal, name⟩ := FunctionLiteral.mem_of_mem_table among
    exact ⟨name, kept.literals entry.2 literal⟩
  · rw [table, FunctionLiteral.names_table]
  · intro name
    rw [table, FunctionLiteral.get?_table]
  · exact captures_nil kept
      ((meets_evaluate kept).after (fun _ _ halted => halted.kept) fun _ _ kept => kept)
  · intro u t v reached taken
    obtain ⟨gs, before⟩ := kept_heads ⟨fs, kept⟩ reached
    obtain ⟨behind, none, back⟩ := (meets_next before).of_ok taken
    refine ⟨fun f q declares read => ?_, fun other => captures_nil before ?_⟩
    · obtain ⟨w, turned, kept'⟩ := (meets_declaration behind none declares).1 f q read
      rw [after_of_ok turned]
      exact captures_literal before kept'
    · by_cases declares : t.kind = .functionDeclaration
      · cases read : Reading.functionLiteral v.reader with
        | ok f q => exact absurd read (other f q declares)
        | error fault q =>
          obtain ⟨w, turned, halted⟩ := (meets_declaration behind none declares).2 fault q read
          rw [after_of_error turned]
          exact halted.kept
      · exact (meets_turn_of_ne behind back declares).after (fun _ _ halted => halted.kept)
          fun _ _ kept => kept

open Evaluating in
/-- The theorem where a function is declared again, with an improper list of parameters, and the
run then stops in the body of another, and where reading that literal is all that is done. -/
theorem functions_of_served_redefinition :
    let s := (Session.ofSource
      "function f(a) => 1; function g() => 2; function f(+, b c) => 3; function h() => $" "in"
      .collect false []).served [.evaluateAll, .assign "x" (.text "y")]
    s.functions.names = ["f", "g"] ∧
      (∃ f, s.functions.get? "f" = some f ∧ f.parameters = ["b", "c"]) ∧ s.collected ≠ [] ∧
    let s' := Session.ofSource "function h() => $" "in" .raise true []
    ∃ t v, next s' = .ok t v ∧ t.kind = .functionDeclaration ∧
      Captures s' [] (after (turn t) v) := by
  intro s
  obtain ⟨-, -, names, last, -⟩ := functions_of_served
    "function f(a) => 1; function g() => 2; function f(+, b c) => 3; function h() => $" "in"
    .collect false [] [.evaluateAll, .assign "x" (.text "y")]
  obtain ⟨-, -, -, -, -, turns⟩ := functions_of_served "function h() => $" "in" .raise true [] []
  refine ⟨names.trans (by decide +kernel), ?_, by decide +kernel, ?_⟩
  · obtain ⟨f, found, named⟩ : ∃ f,
        (s.reader.journal.captured.reverse.find? fun f => f.name == "f") = some f ∧
          f.parameters = ["b", "c"] := by
      decide +kernel
    exact ⟨f, (last "f").trans found, named⟩
  · obtain ⟨t, v, taken, declares, fails⟩ : ∃ t v,
        next (Session.ofSource "function h() => $" "in" .raise true []) = .ok t v ∧
          t.kind = .functionDeclaration ∧
          ¬ ∃ f q, Reading.functionLiteral v.reader = .ok f q ∧ True := by
      decide +kernel
    have unread := (turns _ t v .start taken).2 fun f q _ read => fails ⟨f, q, read, trivial⟩
    exact ⟨t, v, taken, declares, unread⟩

end Reckoner
