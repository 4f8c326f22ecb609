import Reckoner.Proofs.Appended.Sessions
import Reckoner.Proofs.Turns

/-!
# Sources behind one another

A run over a text and the run over the same text with a semicolon and more behind it are the
same until the text ends. There the first run is done, and the second goes on with what is
behind: its tables are those that the first one leaves, it has collected as many diagnostics of
the same kinds, and no token is left over.

* `Appended.Joins`: the two outcomes;
* `Appended.joins_statements`: one turn after the other;
* `evaluateAll_append`: two sources with a semicolon between them.
-/

namespace Reckoner

/-- An outcome with more values in front. -/
def Outcome.prepend (values : List Value) :
    Outcome Session (List Value) → Outcome Session (List Value)
  | .ok later s => .ok (values ++ later) s
  | .error fault s => .error fault s

namespace Outcome

theorem prepend_nil (o : Outcome Session (List Value)) : o.prepend [] = o := by
  cases o <;> rfl

theorem prepend_append (front values : List Value) (o : Outcome Session (List Value)) :
    (o.prepend values).prepend front = o.prepend (front ++ values) := by
  cases o with
  | ok later s =>
    show (.ok (front ++ (values ++ later)) s : Outcome _ _) = .ok (front ++ values ++ later) s
    rw [List.append_assoc]
  | error fault s => rfl

/-- Values in front of those of the statements that follow. -/
theorem bind_append (front : List Value) (rest : Evaluating (List Value)) (s : Session) :
    (do return front ++ (← rest) : Evaluating (List Value)) s =
      Outcome.prepend front (rest s) := by
  cases run : rest s with
  | ok later t => exact bind_of_ok run
  | error fault t => exact bind_of_error run

end Outcome

namespace Appended

open Evaluating

variable {behind : Option (List Char)} {history : List DiagnosticKind} {l r : Session}
  {o p : Outcome Session (List Value)}

/-- The outcome of a run over a text and of one with more behind it. If the first returns, then
the second has come to the end of the text with the same values and goes on from there. -/
inductive Joins (behind : Option (List Char)) (history : List DiagnosticKind) :
    Outcome Session (List Value) → Outcome Session (List Value) → Prop
  | returned {values : List Value} {l r : Session} {n : Nat} :
      Finished behind history l.reader r.reader → Tables l r → r.reader.weight < n →
      Joins behind history (.ok values l) (Outcome.prepend values (statements n r))
  | failed {f g : Fault} {l r : Session} : f.Alike g → (sessions behind history).states l r →
      Joins behind history (.error f l) (.error g r)
  | lost {o p : Outcome Session (List Value)} : (sessions behind history).Lost o →
      Joins behind history o p

theorem Joins.prepend (h : Joins behind history o p) (front : List Value) :
    Joins behind history (o.prepend front) (p.prepend front) := by
  cases h with
  | returned finished tables enough =>
    rw [Outcome.prepend_append]
    exact .returned finished tables enough
  | failed faults states => exact .failed faults states
  | lost lost =>
    cases o with
    | ok values s => exact .lost lost
    | error fault s => exact .lost lost

/-- Sequencing. -/
theorem Joins.bind {α β : Type} {Q : α → Session → β → Session → Prop} {a : Evaluating α}
    {b : Evaluating β} {f : α → Evaluating (List Value)} {g : β → Evaluating (List Value)}
    (h : (sessions behind history).Ends Q (a l) (b r))
    (hfg : ∀ x l' y r', Q x l' y r' → Joins behind history (f x l') (g y r'))
    [c : ∀ x, Composed Step (f x)] : Joins behind history ((a >>= f) l) ((b >>= g) r) :=
  h.bind_of hfg (fun _ _ _ _ => .failed)
    (fun x _ _ lost => .lost (keeps_sessions (c x) lost)) fun _ _ _ lost => .lost lost

/-! ### At the end of the text -/

theorem weight_of_nothing {q : Reader} (pending : q.pending = []) (nothing : q.cursor.rest = []) :
    q.weight = 0 := by
  unfold Reader.weight
  rw [pending, nothing]
  rfl

theorem joins_of_finished {n m : Nat} (h : Finished behind history l.reader r.reader)
    (tables : Tables l r) (hn : 0 < n) (hm : r.reader.weight < m) :
    Joins behind history (statements n l) (statements m r) := by
  obtain ⟨n, rfl⟩ : ∃ k, n = k + 1 := ⟨n - 1, by omega⟩
  rw [statements_of_nothing h.left h.nothing, ← Outcome.prepend_nil (statements m r)]
  exact .returned h tables hm

/-- The tokens that end the text: the left run is done, and the right one is in front of what
comes behind. -/
theorem joins_of_last {n m : Nat} {t u : Token} (last : Last behind t u)
    (h : Finished behind history l.reader r.reader) (tables : Tables l r)
    (hm : (r.push u).reader.weight < m + 1) :
    Joins behind history (statementsFrom n t l) (statementsFrom m u r) := by
  have done : statementsFrom n t l = .ok [] l := by
    unfold statementsFrom
    rw [if_pos last.kind]
    rfl
  have weight : (r.push u).reader.weight =
      r.reader.weight + if u.kind = .endOfInput then 0 else 1 :=
    Reader.weight_push u r.reader
  rw [done]
  cases behind with
  | none =>
    have nothing : statementsFrom m u r = .ok [] r := by
      unfold statementsFrom
      rw [if_pos last.2.1]
      rfl
    have left : r.reader.weight = 0 := weight_of_nothing h.right h.text
    have alone : statements 1 r = .ok [] r := statements_of_nothing h.right h.text
    rw [nothing, ← alone, ← Outcome.prepend_nil (statements 1 r)]
    exact .returned h tables (by omega)
  | some text =>
    have apart : u.kind ≠ .endOfInput := by
      rw [last.2]
      simp
    have goesOn : statementsFrom m u r = statements m r := by
      unfold statementsFrom
      rw [if_neg apart, if_pos last.2]
    rw [if_neg apart] at weight
    rw [goesOn, ← Outcome.prepend_nil (statements m r)]
    exact .returned h tables (by omega)

/-! ### One turn after the other -/

/-- The next tokens, with what has been left on both sides. -/
theorem ends_pull (h : (sessions behind history).states l r) :
    (sessions behind history).Ends
      (fun t l' u r' => Pulled behind history t l'.reader u r'.reader ∧ Tables l' r' ∧
        (l'.push t).reader.weight ≤ l.reader.weight ∧ (r'.push u).reader.weight ≤ r.reader.weight)
      (next l) (next r) :=
  (ends_reading h.2 (ends_next h.1)).imp fun _ _ _ _ ranL ranR ended =>
    ⟨ended.1, ended.2, weight_push_of_next ranL, weight_push_of_next ranR⟩

/-- Reading uses up what it reads. -/
theorem weight_le_of_ok {α : Type} {a : Reading α} {p q : Reader} {x : α}
    (composed : Composed Reading.Step a) (ran : a p = .ok x q) (pending : q.pending = []) :
    q.weight ≤ p.weight := by
  have rest := (Reading.rest_suffix composed p).length_le
  rw [after_of_ok ran] at rest
  have weight : q.weight = q.cursor.rest.length := by
    unfold Reader.weight
    rw [pending]
    rfl
  rw [weight]
  exact Nat.le_trans rest (Nat.le_add_right _ _)

/-- A function literal is read alike, to be kept in both tables, and less is left on both
sides. -/
theorem ends_declaration (h : Between behind history l.reader r.reader) (tables : Tables l r) :
    (sessions behind history).Ends
      (fun f l' g r' => Through behind history l'.reader r'.reader ∧
        Tables (after (define f) l') (after (define g) r') ∧
        l'.reader.weight ≤ l.reader.weight ∧ r'.reader.weight ≤ r.reader.weight)
      (reading Reading.functionLiteral l) (reading Reading.functionLiteral r) := by
  refine (ends_reading tables (ends_functionLiteral h)).imp
    fun f l' g r' ranL ranR ended => ?_
  obtain ⟨⟨bare, through⟩, tables'⟩ := ended
  obtain ⟨p, left, rfl⟩ := reading_eq_ok ranL
  obtain ⟨q, right, rfl⟩ := reading_eq_ok ranR
  have pending : p.pending = [] ∧ q.pending = [] := by
    rcases through with h' | h'
    · exact ⟨h'.left, h'.right⟩
    · exact ⟨h'.left, h'.right⟩
  refine ⟨through, ⟨tables'.bindings, ?_, tables'.clearOnGroup⟩,
    weight_le_of_ok inferInstance left pending.1, weight_le_of_ok inferInstance right pending.2⟩
  have name : f.name = g.name := congrArg Prod.fst bare
  show bareFunctions (l.functions.bind f.name f) = bareFunctions (r.functions.bind g.name g)
  rw [bareFunctions_bind, bareFunctions_bind, bare, name, tables.functions]

/-- **Turns.** Behind the same token they add the same values and leave no more to be read. The runs
go on alike, or a function literal has taken up all of the text. -/
theorem ends_turn {t u : Token} (between : Between behind history l.reader r.reader)
    (tables : Tables l r) (last : t.kind ≠ .endOfInput) (kind : t.kind = u.kind)
    (text : t.text = u.text) :
    (sessions behind history).Ends
      (fun front l' front' r' => front = front' ∧
        ((sessions behind history).states l' r' ∨
          Finished behind history l'.reader r'.reader ∧ Tables l' r') ∧
        l'.reader.weight ≤ l.reader.weight ∧ r'.reader.weight ≤ r.reader.weight)
      (turn t l) (turn u r) := by
  have states : (sessions behind history).states l r := ⟨.between between, tables⟩
  by_cases line : t.kind = .endOfLine
  · rw [turn, turn, if_pos line, if_pos (kind ▸ line)]
    exact .ok ⟨rfl, Or.inl states, Nat.le_refl _, Nat.le_refl _⟩
  by_cases declaration : t.kind = .functionDeclaration
  · unfold turn
    rw [← kind, if_neg line, if_neg line, if_pos declaration, if_pos declaration]
    refine Link.Ends.bind (ends_declaration between tables) keeps_sessions
      fun f l₁ g r₁ ended => ?_
    obtain ⟨through, tables₁, left, right⟩ := ended
    refine .ok ⟨rfl, ?_, left, right⟩
    rcases through with between₁ | finished
    · exact Or.inl ⟨.between between₁, tables₁⟩
    · exact Or.inr ⟨finished, tables₁⟩
  have pushed : (sessions behind history).states (l.push t) (r.push u) :=
    ⟨.held between last kind text, tables.1, tables.2, tables.3⟩
  refine (ends_turn_of_inside (P := pairing behind history) (Or.inl ⟨kind, text⟩) states pushed
    (TokenKind.inside_iff.2 ⟨last, line⟩) declaration).imp fun _ _ _ _ _ _ same => ?_
  exact ⟨same.1, Or.inl same.2.states, same.2.left, same.2.right⟩

/-- **Statements.** The runs over the statements of a text, alone and with more behind, join. -/
theorem joins_statements {n m : Nat} (h : (sessions behind history).states l r)
    (hn : l.reader.weight < n) (hm : r.reader.weight < m) :
    Joins behind history (statements n l) (statements m r) := by
  induction n generalizing m l r with
  | zero => exact absurd hn (Nat.not_lt_zero _)
  | succ n ih =>
    obtain ⟨m, rfl⟩ : ∃ k, m = k + 1 := ⟨m - 1, by omega⟩
    rw [statements_succ, statements_succ]
    refine Joins.bind (ends_pull h) fun t l₁ u r₁ ended => ?_
    obtain ⟨pulled, tables, left, right⟩ := ended
    cases pulled with
    | last last finished => exact joins_of_last last finished tables (by omega)
    | inside ht kind text between =>
      have hu : u.kind ≠ .endOfInput := kind ▸ ht
      have weightL : (l₁.push t).reader.weight = l₁.reader.weight + 1 :=
        Reader.weight_push_of_ne ht l₁.reader
      have weightR : (r₁.push u).reader.weight = r₁.reader.weight + 1 :=
        Reader.weight_push_of_ne hu r₁.reader
      rw [statementsFrom_of_turn n ht, statementsFrom_of_turn m hu]
      refine Joins.bind (ends_turn between tables ht kind text) fun front l₂ _ r₂ ended => ?_
      obtain ⟨rfl, goesOn, left₂, right₂⟩ := ended
      rw [Outcome.bind_append, Outcome.bind_append]
      refine Joins.prepend ?_ front
      rcases goesOn with states | ⟨finished, tables₂⟩
      · exact ih states (by omega) (by omega)
      · exact joins_of_finished finished tables₂ (by omega) (by omega)

/-- Alone, a text has the same values wherever it stands and whatever came before it. -/
theorem Joins.alone (h : Joins none history o p) :
    (sessions none history).Ends
      (fun values l all r => values = all ∧ Journals history l.reader.journal r.reader.journal ∧
        Tables l r) o p := by
  cases h with
  | @returned values l r n finished tables enough =>
    obtain ⟨n, rfl⟩ : ∃ k, n = k + 1 := ⟨n - 1, by omega⟩
    have done : Outcome.prepend values (statements (n + 1) r) = .ok values r := by
      rw [statements_of_nothing finished.right finished.text]
      show (.ok (values ++ []) r : Outcome _ _) = .ok values r
      rw [List.append_nil]
    rw [done]
    exact .ok ⟨rfl, finished.journals, tables⟩
  | failed faults states => exact .error faults states
  | lost lost => exact .lost lost

end Appended

namespace Evaluating

open Appended

theorem Step.clearOnGroup {α : Type} {a : Evaluating α} (h : Step α a) (s : Session) :
    (after a s).clearOnGroup = s.clearOnGroup := by
  cases h with
  | reading h => rw [after_reading]
  | valueOf t => rw [after_valueOf]
  | endGroup => rcases after_endGroup s with h | h <;> rw [h]
  | define f => rfl

/-- No run changes what groups do. -/
theorem clearOnGroup_after {α : Type} {a : Evaluating α} (h : Composed Step a) (s : Session) :
    (after a s).clearOnGroup = s.clearOnGroup :=
  h.after_related (R := fun s t : Session => t.clearOnGroup = s.clearOnGroup) (fun _ => rfl)
    (fun first later => later.trans first) (fun s step => step.clearOnGroup s) s

/-- The same values with others in front, or the same fault, somewhere else. -/
inductive Follows (values : List Value) :
    Outcome Session (List Value) → Outcome Session (List Value) → Prop
  | ok {later : List Value} {l r : Session} :
      Follows values (.ok later l) (.ok (values ++ later) r)
  | error {f g : Fault} {l r : Session} : f.Alike g → Follows values (.error f l) (.error g r)

section Append

variable {source file : String} {policy : Policy} {clearOnGroup : Bool}
  {bindings : Table Value} {values : List Value} {t : Session}

/-- The run over the first source, with the second one behind it. -/
theorem exists_joined (behind : List Char) (whole : Session)
    (first : evaluateAll (Session.ofSource source file policy clearOnGroup bindings) =
      .ok values t)
    (nothingTold : ¬ t.reader.journal.Tells)
    (states : (sessions (some behind) []).states
      (Session.ofSource source file policy clearOnGroup bindings) whole) :
    ∃ (q : Session) (n : Nat), Finished (some behind) [] t.reader q.reader ∧ Tables t q ∧
      q.reader.weight < n ∧ evaluateAll whole = Outcome.prepend values (statements n q) := by
  have joined : Joins (some behind) [] (.ok values t) (evaluateAll whole) := by
    rw [← first]
    exact joins_statements states (Reader.weight_lt_budget _) (Reader.weight_lt_budget _)
  revert joined
  generalize evaluateAll whole = o
  rintro (⟨finished, tables, enough⟩ | _ | lost)
  · exact ⟨_, _, finished, tables, enough, rfl⟩
  · exact absurd (lost.2.resolve_left fun h => h rfl) nothingTold

/-- The second source, alone and behind the first one. -/
theorem ends_behind (next : String) {q : Session} {n : Nat}
    (first : evaluateAll (Session.ofSource source file policy clearOnGroup bindings) =
      .ok values t)
    (finished : Finished (some next.toList) [] t.reader q.reader) (tables : Tables t q)
    (enough : q.reader.weight < n) :
    (sessions none t.reader.journal.kinds).Ends
      (fun values l all r => values = all ∧
        Journals t.reader.journal.kinds l.reader.journal r.reader.journal ∧ Tables l r)
      (evaluateAll ⟨Reader.ofSource next file policy, t.bindings, t.functions, clearOnGroup⟩)
      (statements n q) := by
  have policies : t.reader.journal.policy = policy := by
    have kept := (grows composed_evaluateAll).policy
      (Session.ofSource source file policy clearOnGroup bindings)
    rw [after_of_ok first] at kept
    exact kept
  have clears : t.clearOnGroup = clearOnGroup := by
    have kept := clearOnGroup_after composed_evaluateAll
      (Session.ofSource source file policy clearOnGroup bindings)
    rw [after_of_ok first] at kept
    exact kept
  refine Joins.alone ?_
  refine joins_statements ⟨.between ⟨rfl, finished.right, ?_, ?_, ?_⟩, tables.bindings,
    tables.functions, ?_⟩ (Reader.weight_lt_budget _) enough
  · rw [finished.text]
    exact (List.append_nil next.toList).symm
  · exact policies.symm.trans finished.journals.policy
  · exact finished.journals.kinds.trans (List.append_nil _).symm
  · exact clears.symm.trans tables.clearOnGroup

/-- **Sources compose.** Let the run over the first source return, with no string without its end
and no malformed header of a function literal collected. Then the run over both sources with a
semicolon between them ends as the run over the second that starts with the tables left by the
first: with the values of both, or with the same fault somewhere else. The variables are the
same, the functions are but for locations, and the kinds of what has been collected are those of
both. -/
theorem evaluateAll_append {next : String}
    (first : evaluateAll (Session.ofSource source file policy clearOnGroup bindings) =
      .ok values t)
    (clean : ∀ d ∈ t.collected, d.cause.kind ≠ .unterminatedLiteral ∧ d.cause.inHeader = false) :
    let start : Session :=
      ⟨Reader.ofSource next file policy, t.bindings, t.functions, clearOnGroup⟩
    let whole := Session.ofSource (source ++ ";" ++ next) file policy clearOnGroup bindings
    Follows values (evaluateAll start) (evaluateAll whole) ∧
    (after evaluateAll whole).bindings = (after evaluateAll start).bindings ∧
    bareFunctions (after evaluateAll whole).functions =
      bareFunctions (after evaluateAll start).functions ∧
    (after evaluateAll whole).reader.journal.kinds =
      t.reader.journal.kinds ++ (after evaluateAll start).reader.journal.kinds := by
  intro start whole
  have text : (source ++ ";" ++ next).toList = source.toList ++ ';' :: next.toList := by
    rw [String.toList_append, String.toList_append, List.append_assoc]
    rfl
  have nothingTold : ¬ t.reader.journal.Tells := by
    rintro ⟨d, hd, string | header⟩
    · exact (clean d hd).1 (by rw [string]; rfl)
    · rw [(clean d hd).2] at header
      cases header
  obtain ⟨q, n, finished, tables, enough, run⟩ := exists_joined next.toList whole first nothingTold
     ⟨.between ⟨rfl, rfl, text, rfl, rfl⟩, rfl, rfl, rfl⟩
  have behind := ends_behind next first finished tables enough
  unfold after
  rw [run]
  revert behind
  generalize statements n q = p
  show (sessions none _).Ends _ (evaluateAll start) p → _
  generalize evaluateAll start = o
  intro behind
  cases behind with
  | ok same =>
    obtain ⟨rfl, journals, tables⟩ := same
    exact ⟨.ok, tables.bindings.symm, tables.functions.symm, journals.kinds⟩
  | error faults states =>
    obtain ⟨coupled, tables⟩ := states
    exact ⟨.error faults, tables.bindings.symm, tables.functions.symm, coupled.journals.kinds⟩
  | lost lost =>
    cases o with
    | ok values s => exact absurd rfl lost.1
    | error fault s => exact absurd rfl lost.1

/-- The theorem at a function literal and a group that lacks an operand and its end, followed by
a trailing token and a string without its end. -/
theorem evaluateAll_append_open_group :
    let first := Session.ofSource "function f(x) => x; (1 +" "in" .collect true [("y", .number 3)]
    ∃ values t, evaluateAll first = .ok values t ∧
      (∀ d ∈ t.collected, d.cause.kind ≠ .unterminatedLiteral ∧ d.cause.inHeader = false) ∧
      let start : Session :=
        ⟨Reader.ofSource "2 y; \"a" "in" .collect, t.bindings, t.functions, true⟩
      let whole := Session.ofSource ("function f(x) => x; (1 +" ++ ";" ++ "2 y; \"a") "in"
        .collect true [("y", .number 3)]
      Follows values (evaluateAll start) (evaluateAll whole) ∧
      (after evaluateAll whole).bindings = (after evaluateAll start).bindings ∧
      bareFunctions (after evaluateAll whole).functions =
        bareFunctions (after evaluateAll start).functions ∧
      (after evaluateAll whole).reader.journal.kinds =
        t.reader.journal.kinds ++ (after evaluateAll start).reader.journal.kinds := by
  intro first
  have returns : (match evaluateAll first with
      | .ok _ t => t.collected.all fun d =>
        d.cause.kind != .unterminatedLiteral && !d.cause.inHeader
      | _ => false) = true := by decide +kernel
  obtain ⟨values, t, run, clean⟩ : ∃ values t, evaluateAll first = .ok values t ∧
      ∀ d ∈ t.collected, d.cause.kind ≠ .unterminatedLiteral ∧ d.cause.inHeader = false := by
    cases run : evaluateAll first with
    | error fault t =>
      rw [run] at returns
      cases returns
    | ok values t =>
      rw [run] at returns
      refine ⟨values, t, rfl, fun d hd => ?_⟩
      have kept := Bool.and_eq_true_iff.1 (List.all_eq_true.1 returns d hd)
      exact ⟨by simpa using kept.1, by simpa using kept.2⟩
  exact ⟨values, t, run, clean, evaluateAll_append run clean⟩

end Append

end Evaluating

end Reckoner
