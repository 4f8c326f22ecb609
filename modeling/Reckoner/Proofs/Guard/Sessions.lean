import Reckoner.Proofs.Guard.Reading
import Reckoner.Proofs.Turns

/-!
# Guarded sessions

What a guard asks of the primitive actions holds of whole runs. Each run is compared with itself,
given other fuel: the rules for expressions and for the end of a statement are known to keep up
with one another, and what is added here is that every fault on the way is allowed.

* `Guard.ends_turn` — each turn of the statements stays within the guard and uses up something;
* `Guard.ends_statements` — enough fuel is as good as any more;
* `Guard.ends_evaluateAll` — a run starts, goes on and ends within the guard.
-/

namespace Reckoner

namespace Guard

open Evaluating

/-- Within the guard: the reader, and every literal that has been kept. -/
structure Inside (G : Guard) (s : Session) : Prop where
  reader : G.readers s.reader
  functions : ∀ f ∈ s.functions.values, G.literals f

/-- One session twice, within the guard. -/
def link (G : Guard) : Link Session where
  states l r := l = r ∧ G.Inside l
  faults f g := f = g ∧ G.faults f
  lost _ s := G.lost s.reader.cursor

theorem keeps_link (G : Guard) : G.link.Keeps Step := by
  intro α a s composed lost
  have later := G.keepsLost (Evaluating.reaches composed s) lost
  unfold after at later
  revert later
  cases a s with
  | ok x t => exact id
  | error fault t => exact id

section Link

variable {G : Guard} {s : Session}

/-- What the reader does within the guard, the session does. -/
theorem ends_reading_of {α : Type} {a : Reading α} {Q : α → Reader → Prop} (h : G.Inside s)
    (read : G.Ends Q (a s.reader)) :
    G.link.Ends (fun x l y r => x = y ∧ l = r ∧ ∃ q, Q x q ∧ l = { s with reader := q })
      (reading a s) (reading a s) := by
  cases run : a s.reader with
  | ok x q =>
    rw [run] at read
    rw [reading_of_ok run]
    cases read with
    | ok hq => exact .ok ⟨rfl, rfl, q, hq, rfl⟩
    | lost lost => exact .lost lost
  | error fault q =>
    rw [run] at read
    rw [reading_of_error run]
    cases read with
    | error allowed readers => exact .error ⟨rfl, allowed⟩ ⟨rfl, readers, h.functions⟩
    | lost lost => exact .lost lost

/-- With the token put back, no more is left to be read than before. -/
theorem link_next (h : G.Inside s) :
    G.link.Ends (fun t l u r => (t = u ∧ G.tokens t) ∧ (l = r ∧ G.Inside l) ∧ G.Inside (l.push t) ∧
        G.calm l.reader.pending ∧ (l.push t).reader.weight ≤ s.reader.weight)
      (next s) (next s) := by
  refine (ends_reading_of h (Guard.ends_next h.reader)).imp fun t l u r _ _ ended => ?_
  obtain ⟨rfl, rfl, q, ⟨token, between, pushed, lighter⟩, rfl⟩ := ended
  exact ⟨⟨rfl, token⟩, ⟨rfl, between.readers, h.functions⟩, ⟨pushed, h.functions⟩,
    between.calm, lighter⟩

theorem link_report {c : Cause} {p : Location} (known : c.Known) (place : G.places p)
    (h : G.Inside s) :
    G.link.Ends (fun _ l _ r => (l = r ∧ G.Inside l) ∧
        l.reader.weight = s.reader.weight ∧ r.reader.weight = s.reader.weight)
      (reading (Reading.report ⟨c, p⟩) s) (reading (Reading.report ⟨c, p⟩) s) := by
  have reported := ends_reading_of h (Guard.ends_report known place h.reader)
  refine reported.imp fun _ l _ r _ _ ended => ?_
  obtain ⟨-, rfl, q, ⟨readers, -, weight⟩, rfl⟩ := ended
  exact ⟨⟨rfl, readers, h.functions⟩, weight, weight⟩

theorem inside_endGroup (h : G.Inside s) : G.Inside (after endGroup s) := by
  rcases after_endGroup s with kept | cleared
  · rw [kept]
    exact h
  · rw [cleared]
    exact ⟨G.note rfl (fun f captured => by cases captured) h.reader, h.functions⟩

end Link

/-- The link with the same tokens and the same causes on both sides. -/
def pairing (G : Guard) : Pairing where
  toLink := G.link
  tokens t u := t = u ∧ G.tokens t
  causes c c' := c = c' ∧ c.Known
  keeps := G.keeps_link
  alike := by
    intro t u same
    obtain ⟨rfl, -⟩ := same
    exact Or.inl ⟨rfl, rfl⟩
  known ofRules := ⟨rfl, ofRules.known⟩
  missingExpression := by
    intro t u same
    obtain ⟨rfl, -⟩ := same
    exact ⟨rfl, by simp [Cause.Known]⟩
  openGroup := by
    intro t u same
    obtain ⟨rfl, -⟩ := same
    exact ⟨rfl, by simp [Cause.Known]⟩
  numeral same number unread := ⟨rfl, G.numeral same.2 number unread⟩
  undefined := by
    intro t u same
    obtain ⟨rfl, token⟩ := same
    exact ⟨rfl, G.undefined token⟩
  bindings same := by rw [same.1]
  next := by
    intro l r same
    obtain ⟨rfl, h⟩ := same
    refine (link_next h).imp fun t l' u r' _ _ ended => ?_
    obtain ⟨⟨rfl, token⟩, ⟨rfl, inside⟩, pushed, -, -⟩ := ended
    exact ⟨⟨rfl, token⟩, ⟨rfl, pushed⟩, fun _ => ⟨rfl, inside⟩⟩
  report := by
    intro l r t u c c' token same cause
    obtain ⟨rfl, token⟩ := token
    obtain ⟨rfl, h⟩ := same
    obtain ⟨rfl, known⟩ := cause
    exact link_report known (G.place token) h
  endGroup := by
    intro l r same
    obtain ⟨rfl, h⟩ := same
    exact ⟨rfl, inside_endGroup h⟩

variable {G : Guard} {s : Session}

/-- A literal is kept among those within the guard. -/
theorem Inside.define {f : FunctionLiteral} (h : G.Inside s) (literal : G.literals f) :
    G.Inside (after (define f) s) := by
  refine ⟨h.reader, fun g hg => ?_⟩
  rcases Table.mem_values_bind hg with rfl | hg
  · exact literal
  · exact h.functions g hg

/-- **Turns.** Behind its first token a turn stays within the guard, and what it leaves weighs no
more than what came behind that token. -/
theorem ends_turn {t : Token} (inside : G.Inside s) (calm : G.calm s.reader.pending)
    (pushed : G.Inside (s.push t)) (token : G.tokens t) (last : t.kind ≠ .endOfInput) :
    G.pairing.Ends (G.pairing.Same s.reader.weight s.reader.weight) (turn t s) (turn t s) := by
  by_cases line : t.kind = .endOfLine
  · rw [turn, if_pos line]
    exact ends_pure _ ⟨⟨rfl, inside⟩, Nat.le_refl _, Nat.le_refl _⟩
  by_cases declaration : t.kind = .functionDeclaration
  · rw [turn, if_neg line, if_pos declaration]
    have literal := ends_functionLiteral ⟨inside.reader, calm⟩
    refine Link.Ends.bind (ends_reading_of inside literal) G.pairing.keeps
      fun f l _ r ended => ?_
    obtain ⟨rfl, rfl, q, ⟨literal, between, lighter⟩, rfl⟩ := ended
    have kept : G.Inside { s with reader := q } := ⟨between.readers, inside.functions⟩
    exact .ok ⟨rfl, ⟨rfl, kept.define literal⟩, lighter, lighter⟩
  have ongoing := TokenKind.inside_iff.2 ⟨last, line⟩
  exact ends_turn_of_inside (P := G.pairing) ⟨rfl, token⟩ ⟨rfl, inside⟩ ⟨rfl, pushed⟩ ongoing
    declaration

/-- The same values in the same session, which is within the guard and has been reached by taking
an end of the input within it. -/
def Finished (G : Guard) (values : List Value) (l : Session) (values' : List Value) (r : Session) :
    Prop :=
  values = values' ∧ G.pairing.states l r ∧
    ∃ u t, G.Inside u ∧ next u = .ok t l ∧ t.kind = .endOfInput

/-- **Statements.** Whatever the fuel, if it is enough, they end alike and within the guard. -/
theorem ends_statements {n m : Nat} (h : G.Inside s) (hn : s.reader.weight < n)
    (hm : s.reader.weight < m) :
    G.pairing.Ends G.Finished (statements n s) (statements m s) := by
  induction n generalizing m s with
  | zero => exact absurd hn (Nat.not_lt_zero _)
  | succ n ih =>
    obtain ⟨m, rfl⟩ : ∃ k, m = k + 1 := ⟨m - 1, by omega⟩
    rw [statements_of_turn, statements_of_turn]
    refine Link.Ends.bind ((link_next h).imp fun t l u r ran _ ended =>
      And.intro ran ended) G.pairing.keeps fun t l u r ended => ?_
    obtain ⟨taken, ⟨rfl, token⟩, ⟨rfl, inside⟩, pushed, calm, -⟩ := ended
    by_cases last : t.kind = .endOfInput
    · rw [if_pos last, if_pos last]
      exact .ok ⟨rfl, ⟨rfl, inside⟩, s, t, h, taken, last⟩
    rw [if_neg last, if_neg last]
    have lighter := weight_lt_of_next taken last
    refine (ends_turn inside calm pushed token last).bind G.pairing.keeps
      fun front l₁ _ r₁ ended => ?_
    obtain ⟨rfl, ⟨rfl, inside₁⟩, less, -⟩ := ended
    refine (ih inside₁ (by omega) (by omega)).bind G.pairing.keeps fun values l₂ _ r₂ ended => ?_
    obtain ⟨rfl, finished⟩ := ended
    exact .ok ⟨rfl, finished⟩

/-- **Runs.** They end within the guard. -/
theorem ends_evaluateAll (h : G.Inside s) :
    G.pairing.Ends G.Finished (evaluateAll s) (evaluateAll s) :=
  ends_statements h s.reader.weight_lt_budget s.reader.weight_lt_budget

/-- A run that keeps up with itself and is not lost ends within the guard. -/
theorem meets_of_ends {α : Type} {o : Outcome Session α} {Q : α → Session → α → Session → Prop}
    (ends : G.pairing.Ends Q o o) (kept : ¬ G.lost o.state.reader.cursor) :
    Meets (fun fault t => G.faults fault ∧ G.Inside t) (fun x t => Q x t x t) o := by
  cases o with
  | ok x t =>
    cases ends with
    | ok hq => exact .ok hq
    | lost lost => exact absurd lost kept
  | error fault t =>
    cases ends with
    | error faults states => exact .error ⟨faults.2, states.2⟩
    | lost lost => exact absurd lost kept

end Guard

end Reckoner
