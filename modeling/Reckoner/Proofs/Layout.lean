import Reckoner.Proofs.Appended.Tokens
import Reckoner.Proofs.Lexing.Decomposition
import Reckoner.Proofs.Moves
import Reckoner.Proofs.Turns

/-!
# Layout

Blanks, newlines and the name of a source move tokens about and do nothing else. Two sources
that are made of the same lexemes, none of which announces a function literal, have the same
values or the same error, the same errors are collected on the way, and the same variables are
left; only locations differ.

The readers of two such runs have the same tokens pending, and the same lexemes before them in
the text. A literal would break this, as its header is read from the text by rules of its own.

* `Spells` — the lexemes of a text;
* `Layout.pairing`, `Layout.ends_statements`
* `Evaluating.evaluateAll_of_same_tokens`
-/

namespace Reckoner

open Reckoner.Text Evaluating

/-! ### The lexemes of a text -/

/-- The text consists of these lexemes, with blanks around them. -/
def Spells (cs : List Char) (ls : List Lexeme) : Prop :=
  ∃ pieces blanks, Splits cs pieces blanks ∧ (∀ c ∈ blanks, isBlank c = true) ∧
    pieces.map Piece.lexeme = ls

/-- The tokens that are made of lexemes and of the end of the input, but for their locations. -/
def bareTokens (ls : List Lexeme) : List (TokenKind × String) :=
  ls.map (fun l => (l.kind, String.ofList l.text)) ++ [(.endOfInput, "")]

theorem bareTokens_injective {ls ms : List Lexeme} (h : bareTokens ls = bareTokens ms) :
    ls = ms := by
  refine List.map_inj_right (fun l m same => ?_) |>.1 (List.append_cancel_right h)
  obtain ⟨kind, text⟩ := l
  obtain ⟨kind', text'⟩ := m
  obtain ⟨rfl, spelled⟩ := Prod.mk.inj same
  have chars : text = text' := String.ofList_injective spelled
  rw [chars]

theorem bare_tokensFrom (file : String) (place : Place) (pieces : List Piece) :
    (tokensFrom file place pieces).map Token.bare =
      pieces.map fun piece => (piece.lexeme.kind, String.ofList piece.lexeme.text) := by
  induction pieces generalizing place with
  | nil => rfl
  | cons piece pieces ih => exact congrArg _ (ih _)

theorem Halts.isBlank {rest passed : List Char} (h : Halts rest passed .ended) :
    ∀ c ∈ rest, Text.isBlank c = true := by
  cases h with
  | ended inside => exact inside

/-- A source that can be read to its end is spelled by the lexemes its tokens are made of. -/
theorem spells_of_tokens {source file : String} {ts : List Token} {q : Reader}
    (h : Reading.tokens (Reader.ofSource source file .raise) = .ok ts q) :
    ∃ ls, Spells source.toList ls ∧ ts.map Token.bare = bareTokens ls := by
  obtain ⟨-, pieces, blanks, splits, halts, rfl⟩ :=
    ((tokens_iff_splits source file).1 ts).1 ⟨q, h⟩
  refine ⟨pieces.map Piece.lexeme, ⟨pieces, blanks, splits, halts.isBlank, rfl⟩, ?_⟩
  rw [List.map_append, bare_tokensFrom, bareTokens, List.map_map]
  rfl

/-- **One lexeme.** Its token comes next, nothing is noted, and the other lexemes are left. -/
theorem next_of_spells {r : Reader} {ls : List Lexeme} (h : Spells r.cursor.rest ls)
    (empty : r.pending = []) :
    ∃ t q, Reading.next r = .ok t q ∧ (bareTokens ls).head? = some t.bare ∧ q.pending = [] ∧
      q.journal = r.journal ∧ Spells q.cursor.rest ls.tail := by
  obtain ⟨pieces, blanks, splits, inside, rfl⟩ := h
  generalize text : r.cursor.rest = cs at splits
  cases splits with
  | done =>
    have nothing : r.pastBlanks.cursor.rest = [] := by
      rw [Reader.rest_pastBlanks, text, List.dropWhile_eq_nil_iff]
      exact inside
    refine ⟨_, _, next_of_blanks inside empty text, rfl, empty, rfl, [], [], ?_, ?_, rfl⟩
    · rw [nothing]
      exact .done
    · exact fun c hc => absurd hc List.not_mem_nil
  | piece front longest splits =>
    obtain ⟨q, taken, behind⟩ := next_of_piece front longest empty text
    refine ⟨_, q, taken, rfl, behind.pending, behind.journal, _, blanks, ?_, inside, rfl⟩
    rw [behind.rest]
    exact splits

namespace Layout

/-! ### Readers -/

/-- The causes of the diagnostics collected so far. -/
def causes (j : Journal) : List Cause := j.collected.map Diagnostic.cause

/-- Readers with the same tokens pending and the same lexemes before them, and no function literal
among these. The same diagnostics have been collected. -/
structure Coupled (l r : Reader) : Prop where
  pending : l.pending.map Token.bare = r.pending.map Token.bare
  plain : ∀ t ∈ l.pending, t.kind ≠ .functionDeclaration
  text : ∃ ls, Spells l.cursor.rest ls ∧ Spells r.cursor.rest ls ∧
    ∀ x ∈ ls, x.kind ≠ .functionDeclaration
  policy : l.journal.policy = r.journal.policy
  causes : causes l.journal = causes r.journal

/-- The same token, which announces no function literal. -/
def Tokens (t u : Token) : Prop := t.bare = u.bare ∧ t.kind ≠ .functionDeclaration

theorem Tokens.kind {t u : Token} (h : Tokens t u) : t.kind = u.kind := congrArg Prod.fst h.1

theorem Tokens.text {t u : Token} (h : Tokens t u) : t.text = u.text := congrArg Prod.snd h.1

/-- The link of two readers. No run is lost. -/
def link : Link Reader where
  states := Coupled
  faults := Fault.Alike
  lost _ _ := False

section Readers

variable {l r : Reader} {t u : Token}

theorem Coupled.push (h : Coupled l r) (same : Tokens t u) : Coupled (l.push t) (r.push u) where
  pending := by
    show t.bare :: l.pending.map Token.bare = u.bare :: r.pending.map Token.bare
    rw [same.1, h.pending]
  plain := List.forall_mem_cons.2 ⟨same.2, h.plain⟩
  text := h.text
  policy := h.policy
  causes := h.causes

theorem Coupled.note (h : Coupled l r) {e f : Event}
    (same : ∀ j k : Journal, Layout.causes j = Layout.causes k →
      Layout.causes (j.note e) = Layout.causes (k.note f)) :
    Coupled (l.note e) (r.note f) :=
  ⟨h.pending, h.plain, h.text, h.policy, same _ _ h.causes⟩

theorem ends_next (h : Coupled l r) :
    link.Ends (fun t l' u r' => Tokens t u ∧ Coupled l' r') (Reading.next l) (Reading.next r) := by
  have pending := h.pending
  cases left : l.pending with
  | nil =>
    rw [left] at pending
    have right := List.map_eq_nil_iff.1 pending.symm
    obtain ⟨ls, spellsL, spellsR, plain⟩ := h.text
    obtain ⟨t, l', ranL, bareL, emptyL, journalL, restL⟩ := next_of_spells spellsL left
    obtain ⟨u, r', ranR, bareR, emptyR, journalR, restR⟩ := next_of_spells spellsR right
    have same : t.bare = u.bare := Option.some.inj (bareL.symm.trans bareR)
    have ordinary : t.kind ≠ .functionDeclaration := by
      cases ls with
      | nil =>
        have kind : TokenKind.endOfInput = t.kind := congrArg Prod.fst (Option.some.inj bareL)
        rw [← kind]
        simp
      | cons x ls =>
        have kind : x.kind = t.kind := congrArg Prod.fst (Option.some.inj bareL)
        exact kind ▸ plain x List.mem_cons_self
    rw [ranL, ranR]
    refine .ok ⟨⟨same, ordinary⟩, ?_, ?_, ⟨ls.tail, restL, restR, ?_⟩, ?_, ?_⟩
    · rw [emptyL, emptyR]
    · rw [emptyL]
      exact fun t ht => absurd ht List.not_mem_nil
    · exact fun x hx => plain x (List.mem_of_mem_tail hx)
    · rw [journalL, journalR, h.policy]
    · rw [journalL, journalR, h.causes]
  | cons t later =>
    rw [left] at pending
    obtain ⟨u, later', right, same, rest⟩ := List.map_eq_cons_iff.1 pending.symm
    have plain := h.plain
    rw [left] at plain
    obtain ⟨ordinary, plain⟩ := List.forall_mem_cons.1 plain
    rw [Reading.next_of_pending left, Reading.next_of_pending right]
    exact .ok ⟨⟨same.symm, ordinary⟩, rest.symm, plain, h.text, h.policy, h.causes⟩

end Readers

/-! ### Sessions -/

/-- Sessions with readers that correspond and with the same tables. -/
structure Same (l r : Session) : Prop where
  reader : Coupled l.reader r.reader
  bindings : l.bindings = r.bindings
  functions : l.functions = r.functions
  clearOnGroup : l.clearOnGroup = r.clearOnGroup

/-- The link of two sessions. -/
def sessions : Link Session where
  states := Same
  faults := Fault.Alike
  lost _ _ := False

section Sessions

variable {l r : Session} {t u : Token}

theorem Same.push (h : Same l r) (same : Tokens t u) : Same (l.push t) (r.push u) :=
  ⟨h.reader.push same, h.bindings, h.functions, h.clearOnGroup⟩

theorem keeps_sessions : sessions.Keeps Step :=
  fun _ lost => lost.elim

theorem link_next (h : Same l r) :
    sessions.Ends (fun t l' u r' => Tokens t u ∧ Same l' r') (next l) (next r) := by
  have kept {p q : Reader} (coupled : Coupled p q) :
      Same { l with reader := p } { r with reader := q } :=
    ⟨coupled, h.bindings, h.functions, h.clearOnGroup⟩
  refine (Link.Ends.reading (M := sessions) (ends_next h.reader) (fun _ _ => id)
    (fun _ _ => kept) fun _ _ => id).imp fun t l' u r' _ _ ended => ?_
  obtain ⟨p, q, rfl, rfl, same, coupled⟩ := ended
  exact ⟨same, kept coupled⟩

theorem causes_note_collected (j : Journal) (d : Diagnostic) :
    causes (j.note (.collected d)) = causes j ++ [d.cause] := by
  unfold causes
  rw [Journal.collected_note_collected, List.map_append]
  rfl

theorem causes_note_cleared (j : Journal) (n : Nat) : causes (j.note (.cleared n)) = causes j := by
  unfold causes
  rw [Journal.collected_note_cleared]

theorem link_report {c : Cause} {p q : Location} (h : Same l r) :
    sessions.Ends
      (fun _ l' _ r' => Same l' r' ∧ l'.reader.weight = l.reader.weight ∧
        r'.reader.weight = r.reader.weight)
      (reading (Reading.report ⟨c, p⟩) l) (reading (Reading.report ⟨c, q⟩) r) := by
  refine Link.ends_report h h.reader.policy (.moved c p q) ⟨?_, h.bindings, h.functions,
    h.clearOnGroup⟩
  refine h.reader.note fun j k same => ?_
  rw [causes_note_collected, causes_note_collected, same]

theorem same_endGroup (h : Same l r) : Same (after endGroup l) (after endGroup r) := by
  have cleared : Coupled (l.reader.note (.cleared l.bindings.length))
      (r.reader.note (.cleared r.bindings.length)) := by
    refine h.reader.note fun j k same => ?_
    rw [causes_note_cleared, causes_note_cleared, same]
  unfold after endGroup
  rw [← h.clearOnGroup]
  cases l.clearOnGroup with
  | false => exact h
  | true => exact ⟨cleared, rfl, h.functions, rfl⟩

/-- Sessions over texts with the same lexemes are a pairing. -/
def pairing : Pairing where
  toLink := sessions
  tokens := Tokens
  causes := Eq
  keeps := keeps_sessions
  alike h := Or.inl ⟨h.kind, h.text⟩
  known _ := rfl
  missingExpression h := by rw [h.kind, h.text]
  openGroup h := by rw [h.kind, h.text]
  numeral _ _ _ := .same _
  undefined _ := .moved _ _ _
  bindings h := h.bindings
  next h := (link_next h).imp fun _ _ _ _ _ _ ended =>
    ⟨ended.1, ended.2.push ended.1, fun _ => ended.2⟩
  report _ h hc := by
    subst hc
    exact link_report h
  endGroup := same_endGroup

/-- **Turns.** Behind tokens that correspond they add the same values, and what they leave weighs
no more than what came behind those tokens. -/
theorem ends_turn (h : Same l r) (same : Tokens t u) (last : t.kind ≠ .endOfInput) :
    pairing.Ends (pairing.Same l.reader.weight r.reader.weight) (turn t l) (turn u r) := by
  by_cases line : t.kind = .endOfLine
  · rw [turn, turn, if_pos line, if_pos (same.kind ▸ line)]
    exact ends_pure _ ⟨h, Nat.le_refl _, Nat.le_refl _⟩
  · have inside := TokenKind.inside_iff.2 ⟨last, line⟩
    exact ends_turn_of_inside same h (h.push same) inside same.2

/-- **Statements.** Whatever the fuel of each, if it is enough, they end alike. -/
theorem ends_statements {n m : Nat} (h : Same l r) (hn : l.reader.weight < n)
    (hm : r.reader.weight < m) :
    pairing.Ends (fun values l' values' r' => values = values' ∧ Same l' r') (statements n l)
      (statements m r) := by
  induction n generalizing m l r with
  | zero => exact absurd hn (Nat.not_lt_zero _)
  | succ n ih =>
    obtain ⟨m, rfl⟩ : ∃ k, m = k + 1 := ⟨m - 1, by omega⟩
    rw [statements_of_turn, statements_of_turn]
    refine Link.Ends.bind ((link_next h).imp fun t l' u r' ranL ranR ended =>
      And.intro ranL (And.intro ranR ended)) pairing.keeps fun t l' u r' ended => ?_
    obtain ⟨ranL, ranR, same, h'⟩ := ended
    rw [← same.kind]
    by_cases last : t.kind = .endOfInput
    · rw [if_pos last, if_pos last]
      exact .ok ⟨rfl, h'⟩
    rw [if_neg last, if_neg last]
    have left := weight_lt_of_next ranL last
    have right := weight_lt_of_next ranR (same.kind ▸ last)
    refine (ends_turn h' same last).bind pairing.keeps fun front l₁ _ r₁ ended => ?_
    obtain ⟨rfl, h₁, less, less'⟩ := ended
    refine (ih h₁ (by omega) (by omega)).bind pairing.keeps fun values l₂ _ r₂ ended => ?_
    obtain ⟨rfl, h₂⟩ := ended
    exact .ok ⟨rfl, h₂⟩

end Sessions

end Layout

/-- The same result, or faults that differ at most in their locations. -/
inductive Outcome.Alike {σ α : Type} : Outcome σ α → Outcome σ α → Prop
  | ok {x : α} {s t : σ} : Alike (.ok x s) (.ok x t)
  | error {f g : Fault} {s t : σ} : f.Alike g → Alike (.error f s) (.error g t)

namespace Evaluating

open Layout

/-- **Layout has no effect.** Let two sources have the same tokens but for locations, and no
function literal among them. Whatever the policy, the variables and what groups do, the runs over
both return the same values or end with the same fault at some location; the same causes are
collected in the same order, and the same variables are left. -/
theorem evaluateAll_of_same_tokens {source other file name : String} {ts us : List Token}
    {q z : Reader} (first : Reading.tokens (Reader.ofSource source file .raise) = .ok ts q)
    (second : Reading.tokens (Reader.ofSource other name .raise) = .ok us z)
    (same : ts.map Token.bare = us.map Token.bare)
    (plain : ∀ t ∈ ts, t.kind ≠ .functionDeclaration) (policy : Policy) (clearOnGroup : Bool)
    (bindings : Table Value) :
    let s := Session.ofSource source file policy clearOnGroup bindings
    let s' := Session.ofSource other name policy clearOnGroup bindings
    Outcome.Alike (evaluateAll s) (evaluateAll s') ∧
      (after evaluateAll s).collected.map Diagnostic.cause =
        (after evaluateAll s').collected.map Diagnostic.cause ∧
      (after evaluateAll s).bindings = (after evaluateAll s').bindings := by
  intro s s'
  obtain ⟨ls, spells, bare⟩ := spells_of_tokens first
  obtain ⟨ms, spells', bare'⟩ := spells_of_tokens second
  obtain rfl := bareTokens_injective (bare.symm.trans (same.trans bare'))
  have ordinary : ∀ x ∈ ls, x.kind ≠ .functionDeclaration := by
    intro x hx
    have listed : (x.kind, String.ofList x.text) ∈ ts.map Token.bare := by
      rw [bare]
      exact List.mem_append_left _ (List.mem_map_of_mem hx)
    obtain ⟨t, ht, made⟩ := List.mem_map.1 listed
    rw [← show t.kind = x.kind from congrArg Prod.fst made]
    exact plain t ht
  have start : Same s s' :=
    ⟨⟨rfl, fun t ht => absurd ht List.not_mem_nil, ⟨ls, spells, spells', ordinary⟩, rfl, rfl⟩,
      rfl, rfl, rfl⟩
  have runs := ends_statements start s.reader.weight_lt_budget s'.reader.weight_lt_budget
  rw [← evaluateAll_eq, ← evaluateAll_eq] at runs
  unfold after
  revert runs
  generalize evaluateAll s = o
  generalize evaluateAll s' = p
  intro runs
  cases runs with
  | ok ended =>
    obtain ⟨rfl, h⟩ := ended
    exact ⟨.ok, h.reader.causes, h.bindings⟩
  | error faults h => exact ⟨.error faults, h.reader.causes, h.bindings⟩
  | lost lost => cases o <;> exact lost.elim

/-- The theorem at a sum over two lines and a group without its end, once in a file of its own
and once on one line. -/
theorem evaluateAll_of_same_tokens_two_lines :
    let s := Session.ofSource "1 +\n  x; (\"a\" y" "in" .collect true [("x", .number 2)]
    let s' := Session.ofSource "1+x;(\"a\"y" "out" .collect true [("x", .number 2)]
    ∃ ts q, Reading.tokens (Reader.ofSource "1 +\n  x; (\"a\" y" "in" .raise) = .ok ts q ∧
      ∃ us z, Reading.tokens (Reader.ofSource "1+x;(\"a\"y" "out" .raise) = .ok us z ∧
        ts.map Token.bare = us.map Token.bare ∧ (∀ t ∈ ts, t.kind ≠ .functionDeclaration) ∧
        Outcome.Alike (evaluateAll s) (evaluateAll s') ∧
        (after evaluateAll s).collected.map Diagnostic.cause =
          (after evaluateAll s').collected.map Diagnostic.cause ∧
        (after evaluateAll s).bindings = (after evaluateAll s').bindings := by
  intro s s'
  have read : ∃ ts q, Reading.tokens (Reader.ofSource "1 +\n  x; (\"a\" y" "in" .raise) = .ok ts q ∧
      ∃ us z, Reading.tokens (Reader.ofSource "1+x;(\"a\"y" "out" .raise) = .ok us z ∧
        ts.map Token.bare = us.map Token.bare ∧ ∀ t ∈ ts, t.kind ≠ .functionDeclaration := by
    decide +kernel
  obtain ⟨ts, q, first, us, z, second, same, plain⟩ := read
  exact ⟨ts, q, first, us, z, second, same, plain,
    evaluateAll_of_same_tokens first second same plain .collect true [("x", .number 2)]⟩

end Evaluating

end Reckoner
