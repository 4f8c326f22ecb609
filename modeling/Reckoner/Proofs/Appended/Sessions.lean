import Reckoner.Proofs.Appended.Header
import Reckoner.Proofs.Statements

/-!
# Sessions with more text behind

Two sessions correspond if their readers do and their tables are the same but for the locations
in function bodies. This makes a pairing, so that the rules of the grammar run alike in both.

* `Appended.pairing`
* `Appended.ends_next`, `Appended.ends_functionLiteral` for sessions
-/

namespace Reckoner

/-- A table of function literals without locations. -/
def bareFunctions (table : Table FunctionLiteral) :
    Table (String × List String × List (TokenKind × String)) :=
  table.map fun entry => (entry.1, entry.2.bare)

theorem bareFunctions_bind (table : Table FunctionLiteral) (name : String) (f : FunctionLiteral) :
    bareFunctions (table.bind name f) = (bareFunctions table).bind name f.bare := by
  induction table with
  | nil => rfl
  | cons entry rest ih =>
    obtain ⟨other, old⟩ := entry
    show bareFunctions (if other = name then (name, f) :: rest
        else (other, old) :: Table.bind rest name f) =
      if other = name then (name, f.bare) :: bareFunctions rest
      else (other, old.bare) :: (bareFunctions rest).bind name f.bare
    rw [← ih]
    split <;> rfl

namespace Appended

/-- The same variables and, but for locations, the same functions. -/
structure Tables (l r : Session) : Prop where
  bindings : l.bindings = r.bindings
  functions : bareFunctions l.functions = bareFunctions r.functions
  clearOnGroup : l.clearOnGroup = r.clearOnGroup

/-- The link of two sessions. -/
def sessions (behind : Option (List Char)) (history : List DiagnosticKind) : Link Session where
  states l r := Coupled behind history l.reader r.reader ∧ Tables l r
  faults := Fault.Alike
  lost fault s := (link behind history).lost fault s.reader

variable {behind : Option (List Char)} {history : List DiagnosticKind} {l r : Session}

theorem keeps_sessions : (sessions behind history).Keeps Evaluating.Step := by
  intro α a s composed lost
  have grown := (Evaluating.grows composed).collected s
  cases run : a s with
  | ok x t =>
    rw [after_of_ok run] at grown
    refine ⟨lost.1, Or.inr (tells_mono grown ?_)⟩
    exact lost.2.resolve_left fun h => h rfl
  | error fault t => exact ⟨lost.1, Or.inl (by simp)⟩

/-- Actions of the readers leave the tables alone. -/
theorem ends_reading {α β : Type} {Q : α → Reader → β → Reader → Prop} {a : Reading α}
    {b : Reading β} (tables : Tables l r)
    (h : (link behind history).Ends Q (a l.reader) (b r.reader)) :
    (sessions behind history).Ends
      (fun x l' y r' => Q x l'.reader y r'.reader ∧ Tables l' r')
      (Evaluating.reading a l) (Evaluating.reading b r) := by
  have kept (p q : Reader) : Tables { l with reader := p } { r with reader := q } :=
    ⟨tables.bindings, tables.functions, tables.clearOnGroup⟩
  refine (Link.Ends.reading (M := sessions behind history) h (fun _ _ => id)
    (fun p q coupled => ⟨coupled, kept p q⟩) fun _ _ => id).imp fun x l' y r' _ _ ended => ?_
  obtain ⟨p, q, rfl, rfl, hq⟩ := ended
  exact ⟨hq, kept p q⟩

theorem Coupled.journals {p q : Reader} (h : Coupled behind history p q) :
    Journals history p.journal q.journal := by
  cases h with
  | between h => exact h.journals
  | held h _ _ _ => exact h.journals
  | ended h _ => exact h.journals

/-- Both journals note something. -/
theorem Coupled.note {p q : Reader} (h : Coupled behind history p q) {e f : Event}
    (noted : ∀ {j k : Journal}, Journals history j k → Journals history (j.note e) (k.note f)) :
    Coupled behind history (p.note e) (q.note f) := by
  cases h with
  | between h => exact .between ⟨h.left, h.right, h.text, noted h.journals⟩
  | @held p q t u h ht kind text =>
    have later : Between behind history (p.note e) (q.note f) :=
      ⟨h.left, h.right, h.text, noted h.journals⟩
    exact .held later ht kind text
  | @ended p q t u h last =>
    have later : Finished behind history (p.note e) (q.note f) :=
      ⟨h.left, h.right, h.nothing, h.text, noted h.journals⟩
    exact .ended later last

theorem Pulled.pushed {p q : Reader} {t u : Token} (h : Pulled behind history t p u q) :
    Coupled behind history (p.push t) (q.push u) := by
  cases h with
  | inside ht kind text h => exact .held h ht kind text
  | last last h => exact .ended h last

/-- Causes of the same kind; on the left they may name the end of the input. -/
def Causes (behind : Option (List Char)) (c c' : Cause) : Prop :=
  c = c' ∨ behind ≠ none ∧ c.kind = c'.kind

def Tokens (behind : Option (List Char)) (t u : Token) : Prop :=
  t.kind = u.kind ∧ t.text = u.text ∨ Last behind t u

theorem Pulled.tokens {p q : Reader} {t u : Token} (h : Pulled behind history t p u q) :
    Tokens behind t u := by
  cases h with
  | inside ht kind text h => exact Or.inl ⟨kind, text⟩
  | last last h => exact Or.inr last

theorem Last.kind {t u : Token} (h : Last behind t u) : t.kind = .endOfInput := by
  cases behind with
  | none => exact h.1
  | some more => exact h.1

theorem Pulled.between {p q : Reader} {t u : Token} (h : Pulled behind history t p u q)
    (inside : t.kind.endsStatement = false) : Between behind history p q := by
  cases h with
  | inside ht kind text h => exact h
  | last last h =>
    rw [last.kind] at inside
    cases inside

theorem causes_of_tokens {t u : Token} (h : Tokens behind t u)
    (cause : TokenKind → String → Cause)
    (same : ∀ kind text kind' text', (cause kind text).kind = (cause kind' text').kind) :
    Causes behind (cause t.kind t.text) (cause u.kind u.text) := by
  rcases h with ⟨kind, text⟩ | last
  · exact Or.inl (by rw [kind, text])
  · cases behind with
    | none => exact Or.inl (by rw [last.1, last.2.1, last.2.2])
    | some more => exact Or.inr ⟨by simp, same _ _ _ _⟩

theorem ends_report {c c' : Cause} (p q : Location) (states : (sessions behind history).states l r)
    (h : Causes behind c c') :
    (sessions behind history).Ends
      (fun _ l' _ r' => (sessions behind history).states l' r' ∧
        l'.reader.weight = l.reader.weight ∧ r'.reader.weight = r.reader.weight)
      (Evaluating.reading (Reading.report ⟨c, p⟩) l)
      (Evaluating.reading (Reading.report ⟨c', q⟩) r) := by
  obtain ⟨coupled, tables⟩ := states
  have policies := coupled.journals.policy
  cases policy : l.reader.journal.policy with
  | raise =>
    have left := Evaluating.reading_of_error (Reading.report_of_raise ⟨c, p⟩ policy)
    have right := Evaluating.reading_of_error
      (Reading.report_of_raise ⟨c', q⟩ (policies.symm.trans policy))
    rw [left, right]
    rcases h with rfl | ⟨followed, -⟩
    · exact .error (.moved c p q) ⟨coupled, tables⟩
    · exact .lost ⟨followed, Or.inl (by simp)⟩
  | collect =>
    have left := Evaluating.reading_of_ok (Reading.report_of_collect ⟨c, p⟩ policy)
    have right := Evaluating.reading_of_ok
      (Reading.report_of_collect ⟨c', q⟩ (policies.symm.trans policy))
    rw [left, right]
    have kind : c.kind = c'.kind := h.elim (congrArg Cause.kind) And.right
    exact .ok ⟨⟨coupled.note fun hj => hj.note kind, tables.1, tables.2, tables.3⟩, rfl, rfl⟩

theorem states_endGroup (h : (sessions behind history).states l r) :
    (sessions behind history).states (after Evaluating.endGroup l)
      (after Evaluating.endGroup r) := by
  obtain ⟨coupled, tables⟩ := h
  unfold after Evaluating.endGroup
  rw [← tables.clearOnGroup]
  cases l.clearOnGroup with
  | false => exact ⟨coupled, tables⟩
  | true =>
    refine ⟨coupled.note fun {j k} hj => ⟨hj.policy, ?_⟩, rfl, tables.functions, rfl⟩
    unfold Journal.kinds
    rw [Journal.collected_note_cleared, Journal.collected_note_cleared]
    exact hj.kinds

/-- Sessions with more text behind are a pairing. -/
def pairing (behind : Option (List Char)) (history : List DiagnosticKind) : Pairing where
  toLink := sessions behind history
  tokens := Tokens behind
  causes := Causes behind
  keeps := keeps_sessions
  alike h := by
    rcases h with same | last
    · exact Or.inl same
    · cases behind with
      | none => exact Or.inl ⟨last.1.trans last.2.1.symm, last.2.2⟩
      | some more => exact Or.inr (by rw [last.1, last.2]; exact ⟨rfl, rfl⟩)
  known _ := Or.inl rfl
  missingExpression h := causes_of_tokens h .missingExpression fun _ _ _ _ => rfl
  openGroup h := causes_of_tokens h .openGroup fun _ _ _ _ => rfl
  numeral _ _ _ := .same _
  undefined _ := .moved _ _ _
  bindings h := h.2.bindings
  next h := by
    refine (ends_reading h.2 (Appended.ends_next h.1)).imp fun t l' u r' _ _ ended => ?_
    obtain ⟨pulled, tables⟩ := ended
    refine ⟨pulled.tokens, ⟨pulled.pushed, tables.1, tables.2, tables.3⟩, fun inside => ?_⟩
    exact ⟨.between (pulled.between inside), tables⟩
  report _ states h := ends_report _ _ states h
  endGroup h := states_endGroup h

end Appended

end Reckoner
