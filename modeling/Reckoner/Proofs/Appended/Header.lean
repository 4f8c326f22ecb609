import Reckoner.Proofs.Actions
import Reckoner.Proofs.Appended.Tokens

/-!
# Function literals with more text behind

A function literal is read alike from a text and from the text with a tail behind, unless its
header is found malformed. Only in the parameter list does the end of the text make a
difference that is not reported at once: there the list just ends, and it is the closing
parenthesis that is then missing. Until then such a run counts as lost too.

* `Appended.ends_functionLiteral`
-/

namespace Reckoner

open Reckoner.Text

namespace Appended

variable {behind : Option (List Char)} {history : List DiagnosticKind} {l r : Reader}

/-- The same result, and both readers stand between the same two tokens. -/
def Stays (behind : Option (List Char)) (history : List DiagnosticKind) {α : Type} (x : α)
    (l : Reader) (y : α) (r : Reader) : Prop :=
  x = y ∧ Between behind history l r

/-! ### Parts of a header -/

theorem ends_takeWhile (h : Between behind history l r) {test : Char → Bool}
    (hs : behind ≠ none → test ';' = false) :
    (link behind history).Ends (Stays behind history) (Reading.takeWhile test l)
      (Reading.takeWhile test r) := by
  have run (q : Reader) : Reading.takeWhile test q =
      .ok (q.cursor.rest.takeWhile test) (q.advance (q.cursor.rest.takeWhile test).length) := rfl
  have same : r.cursor.rest.takeWhile test = l.cursor.rest.takeWhile test := by
    rw [h.text, takeWhile_append_tailOf hs]
  rw [run, run, same]
  exact .ok ⟨rfl, h.advance (List.takeWhile_prefix _).length_le⟩

theorem ends_skipBlanks (h : Between behind history l r) :
    (link behind history).Ends (Stays behind history) (Reading.skipBlanks l)
      (Reading.skipBlanks r) :=
  .ok ⟨rfl, h.pastBlanks⟩

theorem ends_word (h : Between behind history l r) :
    (link behind history).Ends (Stays behind history) (Reading.word l) (Reading.word r) := by
  refine (ends_takeWhile h fun _ => by decide).bind keeps_link fun x l' _ r' ended => ?_
  obtain ⟨rfl, h'⟩ := ended
  exact .ok ⟨rfl, h'⟩

theorem ends_reportHere (h : Between behind history l r) (c : Cause) :
    (link behind history).Ends (Stays behind history) (Reading.reportHere c l)
      (Reading.reportHere c r) :=
  (between_reportHere h c).imp fun _ _ _ _ _ _ behind => ⟨rfl, behind⟩

/-- A sign other than a semicolon is passed in both texts or in neither. -/
theorem ends_skip (h : Between behind history l r) {c : Char}
    (head : l.cursor.rest.head? = some c) :
    (link behind history).Ends (Stays behind history) (Reading.skip 1 l) (Reading.skip 1 r) := by
  refine .ok ⟨rfl, h.advance ?_⟩
  cases text : l.cursor.rest with
  | nil => rw [text] at head; cases head
  | cons d rest => exact Nat.succ_le_succ (Nat.zero_le _)

theorem ends_functionName (h : Between behind history l r) :
    (link behind history).Ends (Stays behind history) (Reading.functionName l)
      (Reading.functionName r) := by
  refine (ends_skipBlanks h).bind keeps_link fun _ l₁ _ r₁ ended => ?_
  obtain ⟨_, h₁⟩ := ended
  have required : (link behind history).Ends (Stays behind history) (Reading.requireName l₁)
      (Reading.requireName r₁) := by
    have noLetter : isLetter ';' = false := by decide
    have same := any_head?_append_tailOf behind noLetter l₁.cursor.rest
    rw [← h₁.text] at same
    exact .ite (by rw [same]) (fun _ => .ok ⟨rfl, h₁⟩) fun _ => ends_reportHere h₁ _
  exact required.bind keeps_link fun _ l₂ _ r₂ ended => ends_word ended.2

theorem ends_openParameters (h : Between behind history l r) :
    (link behind history).Ends (Stays behind history) (Reading.openParameters l)
      (Reading.openParameters r) := by
  refine (ends_skipBlanks h).bind keeps_link fun _ l₁ _ r₁ ended => ?_
  obtain ⟨_, h₁⟩ := ended
  have same := head?_append_tailOf_eq behind (show '(' ≠ ';' by decide) l₁.cursor.rest
  rw [← h₁.text] at same
  exact .ite same.symm (fun head => ends_skip h₁ head) fun _ => ends_reportHere h₁ _

theorem ends_passComma (h : Between behind history l r) :
    (link behind history).Ends (Stays behind history) (Reading.passComma l)
      (Reading.passComma r) := by
  refine (ends_skipBlanks h).bind keeps_link fun _ l₁ _ r₁ ended => ?_
  obtain ⟨_, h₁⟩ := ended
  have same := head?_append_tailOf_eq behind (show ',' ≠ ';' by decide) l₁.cursor.rest
  rw [← h₁.text] at same
  refine .ite same.symm (fun head => ?_) fun _ => .ok ⟨rfl, h₁⟩
  exact (ends_skip h₁ head).bind keeps_link fun _ l₂ _ r₂ ended => ends_skipBlanks ended.2

theorem ends_parameter (h : Between behind history l r) (first : Char) :
    (link behind history).Ends (Stays behind history) (Reading.parameter first l)
      (Reading.parameter first r) := by
  unfold Reading.parameter
  refine .ite Iff.rfl (fun _ => ?_) fun _ => ?_
  · refine (ends_word h).bind keeps_link fun x l' _ r' ended => ?_
    obtain ⟨rfl, h'⟩ := ended
    exact .ok ⟨rfl, h'⟩
  · cases behind with
    | none =>
      refine (ends_reportHere h _).bind keeps_link fun _ l₁ _ r₁ ended => ?_
      obtain ⟨_, h₁⟩ := ended
      refine (ends_takeWhile h₁ fun apart => absurd rfl apart).bind keeps_link
        fun _ l₂ _ r₂ ended => .ok ⟨rfl, ended.2⟩
    | some text => exact .lost ((lost_reportHere l (Or.inr rfl) (by simp)).bind keeps_link)

/-! ### Parameter lists -/

/-- Inside a parameter list a run is lost also where the left text has ended. -/
def openList (behind : Option (List Char)) (fault : Option Fault) (r : Reader) : Prop :=
  behind ≠ none ∧ (fault ≠ none ∨ r.journal.Tells ∨ r.cursor.rest = [])

theorem openList_of_lost {fault : Option Fault} {r : Reader}
    (h : (link behind history).lost fault r) : openList behind fault r :=
  ⟨h.1, h.2.imp_right Or.inl⟩

theorem keeps_openList :
    ((link behind history).losing (openList behind)).Keeps Reading.Step := by
  intro α a r composed lost
  have grown := (Reading.grows composed).collected r
  have suffix := Reading.rest_suffix composed r
  cases run : a r with
  | error fault q => exact ⟨lost.1, Or.inl (by simp)⟩
  | ok x q =>
    rw [after_of_ok run] at grown suffix
    refine ⟨lost.1, Or.inr ?_⟩
    rcases lost.2.resolve_left fun h => h rfl with tells | ended
    · exact Or.inl (tells_mono grown tells)
    · rw [ended] at suffix
      exact Or.inr (List.suffix_nil.1 suffix)

theorem ends_parameters {n m : Nat} (more : n ≤ m) (alone : behind = none → n = m)
    (h : Between behind history l r) :
    ((link behind history).losing (openList behind)).Ends (Stays behind history)
      (Reading.parameters n l) (Reading.parameters m r) := by
  induction n generalizing m l r with
  | zero =>
    cases behind with
    | none => cases alone rfl; exact .error (.same _) (.between h)
    | some text => exact .lost ⟨by simp, Or.inl (by simp)⟩
  | succ n ih =>
    obtain ⟨m, rfl⟩ : ∃ k, m = k + 1 := ⟨m - 1, by omega⟩
    have text := h.text
    cases rest : l.cursor.rest with
    | nil =>
      rw [Reading.parameters_of_end n rest]
      cases behind with
      | none =>
        rw [rest] at text
        rw [Reading.parameters_of_end m text]
        exact .ok ⟨rfl, h⟩
      | some more => exact .lost ⟨by simp, Or.inr (Or.inr rest)⟩
    | cons c cs =>
      rw [rest] at text
      by_cases closing : c = ')'
      · subst closing
        rw [Reading.parameters_of_closing n rest, Reading.parameters_of_closing m text]
        exact .ok ⟨rfl, h⟩
      rw [Reading.parameters_of_other n rest closing, Reading.parameters_of_other m text closing]
      refine ((ends_parameter h c).weaken fun _ _ => openList_of_lost).bind keeps_openList
        fun found l₁ _ r₁ ended => ?_
      obtain ⟨rfl, h₁⟩ := ended
      refine ((ends_passComma h₁).weaken fun _ _ => openList_of_lost).bind keeps_openList
        fun _ l₂ _ r₂ ended => ?_
      obtain ⟨_, h₂⟩ := ended
      refine (ih (Nat.le_of_succ_le_succ more) (fun a => Nat.succ.inj (alone a)) h₂).bind
        keeps_openList fun names l₃ _ r₃ ended => ?_
      obtain ⟨rfl, h₃⟩ := ended
      exact .ok ⟨rfl, h₃⟩

theorem ends_closeParameters (h : Between behind history l r) :
    (link behind history).Ends (Stays behind history) (Reading.closeParameters l)
      (Reading.closeParameters r) := by
  have text := h.text
  unfold Reading.closeParameters
  cases rest : l.cursor.rest with
  | nil =>
    rw [bind_of_ok (Reading.peek?_of_nil rest)]
    cases behind with
    | none =>
      rw [rest] at text
      rw [bind_of_ok (Reading.peek?_of_nil text)]
      exact ends_reportHere h _
    | some more => exact .lost (lost_reportHere l (Or.inr rfl) (by simp))
  | cons c cs =>
    rw [rest] at text
    rw [bind_of_ok (Reading.peek?_of_cons rest), bind_of_ok (Reading.peek?_of_cons text)]
    exact ends_skip h (by rw [rest]; rfl)

theorem lost_closeParameters {r : Reader} (lost : openList behind none r) :
    (link behind history).Lost (Reading.closeParameters r) := by
  rcases lost.2.resolve_left fun h => h rfl with tells | ended
  · exact keeps_link inferInstance ⟨lost.1, Or.inr tells⟩
  · unfold Reading.closeParameters
    rw [bind_of_ok (Reading.peek?_of_nil ended)]
    exact lost_reportHere r (Or.inr rfl) lost.1

/-- The budgets of the two readers. -/
theorem Between.budget_le (h : Between behind history l r) :
    l.budget ≤ r.budget ∧ (behind = none → l.budget = r.budget) := by
  have left : l.budget = l.cursor.rest.length + 0 + 1 := by rw [Reader.budget, h.left]; rfl
  have right : r.budget = (l.cursor.rest ++ tailOf behind).length + 0 + 1 := by
    rw [Reader.budget, h.right, h.text]
    rfl
  rw [List.length_append] at right
  refine ⟨by omega, ?_⟩
  rintro rfl
  rw [left, right]
  rfl

theorem ends_parameterList (h : Between behind history l r) :
    (link behind history).Ends (Stays behind history) (Reading.parameterList l)
      (Reading.parameterList r) := by
  refine (ends_skipBlanks h).bind keeps_link fun _ l₁ _ r₁ ended => ?_
  obtain ⟨_, h₁⟩ := ended
  show (link behind history).Ends _
    ((Reading.parameters l₁.budget >>= fun names =>
      Reading.closeParameters >>= fun _ => pure names) l₁)
    ((Reading.parameters r₁.budget >>= fun names =>
      Reading.closeParameters >>= fun _ => pure names) r₁)
  refine (ends_parameters h₁.budget_le.1 h₁.budget_le.2 h₁).bind_of
    (fun names l₂ _ r₂ ended => ?_) (fun _ _ _ _ hf hs => .error hf hs)
    (fun names s _ lost => .lost ((lost_closeParameters lost).bind keeps_link))
    fun fault s _ lost => .lost ⟨lost.1, Or.inl (by simp)⟩
  obtain ⟨rfl, h₂⟩ := ended
  exact (ends_closeParameters h₂).bind keeps_link fun _ l₃ _ r₃ ended => .ok ⟨rfl, ended.2⟩

/-! ### The whole literal -/

/-- A tail does not make an arrow. -/
theorem arrow_of_append_tailOf {cs rest : List Char}
    (h : cs ++ tailOf behind = '=' :: '>' :: rest) : ∃ rest', cs = '=' :: '>' :: rest' := by
  match cs with
  | [] => cases behind <;> cases h
  | [c] => cases behind <;> cases h
  | c :: d :: more => cases h; exact ⟨more, rfl⟩

theorem ends_requireLink (h : Between behind history l r) :
    (link behind history).Ends (Stays behind history) (Reading.requireLink l)
      (Reading.requireLink r) := by
  have hb := h.pastBlanks
  by_cases arrow : ∃ rest, l.pastBlanks.cursor.rest = '=' :: '>' :: rest
  · obtain ⟨rest, left⟩ := arrow
    have right := hb.text
    rw [left] at right
    rw [Reading.requireLink_of_arrow left, Reading.requireLink_of_arrow right]
    refine .ok ⟨rfl, hb.advance ?_⟩
    rw [left]
    exact Nat.le_add_left 2 _
  · have left : ∀ rest, l.pastBlanks.cursor.rest ≠ '=' :: '>' :: rest :=
      fun rest same => arrow ⟨rest, same⟩
    have right : ∀ rest, r.pastBlanks.cursor.rest ≠ '=' :: '>' :: rest :=
      fun rest same => arrow (arrow_of_append_tailOf (hb.text.symm.trans same))
    rw [Reading.requireLink_of_other left, Reading.requireLink_of_other right]
    exact ends_reportHere hb _

/-- The same tokens have been read, up to the end of a statement or of the text. -/
def Through (behind : Option (List Char)) (history : List DiagnosticKind) (l r : Reader) : Prop :=
  Between behind history l r ∨ Finished behind history l r

theorem ends_body {n m : Nat} (more : n ≤ m) (alone : behind = none → n = m)
    (h : Between behind history l r) :
    (link behind history).Ends
      (fun x l' y r' => x.1.map Token.bare = y.1.map Token.bare ∧ Through behind history l' r')
      (Reading.body n l) (Reading.body m r) := by
  induction n generalizing m l r with
  | zero =>
    cases behind with
    | none => cases alone rfl; exact .error (.same _) (.between h)
    | some text => exact .lost ⟨by simp, Or.inl (by simp)⟩
  | succ n ih =>
    obtain ⟨m, rfl⟩ : ∃ k, m = k + 1 := ⟨m - 1, by omega⟩
    refine (ends_next (.between h)).bind keeps_link fun t l₁ u r₁ pulled => ?_
    cases pulled with
    | inside ht kind text h₁ =>
      refine .ite (by rw [kind]) (fun _ => .ok ⟨rfl, Or.inl h₁⟩) fun _ => ?_
      refine (ih (Nat.le_of_succ_le_succ more) (fun a => Nat.succ.inj (alone a)) h₁).bind
        keeps_link fun x l₂ y r₂ ended => ?_
      obtain ⟨same, h₂⟩ := ended
      refine .ok ⟨?_, h₂⟩
      show t.bare :: x.1.map Token.bare = u.bare :: y.1.map Token.bare
      rw [same, Token.bare, Token.bare, kind, text]
    | last last h₁ =>
      have ends : t.kind.endsStatement = true ∧ u.kind.endsStatement = true := by
        cases behind with
        | none => rw [last.1, last.2.1]; exact ⟨rfl, rfl⟩
        | some text => rw [last.1, last.2]; exact ⟨rfl, rfl⟩
      rw [if_pos ends.1, if_pos ends.2]
      exact .ok ⟨rfl, Or.inr h₁⟩

end Appended

/-- A function literal without locations. -/
def FunctionLiteral.bare (f : FunctionLiteral) :
    String × List String × List (TokenKind × String) :=
  (f.name, f.parameters, f.body.map Token.bare)

namespace Appended

variable {behind : Option (List Char)} {history : List DiagnosticKind} {l r : Reader}

theorem Through.captured (h : Through behind history l r) (f g : FunctionLiteral) :
    Through behind history (l.note (.captured f)) (r.note (.captured g)) := by
  have noted {j k : Journal} (hj : Journals history j k) :
      Journals history (j.note (.captured f)) (k.note (.captured g)) := by
    refine ⟨hj.policy, ?_⟩
    unfold Journal.kinds
    rw [Journal.collected_note_captured, Journal.collected_note_captured]
    exact hj.kinds
  rcases h with h | h
  · exact Or.inl ⟨h.left, h.right, h.text, noted h.journals⟩
  · exact Or.inr ⟨h.left, h.right, h.nothing, h.text, noted h.journals⟩

/-- Behind the same heading literals are the same but for the locations. -/
theorem ends_literalFrom (h : Between behind history l r) (heading : String × List String) :
    (link behind history).Ends (fun f l' g r' => f.bare = g.bare ∧ Through behind history l' r')
      (Reading.literalFrom heading l) (Reading.literalFrom heading r) := by
  refine Link.Ends.bind (a := Reading.body l.budget) (b := Reading.body r.budget)
    (ends_body h.budget_le.1 h.budget_le.2 h) keeps_link fun x l' y r' ended => ?_
  obtain ⟨same, h'⟩ := ended
  refine .ok ⟨?_, h'.captured _ _⟩
  show (FunctionLiteral.capture heading.1 heading.2 x.1 x.2).bare =
    (FunctionLiteral.capture heading.1 heading.2 y.1 y.2).bare
  unfold FunctionLiteral.bare FunctionLiteral.capture
  rw [List.map_append, List.map_append, same]
  rfl

/-- **Function literals.** They are the same but for the locations. -/
theorem ends_functionLiteral (h : Between behind history l r) :
    (link behind history).Ends (fun f l' g r' => f.bare = g.bare ∧ Through behind history l' r')
      (Reading.functionLiteral l) (Reading.functionLiteral r) := by
  refine (ends_functionName h).bind keeps_link fun name l₁ _ r₁ ended => ?_
  obtain ⟨rfl, h₁⟩ := ended
  refine (ends_openParameters h₁).bind keeps_link fun _ l₂ _ r₂ ended => ?_
  obtain ⟨_, h₂⟩ := ended
  refine (ends_parameterList h₂).bind keeps_link fun names l₃ _ r₃ ended => ?_
  obtain ⟨rfl, h₃⟩ := ended
  refine (ends_requireLink h₃).bind keeps_link fun _ l₄ _ r₄ ended => ?_
  exact ends_literalFrom ended.2 (name, names)

end Appended

end Reckoner
