import Reckoner.Proofs.Lexing.Foresight
import Reckoner.Proofs.Moves
import Reckoner.Proofs.Pairing

/-!
# Reading on demand

An expression is evaluated while it is read, and nothing behind the character that comes next is
ever looked at. So the outcome of a run that ends at some position is the same for every source
that begins with the same characters and has the same one there, or ends there as well, whatever
comes later in it.

Two such runs go alongside each other up to that position. A run is lost for the comparison once
it is past it, and as the cursor only moves on, one that ends there never is.

* `Demand.pairing`
* `Evaluating.evaluate_of_same_until`
-/

namespace Reckoner

open Reckoner.Text

/-! ### All but the text that is left -/

/-- The reader, but for the text that is left. -/
def Reader.withoutText (r : Reader) : Reader := { r with cursor := { r.cursor with rest := [] } }

/-- The session, but for the text that is left. -/
def Session.withoutText (s : Session) : Session := { s with reader := s.reader.withoutText }

/-- The outcome, but for the text that is left. -/
def Outcome.withoutText {α : Type} : Outcome Session α → Outcome Session α
  | .ok x s => .ok x s.withoutText
  | .error fault s => .error fault s.withoutText

namespace Demand

variable {p : Nat}

/-! ### Readers -/

/-- Readers that differ at most in the text that is left, and in that not before the position `p`
and not in what comes next there. -/
structure Alongside (p : Nat) (l r : Reader) : Prop where
  same : l.withoutText = r.withoutText
  before : l.cursor.pos ≤ p
  text : Abreast (p - l.cursor.pos) l.cursor.rest r.cursor.rest

/-- The link of two readers. A left run is lost once it is past the position. -/
def link (p : Nat) : Link Reader where
  states := Alongside p
  faults := Eq
  lost _ r := p < r.cursor.pos

section Readers

variable {l r : Reader}

theorem lost_iff {α : Type} {a : Reading α} : (link p).Lost (a l) ↔ p < (after a l).cursor.pos := by
  unfold after
  cases a l <;> exact Iff.rfl

namespace Alongside

variable (h : Alongside p l r)
include h

theorem pending_eq : r.pending = l.pending := by
  have same := congrArg Reader.pending h.same
  exact same.symm

theorem journal_eq : r.journal = l.journal := by
  have same := congrArg Reader.journal h.same
  exact same.symm

theorem here_eq : r.here = l.here := by
  have same := congrArg Reader.here h.same
  exact same.symm

theorem push (t : Token) : Alongside p (l.push t) (r.push t) :=
  ⟨congrArg (Reader.push t) h.same, h.before, h.text⟩

theorem note (e : Event) : Alongside p (l.note e) (r.note e) :=
  ⟨congrArg (Reader.note · e) h.same, h.before, h.text⟩

/-- Both move on by as many characters, and these are the same. -/
theorem advance (n : Nat) (near : (l.advance n).cursor.pos ≤ p) :
    Alongside p (l.advance n) (r.advance n) := by
  have reached : (l.advance n).cursor.pos = l.cursor.pos + (l.cursor.rest.take n).length := rfl
  obtain ⟨taken, behind⟩ := h.text.drop n (by omega)
  refine ⟨?_, near, ?_⟩
  · have moved (q : Reader) : (q.advance n).withoutText =
        { q.withoutText with cursor := ⟨[], q.withoutText.cursor.pos + (q.cursor.rest.take n).length,
          q.withoutText.cursor.place.after (q.cursor.rest.take n)⟩ } := rfl
    rw [moved, moved, h.same, taken]
  · rw [reached, ← Nat.sub_sub]
    exact behind

theorem pastBlanks (near : l.pastBlanks.cursor.pos ≤ p) :
    Alongside p l.pastBlanks r.pastBlanks := by
  have reached : l.pastBlanks.cursor.pos = l.cursor.pos +
      (l.cursor.rest.take (l.cursor.rest.takeWhile isBlank).length).length := rfl
  rw [List.length_take, Nat.min_eq_left (List.takeWhile_prefix _).length_le] at reached
  have blanks := (h.text.run isBlank (by omega)).1
  unfold Reader.pastBlanks
  rw [blanks]
  exact h.advance _ near

end Alongside

/-- The cursor ends behind all that the scan has taken up. -/
theorem cursor_after_scan (r : Reader) : (after Reading.scan r).cursor =
    (r.pastBlanks.advance (Scan.of r.pastBlanks.cursor.rest).width).cursor := by
  unfold after
  rw [Reading.scan_eq]
  cases Scan.of r.pastBlanks.cursor.rest with
  | nothing => rfl
  | lexeme l => rfl
  | stray c => rfl
  | unterminated text =>
    have kept : (after (Reading.openString text) (r.pastBlanks.advance (text.length + 1))).cursor =
        (r.pastBlanks.advance (text.length + 1)).cursor := by
      unfold after
      cases policy : (r.pastBlanks.advance (text.length + 1)).journal.policy with
      | raise => rw [Reading.openString_of_raise text policy]
      | collect =>
        rw [Reading.openString_of_collect text policy]
        rfl
    exact kept

theorem ends_openString (h : Alongside p l r) (text : List Char) :
    (link p).Ends (fun t l' u r' => t = u ∧ Alongside p l' r') (Reading.openString text l)
      (Reading.openString text r) := by
  cases policy : l.journal.policy with
  | raise =>
    rw [Reading.openString_of_raise text policy,
      Reading.openString_of_raise text (h.journal_eq ▸ policy), h.here_eq]
    exact .error rfl h
  | collect =>
    rw [Reading.openString_of_collect text policy,
      Reading.openString_of_collect text (h.journal_eq ▸ policy), h.here_eq]
    exact .ok ⟨rfl, h.note _⟩

theorem ends_scan (h : Alongside p l r) :
    (link p).Ends (fun t l' u r' => t = u ∧ Alongside p l' r') (Reading.scan l)
      (Reading.scan r) := by
  by_cases past : p < (after Reading.scan l).cursor.pos
  · exact .lost (lost_iff.2 past)
  · -- all that the scan takes up stands before the position, so the other scan finds the same
    rw [cursor_after_scan, Nat.not_lt] at past
    have hb := h.pastBlanks (Nat.le_trans (Cursor.pos_le_advance _ _) past)
    have reached : (l.pastBlanks.advance (Scan.of l.pastBlanks.cursor.rest).width).cursor.pos =
        l.pastBlanks.cursor.pos + (Scan.of l.pastBlanks.cursor.rest).width := by
      show _ + (List.take _ _).length = _
      rw [List.length_take, Nat.min_eq_left (Scan.width_le _)]
    have found := hb.text.scan_of_eq (by omega)
    have behind := hb.advance _ past
    rw [Reading.scan_eq, Reading.scan_eq, found]
    revert behind
    cases Scan.of l.pastBlanks.cursor.rest with
    | nothing =>
      intro _
      refine .ok ⟨?_, hb⟩
      rw [hb.here_eq]
    | lexeme x =>
      intro behind
      replace behind : Alongside p (l.pastBlanks.advance x.spelling.length)
        (r.pastBlanks.advance x.spelling.length) := behind
      refine .ok ⟨?_, behind⟩
      rw [behind.here_eq]
    | unterminated text => exact fun behind => ends_openString behind text
    | stray c =>
      intro _
      refine .error ?_ hb
      show Fault.diagnostic ⟨_, _⟩ = Fault.diagnostic ⟨_, r.pastBlanks.here⟩
      rw [hb.here_eq]

theorem ends_next (h : Alongside p l r) :
    (link p).Ends (fun t l' u r' => t = u ∧ Alongside p l' r') (Reading.next l)
      (Reading.next r) := by
  cases waiting : l.pending with
  | nil =>
    rw [Reading.next_of_pending_nil waiting, Reading.next_of_pending_nil (h.pending_eq ▸ waiting)]
    exact ends_scan h
  | cons t later =>
    rw [Reading.next_of_pending waiting, Reading.next_of_pending (h.pending_eq ▸ waiting)]
    refine .ok ⟨rfl, ?_, h.before, h.text⟩
    exact congrArg (fun q : Reader => { q with pending := later }) h.same

end Readers

/-! ### Sessions -/

/-- The link of two sessions: their readers go alongside each other, all else is the same. -/
def sessions (p : Nat) : Link Session where
  states l r := Alongside p l.reader r.reader ∧ r = { l with reader := r.reader }
  faults := Eq
  lost _ s := p < s.reader.cursor.pos

section Sessions

variable {l r : Session}

theorem withoutText_eq (h : (sessions p).states l r) : r.withoutText = l.withoutText := by
  rw [h.2]
  exact congrArg (fun q : Reader => { l with reader := q }) h.1.same.symm

theorem lost_sessions_iff {α : Type} {a : Evaluating α} {s : Session} :
    (sessions p).Lost (a s) ↔ p < (after a s).reader.cursor.pos := by
  unfold after
  cases a s <;> exact Iff.rfl

theorem keeps_sessions : (sessions p).Keeps Evaluating.Step := by
  intro α a s composed lost
  rw [lost_sessions_iff]
  exact Nat.lt_of_lt_of_le lost (Evaluating.reaches composed s).pos_le

/-- Actions of readers, run by sessions. -/
theorem ends_reading {α : Type} {a : Reading α} (states : (sessions p).states l r)
    (h : (link p).Ends (fun x l' y r' => x = y ∧ Alongside p l' r') (a l.reader) (a r.reader)) :
    (sessions p).Ends (fun x l' y r' => x = y ∧ (sessions p).states l' r')
      (Evaluating.reading a l) (Evaluating.reading a r) := by
  have kept (q z : Reader) : { r with reader := z } =
      { { l with reader := q } with reader := z } := by
    rw [states.2]
  refine (Link.Ends.reading (M := sessions p) h (fun _ _ => id) (fun q z hz => ⟨hz, kept q z⟩)
    fun _ _ => id).imp fun x l' y r' _ _ ended => ?_
  obtain ⟨q, z, rfl, rfl, same, hz⟩ := ended
  exact ⟨same, hz, kept q z⟩

theorem states_endGroup (h : (sessions p).states l r) :
    (sessions p).states (after Evaluating.endGroup l) (after Evaluating.endGroup r) := by
  obtain ⟨alongside, same⟩ := h
  obtain ⟨q, bindings, functions, clearOnGroup⟩ := l
  rw [same]
  cases clearOnGroup with
  | false => exact ⟨alongside, rfl⟩
  | true => exact ⟨alongside.note _, rfl⟩

/-- Sessions alongside each other are a pairing. -/
def pairing (p : Nat) : Pairing where
  toLink := sessions p
  tokens := Eq
  causes := Eq
  keeps := keeps_sessions
  alike h := Or.inl ⟨congrArg Token.kind h, congrArg Token.text h⟩
  known _ := rfl
  missingExpression h := by rw [h]
  openGroup h := by rw [h]
  numeral _ _ _ := rfl
  undefined h := by rw [h]; rfl
  bindings h := by rw [h.2]
  next h := by
    refine (ends_reading h (ends_next h.1)).imp fun t l' u r' _ _ ended => ?_
    obtain ⟨rfl, states⟩ := ended
    exact ⟨rfl, ⟨states.1.push t, by rw [states.2]; rfl⟩, fun _ => states⟩
  report h states hc := by
    subst h
    subst hc
    exact Link.ends_report states (congrArg Journal.policy states.1.journal_eq.symm) rfl
      ⟨states.1.note _, by rw [states.2]⟩
  endGroup := states_endGroup

end Sessions

end Demand

namespace Evaluating

open Demand

/-- **Nothing is read that is not needed.** Let the evaluation of an expression end, with a value
or a fault, at some position of the source. In every source with the same characters before that
position, and there the same one or none, it ends likewise: with the same value or the same fault,
and in the same state but for the text that is left. -/
theorem evaluate_of_same_until (source other file : String) (policy : Policy)
    (clearOnGroup : Bool) (bindings : Table Value) {p : Nat}
    (ended : (after evaluate
      (.ofSource source file policy clearOnGroup bindings)).reader.cursor.pos = p)
    (before : other.toList.take p = source.toList.take p)
    (there : other.toList[p]? = source.toList[p]?) :
    Outcome.withoutText (evaluate (.ofSource other file policy clearOnGroup bindings)) =
      Outcome.withoutText (evaluate (.ofSource source file policy clearOnGroup bindings)) := by
  have start : (sessions p).states (.ofSource source file policy clearOnGroup bindings)
      (.ofSource other file policy clearOnGroup bindings) :=
    ⟨⟨rfl, Nat.zero_le p, .of_take_eq before.symm there.symm⟩, rfl⟩
  have runs := ends_evaluate (P := pairing p) ⟨start, Nat.le_refl _, Nat.le_refl _⟩
  have near : ¬ (sessions p).Lost
      (evaluate (.ofSource source file policy clearOnGroup bindings)) := by
    rw [lost_sessions_iff, ended]
    exact Nat.lt_irrefl p
  revert runs near
  generalize evaluate (.ofSource source file policy clearOnGroup bindings) = left
  generalize evaluate (.ofSource other file policy clearOnGroup bindings) = right
  intro runs near
  cases runs with
  | ok same =>
    obtain ⟨rfl, within⟩ := same
    rw [Outcome.withoutText, Outcome.withoutText, withoutText_eq within.states]
  | error fault states =>
    cases fault
    rw [Outcome.withoutText, Outcome.withoutText, withoutText_eq states]
  | lost far => exact absurd far near

/-- The theorem at a sum in front of a parenthesis, behind which one source has a string that does
not end and the other a character that begins no token. -/
theorem evaluate_of_same_until_parenthesis :
    (after evaluate (.ofSource "1 + x) \"open" "in" .collect true
        [("x", .number 2)])).reader.cursor.pos = 6 ∧
      Outcome.withoutText (evaluate (.ofSource "1 + x) $" "in" .collect true
          [("x", .number 2)])) =
        Outcome.withoutText (evaluate (.ofSource "1 + x) \"open" "in" .collect true
          [("x", .number 2)])) := by
  have ended : (after evaluate (.ofSource "1 + x) \"open" "in" .collect true
      [("x", .number 2)])).reader.cursor.pos = 6 := by decide +kernel
  exact ⟨ended, evaluate_of_same_until "1 + x) \"open" "1 + x) $" "in" .collect true
    [("x", .number 2)] ended (by decide +kernel) (by decide +kernel)⟩

end Evaluating

end Reckoner
