import Reckoner.Proofs.Calls
import Reckoner.Proofs.Guard.Sessions
import Reckoner.Proofs.InHand
import Reckoner.Proofs.Lexing.Taking

/-!
# One token of lookahead

Whatever the evaluator is asked for, and however that ends, at most one token is pending, and it is
the one that was scanned last: it ends the log of what has been got from the source, and the cursor
stands right behind it. The header of a function literal, which is read from the characters, is
therefore read from behind the word `function` on.

* `Reader.JustScanned`, `Reader.LooksAhead` — what is pending in every state;
* `Reader.Ahead`, `ahead` — what of that can be seen in the reader, and the guard it makes;
* `Evaluating.behind_of_evaluate` — behind an expression a token is pending that is none of its
  operators;
* `pending_of_served` — the statement for all requests.
-/

namespace Reckoner

open Reckoner.Text

/-- Scanning at some place of the source gives the token and ends where the cursor stands. -/
def Reader.StandsBehind (source : List Char) (t : Token) (r : Reader) : Prop :=
  ∃ before behind : Reader, before.cursor.In source ∧ before.file = r.file ∧
    Reading.scan before = .ok t behind ∧ behind.cursor = r.cursor

/-- Nothing is pending, or only one token, which the cursor stands behind. -/
structure Reader.Ahead (source : List Char) (r : Reader) : Prop where
  cursor : r.cursor.In source
  pending : r.pending = [] ∨ ∃ t, r.pending = [t] ∧ r.StandsBehind source t

/-- Of all that has been got from the source the token was scanned last, and the cursor stands where
that ended. -/
structure Reader.JustScanned (source : List Char) (log : List Reader.Entry) (t : Token)
    (r : Reader) : Prop where
  last : log.getLast? = some (.token t)
  behind : r.StandsBehind source t

/-- Nothing is pending, or only the token that was scanned last. -/
structure Reader.LooksAhead (source : List Char) (log : List Reader.Entry) (r : Reader) :
    Prop where
  cursor : r.cursor.In source
  pending : r.pending = [] ∨ ∃ t, r.pending = [t] ∧ r.JustScanned source log t

namespace Reader

variable {source : List Char} {r q : Reader} {t : Token}

theorem ahead_ofSource (source file : String) (policy : Policy) :
    (Reader.ofSource source file policy).Ahead source.toList :=
  ⟨Cursor.atStart_in source.toList, Or.inl rfl⟩

/-- The pending token is taken, or one is scanned; then nothing is pending any more, and the cursor
stands behind the token that was taken. -/
theorem Ahead.next (h : r.Ahead source) (run : Reading.next r = .ok t q) :
    q.cursor.In source ∧ q.pending = [] ∧ q.StandsBehind source t := by
  have inside := (Reading.reaches_of_ok run).inSource h.cursor
  rcases h.pending with none | ⟨u, one, before, behind, within, file, scanned, same⟩
  · obtain ⟨none', scanned⟩ := Reading.scan_of_next none run
    exact ⟨inside, none', r, q, h.cursor, (Reading.file_of_ok run).symm, scanned, rfl⟩
  · rw [Reading.next_of_pending one] at run
    cases run
    exact ⟨inside, rfl, before, behind, within, file, scanned, same⟩

theorem Ahead.stopped {fault : Fault} (h : r.Ahead source)
    (run : Reading.next r = .error fault q) : q.Ahead source :=
  ⟨(Reading.reaches_of_error run).inSource h.cursor, Or.inl (Reading.pending_of_failure run)⟩

/-- What is pending is the last entry of the log. -/
theorem Ahead.looksAhead {log : List Reader.Entry} (h : r.Ahead source)
    (last : OnlyLast log r.pending) : r.LooksAhead source log := by
  refine ⟨h.cursor, h.pending.imp id fun ⟨t, one, behind⟩ => ⟨t, one, ?_, behind⟩⟩
  rw [one] at last
  exact last.2

end Reader

/-- Where tokens are scanned or taken, nothing else is pending. -/
def ahead (source : List Char) : Guard where
  readers := Reader.Ahead source
  calm pending := pending = []
  tokens _ := True
  places _ := True
  literals _ := True
  faults _ := True
  lost _ := False
  keepsLost _ := id
  advance n h calm := Or.inl ⟨h.cursor.advance n, Or.inl calm⟩
  note _ _ h := ⟨h.cursor, h.pending⟩
  collected _ _ h _ := ⟨h.cursor, h.pending⟩
  raised _ _ _ _ := trivial
  here _ := trivial
  place _ := trivial
  captured _ _ := trivial
  delivered := by
    intro r q t h run
    obtain ⟨inside, none, scanned⟩ := h.next run
    refine Or.inl ⟨trivial, ⟨inside, Or.inl none⟩, none, inside, Or.inr ⟨t, ?_, scanned⟩⟩
    show t :: q.pending = [t]
    rw [none]
  stopped h run := Or.inl ⟨trivial, h.stopped run⟩
  numeral _ _ _ := trivial
  undefined _ := trivial

/-! ### The token behind an expression -/

namespace Evaluating

variable {s s' : Session} {v : Value}

/-- The foremost pending token, which there is behind every level, is no operator of the level or
a tighter one. -/
structure Behind (level : Option Level) (s : Session) : Prop where
  stops : Stops level s.reader.pending
  pending : level ≠ none → s.reader.pending ≠ []

theorem behind_none (s : Session) : Behind none s where
  stops := fun _ _ _ hl => absurd hl List.not_mem_nil
  pending other := absurd rfl other

theorem pending_of_recover {d : Diagnostic} (h : recover d s = .ok v s') :
    s'.reader.pending = s.reader.pending := by
  rw [recover_eq_ok h]
  rfl

theorem pending_of_settle {result : Except Diagnostic Value} (h : settle result s = .ok v s') :
    s'.reader.pending = s.reader.pending := by
  cases result with
  | ok w =>
    obtain ⟨-, rfl⟩ := pure_eq_ok.1 h
    rfl
  | error d => exact pending_of_recover h

/-- The token that ends a level is none of its operators; it is none of the tighter ones either,
because the operand before it has ended at it. -/
theorem behind_of_other {level : Level} {t : Token} {u : Session} (h : Behind level.tighter s)
    (taken : next s = .ok t u) (other : t.isOperator level.symbols = false) :
    Behind (some level) (u.push t) where
  stops := by
    intro w hw l hl
    obtain rfl : t = w := Option.some.inj hw
    rw [Level.upTo_some] at hl
    rcases List.mem_cons.1 hl with rfl | tight
    · exact other
    cases tighter : level.tighter with
    | none =>
      rw [tighter] at tight
      exact absurd tight List.not_mem_nil
    | some _ =>
      have waiting := h.pending (by simp [tighter])
      obtain ⟨first, later, pending⟩ := List.exists_cons_of_ne_nil waiting
      have same : next s = .ok first { s with reader := { s.reader with pending := later } } :=
        reading_of_ok (Reading.next_of_pending pending)
      cases same.symm.trans taken
      exact h.stops t (by rw [pending]; rfl) l tight
  pending _ := List.cons_ne_nil t u.reader.pending

theorem behind_of_chain {level : Level} {operand : Evaluating Value} {n : Nat} {left : Value}
    (ho : ∀ s v s', operand s = .ok v s' → Behind level.tighter s') (h : Behind level.tighter s)
    (ran : chain level operand n left s = .ok v s') : Behind (some level) s' := by
  induction n generalizing left s with
  | zero => exact absurd ran throw_ne_ok
  | succ n ih =>
    rw [chain_succ] at ran
    obtain ⟨t, u, taken, ran⟩ := bind_eq_ok.1 ran
    cases operator : t.isOperator level.symbols with
    | true =>
      rw [if_pos operator] at ran
      obtain ⟨right, w, read, ran⟩ := bind_eq_ok.1 ran
      obtain ⟨value, w', settled, ran⟩ := bind_eq_ok.1 ran
      have behind := ho u right w read
      have same := pending_of_settle settled
      exact ih ⟨same ▸ behind.stops, same ▸ behind.pending⟩ ran
    | false =>
      rw [operator] at ran
      cases ran
      exact behind_of_other h taken operator

theorem behind_of_joined {level : Level} {operand : Evaluating Value} {n : Nat}
    (ho : ∀ s v s', operand s = .ok v s' → Behind level.tighter s')
    (ran : joined level n operand s = .ok v s') : Behind (some level) s' := by
  obtain ⟨left, u, first, later⟩ := bind_eq_ok.1 ran
  exact behind_of_chain ho (ho s left u first) later

/-- **Behind an expression** a token is pending, and it is none of its operators. -/
theorem behind_of_evaluate (ran : evaluate s = .ok v s') : Behind (some .sum) s' := by
  have powers {n : Nat} {nested : Evaluating Value} (s : Session) (v : Value) (s' : Session)
      (ran : joined .power n (primary n nested) s = .ok v s') : Behind (some .power) s' :=
    behind_of_joined (fun _ _ s' _ => behind_none s') ran
  have products {n : Nat} {nested : Evaluating Value} (s : Session) (v : Value) (s' : Session)
      (ran : joined .product n (joined .power n (primary n nested)) s = .ok v s') :
      Behind (some .product) s' :=
    behind_of_joined powers ran
  rw [evaluate_eq] at ran
  exact behind_of_joined products ran

end Evaluating

/-! ### Requests -/

namespace Ahead

open Evaluating

variable {source : List Char} {s t : Session}

theorem after_evaluate (h : (ahead source).Inside s) :
    (ahead source).Inside (after evaluate s) := by
  have within : (ahead source).pairing.Within s.reader.weight s.reader.weight s s :=
    ⟨⟨rfl, h⟩, Nat.le_refl _, Nat.le_refl _⟩
  have meets := Guard.meets_of_ends (ends_evaluate within) id
  unfold after
  revert meets
  cases evaluate s with
  | ok v t => rintro ⟨same⟩; exact same.2.states.2
  | error fault t => rintro (_ | ended); exact ended.2

theorem after_evaluateAll (h : (ahead source).Inside s) :
    (ahead source).Inside (after evaluateAll s) := by
  have meets := Guard.meets_of_ends (Guard.ends_evaluateAll h) id
  unfold after
  revert meets
  cases evaluateAll s with
  | ok v t => rintro ⟨finished⟩; exact finished.2.1.2
  | error fault t => rintro (_ | ended); exact ended.2

theorem after_serve (h : (ahead source).Inside s) (request : Request) :
    (ahead source).Inside (after request.serve s) := by
  cases request with
  | evaluate =>
    unfold Request.serve
    rw [after_bind_pure]
    exact after_evaluate h
  | evaluateAll =>
    unfold Request.serve
    rw [after_bind_pure]
    exact after_evaluateAll h
  | assign name given =>
    obtain ⟨bindings, same⟩ := Request.after_assign name given s
    rw [same]
    exact ⟨h.reader, h.functions⟩

theorem served (h : (ahead source).Inside s) (requests : List Request) :
    (ahead source).Inside (s.served requests) := by
  induction requests generalizing s with
  | nil => exact h
  | cons request later ih => exact ih (after_serve h request)

end Ahead

/-! ### Inside a run -/

open Evaluating in
/-- The sessions in which the turns of a run over the statements begin and end. -/
inductive Session.Heads (s : Session) : Session → Prop
  | start : Heads s s
  | turn {u v w : Session} {t : Token} {front : List Value} : Heads s u → next u = .ok t v →
      t.kind ≠ .endOfInput → turn t v = .ok front w → Heads s w

namespace Ahead

open Evaluating

variable {source : List Char} {s u v t' : Session} {t : Token}

theorem heads (h : (ahead source).Inside s) (reached : s.Heads u) : (ahead source).Inside u := by
  induction reached with
  | start => exact h
  | @turn u v w t front _ taken last ran ih =>
    have next := Guard.meets_of_ends ((Guard.link_next ih).imp fun _ _ _ _ _ _ => id) id
    rw [taken] at next
    cases next with
    | ok ended =>
      obtain ⟨⟨-, token⟩, ⟨-, inside⟩, pushed, calm, -⟩ := ended
      have turned := Guard.meets_of_ends (Guard.ends_turn inside calm pushed token last) id
      rw [ran] at turned
      cases turned with
      | ok same => exact same.2.states.2

/-- Where a literal is announced, nothing is pending, and its header comes next. -/
theorem split_of_declaration (h : u.reader.Ahead source) (taken : next u = .ok t v)
    (declares : t.kind = .functionDeclaration) :
    v.reader.pending = [] ∧ ∃ before, source = before ++ "function".toList ++ v.reader.cursor.rest ∧
      v.reader.cursor.pos = (before ++ "function".toList).length := by
  obtain ⟨q, first, rfl⟩ := reading_eq_ok taken
  obtain ⟨⟨read, split, pos, -⟩, none, before, behind, within, -, scanned, same⟩ := h.next first
  refine ⟨none, ?_⟩
  obtain ⟨blanks, taken⟩ := (Reading.takes_of_scan scanned).split_of_declaration declares
  obtain ⟨front, whole, -⟩ := within
  rw [same] at taken
  have split' : source = (front ++ blanks) ++ "function".toList ++ q.cursor.rest := by
    rw [whole, taken]
    simp only [List.append_assoc]
  have prefixes : read = (front ++ blanks) ++ "function".toList :=
    List.append_cancel_right (split.symm.trans split')
  exact ⟨front ++ blanks, split', pos.trans (congrArg List.length prefixes)⟩

/-- Behind a whole run nothing is left, and another one does nothing. -/
theorem finished {values : List Value} (h : (ahead source).Inside s)
    (ran : evaluateAll s = .ok values t') : t'.reader.pending = [] ∧
      t'.reader.cursor.pos = source.length ∧ evaluateAll t' = .ok [] t' := by
  have meets := Guard.meets_of_ends (Guard.ends_evaluateAll h) id
  rw [ran] at meets
  cases meets with
  | ok finished =>
    obtain ⟨-, -, u, t, inside, taken, last⟩ := finished
    obtain ⟨q, first, rfl⟩ := reading_eq_ok taken
    obtain ⟨⟨read, split, pos, -⟩, none, before, behind, -, -, scanned, same⟩ :=
      inside.reader.next first
    have nothing := (Reading.takes_of_scan scanned).rest_eq_nil last
    rw [same] at nothing
    refine ⟨none, ?_, statements_of_nothing none nothing⟩
    rw [pos, split, nothing, List.append_nil]

end Ahead

open Evaluating in
/-- **One token of lookahead.** In every state that requests lead to, at most one token is pending,
and of all that has been got from the source on the way it was scanned last. Behind an expression
there is one, and it is no operator. When a run comes to a function literal, nothing is pending, so
that its header is read from behind the word `function` on. A run over all statements leaves nothing
behind, and another one then does nothing. -/
theorem pending_of_served (source file : String) (policy : Policy) (clearOnGroup : Bool)
    (bindings : Table Value) (requests : List Request) :
    let start := Session.ofSource source file policy clearOnGroup bindings
    let s := start.served requests
    s.reader.LooksAhead source.toList (start.log requests) ∧
    (∀ v t, evaluate s = .ok v t →
      ∃ u, t.reader.pending = [u] ∧ ∀ level : Level, u.isOperator level.symbols = false) ∧
    (∀ u t v, s.Heads u → next u = .ok t v → t.kind = .functionDeclaration →
      v.reader.pending = [] ∧
      ∃ before, source.toList = before ++ "function".toList ++ v.reader.cursor.rest ∧
        v.reader.cursor.pos = (before ++ "function".toList).length) ∧
    ∀ values t, evaluateAll s = .ok values t →
      t.reader.pending = [] ∧ t.reader.cursor.pos = source.length ∧ evaluateAll t = .ok [] t := by
  intro start s
  have fresh : (ahead source.toList).Inside start :=
    ⟨Reader.ahead_ofSource source file policy, fun _ _ => trivial⟩
  have inside := Ahead.served fresh requests
  have last : OnlyLast ([] ++ start.log requests) s.reader.pending :=
    onlyLast_of_served requests trivial
  refine ⟨inside.reader.looksAhead last, ?_, ?_, ?_⟩
  · intro v t ran
    have behind := behind_of_evaluate ran
    have later := Ahead.after_evaluate inside
    rw [after_of_ok ran] at later
    rcases later.reader.pending with none | ⟨u, one, -⟩
    · exact absurd none (behind.pending (by simp))
    · refine ⟨u, one, fun level => behind.stops u ?_ level ?_⟩
      · rw [one]
        rfl
      · cases level <;> decide
  · intro u t v reached taken declares
    exact Ahead.split_of_declaration (Ahead.heads inside reached).reader taken declares
  · intro values t ran
    obtain ⟨none, pos, again⟩ := Ahead.finished inside ran
    exact ⟨none, pos.trans String.length_toList, again⟩

open Evaluating in
/-- The theorem where a literal is announced before anything has been read, and where the run that
begins there collects an open group and a trailing token. -/
theorem pending_of_served_declaration :
    let s := (Session.ofSource "function f(a,) => 2; (3 4 5" "in" .collect true []).served
      [.assign "x" (.text "y")]
    (∃ t v, next s = .ok t v ∧ t.kind = .functionDeclaration ∧ v.reader.pending = []) ∧
      (∃ v t u, evaluate s = .ok v t ∧ t.reader.pending = [u] ∧ u.isOperator ["^"] = false) ∧
      ∃ values t, evaluateAll s = .ok values t ∧ t.reader.pending = [] ∧
        evaluateAll t = .ok [] t := by
  intro s
  obtain ⟨-, expressions, declarations, runs⟩ := pending_of_served
    "function f(a,) => 2; (3 4 5" "in" .collect true [] [.assign "x" (.text "y")]
  refine ⟨?_, ?_, ?_⟩
  · obtain ⟨t, v, taken, declares⟩ : ∃ t v, next s = .ok t v ∧ t.kind = .functionDeclaration := by
      decide +kernel
    exact ⟨t, v, taken, declares, (declarations s t v .start taken declares).1⟩
  · obtain ⟨v, t, ran, -⟩ : ∃ v t, evaluate s = .ok v t ∧ t.reader.pending ≠ [] := by
      decide +kernel
    obtain ⟨u, one, others⟩ := expressions v t ran
    exact ⟨v, t, u, ran, one, others .power⟩
  · obtain ⟨values, t, ran, -⟩ : ∃ values t, evaluateAll s = .ok values t ∧ values ≠ [] := by
      decide +kernel
    obtain ⟨none, -, again⟩ := runs values t ran
    exact ⟨values, t, ran, none, again⟩

end Reckoner
