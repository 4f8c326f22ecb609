import Reckoner.Proofs.Calls
import Reckoner.Proofs.Capture
import Reckoner.Proofs.Course

/-!
# The token in hand

What a rule of the grammar has pulled and neither used nor put back is in its hand. A rule pulls one
token, and before it pulls another it has used that or put it back. So at most one token is in hand
or pending at any time, and it is the one that was scanned last: behind it nothing has been got from
the source. A fault drops what is in hand and leaves what is pending.

* `Session.log` — what has been got from the source while requests were served;
* `OnlyLast` — at most one token, which a log ends with;
* `Tracks` — what an action keeps of that, whichever way it ends;
* `tracks_evaluate`, `tracks_evaluateAll` — the rules;
* `onlyLast_of_served` — all requests.
-/

namespace Reckoner

/-- No token, or only the one that the log ends with. -/
def OnlyLast (log : List Reader.Entry) : List Token → Prop
  | [] => True
  | t :: ts => ts = [] ∧ log.getLast? = some (.token t)

section OnlyLast

variable {log : List Reader.Entry} {hand ts : List Token}

theorem onlyLast_of_eq_nil (none : ts = []) : OnlyLast log ts := by
  rw [none]
  trivial

/-- What is in hand is dropped. -/
theorem OnlyLast.drop (h : OnlyLast log (hand ++ ts)) : OnlyLast log ts := by
  cases hand with
  | nil => exact h
  | cons t later => exact onlyLast_of_eq_nil (List.append_eq_nil_iff.1 h.1).2

/-- A token that has just been scanned ends the log. -/
theorem onlyLast_scanned (log : List Reader.Entry) (t : Token) :
    OnlyLast (log ++ [.token t]) [t] := ⟨rfl, List.getLast?_concat⟩

end OnlyLast

namespace Evaluating

/-- Where at most one token is in hand or pending, and it was scanned last, the action leaves that
so. Behind a result `rest` is in hand, which is nothing if it is not given. -/
def Tracks {α : Type} (hand : List Token) (a : Evaluating α) [Course a]
    (rest : α → List Token := fun _ => []) : Prop :=
  ∀ s log, OnlyLast log (hand ++ s.reader.pending) →
    Meets (fun _ u => OnlyLast (log ++ entries a s) u.reader.pending)
      (fun x u => OnlyLast (log ++ entries a s) (rest x ++ u.reader.pending)) (a s)

section Parts

variable {α β : Type} {a b : Evaluating α} {f : α → Evaluating β} {hand : List Token}
  {mid : α → List Token} {rest : β → List Token} {left : α → List Token}

theorem Tracks.bind [Course a] [∀ x, Course (f x)] (ha : Tracks hand a mid)
    (hf : ∀ x, Tracks (mid x) (f x) rest) : Tracks hand (a >>= f) rest := by
  intro s log before
  have first := ha s log before
  cases run : a s with
  | ok x u =>
    rw [bind_of_ok run, entries_bind_of_ok run, ← List.append_assoc]
    exact hf x u _ (first.of_ok run)
  | error fault u =>
    rw [bind_of_error run, entries_bind_of_error run]
    exact .error (first.of_error run)

theorem Tracks.ite {c : Prop} [Decidable c] [Course a] [Course b] (ha : c → Tracks hand a left)
    (hb : ¬ c → Tracks hand b left) : Tracks hand (if c then a else b) left := by
  intro s log before
  by_cases h : c
  · rw [entries_ite_of_true h, if_pos h]
    exact ha h s log before
  · rw [entries_ite_of_false h, if_neg h]
    exact hb h s log before

/-- What is in hand is used first. -/
theorem Tracks.take [Course a] (ha : Tracks [] a left) : Tracks hand a left :=
  fun s log before => ha s log before.drop

/-- What gets nothing leaves the log as it is. -/
theorem tracks_of_silent [Course a] (silent : ∀ s, entries a s = [])
    (meets : ∀ s log, OnlyLast log (hand ++ s.reader.pending) →
      Meets (fun _ u => OnlyLast log u.reader.pending)
        (fun x u => OnlyLast log (left x ++ u.reader.pending)) (a s)) : Tracks hand a left := by
  intro s log before
  rw [silent s, List.append_nil]
  exact meets s log before

/-- What gets nothing and leaves pending what is leaves in hand what is. -/
theorem tracks_of_still [Course a] (silent : ∀ s, entries a s = [])
    (same : ∀ s, (after a s).reader.pending = s.reader.pending) :
    Tracks hand a fun _ => hand := by
  refine tracks_of_silent silent fun s log before => ?_
  have kept := same s
  cases run : a s with
  | ok x u =>
    rw [after_of_ok run] at kept
    exact .ok (kept ▸ before)
  | error fault u =>
    rw [after_of_error run] at kept
    exact .error (kept ▸ before.drop)

/-! ### Steps -/

/-- What is in hand is part of the result. -/
theorem tracks_yield (x : α) (same : left x = hand) : Tracks hand (pure x) left :=
  tracks_of_silent (fun _ => rfl) fun _ _ before => .ok (same.symm ▸ before)

theorem tracks_pure (x : α) : Tracks hand (pure x) :=
  Tracks.take (tracks_yield x rfl)

theorem tracks_throw (fault : Fault) : Tracks hand (throw fault : Evaluating α) left :=
  tracks_of_silent (fun _ => rfl) fun _ _ before => .error before.drop

theorem pending_of_stopped {s u : Session} {fault : Fault} (run : next s = .error fault u) :
    u.reader.pending = [] := by
  obtain ⟨q, stopped, rfl⟩ := reading_eq_error run
  exact Reading.pending_of_failure stopped

/-- What is pulled is in hand. It was scanned last, whether it was pending or is scanned now. -/
theorem tracks_next : Tracks [] next fun t => [t] := by
  intro s log before
  cases run : next s with
  | error fault u => exact .error (onlyLast_of_eq_nil (pending_of_stopped run))
  | ok t u =>
    refine .ok ?_
    obtain ⟨q, pulled, rfl⟩ := reading_eq_ok run
    show OnlyLast _ (t :: q.pending)
    rcases Reading.pending_of_next pulled with waiting | ⟨none, none', -⟩
    · rw [entries_next_of_pending waiting, List.append_nil, ← waiting]
      exact before
    · rw [entries_next_of_scan none run, none']
      exact onlyLast_scanned log t

/-- What is in hand is put back. -/
theorem tracks_pushBack (t : Token) : Tracks [t] (pushBack t) :=
  tracks_of_silent (fun _ => rfl) fun _ _ before => .ok before

theorem tracks_report (d : Diagnostic) :
    Tracks hand (reading (Reading.report d)) fun _ => hand := by
  refine tracks_of_still (fun _ => rfl) fun s => ?_
  rw [after_reading]
  unfold after
  cases policy : s.reader.journal.policy with
  | collect => rw [Reading.report_of_collect d policy]; rfl
  | raise => rw [Reading.report_of_raise d policy]

theorem tracks_budget : Tracks hand budget fun _ => hand :=
  tracks_of_still (fun _ => rfl) fun _ => rfl

theorem tracks_numeral (t : Token) : Tracks hand (numeral t) fun _ => hand := by
  refine tracks_of_still (fun _ => rfl) fun s => ?_
  unfold after numeral
  cases Number.read? t.text <;> rfl

theorem tracks_valueOf (t : Token) : Tracks hand (valueOf t) fun _ => hand :=
  tracks_of_still (fun _ => rfl) fun s => by rw [after_valueOf]

theorem tracks_endGroup : Tracks hand endGroup fun _ => hand := by
  refine tracks_of_still (fun _ => rfl) fun s => ?_
  rcases after_endGroup s with same | cleared
  · rw [same]
  · rw [cleared]; rfl

theorem tracks_define (f : FunctionLiteral) : Tracks hand (define f) fun _ => hand :=
  tracks_of_still (fun _ => rfl) fun _ => rfl

/-- A literal is read while its announcement is in hand and nothing is pending, and afterwards, with
whatever success, nothing is pending either. -/
theorem tracks_literal (t : Token) : Tracks [t] (reading Reading.functionLiteral) := by
  intro s log before
  have drained := Reading.drained_functionLiteral before.1
  cases run : Reading.functionLiteral s.reader with
  | ok f q =>
    rw [reading_of_ok run]
    exact .ok (onlyLast_of_eq_nil (drained.of_ok run))
  | error fault q =>
    rw [reading_of_error run]
    exact .error (onlyLast_of_eq_nil (drained.of_error run))

theorem tracks_recover (d : Diagnostic) : Tracks [] (recover d) :=
  (tracks_report d).bind fun _ => tracks_pure _

theorem tracks_settle (result : Except Diagnostic Value) : Tracks [] (settle result) := by
  cases result with
  | ok v => exact tracks_pure v
  | error d => exact tracks_recover d

end Parts

/-! ### The rules of the grammar -/

section Rules

variable {nested operand : Evaluating Value} [Course nested] [Course operand]

theorem tracks_closeGroup (value : Value) : Tracks [] (closeGroup value) :=
  tracks_next.bind fun t => .ite (fun _ => tracks_pure value) fun _ =>
    (tracks_pushBack t).bind fun _ => tracks_recover _

theorem tracks_group (hn : Tracks [] nested) : Tracks [] (group nested) :=
  hn.bind fun value => tracks_endGroup.bind fun _ => tracks_closeGroup value

/-- The token behind a chain of signs is in hand. -/
theorem tracks_minusChain (n : Nat) (odd : Bool) (t : Token) :
    Tracks [t] (minusChain n odd t) fun chain => [chain.2] := by
  induction n generalizing odd t with
  | zero => exact tracks_throw _
  | succ n ih =>
    refine .ite (fun _ => ?_) fun _ => tracks_yield (odd, t) rfl
    exact Tracks.take (tracks_next.bind fun t' => ih (!odd) t')

theorem tracks_negated (hn : Tracks [] nested) (t : Token) : Tracks [t] (negated nested t) :=
  .ite (fun _ => (tracks_numeral t).take) fun _ =>
    .ite (fun _ => (hn.bind tracks_closeGroup).take) fun _ =>
    (tracks_pushBack t).bind fun _ => hn

theorem tracks_opposite (odd : Bool) (operand : Value) (result : Except Diagnostic Value) :
    Tracks [] (opposite odd operand result) := by
  cases result with
  | error d => exact tracks_recover d
  | ok opposite => exact tracks_pure _

theorem tracks_negation (hn : Tracks [] nested) (n : Nat) (minus : Token) :
    Tracks [minus] (negation n nested minus) := by
  have counted : Tracks [minus] (minusChain n false minus >>= negationFrom nested minus) :=
    (tracks_minusChain n false minus).bind fun chain =>
      (tracks_negated hn chain.2).bind fun operand => tracks_opposite _ operand _
  exact counted

theorem tracks_noExpression (t : Token) : Tracks [t] (noExpression t) := by
  have left : Tracks [t] (leaveOutside t) :=
    .ite (fun _ => tracks_pushBack t) fun _ => tracks_pure ()
  exact left.bind fun _ => tracks_recover _

theorem tracks_primary (hn : Tracks [] nested) (n : Nat) : Tracks [] (primary n nested) := by
  refine tracks_next.bind fun t => ?_
  refine .ite (fun _ => ?_) fun _ => .ite (fun _ => ?_) fun _ => .ite (fun _ => ?_) fun _ =>
    .ite (fun _ => ?_) fun _ => .ite (fun _ => ?_) fun _ => ?_
  · exact (tracks_numeral t).take
  · exact tracks_pure _
  · exact (tracks_valueOf t).take
  · exact (tracks_group hn).take
  · exact tracks_negation hn n t
  · exact tracks_noExpression t

theorem tracks_chain (ho : Tracks [] operand) (level : Level) (n : Nat) (left : Value) :
    Tracks [] (chain level operand n left) := by
  induction n generalizing left with
  | zero => exact tracks_throw _
  | succ n ih =>
    refine tracks_next.bind fun t => .ite (fun _ => ?_) fun _ => ?_
    · exact (ho.bind fun right => (tracks_settle _).bind ih).take
    · exact (tracks_pushBack t).bind fun _ => tracks_pure left

theorem tracks_joined (ho : Tracks [] operand) (level : Level) (n : Nat) :
    Tracks [] (joined level n operand) :=
  ho.bind fun left => tracks_chain ho level n left

theorem tracks_expression (n : Nat) : Tracks [] (expression n) := by
  induction n with
  | zero => exact tracks_throw _
  | succ n ih =>
    have powers := tracks_joined (tracks_primary ih (n + 1)) .power (n + 1)
    exact tracks_joined (tracks_joined powers .product (n + 1)) .sum (n + 1)

theorem tracks_evaluate : Tracks [] evaluate := tracks_budget.bind tracks_expression

end Rules

/-! ### Statements -/

theorem tracks_skipStatement (n : Nat) (t : Token) : Tracks [t] (skipStatement n t) := by
  induction n generalizing t with
  | zero => exact tracks_throw _
  | succ n ih => exact .ite (fun _ => tracks_pushBack t) fun _ => (tracks_next.bind ih).take

theorem tracks_endStatement : Tracks [] endStatement := by
  refine tracks_next.bind fun t => .ite (fun _ => tracks_pushBack t) fun _ => ?_
  exact (tracks_report _).bind fun _ => tracks_budget.bind fun n =>
    tracks_skipStatement (n + 1) t

theorem tracks_statements (n : Nat) : Tracks [] (statements n) := by
  induction n with
  | zero => exact tracks_throw _
  | succ n ih =>
    refine tracks_next.bind fun t => ?_
    refine .ite (fun _ => ?_) fun _ => .ite (fun _ => ?_) fun _ => .ite (fun _ => ?_) fun _ => ?_
    · exact tracks_pure _
    · exact ih.take
    · exact (tracks_literal t).bind fun f => (tracks_define f).bind fun _ => ih
    · exact (tracks_pushBack t).bind fun _ => tracks_evaluate.bind fun _ =>
        tracks_endStatement.bind fun _ => ih.bind fun _ => tracks_pure _

theorem tracks_evaluateAll : Tracks [] evaluateAll := tracks_budget.bind tracks_statements

end Evaluating

/-! ### Requests -/

/-- An assignment gets nothing. -/
instance courseServe : (request : Request) → Course request.serve
  | .evaluate => inferInstanceAs (Course (Evaluating.evaluate >>= fun v => pure (Answer.value v)))
  | .evaluateAll =>
    inferInstanceAs (Course (Evaluating.evaluateAll >>= fun vs => pure (Answer.values vs)))
  | .assign _ _ => ⟨fun _ => []⟩

open Evaluating in
theorem tracks_serve (request : Request) : Tracks [] request.serve := by
  cases request with
  | evaluate => exact tracks_evaluate.bind fun _ => tracks_pure _
  | evaluateAll => exact tracks_evaluateAll.bind fun _ => tracks_pure _
  | assign name given =>
    refine tracks_of_still (fun _ => rfl) fun s => ?_
    obtain ⟨bindings, same⟩ := Request.after_assign name given s
    rw [same]

/-- What is got from the source while the requests are served in turn: the tokens that are scanned
and the literals that are read, those before a fault included. A literal stands for the tokens inside
it. One that cannot be read is no entry, but then nothing is pending until a token is scanned. -/
def Session.log (s : Session) : List Request → List Reader.Entry
  | [] => []
  | request :: later => entries request.serve s ++ (after request.serve s).log later

open Evaluating in
/-- **Requests.** At most one token is pending, and it was scanned last. -/
theorem onlyLast_of_served {s : Session} {log : List Reader.Entry} (requests : List Request)
    (before : OnlyLast log s.reader.pending) :
    OnlyLast (log ++ s.log requests) (s.served requests).reader.pending := by
  induction requests generalizing s log with
  | nil => exact (List.append_nil log).symm ▸ before
  | cons request later ih =>
    have first : OnlyLast (log ++ entries request.serve s) (after request.serve s).reader.pending :=
      (tracks_serve request s log before).after (P := fun u => OnlyLast _ u.reader.pending)
        (fun _ _ kept => kept) fun _ _ kept => kept
    have behind := ih first
    rwa [List.append_assoc] at behind

/-- Behind the text a name has been scanned and put back. -/
example :
    let start := Session.ofSource "\"a\" b" "in" .raise false []
    let b : Token := ⟨.identifier, "b", ⟨1, 6, "in"⟩⟩
    start.log [.evaluate] = [.token ⟨.string, "a", ⟨1, 4, "in"⟩⟩, .token b] ∧
      (start.served [.evaluate]).reader.pending = [b] := by
  decide +kernel

end Reckoner
