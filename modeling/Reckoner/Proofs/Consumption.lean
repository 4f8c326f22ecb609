import Reckoner.Proofs.Calls
import Reckoner.Proofs.Course
import Reckoner.Proofs.Scans

/-!
# What the rules use up

Whatever a rule of the grammar pulls, it uses for good or puts back, and nothing is lost: what was
pending, with the tokens scanned on the way behind it, is what is used with what is then pending
behind it. No rule uses the end of a statement, and where a run stops at the first diagnostic, none
that returns uses the announcement of a function literal. No rule reads or keeps a literal.

* `Spends` — what has been used between two readers;
* `Frugal` — what an action spends, possibly with a token in hand;
* `frugal_rule`, `frugal_evaluate`, `frugal_endStatement` — the rules;
* `pending_of_endStatement` — the end of a statement is left pending.
-/

namespace Reckoner

/-- What a rule may use under this policy: no end of a statement, and where nothing is collected, no
announcement of a literal. -/
structure Spendable (policy : Policy) (t : Token) : Prop where
  inside : t.kind.endsStatement = false
  plain : policy = .raise → t.kind ≠ .functionDeclaration

theorem Spendable.of_kind {policy : Policy} {t : Token} {kind : TokenKind} (h : t.kind = kind)
    (inside : kind.endsStatement = false) (plain : kind ≠ .functionDeclaration) :
    Spendable policy t := ⟨h ▸ inside, fun _ => h ▸ plain⟩

/-- Between the two readers the entries have been scanned, and no literal has been captured. What
was pending and what has been scanned is what has been used and what is pending then. -/
inductive Spends (policy : Policy) (r : Reader) (log : List Reader.Entry) (q : Reader) : Prop
  | mk {ts used : List Token} : log = ts.map .token → r.Scans ts q →
      q.journal.captured = r.journal.captured → r.pending ++ ts = used ++ q.pending →
      (∀ t ∈ used, Spendable policy t) → Spends policy r log q

namespace Spends

variable {policy : Policy} {r q z : Reader} {log later : List Reader.Entry} {t : Token}

theorem refl (same : r.SamePlace q) (captured : q.journal.captured = r.journal.captured)
    (pending : q.pending = r.pending) : Spends policy r [] q := by
  refine @mk _ _ _ _ [] [] rfl (.done same) captured ?_
    fun u hu => absurd hu List.not_mem_nil
  rw [pending, List.append_nil, List.nil_append]

theorem trans (h : Spends policy r log q) (h' : Spends policy q later z) :
    Spends policy r (log ++ later) z := by
  obtain @⟨ts, used, made, scanned, captured, kept, spendable⟩ := h
  obtain @⟨ts', used', made', scanned', captured', kept', spendable'⟩ := h'
  refine @mk _ _ _ _ (ts ++ ts') (used ++ used') ?_ (scanned.append scanned')
    (captured'.trans captured) ?_ ?_
  · rw [made, made', List.map_append]
  · rw [← List.append_assoc, kept, List.append_assoc, kept', List.append_assoc]
  · intro u hu
    rcases List.mem_append.1 hu with hu | hu
    · exact spendable u hu
    · exact spendable' u hu

theorem policy_eq (h : Spends policy r log q) : r.journal.policy = q.journal.policy := by
  obtain ⟨-, scanned, -, -, -⟩ := h
  exact scanned.policy

theorem captured_eq (h : Spends policy r log q) :
    q.journal.captured = r.journal.captured ++ log.filterMap Reader.Entry.literal? := by
  obtain ⟨made, -, captured, -, -⟩ := h
  rw [captured, made, Reader.Entry.filterMap_literal?, List.append_nil]

/-- A pending token is used. -/
theorem take (spendable : Spendable policy t) (r : Reader) : Spends policy (r.push t) [] r := by
  refine @mk _ _ _ _ [] [t] rfl (.done ⟨rfl, rfl, rfl⟩) rfl (List.append_nil _) ?_
  intro u hu
  rw [List.mem_singleton.1 hu]
  exact spendable

end Spends

namespace Evaluating

variable {p : Policy} {s u : Session} {t : Token}

/-- An action of the reader keeps no literal. -/
theorem functions_of_reading {α : Type} {action : Reading α} {x : α}
    (run : reading action s = .ok x u) : u.functions = s.functions := by
  obtain ⟨q, -, rfl⟩ := reading_eq_ok run
  rfl

/-- What is pulled is as good as put back. -/
theorem spends_next (taken : next s = .ok t u) :
    Spends p s.reader (entries next s) (u.push t).reader := by
  obtain ⟨q, pulled, rfl⟩ := reading_eq_ok taken
  have captured := Reader.captured_of_next pulled
  rcases Reader.scans_of_next pulled with ⟨waiting, same⟩ | ⟨none, none', scanned⟩
  · rw [entries_next_of_pending waiting]
    exact .refl ⟨same.cursor, same.file, same.policy⟩ captured waiting.symm
  · rw [entries_next_of_scan none taken]
    refine @Spends.mk _ _ _ _ [t] [] rfl (scanned.congr_end ⟨rfl, rfl, rfl⟩) captured ?_
      fun u hu => absurd hu List.not_mem_nil
    show s.reader.pending ++ [t] = t :: q.pending
    rw [none, none']
    rfl

/-- Whatever the action gets, it uses or leaves pending, and so with the tokens in hand; and it
keeps no literal. -/
def Frugal {α : Type} (p : Policy) (hand : List Token) (a : Evaluating α) [Course a] : Prop :=
  ∀ s x u, s.reader.journal.policy = p → a s = .ok x u →
    Spends p { s.reader with pending := hand ++ s.reader.pending } (entries a s) u.reader ∧
      u.functions = s.functions

section Parts

variable {α β : Type} {a b : Evaluating α} {f : α → Evaluating β} {hand : List Token}

theorem Frugal.bind [Course a] [∀ x, Course (f x)] (ha : Frugal p hand a)
    (hf : ∀ x, Frugal p [] (f x)) : Frugal p hand (a >>= f) := by
  intro s y v policy run
  obtain ⟨x, u, first, second⟩ := bind_eq_ok.1 run
  obtain ⟨before, same⟩ := ha s x u policy first
  obtain ⟨behind, same'⟩ := hf x u y v (before.policy_eq.symm.trans policy) second
  rw [entries_bind_of_ok first]
  exact ⟨before.trans behind, same'.trans same⟩

/-- What is pulled is in hand. -/
theorem frugal_next_bind {f : Token → Evaluating β} [∀ t, Course (f t)]
    (hf : ∀ t, Frugal p [t] (f t)) : Frugal p [] (next >>= f) := by
  intro s y v policy run
  obtain ⟨t, u, taken, later⟩ := bind_eq_ok.1 run
  have before := spends_next (p := p) taken
  obtain ⟨behind, same⟩ := hf t u y v (before.policy_eq.symm.trans policy) later
  rw [entries_bind_of_ok taken]
  exact ⟨before.trans behind, same.trans (functions_of_reading taken)⟩

/-- What is in hand is put back. -/
theorem frugal_pushBack (t : Token) : Frugal p [t] (pushBack t) := by
  intro s x u _ run
  cases run
  exact ⟨.refl ⟨rfl, rfl, rfl⟩ rfl rfl, rfl⟩

/-- What is in hand is used first. -/
theorem Frugal.take [Course a] (ha : Frugal p [] a)
    (spendable : ∀ s x u, s.reader.journal.policy = p → a s = .ok x u → Spendable p t) :
    Frugal p [t] a := by
  intro s x u policy run
  obtain ⟨behind, same⟩ := ha s x u policy run
  exact ⟨(Spends.take (spendable s x u policy run) s.reader).trans behind, same⟩

theorem Frugal.ite {c : Prop} [Decidable c] [Course a] [Course b] (ha : c → Frugal p hand a)
    (hb : ¬ c → Frugal p hand b) : Frugal p hand (if c then a else b) := by
  intro s x u policy run
  by_cases h : c
  · have same : entries (if c then a else b) s = entries a s := if_pos h
    rw [same]
    rw [if_pos h] at run
    exact ha h s x u policy run
  · have same : entries (if c then a else b) s = entries b s := if_neg h
    rw [same]
    rw [if_neg h] at run
    exact hb h s x u policy run

theorem frugal_throw (hand : List Token) (fault : Fault) :
    Frugal p hand (throw fault : Evaluating α) :=
  fun _ _ _ _ run => absurd run throw_ne_ok

end Parts

/-! ### Steps that get nothing -/

/-- The action gets nothing, leaves pending what is, and keeps no literal. -/
structure Idle {α : Type} (a : Evaluating α) [Course a] : Prop where
  silent (s : Session) : entries a s = []
  place {s : Session} {x : α} {u : Session} : a s = .ok x u → s.reader.SamePlace u.reader
  captured {s : Session} {x : α} {u : Session} : a s = .ok x u →
    u.reader.journal.captured = s.reader.journal.captured
  pending {s : Session} {x : α} {u : Session} : a s = .ok x u → u.reader.pending = s.reader.pending
  functions {s : Session} {x : α} {u : Session} : a s = .ok x u → u.functions = s.functions

section Steps

variable {α β : Type} {a : Evaluating α} {f : α → Evaluating β} {hand : List Token}

/-- What is in hand stays there. -/
theorem Idle.frugal_bind [Course a] [∀ x, Course (f x)] (ha : Idle a)
    (hf : ∀ x, Frugal p hand (f x)) : Frugal p hand (a >>= f) := by
  intro s y v policy run
  obtain ⟨x, u, first, second⟩ := bind_eq_ok.1 run
  have same := ha.place first
  have before : Spends p { s.reader with pending := hand ++ s.reader.pending } (entries a s)
      { u.reader with pending := hand ++ u.reader.pending } := by
    rw [ha.silent s]
    exact .refl ⟨same.cursor, same.file, same.policy⟩ (ha.captured first)
      (congrArg (hand ++ ·) (ha.pending first))
  obtain ⟨behind, same'⟩ := hf x u y v (same.policy.symm.trans policy) second
  rw [entries_bind_of_ok first]
  exact ⟨before.trans behind, same'.trans (ha.functions first)⟩

theorem Idle.frugal [Course a] (ha : Idle a) : Frugal p [] a := by
  intro s x u _ run
  rw [ha.silent s]
  exact ⟨.refl (ha.place run) (ha.captured run) (ha.pending run), ha.functions run⟩

/-- What leaves the session as it is gets nothing. -/
theorem idle_of_eq [Course a] (silent : ∀ s, entries a s = [])
    (same : ∀ s x u, a s = .ok x u → u = s) : Idle a where
  silent := silent
  place run := by rw [same _ _ _ run]; exact .refl _
  captured run := by rw [same _ _ _ run]
  pending run := by rw [same _ _ _ run]
  functions run := by rw [same _ _ _ run]

theorem idle_pure (x : α) : Idle (pure x) :=
  idle_of_eq (fun _ => rfl) fun _ _ _ run => (pure_eq_ok.1 run).2.symm

theorem collect_of_report {d : Diagnostic} {x : Unit} (run : reading (Reading.report d) s = .ok x u) :
    s.reader.journal.policy = .collect ∧ u.reader = s.reader.note (.collected d) := by
  obtain ⟨q, reported, rfl⟩ := reading_eq_ok run
  exact Reading.report_eq_ok reported

theorem idle_report (d : Diagnostic) : Idle (reading (Reading.report d)) where
  silent _ := rfl
  place run := by
    rw [(collect_of_report run).2]
    exact ⟨rfl, rfl, rfl⟩
  captured run := by
    rw [(collect_of_report run).2]
    exact Journal.captured_note_collected _ d
  pending run := by
    rw [(collect_of_report run).2]
    rfl
  functions run := functions_of_reading run

theorem idle_budget : Idle budget :=
  idle_of_eq (fun _ => rfl) fun _ _ _ run => by cases run; rfl

theorem idle_numeral (t : Token) : Idle (numeral t) := by
  refine idle_of_eq (fun s => rfl) fun s x u run => ?_
  unfold numeral at run
  cases read : Number.read? t.text with
  | none =>
    rw [read] at run
    exact absurd run throw_ne_ok
  | some number =>
    rw [read] at run
    cases run
    rfl

theorem idle_valueOf (t : Token) : Idle (valueOf t) := by
  refine idle_of_eq (fun s => rfl) fun s x u run => ?_
  rw [← after_of_ok run, after_valueOf]

theorem idle_endGroup : Idle endGroup where
  silent _ := rfl
  place {s x u} run := by
    have same := after_endGroup s
    rw [after_of_ok run] at same
    rcases same with rfl | rfl
    · exact .refl _
    · exact ⟨rfl, rfl, rfl⟩
  captured {s x u} run := by
    have same := after_endGroup s
    rw [after_of_ok run] at same
    rcases same with rfl | rfl
    · rfl
    · exact Journal.captured_note_cleared _ _
  pending {s x u} run := by
    have same := after_endGroup s
    rw [after_of_ok run] at same
    rcases same with rfl | rfl <;> rfl
  functions {s x u} run := by
    have same := after_endGroup s
    rw [after_of_ok run] at same
    rcases same with rfl | rfl <;> rfl

theorem frugal_pure (x : α) : Frugal p [] (pure x) := (idle_pure x).frugal

theorem frugal_recover (d : Diagnostic) : Frugal p [] (recover d) :=
  (idle_report d).frugal_bind fun _ => frugal_pure _

theorem frugal_settle (result : Except Diagnostic Value) : Frugal p [] (settle result) := by
  cases result with
  | ok v => exact frugal_pure v
  | error d => exact frugal_recover d

end Steps

/-! ### The rules of the grammar -/

section Rules

variable {nested operand : Evaluating Value} [Course nested] [Course operand]

theorem spendable_of_isOperator {symbols : List String} (h : t.isOperator symbols = true) :
    Spendable p t := .of_kind (kind_of_isOperator h) rfl (by decide)

theorem spendable_of_isPunctuation {symbol : String} (h : t.isPunctuation symbol = true) :
    Spendable p t := .of_kind (kind_of_isPunctuation h) rfl (by decide)

theorem frugal_closeGroup (value : Value) : Frugal p [] (closeGroup value) := by
  refine frugal_next_bind fun t => .ite (fun closing => ?_) fun _ => ?_
  · exact (frugal_pure value).take fun _ _ _ _ _ => spendable_of_isPunctuation closing
  · exact (frugal_pushBack t).bind fun _ => frugal_recover _

theorem frugal_group (hn : Frugal p [] nested) : Frugal p [] (group nested) :=
  hn.bind fun value => idle_endGroup.frugal_bind fun _ => frugal_closeGroup value

/-- The token behind a chain of signs is in hand again. -/
theorem spends_minusChain {n : Nat} {odd : Bool} {chain : Bool × Token}
    (policy : s.reader.journal.policy = p) (run : minusChain n odd t s = .ok chain u) :
    Spends p (s.push t).reader (entries (minusChain n odd t) s) (u.push chain.2).reader ∧
      u.functions = s.functions := by
  induction n generalizing odd t s with
  | zero => exact absurd run throw_ne_ok
  | succ n ih =>
    rw [minusChain_succ] at run
    by_cases sign : t.isOperator ["-"] = true
    · rw [if_pos sign] at run
      obtain ⟨t', v, taken, later⟩ := bind_eq_ok.1 run
      have log : entries (minusChain (n + 1) odd t) s =
          entries (next >>= minusChain n (!odd)) s := if_pos sign
      have before := spends_next (p := p) taken
      have policy' : v.reader.journal.policy = p := before.policy_eq.symm.trans policy
      obtain ⟨behind, same⟩ := ih policy' later
      rw [log, entries_bind_of_ok taken]
      exact ⟨(Spends.take (spendable_of_isOperator sign) s.reader).trans (before.trans behind),
        same.trans (functions_of_reading taken)⟩
    · have log : entries (minusChain (n + 1) odd t) s = [] := if_neg sign
      rw [if_neg sign] at run
      rw [log]
      cases run
      exact ⟨.refl (.refl _) rfl rfl, rfl⟩

theorem frugal_negated (hn : Frugal p [] nested) (t : Token) : Frugal p [t] (negated nested t) := by
  refine .ite (fun number => ?_) fun _ => .ite (fun opening => ?_) fun _ => ?_
  · exact (idle_numeral t).frugal.take fun _ _ _ _ _ => .of_kind number rfl (by decide)
  · exact (hn.bind frugal_closeGroup).take fun _ _ _ _ _ => spendable_of_isPunctuation opening
  · exact (frugal_pushBack t).bind fun _ => hn

theorem frugal_opposite (odd : Bool) (operand : Value) (result : Except Diagnostic Value) :
    Frugal p [] (opposite odd operand result) := by
  cases result with
  | error d => exact frugal_recover d
  | ok opposite => exact frugal_pure _

/-- With its first sign in hand, a negation uses that and the signs behind it. -/
theorem frugal_negation (hn : Frugal p [] nested) (n : Nat) (minus : Token) :
    Frugal p [minus] (negation n nested minus) := by
  intro s x v policy run
  obtain ⟨chain, u, counted, later⟩ := bind_eq_ok.1 (negation_eq n nested minus ▸ run)
  obtain ⟨before, same⟩ := spends_minusChain policy counted
  have rest : Frugal p [chain.2] (negationFrom nested minus chain) :=
    (frugal_negated hn chain.2).bind fun operand => frugal_opposite _ _ _
  obtain ⟨behind, same'⟩ := rest u x v (before.policy_eq.symm.trans policy) later
  show Spends p _ (entries (minusChain n false minus >>= negationFrom nested minus) s) v.reader ∧ _
  rw [entries_bind_of_ok counted]
  exact ⟨before.trans behind, same'.trans same⟩

/-- A token that begins no expression is used only where that is collected. -/
theorem frugal_noExpression (t : Token) : Frugal p [t] (noExpression t) := by
  by_cases outside : belongsOutside t = true
  · have left : Frugal p [t] (leaveOutside t) :=
      .ite (fun _ => frugal_pushBack t) fun other => absurd outside other
    exact left.bind fun _ => frugal_recover _
  · have taken : Frugal p [] (leaveOutside t) :=
      .ite (fun inside => absurd inside outside) fun _ => frugal_pure ()
    refine (taken.bind fun _ => frugal_recover _).take fun s x u policy run => ?_
    obtain ⟨_, v, left, later⟩ := bind_eq_ok.1 run
    obtain ⟨_, w, reported, -⟩ := bind_eq_ok.1 later
    have kept : v.reader.journal.policy = s.reader.journal.policy :=
      (grows (composed_leaveOutside t)).policy_of_ok left
    have collecting := kept.symm.trans (collect_of_report reported).1
    refine ⟨(Bool.or_eq_false_iff.1 (Bool.eq_false_iff.2 outside)).1, fun raising => ?_⟩
    cases raising.symm.trans (policy.symm.trans collecting)

theorem frugal_primary (hn : Frugal p [] nested) (n : Nat) : Frugal p [] (primary n nested) := by
  refine frugal_next_bind fun t => ?_
  refine .ite (fun number => ?_) fun _ => .ite (fun string => ?_) fun _ =>
    .ite (fun name => ?_) fun _ => .ite (fun opening => ?_) fun _ =>
    .ite (fun _ => ?_) fun _ => ?_
  · exact (idle_numeral t).frugal.take fun _ _ _ _ _ => .of_kind number rfl (by decide)
  · exact (frugal_pure _).take fun _ _ _ _ _ => .of_kind string rfl (by decide)
  · exact (idle_valueOf t).frugal.take fun _ _ _ _ _ => .of_kind name rfl (by decide)
  · exact (frugal_group hn).take fun _ _ _ _ _ => spendable_of_isPunctuation opening
  · exact frugal_negation hn n t
  · exact frugal_noExpression t

theorem frugal_chain (ho : Frugal p [] operand) (level : Level) (n : Nat) (left : Value) :
    Frugal p [] (chain level operand n left) := by
  induction n generalizing left with
  | zero => exact frugal_throw [] _
  | succ n ih =>
    refine frugal_next_bind fun t => .ite (fun operator => ?_) fun _ => ?_
    · exact (ho.bind fun right => (frugal_settle _).bind ih).take
        fun _ _ _ _ _ => spendable_of_isOperator operator
    · exact (frugal_pushBack t).bind fun _ => frugal_pure left

theorem frugal_joined (ho : Frugal p [] operand) (level : Level) (n : Nat) :
    Frugal p [] (joined level n operand) :=
  ho.bind fun left => frugal_chain ho level n left

theorem frugal_rule (hn : Frugal p [] nested) (n : Nat) :
    ∀ level : Option Level, Frugal p [] (rule n nested level)
  | none => frugal_primary hn n
  | some .power => frugal_joined (frugal_primary hn n) .power n
  | some .product => frugal_joined (frugal_joined (frugal_primary hn n) .power n) .product n
  | some .sum =>
    frugal_joined (frugal_joined (frugal_joined (frugal_primary hn n) .power n) .product n) .sum n

end Rules

theorem frugal_expression (n : Nat) : Frugal p [] (expression n) := by
  induction n with
  | zero => exact frugal_throw [] _
  | succ n ih => exact frugal_rule ih (n + 1) (some .sum)

theorem frugal_evaluate : Frugal p [] evaluate :=
  idle_budget.frugal_bind frugal_expression

/-! ### Ends of statements -/

/-- Where tokens are skipped, that has been collected. -/
theorem frugal_skipStatement (n : Nat) (t : Token) :
    Frugal .collect [t] (skipStatement n t) := by
  induction n generalizing t with
  | zero => exact frugal_throw _ _
  | succ n ih =>
    refine .ite (fun _ => frugal_pushBack t) fun ongoing => ?_
    exact (frugal_next_bind ih).take fun _ _ _ _ _ =>
      ⟨Bool.eq_false_iff.2 ongoing, fun raising => by cases raising⟩

/-- What ends an expression but not its statement is used only where that is collected. -/
theorem frugal_skipTrailing (t : Token) : Frugal p [t] (skipTrailing t) := by
  cases p with
  | collect =>
    exact (idle_report _).frugal_bind fun _ => idle_budget.frugal_bind fun n =>
      frugal_skipStatement (n + 1) t
  | raise =>
    intro s x u policy run
    obtain ⟨_, v, reported, -⟩ := bind_eq_ok.1 run
    cases policy.symm.trans (collect_of_report reported).1

theorem frugal_endStatement : Frugal p [] endStatement :=
  frugal_next_bind fun t => .ite (fun _ => frugal_pushBack t) fun _ => frugal_skipTrailing t

/-- The end of a statement is left pending. -/
theorem pending_of_skipStatement {n : Nat} {x : Unit} (run : skipStatement n t s = .ok x u) :
    ∃ e ∈ u.reader.pending.head?, e.kind.endsStatement = true := by
  induction n generalizing t s with
  | zero => exact absurd run throw_ne_ok
  | succ n ih =>
    by_cases last : t.kind.endsStatement = true
    · have run : pushBack t s = .ok x u := by
        unfold skipStatement at run
        rw [if_pos last] at run
        exact run
      cases run
      exact ⟨t, rfl, last⟩
    · rw [skipStatement_of_inside n (Bool.eq_false_iff.2 last)] at run
      obtain ⟨t', v, -, later⟩ := bind_eq_ok.1 run
      exact ih later

theorem pending_of_endStatement {x : Unit} (run : endStatement s = .ok x u) :
    ∃ e ∈ u.reader.pending.head?, e.kind.endsStatement = true := by
  rw [endStatement_eq] at run
  obtain ⟨t, v, -, later⟩ := bind_eq_ok.1 run
  by_cases last : t.kind.endsStatement = true
  · rw [if_pos last] at later
    cases later
    exact ⟨t, rfl, last⟩
  · rw [if_neg last] at later
    obtain ⟨_, w, -, later⟩ := bind_eq_ok.1 later
    obtain ⟨n, w', -, skipped⟩ := bind_eq_ok.1 later
    exact pending_of_skipStatement skipped

end Evaluating

end Reckoner
