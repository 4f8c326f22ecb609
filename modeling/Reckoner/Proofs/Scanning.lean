import Reckoner.Proofs.Steps

/-!
# What a pull delivers

A pull delivers the foremost pending token or, if none is pending, what stands behind the
blanks that come next in the source. `Reading.Delivery` lists the ways in which it can succeed,
`Reading.Failure` those in which it can fail.

Each token other than the end of the input that is taken for good makes the reader lighter:
`Reader.weight` counts the characters and the pending tokens that are left.
-/

namespace Reckoner

open Reckoner.Text

namespace Reader

/-- The reader with a token before all others. -/
def push (t : Token) (r : Reader) : Reader := { r with pending := t :: r.pending }

theorem next_push (t : Token) (r : Reader) : Reading.next (r.push t) = .ok t r := by
  have waiting : (r.push t).pending = t :: r.pending := rfl
  exact Reading.next_of_pending waiting

/-- The reader behind the blanks that come next. -/
def pastBlanks (r : Reader) : Reader := r.advance (r.cursor.rest.takeWhile isBlank).length

theorem rest_advance (r : Reader) (n : Nat) :
    (r.advance n).cursor.rest = r.cursor.rest.drop n := rfl

theorem rest_pastBlanks (r : Reader) :
    r.pastBlanks.cursor.rest = r.cursor.rest.dropWhile isBlank := by
  rw [pastBlanks, rest_advance]
  calc r.cursor.rest.drop (r.cursor.rest.takeWhile isBlank).length
      = (r.cursor.rest.takeWhile isBlank ++ r.cursor.rest.dropWhile isBlank).drop
          (r.cursor.rest.takeWhile isBlank).length := by rw [List.takeWhile_append_dropWhile]
    _ = r.cursor.rest.dropWhile isBlank := List.drop_left

end Reader

namespace Reading

theorem report_of_collect {r : Reader} (d : Diagnostic) (h : r.journal.policy = .collect) :
    report d r = .ok () (r.note (.collected d)) := by
  obtain ⟨c, pending, file, policy, events⟩ := r
  cases h
  rfl

theorem report_of_raise {r : Reader} (d : Diagnostic) (h : r.journal.policy = .raise) :
    report d r = .error (.diagnostic d) r := by
  obtain ⟨c, pending, file, policy, events⟩ := r
  cases h
  rfl

/-- A report is a step only where it is collected. -/
theorem report_eq_ok {r q : Reader} {d : Diagnostic} (h : report d r = .ok () q) :
    r.journal.policy = .collect ∧ q = r.note (.collected d) := by
  cases policy : r.journal.policy with
  | raise =>
    rw [report_of_raise d policy] at h
    cases h
  | collect =>
    rw [report_of_collect d policy] at h
    cases h
    exact ⟨rfl, rfl⟩

theorem reportHere_eq_ok {r q : Reader} {cause : Cause} (h : reportHere cause r = .ok () q) :
    q = r.note (.collected ⟨cause, r.here⟩) :=
  (report_eq_ok (d := ⟨cause, r.here⟩) h).2

/-- The token of a string without its end, made after that has been reported. -/
def openString (text : List Char) : Reading Token := do
  reportHere .unterminatedString
  token .string text

theorem openString_of_collect {r : Reader} (text : List Char)
    (h : r.journal.policy = .collect) :
    openString text r = .ok ⟨.string, String.ofList text, r.here⟩
      (r.note (.collected ⟨.unterminatedString, r.here⟩)) := by
  show (report ⟨.unterminatedString, r.here⟩ >>= fun _ => token .string text : Reading Token) r = _
  rw [bind_of_ok (report_of_collect _ h)]
  rfl

theorem openString_of_raise {r : Reader} (text : List Char) (h : r.journal.policy = .raise) :
    openString text r = .error (.diagnostic ⟨.unterminatedString, r.here⟩) r := by
  show (report ⟨.unterminatedString, r.here⟩ >>= fun _ => token .string text : Reading Token) r = _
  exact bind_of_error (report_of_raise _ h)

/-- Scanning in one equation: blanks are passed, then the head of the text decides. -/
theorem scan_eq (r : Reader) :
    scan r =
      match Scan.of r.pastBlanks.cursor.rest with
      | .nothing => .ok ⟨.endOfInput, "", r.pastBlanks.here⟩ r.pastBlanks
      | .lexeme l =>
        .ok ⟨l.kind, String.ofList l.text, (r.pastBlanks.advance l.spelling.length).here⟩
          (r.pastBlanks.advance l.spelling.length)
      | .unterminated text => openString text (r.pastBlanks.advance (text.length + 1))
      | .stray c =>
        .error (.diagnostic ⟨.invalidCharacter (String.singleton c), r.pastBlanks.here⟩)
          r.pastBlanks := by
  show (match Scan.of r.pastBlanks.cursor.rest with
      | .nothing => token .endOfInput []
      | .lexeme l => do
        skip l.spelling.length
        token l.kind l.text
      | .unterminated text => do
        skip (text.length + 1)
        openString text
      | .stray c => do fail ⟨.invalidCharacter (String.singleton c), ← here⟩ : Reading Token)
    r.pastBlanks = _
  cases Scan.of r.pastBlanks.cursor.rest <;> rfl

/-- The ways in which a reader can deliver a token and go on. -/
inductive Delivery (r : Reader) : Token → Reader → Prop
  /-- The foremost pending token is taken. -/
  | pending {t : Token} {later : List Token} (waiting : r.pending = t :: later) :
      Delivery r t { r with pending := later }
  /-- Nothing but blanks is left. -/
  | nothing (none : r.pending = []) (scanned : Scan.of r.pastBlanks.cursor.rest = .nothing) :
      Delivery r ⟨.endOfInput, "", r.pastBlanks.here⟩ r.pastBlanks
  | lexeme {l : Lexeme} (none : r.pending = [])
      (scanned : Scan.of r.pastBlanks.cursor.rest = .lexeme l) :
      Delivery r
        ⟨l.kind, String.ofList l.text, (r.pastBlanks.advance l.spelling.length).here⟩
        (r.pastBlanks.advance l.spelling.length)
  /-- All that is left is a string without its end, and this is collected. -/
  | unterminated {text : List Char} (none : r.pending = [])
      (scanned : Scan.of r.pastBlanks.cursor.rest = .unterminated text)
      (collecting : r.journal.policy = .collect) :
      Delivery r
        ⟨.string, String.ofList text, (r.pastBlanks.advance (text.length + 1)).here⟩
        ((r.pastBlanks.advance (text.length + 1)).note
          (.collected ⟨.unterminatedString, (r.pastBlanks.advance (text.length + 1)).here⟩))

/-- The ways in which a reader can fail to deliver a token. -/
inductive Failure (r : Reader) : Fault → Reader → Prop
  /-- A character that begins no token is not passed. -/
  | stray {c : Char} (none : r.pending = [])
      (scanned : Scan.of r.pastBlanks.cursor.rest = .stray c) :
      Failure r (.diagnostic ⟨.invalidCharacter (String.singleton c), r.pastBlanks.here⟩)
        r.pastBlanks
  /-- All that is left is a string without its end, and this is not collected. -/
  | unterminated {text : List Char} (none : r.pending = [])
      (scanned : Scan.of r.pastBlanks.cursor.rest = .unterminated text)
      (raising : r.journal.policy = .raise) :
      Failure r
        (.diagnostic ⟨.unterminatedString, (r.pastBlanks.advance (text.length + 1)).here⟩)
        (r.pastBlanks.advance (text.length + 1))

/-- A token is delivered in one of the first ways, or it is not in one of the others. -/
theorem delivery_or_failure (r : Reader) :
    (∃ t q, next r = .ok t q ∧ Delivery r t q) ∨
      ∃ fault q, next r = .error fault q ∧ Failure r fault q := by
  cases waiting : r.pending with
  | cons u later => exact Or.inl ⟨u, _, next_of_pending waiting, .pending waiting⟩
  | nil =>
    rw [next_of_pending_nil waiting, scan_eq]
    cases scanned : Scan.of r.pastBlanks.cursor.rest with
    | nothing => exact Or.inl ⟨_, _, rfl, .nothing waiting scanned⟩
    | lexeme l => exact Or.inl ⟨_, _, rfl, .lexeme waiting scanned⟩
    | unterminated text =>
      cases policy : r.journal.policy with
      | raise =>
        exact Or.inr ⟨_, _, openString_of_raise text policy,
          .unterminated waiting scanned policy⟩
      | collect =>
        exact Or.inl ⟨_, _, openString_of_collect text policy,
          .unterminated waiting scanned policy⟩
    | stray c => exact Or.inr ⟨_, _, rfl, .stray waiting scanned⟩

theorem delivery_of_next {r q : Reader} {t : Token} (h : next r = .ok t q) : Delivery r t q := by
  rcases delivery_or_failure r with ⟨u, z, run, delivery⟩ | ⟨fault, z, run, -⟩
  · cases h.symm.trans run
    exact delivery
  · cases h.symm.trans run

theorem failure_of_next {r q : Reader} {fault : Fault} (h : next r = .error fault q) :
    Failure r fault q := by
  rcases delivery_or_failure r with ⟨t, z, run, -⟩ | ⟨stop, z, run, failure⟩
  · cases h.symm.trans run
  · cases h.symm.trans run
    exact failure

/-- The foremost pending token is taken, or none is pending and the source is scanned. -/
theorem pending_of_next {r q : Reader} {t : Token} (h : next r = .ok t q) :
    r.pending = t :: q.pending ∨ r.pending = [] ∧ q.pending = [] ∧ scan r = .ok t q := by
  cases waiting : r.pending with
  | cons u later =>
    rw [next_of_pending waiting] at h
    cases h
    exact Or.inl rfl
  | nil =>
    refine Or.inr ⟨rfl, ?_, (next_of_pending_nil waiting).symm.trans h⟩
    cases delivery_of_next h with
    | pending first =>
      rw [waiting] at first
      cases first
    | nothing none scanned => exact none
    | lexeme none scanned => exact none
    | unterminated none scanned collecting => exact none

/-- Where nothing is pending, what is pulled has been scanned. -/
theorem scan_of_next {r q : Reader} {t : Token} (none : r.pending = [])
    (h : next r = .ok t q) : q.pending = [] ∧ scan r = .ok t q := by
  rcases pending_of_next h with waiting | ⟨-, none', scanned⟩
  · rw [none] at waiting
    cases waiting
  · exact ⟨none', scanned⟩

/-- A pull that fails leaves nothing pending. -/
theorem pending_of_failure {r q : Reader} {fault : Fault} (h : next r = .error fault q) :
    q.pending = [] := by
  cases failure_of_next h with
  | stray none scanned => exact none
  | unterminated none scanned raising => exact none

/-! ### Parameters -/

theorem takeWhile_eq_ok (test : Char → Bool) (r : Reader) :
    takeWhile test r =
      .ok (r.cursor.rest.takeWhile test) (r.advance (r.cursor.rest.takeWhile test).length) := rfl

theorem parameters_succ (n : Nat) :
    parameters (n + 1) = do
      match ← peek? with
      | none | some ')' => return []
      | some c =>
        let found ← parameter c
        passComma
        return found ++ (← parameters n) := rfl

theorem peek?_of_nil {r : Reader} (h : r.cursor.rest = []) : peek? r = .ok none r := by
  rw [peek?, h]
  rfl

theorem peek?_of_cons {r : Reader} {c : Char} {rest : List Char} (h : r.cursor.rest = c :: rest) :
    peek? r = .ok (some c) r := by
  rw [peek?, h]
  rfl

theorem parameters_of_end (n : Nat) {r : Reader} (h : r.cursor.rest = []) :
    parameters (n + 1) r = .ok [] r := by
  rw [parameters_succ, bind_of_ok (peek?_of_nil h)]
  rfl

theorem parameters_of_closing (n : Nat) {r : Reader} {rest : List Char}
    (h : r.cursor.rest = ')' :: rest) : parameters (n + 1) r = .ok [] r := by
  rw [parameters_succ, bind_of_ok (peek?_of_cons h)]
  rfl

theorem parameters_of_other (n : Nat) {r : Reader} {c : Char} {rest : List Char}
    (h : r.cursor.rest = c :: rest) (inside : c ≠ ')') :
    parameters (n + 1) r = (do
      let found ← parameter c
      passComma
      return found ++ (← parameters n) : Reading (List String)) r := by
  rw [parameters_succ, bind_of_ok (peek?_of_cons h)]
  refine congrFun ?_ r
  split
  · rename_i none
    cases none
  · rename_i closing
    cases closing
    exact absurd rfl inside
  · rename_i same
    cases same
    rfl

/-! ### The arrow -/

theorem scanLink?_of_arrow {r : Reader} {rest : List Char}
    (h : r.pastBlanks.cursor.rest = '=' :: '>' :: rest) :
    scanLink? r = .ok (some ⟨.functionLink, "=>", (r.pastBlanks.advance 2).here⟩)
      (r.pastBlanks.advance 2) := by
  unfold scanLink?
  have blanks : skipBlanks r = .ok () r.pastBlanks := rfl
  have seen : Reading.rest r.pastBlanks = .ok ('=' :: '>' :: rest) r.pastBlanks := by
    rw [Reading.rest, h]
  rw [bind_of_ok blanks, bind_of_ok seen]
  rfl

theorem scanLink?_of_other {r : Reader}
    (h : ∀ rest, r.pastBlanks.cursor.rest ≠ '=' :: '>' :: rest) :
    scanLink? r = .ok none r.pastBlanks := by
  unfold scanLink?
  have blanks : skipBlanks r = .ok () r.pastBlanks := rfl
  have seen : Reading.rest r.pastBlanks = .ok r.pastBlanks.cursor.rest r.pastBlanks := rfl
  rw [bind_of_ok blanks, bind_of_ok seen]
  refine congrFun (show _ = (pure none : Reading (Option Token)) from ?_) r.pastBlanks
  split
  · rename_i rest arrow
    exact absurd arrow (h rest)
  · rfl

theorem requireLink_of_arrow {r : Reader} {rest : List Char}
    (h : r.pastBlanks.cursor.rest = '=' :: '>' :: rest) :
    requireLink r = .ok () (r.pastBlanks.advance 2) := by
  unfold requireLink
  rw [bind_of_ok (scanLink?_of_arrow h)]
  rfl

theorem requireLink_of_other {r : Reader}
    (h : ∀ rest, r.pastBlanks.cursor.rest ≠ '=' :: '>' :: rest) :
    requireLink r = reportHere .missingLink r.pastBlanks := by
  unfold requireLink
  rw [bind_of_ok (scanLink?_of_other h)]
  rfl

end Reading

/-! ### Nothing is read twice -/

theorem Reading.Step.rest_suffix {α : Type} {a : Reading α} (h : Step α a) (r : Reader) :
    (after a r).cursor.rest <:+ r.cursor.rest := by
  cases h with
  | observe view => exact List.suffix_refl _
  | skip n => exact List.drop_suffix n _
  | popPending? => obtain ⟨c, pending, file, j⟩ := r; cases pending <;> exact List.suffix_refl _
  | pushBack t => exact List.suffix_refl _
  | captured f => exact List.suffix_refl _
  | report d => obtain ⟨c, pending, file, ⟨policy, events⟩⟩ := r; cases policy <;>
    exact List.suffix_refl _

/-- What is left to be read after an action was left before it. -/
theorem Reading.rest_suffix {α : Type} {a : Reading α} (h : Composed Step a) (r : Reader) :
    (after a r).cursor.rest <:+ r.cursor.rest :=
  h.after_related (R := fun r q : Reader => q.cursor.rest <:+ r.cursor.rest)
    (fun _ => List.suffix_refl _) (fun first later => later.trans first)
    (fun r step => step.rest_suffix r) r

/-! ### Weights -/

namespace Reader

/-- The characters and the tokens that are left, ends of the input not counted. -/
def weight (r : Reader) : Nat :=
  r.cursor.rest.length + r.pending.countP fun t => t.kind != .endOfInput

theorem weight_lt_budget (r : Reader) : r.weight < r.budget := by
  have bound := List.countP_le_length (p := fun t : Token => t.kind != .endOfInput)
    (l := r.pending)
  show r.cursor.rest.length + _ < r.cursor.rest.length + r.pending.length + 1
  omega

theorem weight_push (t : Token) (r : Reader) :
    (r.push t).weight = r.weight + if t.kind = .endOfInput then 0 else 1 := by
  show r.cursor.rest.length + (t :: r.pending).countP _ = r.cursor.rest.length + _ + _
  rw [List.countP_cons, Nat.add_assoc]
  by_cases h : t.kind = .endOfInput <;> simp [h]

theorem weight_push_of_ne {t : Token} (h : t.kind ≠ .endOfInput) (r : Reader) :
    (r.push t).weight = r.weight + 1 := by
  rw [weight_push, if_neg h]

theorem weight_le_push (t : Token) (r : Reader) : r.weight ≤ (r.push t).weight := by
  rw [weight_push]
  omega

theorem weight_advance_le (r : Reader) (n : Nat) : (r.advance n).weight ≤ r.weight := by
  show (r.cursor.rest.drop n).length + r.pending.countP _ ≤ r.cursor.rest.length + _
  rw [List.length_drop]
  omega

/-- Whoever moves on where something is left has less left. -/
theorem weight_advance_lt {r : Reader} {n : Nat} (moves : 0 < n) (left : r.cursor.rest ≠ []) :
    (r.advance n).weight < r.weight := by
  have some := List.length_pos_iff.2 left
  show (r.cursor.rest.drop n).length + r.pending.countP _ < r.cursor.rest.length + _
  rw [List.length_drop]
  omega

theorem weight_pastBlanks_le (r : Reader) : r.pastBlanks.weight ≤ r.weight :=
  r.weight_advance_le _

/-- A token takes up at least one character. -/
theorem weight_push_advance_le {r : Reader} {n : Nat} (moves : 0 < n) (left : r.cursor.rest ≠ [])
    (t : Token) : ((r.advance n).push t).weight ≤ r.weight := by
  have less := weight_advance_lt moves left
  rw [weight_push]
  split <;> omega

/-- **Taking a token.** With the token put back the reader weighs no more than before. -/
theorem weight_push_of_next {r q : Reader} {t : Token} (h : Reading.next r = .ok t q) :
    (q.push t).weight ≤ r.weight := by
  cases Reading.delivery_of_next h with
  | pending waiting =>
    refine Nat.le_of_eq (congrArg weight ?_)
    show { r with pending := t :: _ } = r
    rw [← waiting]
  | nothing none scanned =>
    rw [weight_push, if_pos rfl]
    exact r.weight_pastBlanks_le
  | lexeme none scanned =>
    obtain ⟨later, split⟩ := Scan.exists_spelling_append scanned
    have some := Scan.spelling_ne_nil scanned
    have left : r.pastBlanks.cursor.rest ≠ [] := by
      rw [split]
      exact List.append_ne_nil_of_left_ne_nil some later
    exact Nat.le_trans (weight_push_advance_le (List.length_pos_iff.2 some) left _)
      r.weight_pastBlanks_le
  | @unterminated text none scanned collecting =>
    have left : r.pastBlanks.cursor.rest ≠ [] := by
      intro nothing
      rw [nothing] at scanned
      cases scanned
    exact Nat.le_trans (weight_push_advance_le (Nat.succ_pos text.length) left _)
      r.weight_pastBlanks_le

/-- Behind a token that is no end of the input less is left. -/
theorem weight_lt_of_next {r q : Reader} {t : Token} (h : Reading.next r = .ok t q)
    (last : t.kind ≠ .endOfInput) : q.weight < r.weight := by
  have lighter := weight_push_of_next h
  rw [weight_push_of_ne last] at lighter
  exact lighter

end Reader

namespace Evaluating

theorem recover_of_raise (d : Diagnostic) {s : Session} (h : s.reader.journal.policy = .raise) :
    recover d s = .error (.diagnostic d) s :=
  bind_of_error (reading_of_error (Reading.report_of_raise d h))

/-- A run that goes on behind a recovery has collected the diagnostic. -/
theorem recover_eq_ok {d : Diagnostic} {s s' : Session} {v : Value}
    (h : recover d s = .ok v s') : s' = { s with reader := s.reader.note (.collected d) } := by
  obtain ⟨_, t, reported, returned⟩ := bind_eq_ok.1 h
  obtain ⟨-, rfl⟩ := pure_eq_ok.1 returned
  obtain ⟨q, noted, rfl⟩ := reading_eq_ok reported
  rw [(Reading.report_eq_ok noted).2]

end Evaluating

end Reckoner
