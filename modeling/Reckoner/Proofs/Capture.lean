import Reckoner.Proofs.Calls
import Reckoner.Proofs.Guard.Reading
import Reckoner.Proofs.Headers
import Reckoner.Proofs.Lexing.Taking

/-!
# What a function literal is captured as

Whatever stands in a source where a function literal is announced, and whether or not its header is
complete, the literal that is read has names for parameters and ends with its one semicolon. It is
noted when it is complete and not before. Where a character begins no token, reading stops in front
of it, so that the next pull stops there again.

* `FunctionLiteral.WellFormed` — what every literal is like;
* `Reader.StuckAt`, `Fault.LeftIn` — a reader in front of such a character;
* `Reading.meets_functionLiteral` — reading a literal, with either outcome.
-/

namespace Reckoner

open Reckoner.Text

/-- The parameters are names, and the semicolon at the end is the only end of a statement; the body
has none of the tokens that belong to headers. -/
structure FunctionLiteral.WellFormed (f : FunctionLiteral) : Prop where
  parameters : ∀ p ∈ f.parameters, IsName p.toList
  body : ∃ ts place, f.body = ts ++ [⟨.endOfLine, ";", place⟩] ∧
    ∀ t ∈ ts, t.kind ∉ [.endOfLine, .endOfInput, .functionWord, .functionLink]

/-- No lexeme belongs to headers alone. -/
theorem Lexeme.WellFormed.kind_outside {l : Lexeme} (h : l.WellFormed) :
    l.kind ≠ .functionWord ∧ l.kind ≠ .functionLink := by
  cases h with
  | word letter inside => exact ⟨wordKind_ne _ (by decide), wordKind_ne _ (by decide)⟩
  | _ => exact ⟨by simp, by simp⟩

/-! ### Stray characters -/

/-- The character comes next, nothing is pending, and the character begins no token. -/
structure Reader.StuckAt (r : Reader) (c : Char) : Prop where
  pending : r.pending = []
  unblank : r.pastBlanks = r
  stray : Scan.of r.cursor.rest = .stray c

/-- What a reader stuck at the character stops with. -/
def Reader.strayFault (r : Reader) (c : Char) : Fault :=
  .diagnostic ⟨.invalidCharacter (String.singleton c), r.here⟩

/-- The fault is about a character that begins no token. -/
def Fault.Stray (fault : Fault) : Prop :=
  ∃ d, fault = .diagnostic d ∧ d.cause.kind = .invalidCharacter

/-- If the fault is about a stray character, it has left the reader in front of that. -/
def Fault.LeftIn (fault : Fault) (r : Reader) : Prop :=
  fault.Stray → ∃ c, r.StuckAt c ∧ fault = r.strayFault c

theorem Fault.not_stray {d : Diagnostic} (other : d.cause.kind ≠ .invalidCharacter) :
    ¬ (Fault.diagnostic d).Stray := by
  rintro ⟨_, same, stray⟩
  cases same
  exact other stray

theorem Cause.kind_of_inHeader {c : Cause} (known : c.inHeader = true) : c.kind = .malformed := by
  cases c <;> first | rfl | cases known

theorem Fault.exhausted_not_stray : ¬ Fault.exhausted.Stray := fun ⟨_, same, _⟩ => nomatch same

theorem Fault.numeral_not_stray {text : String} : ¬ (Fault.numeral text).Stray :=
  fun ⟨_, same, _⟩ => nomatch same

theorem Fault.LeftIn.of_not_stray {fault : Fault} {r : Reader} (other : ¬ fault.Stray) :
    fault.LeftIn r := fun stray => absurd stray other

namespace Reader

variable {r q : Reader} {c : Char}

theorem pastBlanks_pastBlanks (r : Reader) : r.pastBlanks.pastBlanks = r.pastBlanks := by
  have none : r.pastBlanks.cursor.rest.takeWhile isBlank = [] := by
    rw [rest_pastBlanks]
    cases behind : r.cursor.rest.dropWhile isBlank with
    | nil => rfl
    | cons c cs =>
      have unblank := head?_dropWhile_eq_false isBlank r.cursor.rest c (by rw [behind]; rfl)
      exact List.takeWhile_cons_of_neg (by rw [unblank]; exact Bool.false_ne_true)
  have same : ∀ q : Reader, q.advance 0 = q := fun q => rfl
  unfold pastBlanks at none ⊢
  rw [none]
  exact same _

/-- A stuck reader delivers nothing and stays where it is. -/
theorem StuckAt.next (h : r.StuckAt c) : Reading.next r = .error (r.strayFault c) r := by
  rw [Reading.next_of_pending_nil h.pending, Reading.scan_eq, h.unblank, h.stray]
  rfl

theorem stuckAt_of_stray (none : r.pending = [])
    (scanned : Scan.of r.pastBlanks.cursor.rest = .stray c) : r.pastBlanks.StuckAt c :=
  ⟨none, r.pastBlanks_pastBlanks, scanned⟩

/-- The character that a reader is stuck at comes next. -/
theorem StuckAt.rest_eq_cons (h : r.StuckAt c) : ∃ behind, r.cursor.rest = c :: behind :=
  List.head?_eq_some_iff.1 (Scan.head?_of_stray h.stray)

/-- Nothing has been captured, and the same tokens are pending. -/
structure Undisturbed (r q : Reader) : Prop where
  pending : q.pending = r.pending
  captured : q.journal.captured = r.journal.captured

theorem Undisturbed.refl (r : Reader) : r.Undisturbed r := ⟨rfl, rfl⟩

theorem Undisturbed.trans {z : Reader} (h : r.Undisturbed q) (h' : q.Undisturbed z) :
    r.Undisturbed z :=
  ⟨h'.pending.trans h.pending, h'.captured.trans h.captured⟩

theorem undisturbed_collected (r : Reader) (d : Diagnostic) :
    r.Undisturbed (r.note (.collected d)) :=
  ⟨rfl, Journal.captured_note_collected r.journal d⟩

end Reader

namespace Reading

variable {α β : Type} {r q : Reader}

/-! ### Headers -/

/-- What may be done in a header: it disturbs nothing, and no stray character stops it. -/
class HeaderPart (a : Reading α) : Prop where
  meets (r : Reader) : Meets (fun fault q => ¬ fault.Stray ∧ r.Undisturbed q)
    (fun _ q => r.Undisturbed q) (a r)

instance headerPart_pure (x : α) : HeaderPart (pure x : Reading α) where
  meets r := .ok (.refl r)

instance headerPart_rest : HeaderPart rest where
  meets r := .ok (.refl r)

instance headerPart_peek? : HeaderPart peek? where
  meets r := .ok (.refl r)

instance headerPart_budget : HeaderPart budget where
  meets r := .ok (.refl r)

instance headerPart_skip (n : Nat) : HeaderPart (skip n) where
  meets _ := .ok ⟨rfl, rfl⟩

instance headerPart_bind {a : Reading α} {f : α → Reading β} [ha : HeaderPart a]
    [hf : ∀ x, HeaderPart (f x)] : HeaderPart (a >>= f) where
  meets r := by
    refine (ha.meets r).bind fun x m _ same => ?_
    exact (((hf x).meets m).imp fun _ _ same' => same.trans same').imp_error
      fun _ _ ended => ⟨ended.1, same.trans ended.2⟩

instance headerPart_ite {c : Prop} [Decidable c] {a b : Reading α} [ha : HeaderPart a]
    [hb : HeaderPart b] : HeaderPart (if c then a else b) := by
  split
  · exact ha
  · exact hb

theorem headerPart_reportHere {c : Cause} (known : c.inHeader = true) :
    HeaderPart (reportHere c) where
  meets r := by
    show Meets _ _ (report ⟨c, r.here⟩ r)
    cases policy : r.journal.policy with
    | raise =>
      rw [report_of_raise _ policy]
      have other : c.kind ≠ .invalidCharacter := by
        rw [Cause.kind_of_inHeader known]
        decide
      exact .error ⟨Fault.not_stray other, .refl r⟩
    | collect =>
      rw [report_of_collect _ policy]
      exact .ok (r.undisturbed_collected _)

instance headerPart_takeWhile (test : Char → Bool) : HeaderPart (takeWhile test) := by
  unfold takeWhile
  infer_instance

instance headerPart_skipBlanks : HeaderPart skipBlanks := by
  unfold skipBlanks
  infer_instance

instance headerPart_word : HeaderPart word := by
  unfold word
  infer_instance

instance headerPart_functionName : HeaderPart functionName := by
  have reported : HeaderPart (reportHere .missingFunctionName) := headerPart_reportHere rfl
  unfold functionName requireName
  infer_instance

instance headerPart_openParameters : HeaderPart openParameters := by
  have reported : HeaderPart (reportHere .missingParameterList) := headerPart_reportHere rfl
  unfold openParameters
  infer_instance

instance headerPart_parameterTurn (first : Char) : HeaderPart (parameterTurn first) := by
  have reported : HeaderPart (reportHere .missingParameter) := headerPart_reportHere rfl
  unfold parameterTurn parameter passComma
  infer_instance

instance headerPart_parameters (n : Nat) : HeaderPart (parameters n) where
  meets r := by
    induction n generalizing r with
    | zero => exact .error ⟨Fault.exhausted_not_stray, .refl r⟩
    | succ n ih =>
      cases left : r.cursor.rest with
      | nil =>
        rw [parameters_of_end n left]
        exact .ok (.refl r)
      | cons c cs =>
        by_cases closing : c = ')'
        · subst closing
          rw [parameters_of_closing n left]
          exact .ok (.refl r)
        have later : HeaderPart (parameters n) := ⟨ih⟩
        rw [parameters_of_turn n left closing]
        exact headerPart_bind.meets r

instance headerPart_parameterList : HeaderPart parameterList := by
  have reported : HeaderPart (reportHere .openParameterList) := headerPart_reportHere rfl
  unfold parameterList closeParameters
  infer_instance

instance headerPart_requireLink : HeaderPart requireLink where
  meets r := by
    have blanks : r.Undisturbed r.pastBlanks := ⟨rfl, rfl⟩
    by_cases arrow : ∃ behind, r.pastBlanks.cursor.rest = '=' :: '>' :: behind
    · obtain ⟨behind, next⟩ := arrow
      rw [requireLink_of_arrow next]
      exact .ok (blanks.trans ⟨rfl, rfl⟩)
    · rw [requireLink_of_other fun behind next => arrow ⟨behind, next⟩]
      have reported := (headerPart_reportHere (c := .missingLink) rfl).meets r.pastBlanks
      exact (reported.imp fun _ _ same => blanks.trans same).imp_error
        fun _ _ ended => ⟨ended.1, blanks.trans ended.2⟩

instance headerPart_header : HeaderPart header := by
  unfold header
  infer_instance

/-! ### Parameters -/

theorem isName_takeWhile {c : Char} {cs : List Char} (letter : isLetter c = true) :
    IsName ((c :: cs).takeWhile isWordChar) := by
  refine ⟨⟨c, ?_, letter⟩, fun d hd => List.mem_takeWhile_imp hd⟩
  rw [List.takeWhile_cons_of_pos (isWordChar_of_isLetter letter)]
  rfl

/-- What a turn finds are names. -/
theorem isName_of_parameterTurn {c : Char} {cs : List Char} {found : List String}
    (left : r.cursor.rest = c :: cs) (run : parameterTurn c r = .ok found q) :
    ∀ p ∈ found, IsName p.toList := by
  obtain ⟨_, m, read, passed⟩ := bind_eq_ok.1 run
  obtain ⟨_, _, -, returned⟩ := bind_eq_ok.1 passed
  cases returned
  unfold parameter at read
  by_cases letter : isLetter c = true
  · rw [if_pos letter] at read
    cases read
    intro p hp
    obtain rfl := List.mem_singleton.1 hp
    rw [String.toList_ofList, left]
    exact isName_takeWhile letter
  · rw [if_neg letter] at read
    obtain ⟨_, _, -, later⟩ := bind_eq_ok.1 read
    cases later
    exact fun p hp => absurd hp List.not_mem_nil

theorem isName_of_parameters {n : Nat} {names : List String} (run : parameters n r = .ok names q) :
    ∀ p ∈ names, IsName p.toList := by
  induction n generalizing r names with
  | zero => exact absurd run throw_ne_ok
  | succ n ih =>
    cases left : r.cursor.rest with
    | nil =>
      rw [parameters_of_end n left] at run
      cases run
      exact fun p hp => absurd hp List.not_mem_nil
    | cons c cs =>
      by_cases closing : c = ')'
      · subst closing
        rw [parameters_of_closing n left] at run
        cases run
        exact fun p hp => absurd hp List.not_mem_nil
      rw [parameters_of_turn n left closing] at run
      obtain ⟨found, m, turn, later⟩ := bind_eq_ok.1 run
      obtain ⟨names, z, rest, returned⟩ := bind_eq_ok.1 later
      cases returned
      intro p hp
      rcases List.mem_append.1 hp with hp | hp
      · exact isName_of_parameterTurn left turn p hp
      · exact ih rest p hp

/-- The parameters of a header are names, whatever is reported about it. -/
theorem isName_of_header {heading : String × List String} (run : header r = .ok heading q) :
    ∀ p ∈ heading.2, IsName p.toList := by
  obtain ⟨name, _, -, later⟩ := bind_eq_ok.1 run
  obtain ⟨_, _, -, later⟩ := bind_eq_ok.1 later
  obtain ⟨names, _, listed, later⟩ := bind_eq_ok.1 later
  obtain ⟨_, _, -, returned⟩ := bind_eq_ok.1 later
  cases returned
  obtain ⟨_, _, -, listed⟩ := bind_eq_ok.1 listed
  obtain ⟨n, _, -, listed⟩ := bind_eq_ok.1 listed
  obtain ⟨_, _, read, closed⟩ := bind_eq_ok.1 listed
  obtain ⟨_, _, -, returned⟩ := bind_eq_ok.1 closed
  cases returned
  exact isName_of_parameters read

/-! ### Bodies -/

/-- A pull that fails at a stray character leaves the reader in front of it. -/
theorem leftIn_of_next {fault : Fault} (h : next r = .error fault q) : fault.LeftIn q := by
  cases failure_of_next h with
  | @stray c none scanned => exact fun _ => ⟨c, Reader.stuckAt_of_stray none scanned, rfl⟩
  | unterminated none scanned raising =>
    exact .of_not_stray (Fault.not_stray fun same => nomatch same)

theorem captured_of_failure {fault : Fault} (h : next r = .error fault q) :
    q.journal.captured = r.journal.captured := by
  cases failure_of_next h <;> rfl

/-- Where nothing is pending, a pull scans a token. -/
theorem meets_next (none : r.pending = []) :
    Meets (fun fault q => fault.LeftIn q ∧ q.journal.captured = r.journal.captured)
      (fun t q => r.Undisturbed q ∧ (t.kind ≠ .endOfInput → t.lexeme.WellFormed)) (next r) := by
  cases run : next r with
  | error fault q => exact .error ⟨leftIn_of_next run, captured_of_failure run⟩
  | ok t q =>
    obtain ⟨none', scanned⟩ := scan_of_next none run
    exact .ok ⟨⟨none'.trans none.symm, Reader.captured_of_next run⟩,
      (takes_of_scan scanned).wellFormed⟩

/-- Whatever is scanned for a body, strings without their end included, is a lexeme that does not
end a statement. -/
theorem meets_body {n : Nat} (none : r.pending = []) :
    Meets (fun fault q => fault.LeftIn q ∧ q.journal.captured = r.journal.captured)
      (fun x _ => ∀ t ∈ x.1, t.lexeme.WellFormed ∧ t.kind.endsStatement = false) (body n r) := by
  induction n generalizing r with
  | zero => exact .error ⟨.of_not_stray Fault.exhausted_not_stray, rfl⟩
  | succ n ih =>
    unfold body
    refine (meets_next none).bind fun t q _ taken => ?_
    obtain ⟨same, formed⟩ := taken
    rw [← same.captured]
    split
    · exact .ok fun u hu => absurd hu List.not_mem_nil
    · rename_i ongoing
      refine (ih (same.pending.trans none)).bind fun x z _ later => .ok fun u hu => ?_
      have inside := Bool.eq_false_iff.2 ongoing
      rcases List.mem_cons.1 hu with rfl | hu
      · exact ⟨formed (TokenKind.inside_iff.1 inside).1, inside⟩
      · exact later u hu

theorem captured_of_body {n : Nat} {tokens : List Token × Token} (run : body n r = .ok tokens q) :
    q.journal.captured = r.journal.captured := by
  induction n generalizing r tokens with
  | zero => exact absurd run throw_ne_ok
  | succ n ih =>
    obtain ⟨t, m, taken, later⟩ := bind_eq_ok.1 run
    have before := Reader.captured_of_next taken
    by_cases ends : t.kind.endsStatement = true
    · rw [if_pos ends] at later
      cases later
      exact before
    · rw [if_neg ends] at later
      obtain ⟨_, m', rest, returned⟩ := bind_eq_ok.1 later
      cases returned
      exact (ih rest).trans before

/-! ### The whole literal -/

/-- Reading a literal captures that literal. -/
theorem captured_of_functionLiteral {f : FunctionLiteral} (run : functionLiteral r = .ok f q) :
    q.journal.captured = r.journal.captured ++ [f] := by
  obtain ⟨heading, m, announced, later⟩ := bind_eq_ok.1 (functionLiteral_eq ▸ run)
  obtain ⟨ts, e, m', read, -, rfl⟩ := body_of_literalFrom later
  have same := (headerPart_header.meets r).of_ok announced
  rw [← same.captured, ← captured_of_body read]
  exact Journal.captured_note_captured _ _

/-- **Function literals.** A literal that is read where nothing is pending is well formed. Where
reading fails, none has been captured, and a stray character that is to blame comes next. -/
theorem meets_functionLiteral (none : r.pending = []) :
    Meets (fun fault q => fault.LeftIn q ∧ q.journal.captured = r.journal.captured)
      (fun f _ => f.WellFormed) (functionLiteral r) := by
  rw [functionLiteral_eq]
  have announced : Meets (fun fault q => fault.LeftIn q ∧ q.journal.captured = r.journal.captured)
      (fun _ q => r.Undisturbed q) (header r) :=
    (headerPart_header.meets r).imp_error fun _ _ ended =>
      ⟨.of_not_stray ended.1, ended.2.captured⟩
  refine announced.bind fun heading q run same => ?_
  rw [← same.captured]
  show Meets _ _ ((body q.budget >>= _ : Reading FunctionLiteral) q)
  refine (meets_body (same.pending.trans none)).bind fun x z _ inside => ?_
  refine .ok ⟨isName_of_header run, x.1, x.2.location, rfl, fun t ht => ?_⟩
  obtain ⟨formed, ongoing⟩ := inside t ht
  obtain ⟨last, line⟩ := TokenKind.inside_iff.1 ongoing
  obtain ⟨word, link⟩ : t.kind ≠ .functionWord ∧ t.kind ≠ .functionLink := formed.kind_outside
  simp [last, line, word, link]

/-! ### Tokens left pending -/

/-- Where nothing is pending, a body leaves nothing pending, and so it does where it fails. -/
theorem drained_body {n : Nat} (none : r.pending = []) :
    Meets (fun _ q => q.pending = []) (fun _ q => q.pending = []) (body n r) := by
  induction n generalizing r with
  | zero => exact .error none
  | succ n ih =>
    have taken : Meets (fun _ q => q.pending = []) (fun _ q => q.pending = []) (next r) := by
      cases run : next r with
      | error fault q => exact .error (pending_of_failure run)
      | ok t q => exact .ok (scan_of_next none run).1
    refine taken.bind fun t q _ none' => ?_
    split
    · exact .ok none'
    · exact (ih none').bind fun _ _ _ none'' => .ok none''

theorem drained_literalFrom {heading : String × List String} (none : r.pending = []) :
    Meets (fun _ q => q.pending = []) (fun _ q => q.pending = []) (literalFrom heading r) := by
  show Meets _ _ ((body r.budget >>= _ : Reading FunctionLiteral) r)
  exact (drained_body none).bind fun _ _ _ none' => .ok none'

/-- A literal is taken from the source and leaves nothing pending, and so it does where it fails. -/
theorem drained_functionLiteral (none : r.pending = []) :
    Meets (fun _ q => q.pending = []) (fun _ q => q.pending = []) (functionLiteral r) := by
  rw [functionLiteral_eq]
  have announced : Meets (fun _ q => q.pending = []) (fun _ q => q.pending = []) (header r) :=
    ((headerPart_header.meets r).imp_error fun _ _ ended => ended.2.pending.trans none).imp
      fun _ _ same => same.pending.trans none
  exact announced.bind fun _ _ _ none' => drained_literalFrom none'

end Reading

end Reckoner
