import Reckoner.Proofs.Actions
import Reckoner.Proofs.Collected
import Reckoner.Proofs.Delivery

/-!
# Tokens scanned one after the other

`Reader.Scans r ts q` says that scanning from `r` again and again yields the tokens `ts` and leads
to where `q` stands. What is pending has no influence on this, nor has what the journals note.

* `Reader.Scans.congr` — only the place and the policy matter;
* `Reader.Scans.eq_of_complete` — the tokens up to the first end of the input are determined;
* `Reader.Scans.exists_rest` — what is scanned first is the front of all tokens;
* `Reader.Delivers.scans` — with nothing pending, what is delivered is what is scanned;
* `Reading.scans_of_body`, `Reading.body_of_scans` — the body of a literal is what is scanned up to
  the end of its statement.
-/

namespace Reckoner

namespace Reader

/-- Readers at one place of one source, under one policy. -/
structure SamePlace (r q : Reader) : Prop where
  cursor : r.cursor = q.cursor
  file : r.file = q.file
  policy : r.journal.policy = q.journal.policy

variable {r q z : Reader} {t : Token} {ts us : List Token}

theorem SamePlace.refl (r : Reader) : r.SamePlace r := ⟨rfl, rfl, rfl⟩

theorem SamePlace.symm (h : r.SamePlace q) : q.SamePlace r :=
  ⟨h.cursor.symm, h.file.symm, h.policy.symm⟩

theorem SamePlace.trans (h : r.SamePlace q) (h' : q.SamePlace z) : r.SamePlace z :=
  ⟨h.cursor.trans h'.cursor, h.file.trans h'.file, h.policy.trans h'.policy⟩

theorem Alike.samePlace (h : r.Alike q) : r.SamePlace q := ⟨h.cursor, h.file, h.policy⟩

/-- Scanning depends on nothing but the place and the policy. -/
theorem SamePlace.scan (same : r.SamePlace q) {r' : Reader} (h : Reading.scan r = .ok t r') :
    ∃ q', Reading.scan q = .ok t q' ∧ r'.SamePlace q' ∧ q'.pending = q.pending := by
  obtain ⟨c, pending, file, policy, events⟩ := r
  obtain ⟨c', pending', file', policy', events'⟩ := q
  obtain ⟨rfl, rfl, rfl⟩ := same
  have rest : (pastBlanks ⟨c, pending', file, policy, events'⟩).cursor.rest =
      (pastBlanks ⟨c, pending, file, policy, events⟩).cursor.rest := rfl
  rw [Reading.scan_eq] at h ⊢
  rw [rest]
  revert h
  cases Scan.of (pastBlanks ⟨c, pending, file, policy, events⟩).cursor.rest with
  | nothing =>
    intro h
    cases h
    exact ⟨_, rfl, ⟨rfl, rfl, rfl⟩, rfl⟩
  | lexeme l =>
    intro h
    cases h
    exact ⟨_, rfl, ⟨rfl, rfl, rfl⟩, rfl⟩
  | unterminated text =>
    intro h
    cases policy with
    | raise => cases h
    | collect =>
      cases h
      exact ⟨_, rfl, ⟨rfl, rfl, rfl⟩, rfl⟩
  | stray c =>
    intro h
    cases h

/-- Scanning yields these tokens one after the other. -/
inductive Scans : Reader → List Token → Reader → Prop
  | done {r q : Reader} : r.SamePlace q → Scans r [] q
  | scan {r r' q : Reader} {t : Token} {ts : List Token} :
      Reading.scan r = .ok t r' → Scans r' ts q → Scans r (t :: ts) q

theorem Scans.congr (same : r.SamePlace q) (h : Scans r ts z) : Scans q ts z := by
  induction h generalizing q with
  | done same' => exact .done (same.symm.trans same')
  | scan first _ ih =>
    obtain ⟨q', first', same', -⟩ := same.scan first
    exact .scan first' (ih same')

theorem Scans.congr_end (h : Scans r ts q) (same : q.SamePlace z) : Scans r ts z := by
  induction h with
  | done same' => exact .done (same'.trans same)
  | scan first _ ih => exact .scan first (ih same)

theorem Scans.append (h : Scans r ts q) (h' : Scans q us z) : Scans r (ts ++ us) z := by
  induction h with
  | done same => exact h'.congr same.symm
  | scan first _ ih => exact .scan first (ih h')

theorem Scans.single (h : Reading.scan r = .ok t q) : Scans r [t] q := .scan h (.done (.refl q))

theorem Scans.policy (h : Scans r ts q) : r.journal.policy = q.journal.policy := by
  induction h with
  | done same => exact same.policy
  | @scan r r' q t ts first _ ih =>
    exact ((Reading.grows Reading.composed_scan).policy_of_ok first).symm.trans ih

/-- Part of the tokens can be scanned as well. -/
theorem Scans.exists_init (h : Scans r (ts ++ us) q) : ∃ z, Scans r ts z ∧ Scans z us q := by
  induction ts generalizing r with
  | nil => exact ⟨r, .done (.refl r), h⟩
  | cons t ts ih =>
    cases h with
    | scan first later =>
      obtain ⟨z, before, behind⟩ := ih later
      exact ⟨z, .scan first before, behind⟩

/-- What is pulled is taken from what is pending, or it is scanned. -/
theorem scans_of_next (h : Reading.next r = .ok t q) :
    r.pending = t :: q.pending ∧ r.SamePlace q ∨
      r.pending = [] ∧ q.pending = [] ∧ Scans r [t] q := by
  rcases Reading.pending_of_next h with waiting | ⟨none, none', scanned⟩
  · have same := (EStateM.Result.ok.inj ((Reading.next_of_pending waiting).symm.trans h)).2
    refine Or.inl ⟨waiting, ?_⟩
    rw [← same]
    exact ⟨rfl, rfl, rfl⟩
  · exact Or.inr ⟨none, none', .single scanned⟩

/-- **What is delivered has been scanned**, where nothing was pending. -/
theorem Delivers.scans (h : r.Delivers ts q) (none : r.pending = []) : r.Scans ts q := by
  induction h with
  | done alike => exact .done alike.samePlace
  | next first _ ih =>
    obtain ⟨none', scanned⟩ := Reading.scan_of_next none first
    exact (Scans.single scanned).append (ih none')

end Reader

/-- **All tokens of a source are determined.** -/
theorem Reader.Scans.eq_of_complete {r q z : Reader} {ts us : List Token} (h : r.Scans ts q)
    (h' : r.Scans us z) (complete : Complete ts) (complete' : Complete us) : ts = us := by
  induction h generalizing us with
  | done same => exact absurd rfl complete.ne_nil
  | @scan r r' q t ts first _ ih =>
    cases h' with
    | done same => exact absurd rfl complete'.ne_nil
    | scan first' later' =>
      cases first.symm.trans first'
      rcases complete.of_cons with ⟨last, rfl⟩ | ⟨other, complete⟩
      · rcases complete'.of_cons with ⟨-, rfl⟩ | ⟨other, -⟩
        · rfl
        · exact absurd last other
      · rcases complete'.of_cons with ⟨last, -⟩ | ⟨-, complete'⟩
        · exact absurd last other
        · exact congrArg (t :: ·) (ih later' complete complete')

/-- What is scanned first is the front of all tokens of a source, if it is no end of the input. -/
theorem Reader.Scans.exists_rest {r m q : Reader} {ts us : List Token} (h : r.Scans ts m)
    (inside : ∀ t ∈ ts, t.kind ≠ .endOfInput) (whole : r.Scans us q) (complete : Complete us) :
    ∃ rest, us = ts ++ rest ∧ m.Scans rest q ∧ Complete rest := by
  induction h generalizing us with
  | done same => exact ⟨us, rfl, whole.congr same, complete⟩
  | @scan r r' m t ts first _ ih =>
    cases whole with
    | done same => exact absurd rfl complete.ne_nil
    | scan first' later' =>
      cases first.symm.trans first'
      obtain ⟨other, inside'⟩ := List.forall_mem_cons.1 inside
      obtain ⟨rest, rfl, behind, complete'⟩ := ih inside' later' (complete.tail other)
      exact ⟨rest, rfl, behind, complete'⟩

/-- What is scanned next is the first of all tokens. -/
theorem Reader.Scans.exists_cons {r m q : Reader} {t : Token} {us : List Token}
    (h : r.Scans [t] m) (whole : r.Scans us q) (complete : Complete us) :
    ∃ rest, us = t :: rest := by
  cases whole with
  | done same => exact absurd rfl complete.ne_nil
  | scan first _ =>
    cases h with
    | scan first' _ =>
      cases first.symm.trans first'
      exact ⟨_, rfl⟩

/-! ### Bodies of literals -/

namespace Reading

variable {r q : Reader} {ts : List Token} {e : Token}

/-- A body that has been read has been scanned. -/
theorem scans_of_body {n : Nat} (none : r.pending = []) (run : body n r = .ok (ts, e) q) :
    r.Scans (ts ++ [e]) q ∧ (∀ t ∈ ts, t.kind.endsStatement = false) ∧
      e.kind.endsStatement = true := by
  induction n generalizing r ts with
  | zero => exact absurd run throw_ne_ok
  | succ n ih =>
    obtain ⟨t, m, taken, later⟩ := bind_eq_ok.1 run
    obtain ⟨none', first⟩ := scan_of_next none taken
    have scanned : r.Scans [t] m := .single first
    cases ends : t.kind.endsStatement with
    | true =>
      rw [if_pos ends] at later
      cases later
      exact ⟨scanned, fun u hu => absurd hu List.not_mem_nil, ends⟩
    | false =>
      rw [if_neg (by rw [ends]; exact Bool.false_ne_true)] at later
      obtain ⟨⟨us, e'⟩, m', rest, returned⟩ := bind_eq_ok.1 later
      cases returned
      obtain ⟨behind, inside, last⟩ := ih none' rest
      refine ⟨scanned.append behind, ?_, last⟩
      intro u hu
      rcases List.mem_cons.1 hu with rfl | hu
      · exact ends
      · exact inside u hu

/-- What can be scanned as a body is read as one. -/
theorem body_of_scans {n : Nat} (none : r.pending = []) (enough : r.weight < n)
    (h : r.Scans (ts ++ [e]) q) (inside : ∀ t ∈ ts, t.kind.endsStatement = false)
    (last : e.kind.endsStatement = true) :
    ∃ z, body n r = .ok (ts, e) z ∧ q.SamePlace z := by
  obtain ⟨n, rfl⟩ : ∃ k, n = k + 1 := ⟨n - 1, by omega⟩
  induction ts generalizing r n with
  | nil =>
    cases h with
    | scan first done =>
      cases done with
      | done same =>
        have taken := (next_of_pending_nil none).trans first
        refine ⟨_, ?_, same.symm⟩
        unfold body
        rw [bind_of_ok taken, if_pos last]
        rfl
  | cons t ts ih =>
    cases h with
    | scan first later =>
      have taken := (next_of_pending_nil none).trans first
      have ongoing := inside t List.mem_cons_self
      obtain ⟨none', -⟩ := scan_of_next none taken
      have lighter := Reader.weight_lt_of_next taken (TokenKind.inside_iff.1 ongoing).1
      obtain ⟨n, rfl⟩ : ∃ k, n = k + 1 := ⟨n - 1, by omega⟩
      obtain ⟨z, run, same⟩ := ih none' later
        (fun u hu => inside u (List.mem_cons_of_mem t hu)) n (by omega)
      refine ⟨z, ?_, same⟩
      unfold body
      rw [bind_of_ok taken, if_neg (by rw [ongoing]; exact Bool.false_ne_true), bind_of_ok run]
      rfl

end Reading

end Reckoner
