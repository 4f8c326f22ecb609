import Reckoner.Proofs.Scanning
import Reckoner.Reader.Stream

/-!
# Tokens delivered one after the other

`Reader.Delivers r ts q` says that pulling from `r` again and again yields the tokens `ts` and
leads to `q`. What the journal notes besides diagnostics has no influence on this and may change
on the way, as it does when variables are cleared between two pulls.

* `Reader.Alike.next` — readers that differ only in such notes deliver the same;
* `tokens_eq_ok_iff` — the list of all tokens is the one that is delivered up to the first end of
  the input.
-/

namespace Reckoner

/-- Readers that differ at most in what their journals note besides diagnostics. -/
structure Reader.Alike (r q : Reader) : Prop where
  cursor : r.cursor = q.cursor
  pending : r.pending = q.pending
  file : r.file = q.file
  policy : r.journal.policy = q.journal.policy
  collected : r.journal.collected = q.journal.collected

/-- Runs that end in the same way and in readers that are alike. -/
inductive EndsAlike {α : Type} : Outcome Reader α → Outcome Reader α → Prop
  | ok {x : α} {r q : Reader} : r.Alike q → EndsAlike (.ok x r) (.ok x q)
  | error {fault : Fault} {r q : Reader} : r.Alike q → EndsAlike (.error fault r) (.error fault q)

namespace Reader

theorem Alike.refl (r : Reader) : r.Alike r := ⟨rfl, rfl, rfl, rfl, rfl⟩

theorem Alike.symm {r q : Reader} (h : r.Alike q) : q.Alike r :=
  ⟨h.cursor.symm, h.pending.symm, h.file.symm, h.policy.symm, h.collected.symm⟩

theorem Alike.trans {r q z : Reader} (h : r.Alike q) (h' : q.Alike z) : r.Alike z :=
  ⟨h.cursor.trans h'.cursor, h.pending.trans h'.pending, h.file.trans h'.file,
    h.policy.trans h'.policy, h.collected.trans h'.collected⟩

theorem alike_note_cleared (r : Reader) (n : Nat) : r.Alike (r.note (.cleared n)) :=
  ⟨rfl, rfl, rfl, rfl, (Journal.collected_note_cleared r.journal n).symm⟩

end Reader

namespace Reading

theorem Step.endsAlike {α : Type} {a : Reading α} (h : Step α a) {r q : Reader}
    (alike : r.Alike q) : EndsAlike (a r) (a q) := by
  obtain ⟨c, pending, file, policy, events⟩ := r
  obtain ⟨c', pending', file', policy', events'⟩ := q
  obtain ⟨hc, hpending, hfile, hpolicy, collected⟩ := alike
  cases hc
  cases hpending
  cases hfile
  cases hpolicy
  cases h with
  | observe view => exact .ok ⟨rfl, rfl, rfl, rfl, collected⟩
  | skip n => exact .ok ⟨rfl, rfl, rfl, rfl, collected⟩
  | popPending? => cases pending <;> exact .ok ⟨rfl, rfl, rfl, rfl, collected⟩
  | pushBack t => exact .ok ⟨rfl, rfl, rfl, rfl, collected⟩
  | captured f =>
    refine .ok ⟨rfl, rfl, rfl, rfl, ?_⟩
    exact (Journal.collected_note_captured ⟨policy, events⟩ f).trans
      (collected.trans (Journal.collected_note_captured ⟨policy, events'⟩ f).symm)
  | report d =>
    cases policy with
    | raise => exact .error ⟨rfl, rfl, rfl, rfl, collected⟩
    | collect =>
      refine .ok ⟨rfl, rfl, rfl, rfl, ?_⟩
      show Journal.collected (Journal.note ⟨.collect, events⟩ (.collected d)) =
        Journal.collected (Journal.note ⟨.collect, events'⟩ (.collected d))
      rw [Journal.collected_note_collected, Journal.collected_note_collected]
      exact congrArg (· ++ [d]) collected

/-- Other notes of the journal have no influence on reading. -/
theorem endsAlike {α : Type} {a : Reading α} (h : Composed Step a) {r q : Reader}
    (alike : r.Alike q) : EndsAlike (a r) (a q) := by
  induction h generalizing r q with
  | step h => exact h.endsAlike alike
  | pure x => exact .ok alike
  | throw fault => exact .error alike
  | @bind α β a f _ _ iha ihf =>
    have first := iha alike
    revert first
    cases run : a r with
    | ok x r' =>
      cases run' : a q with
      | ok y q' =>
        rintro ⟨alike'⟩
        rw [bind_of_ok run, bind_of_ok run']
        exact ihf x alike'
      | error fault q' => intro first; cases first
    | error fault r' =>
      cases run' : a q with
      | ok y q' => intro first; cases first
      | error fault' q' =>
        rintro ⟨⟩
        rw [bind_of_error run, bind_of_error run']
        exact .error (by assumption)

end Reading

namespace Reader

theorem Alike.next {r q r' : Reader} {t : Token} (alike : r.Alike q)
    (h : Reading.next r = .ok t r') : ∃ q', Reading.next q = .ok t q' ∧ r'.Alike q' := by
  have ends := Reading.endsAlike Reading.composed_next alike
  rw [h] at ends
  cases run : Reading.next q with
  | ok u q' =>
    rw [run] at ends
    cases ends with
    | ok alike' => exact ⟨q', rfl, alike'⟩
  | error fault q' =>
    rw [run] at ends
    cases ends

/-- Pulling yields these tokens one after the other. -/
inductive Delivers : Reader → List Token → Reader → Prop
  | done {r q : Reader} : r.Alike q → Delivers r [] q
  | next {r r' q : Reader} {t : Token} {ts : List Token} :
      Reading.next r = .ok t r' → Delivers r' ts q → Delivers r (t :: ts) q

theorem Delivers.congr {r q z : Reader} {ts : List Token} (alike : r.Alike q)
    (h : Delivers r ts z) : Delivers q ts z := by
  induction h generalizing q with
  | done alike' => exact .done (alike.symm.trans alike')
  | next first _ ih =>
    obtain ⟨q', first', alike'⟩ := alike.next first
    exact .next first' (ih alike')

theorem Delivers.append {r q z : Reader} {ts us : List Token} (h : Delivers r ts q)
    (h' : Delivers q us z) : Delivers r (ts ++ us) z := by
  induction h with
  | done alike => exact h'.congr alike.symm
  | next first _ ih => exact .next first (ih h')

theorem Delivers.single {r q : Reader} {t : Token} (h : Reading.next r = .ok t q) :
    Delivers r [t] q :=
  .next h (.done (.refl q))

theorem Delivers.push {r q : Reader} {ts : List Token} (t : Token) (h : Delivers r ts q) :
    Delivers (r.push t) (t :: ts) q :=
  .next (next_push t r) h

/-- Part of the tokens can be pulled as well. -/
theorem Delivers.exists_init {r q : Reader} {ts us : List Token} (h : Delivers r (ts ++ us) q) :
    ∃ z, Delivers r ts z ∧ Delivers z us q := by
  induction ts generalizing r with
  | nil => exact ⟨r, .done (.refl r), h⟩
  | cons t ts ih =>
    cases h with
    | next first later =>
      obtain ⟨z, before, behind⟩ := ih later
      exact ⟨z, .next first before, behind⟩

theorem policy_of_next {r q : Reader} {t : Token} (h : Reading.next r = .ok t q) :
    q.journal.policy = r.journal.policy := by
  cases Reading.delivery_of_next h <;> rfl

theorem Delivers.policy {r q : Reader} {ts : List Token} (h : Delivers r ts q) :
    r.journal.policy = q.journal.policy := by
  induction h with
  | done alike => exact alike.policy
  | next first _ ih => exact (policy_of_next first).symm.trans ih

/-- Every token but an end of the input makes the reader lighter. -/
theorem Delivers.length_le_weight {r q : Reader} {ts : List Token} (h : Delivers r ts q)
    (inside : ∀ t ∈ ts, t.kind ≠ .endOfInput) : ts.length ≤ r.weight := by
  induction h with
  | done alike => exact Nat.zero_le _
  | @next r r' q t ts first _ ih =>
    have later := ih fun u hu => inside u (List.mem_cons_of_mem t hu)
    have lighter := weight_lt_of_next first (inside t List.mem_cons_self)
    rw [List.length_cons]
    omega

/-- The only tokens whose delivery collects something are strings. -/
theorem collected_of_next {r q : Reader} {t : Token} (h : Reading.next r = .ok t q) :
    q.journal.collected = r.journal.collected ∨
      t.kind = .string ∧ r.pending = [] ∧ q.pending = [] ∧
        q.journal.collected = r.journal.collected ++ [⟨.unterminatedString, t.location⟩] := by
  cases Reading.delivery_of_next h with
  | pending waiting => exact Or.inl rfl
  | nothing none scanned => exact Or.inl rfl
  | lexeme none scanned => exact Or.inl rfl
  | unterminated none scanned collecting =>
    exact Or.inr ⟨rfl, none, none, Journal.collected_note_collected r.journal _⟩

theorem Delivers.collected {r q : Reader} {ts : List Token} (h : Delivers r ts q)
    (plain : ∀ t ∈ ts, t.kind ≠ .string) : q.journal.collected = r.journal.collected := by
  induction h with
  | done alike => exact alike.collected.symm
  | @next r r' q t ts first _ ih =>
    rw [ih fun u hu => plain u (List.mem_cons_of_mem t hu)]
    exact (collected_of_next first).resolve_right fun h => plain t List.mem_cons_self h.1

end Reader

/-! ### All tokens -/

/-- Exactly the last token is an end of the input. -/
def Complete (ts : List Token) : Prop :=
  ∃ inside last, ts = inside ++ [last] ∧ (∀ t ∈ inside, t.kind ≠ .endOfInput) ∧
    last.kind = .endOfInput

theorem Complete.ne_nil {ts : List Token} (h : Complete ts) : ts ≠ [] := by
  obtain ⟨inside, last, rfl, -⟩ := h
  exact List.append_ne_nil_of_right_ne_nil inside (List.cons_ne_nil last [])

theorem Complete.cons {t : Token} {ts : List Token} (h : t.kind ≠ .endOfInput)
    (later : Complete ts) : Complete (t :: ts) := by
  obtain ⟨inside, last, rfl, hinside, hlast⟩ := later
  refine ⟨t :: inside, last, rfl, ?_, hlast⟩
  intro u hu
  rcases List.mem_cons.1 hu with rfl | hu
  · exact h
  · exact hinside u hu

/-- A proper end of a complete list is complete. -/
theorem Complete.of_append {ts us : List Token} (h : Complete (ts ++ us)) (some : us ≠ []) :
    Complete us := by
  obtain ⟨inside, last, split, hinside, hlast⟩ := h
  rcases List.eq_nil_or_concat us with rfl | ⟨init, u, rfl⟩
  · exact absurd rfl some
  · rw [List.concat_eq_append] at split ⊢
    rw [← List.append_assoc] at split
    obtain ⟨rfl, same⟩ := List.append_inj' split rfl
    cases same
    exact ⟨init, last, rfl, fun t ht => hinside t (List.mem_append_right ts ht), hlast⟩

/-- A complete list is one end of the input, or it begins with another token. -/
theorem Complete.of_cons {t : Token} {ts : List Token} (h : Complete (t :: ts)) :
    t.kind = .endOfInput ∧ ts = [] ∨ t.kind ≠ .endOfInput ∧ Complete ts := by
  obtain ⟨inside, last, split, hinside, hlast⟩ := h
  cases inside with
  | nil =>
    cases split
    exact Or.inl ⟨hlast, rfl⟩
  | cons u inside =>
    cases split
    exact Or.inr ⟨hinside t List.mem_cons_self,
      inside, last, rfl, fun v hv => hinside v (List.mem_cons_of_mem t hv), hlast⟩

theorem Complete.eq_nil {t : Token} {ts : List Token} (h : Complete (t :: ts))
    (last : t.kind = .endOfInput) : ts = [] :=
  (h.of_cons.resolve_right fun other => other.1 last).2

theorem Complete.tail {t : Token} {ts : List Token} (h : Complete (t :: ts))
    (inside : t.kind ≠ .endOfInput) : Complete ts :=
  (h.of_cons.resolve_left fun last => inside last.1).2

namespace Reader

theorem pull_delivers {n : Nat} {r : Reader} (h : (pull n r).fault = none) :
    Complete (pull n r).items ∧ Delivers r (pull n r).items (pull n r).reader := by
  induction n generalizing r with
  | zero => cases h
  | succ n ih =>
    unfold pull at h ⊢
    cases first : Reading.next r with
    | error fault q => rw [first] at h; cases h
    | ok t q =>
      rw [first] at h
      by_cases ends : t.kind = .endOfInput
      · simp only [ends, if_true]
        exact ⟨⟨[], t, rfl, fun u hu => absurd hu List.not_mem_nil, ends⟩, .single first⟩
      · simp only [ends, if_false] at h ⊢
        obtain ⟨complete, delivered⟩ := ih h
        exact ⟨.cons ends complete, .next first delivered⟩

theorem pull_of_delivers {n : Nat} {r z : Reader} {inside : List Token} {last : Token}
    (h : Delivers r (inside ++ [last]) z) (hinside : ∀ t ∈ inside, t.kind ≠ .endOfInput)
    (hlast : last.kind = .endOfInput) (enough : inside.length < n) :
    (pull n r).items = inside ++ [last] ∧ (pull n r).fault = none := by
  induction inside generalizing n r with
  | nil =>
    obtain ⟨n, rfl⟩ := Nat.exists_eq_add_one_of_ne_zero (Nat.ne_of_gt enough)
    cases h with
    | next first later =>
      unfold pull
      simp only [first, hlast, if_true, List.nil_append, and_self]
  | cons t inside ih =>
    obtain ⟨n, rfl⟩ := Nat.exists_eq_add_one_of_ne_zero (Nat.ne_of_gt (Nat.zero_lt_of_lt enough))
    cases h with
    | next first later =>
      have here := hinside t List.mem_cons_self
      obtain ⟨items, fault⟩ := ih later (fun u hu => hinside u (List.mem_cons_of_mem t hu))
        (Nat.lt_of_succ_lt_succ enough)
      unfold pull
      simp only [first, here, if_false]
      exact ⟨congrArg (t :: ·) items, fault⟩

end Reader

/-- The budget of a reader is enough for all tokens that it delivers. -/
theorem Complete.length_le_budget {r q : Reader} {ts : List Token} (h : Complete ts)
    (delivered : r.Delivers ts q) : ts.length ≤ r.budget := by
  obtain ⟨inside, last, rfl, hinside, -⟩ := h
  obtain ⟨z, before, -⟩ := delivered.exists_init
  have length := before.length_le_weight hinside
  have bound := r.weight_lt_budget
  rw [List.length_append, List.length_singleton]
  omega

/-- All tokens of a reader are those it delivers up to the first end of the input. -/
theorem tokens_eq_ok_iff {r : Reader} {ts : List Token} :
    (∃ q, Reading.tokens r = .ok ts q) ↔ Complete ts ∧ ∃ q, r.Delivers ts q := by
  constructor
  · rintro ⟨q, h⟩
    unfold Reading.tokens at h
    cases pulled : r.stream with
    | mk items fault q' =>
      rw [pulled] at h
      cases fault with
      | some fault => cases h
      | none =>
        cases h
        have delivered := Reader.pull_delivers (n := r.budget) (r := r)
          (congrArg Pulled.fault pulled)
        rw [show Reader.pull r.budget r = ⟨ts, none, q⟩ from pulled] at delivered
        exact ⟨delivered.1, q, delivered.2⟩
  · rintro ⟨⟨inside, last, rfl, hinside, hlast⟩, q, delivered⟩
    obtain ⟨q', whole, -⟩ := delivered.exists_init
    have enough := Nat.lt_of_le_of_lt (whole.length_le_weight hinside) r.weight_lt_budget
    obtain ⟨items, fault⟩ := Reader.pull_of_delivers delivered hinside hlast enough
    refine ⟨r.stream.reader, ?_⟩
    unfold Reading.tokens Reader.stream
    cases pulled : Reader.pull r.budget r with
    | mk items' fault' q'' =>
      rw [pulled] at items fault
      cases items
      cases fault
      rfl

end Reckoner
