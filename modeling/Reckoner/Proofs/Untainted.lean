import Reckoner.Proofs.Collected
import Reckoner.Proofs.Delivery
import Reckoner.Proofs.Grammar

/-!
# A number is not tainted by an error

Under either policy, a number that evaluation returns is the value of a tree that derives from
the tokens it has taken. No diagnostic was collected on the way, since a placeholder is a text
and nothing makes a number of a text; only the look at the token behind the expression can
collect one, when that token is a string without its end.

Where the first diagnostic ends the run, this is so of every value that is returned.

`Reads` is what the rules have in common: it says so of the part that has been read up to some
point. `Firm` are the values that recovery never returns, and `Sound` says of a rule that whenever
it returns one of these, that holds of it.
-/

namespace Reckoner

/-! ### Texts make no numbers -/

/-- A binary operation gives a number for two numbers only. -/
theorem numbers_of_apply {left right : Value} {op : Token} {x : Float}
    (h : apply left op right = .ok (.number x)) :
    (∃ a, left = .number a) ∧ ∃ b, right = .number b := by
  unfold apply at h
  cases known : Operator.ofSymbol? op.text with
  | none => rw [known] at h; cases h
  | some operator =>
    rw [known] at h
    cases left with
    | number a =>
      cases right with
      | number b => exact ⟨⟨a, rfl⟩, b, rfl⟩
      | text w => cases operator <;> cases h
    | text v => cases operator <;> cases right <;> cases h

/-- A tree whose value is a number is made without strings. -/
theorem Tree.string_not_mem_kinds {bindings : Table Value} {tree : Tree} {x : Float}
    (h : tree.value bindings = .ok (.number x)) : TokenKind.string ∉ tree.kinds := by
  induction tree generalizing x with
  | number text => simp [kinds]
  | string text => cases h
  | name t => simp [kinds]
  | binary op left right ihl ihr =>
    unfold value at h
    cases first : left.value bindings with
    | error fault => rw [first] at h; cases h
    | ok y =>
      cases second : right.value bindings with
      | error fault => rw [first, second] at h; cases h
      | ok z =>
        rw [first, second] at h
        replace h : (apply y op z).mapError Fault.diagnostic = .ok (.number x) := h
        cases applied : apply y op z with
        | error d => rw [applied] at h; cases h
        | ok v =>
          rw [applied] at h
          cases h
          obtain ⟨⟨a, rfl⟩, b, rfl⟩ := numbers_of_apply applied
          simp [kinds, ihl first, ihr second]
  | group inner ih => simp [kinds, ih h]
  | negation minus count operand ih =>
    unfold value at h
    cases inner : operand.value bindings with
    | error fault => rw [inner] at h; cases h
    | ok y =>
      cases y with
      | number a => simp [kinds, ih inner]
      | text w => rw [inner] at h; cases h

/-! ### What has been read -/

namespace Reader

/-- If anything comes next, it is the head of these tokens. -/
def Fits (r : Reader) (rest : List Token) : Prop :=
  ∀ t ∈ rest.head?, ∃ q, Reading.next r = .ok t q

/-- A rule that has read up to `mid` has stopped there, or it has seen one more token, which
is no operator of the level up to which it reads. -/
inductive Rests (stop : Option Level) (mid : Reader) : Reader → Prop
  | here : stop = none → Rests stop mid mid
  | peeked {look : Token} {q : Reader} : Reading.next mid = .ok look q →
      (∀ l ∈ Level.upTo stop, look.isOperator l.symbols = false) → Rests stop mid (q.push look)

/-- The token that has been seen is the one that comes next. -/
theorem Rests.next {stop : Option Level} {mid r q : Reader} {t : Token} (h : Rests stop mid r)
    (taken : Reading.next r = .ok t q) :
    Reading.next mid = .ok t q ∧ ∀ l ∈ Level.upTo stop, t.isOperator l.symbols = false := by
  cases h with
  | here none =>
    refine ⟨taken, ?_⟩
    intro l hl
    rw [none] at hl
    cases hl
  | peeked seen other =>
    rw [next_push] at taken
    cases taken
    exact ⟨seen, other⟩

theorem Rests.exists_look {level : Level} {mid r : Reader} (h : Rests (some level) mid r) :
    ∃ look q, Reading.next mid = .ok look q ∧ r = q.push look := by
  cases h with
  | here none => cases none
  | peeked seen other => exact ⟨_, _, seen, rfl⟩

theorem Rests.stops {level : Level} {mid r : Reader} {rest : List Token}
    (h : Rests (some level) mid r) (fits : mid.Fits rest) : Stops (some level) rest := by
  intro t ht l hl
  obtain ⟨q, taken⟩ := fits t ht
  cases h with
  | here none => cases none
  | peeked seen other =>
    rw [seen] at taken
    cases taken
    exact other l hl

theorem Rests.loosen {stop : Option Level} {mid r : Reader} (h : Rests stop mid r) :
    Rests none mid r := by
  cases h with
  | here _ => exact .here rfl
  | peeked seen _ => exact .peeked seen fun l hl => by cases hl

end Reader

/-- Between `r` and `q` an expression of the level has been read that has the value. -/
def Reads (bindings : Table Value) (level stop : Option Level) (r : Reader) (v : Value)
    (q : Reader) : Prop :=
  ∃ ts tree mid, r.Delivers ts mid ∧ mid.Rests stop q ∧
    (∀ rest, mid.Fits rest → Derives level (ts ++ rest) tree rest) ∧
    tree.value bindings = .ok v

namespace Reads

variable {bindings : Table Value} {level : Level} {r q z : Reader} {t : Token} {x y : Value}

theorem primary {ts : List Token} {tree : Tree} (delivered : r.Delivers ts q)
    (derived : ∀ rest, Derives none (ts ++ rest) tree rest)
    (valued : tree.value bindings = .ok x) : Reads bindings none none r x q :=
  ⟨ts, tree, q, delivered, .here rfl, fun rest _ => derived rest, valued⟩

/-- The first operand of a level. -/
theorem operand (h : Reads bindings level.tighter level.tighter r x q) :
    Reads bindings (some level) level.tighter r x q := by
  obtain ⟨ts, tree, mid, delivered, rests, derived, valued⟩ := h
  exact ⟨ts, tree, mid, delivered, rests, fun rest fits => .operand (derived rest fits), valued⟩

/-- An operator of the level and one more operand. -/
theorem binary {r₁ r₂ : Reader} (left : Reads bindings (some level) level.tighter r x r₁)
    (taken : Reading.next r₁ = .ok t r₂) (operator : t.isOperator level.symbols = true)
    (right : Reads bindings level.tighter level.tighter r₂ y q) {value : Value}
    (applied : apply x t y = .ok value) :
    Reads bindings (some level) level.tighter r value q := by
  obtain ⟨ts, treeL, mid, deliveredL, restsL, derivedL, valuedL⟩ := left
  obtain ⟨us, treeR, mid', deliveredR, restsR, derivedR, valuedR⟩ := right
  have first := (restsL.next taken).1
  refine ⟨ts ++ t :: us, .binary t treeL treeR, mid', deliveredL.append (.next first deliveredR),
    restsR, ?_, ?_⟩
  · intro rest fits
    rw [List.append_assoc]
    refine .binary (derivedL _ ?_) operator (derivedR rest fits)
    intro u hu
    cases hu
    exact ⟨r₂, first⟩
  · rw [Tree.value, valuedL, valuedR]
    show (apply x t y).mapError Fault.diagnostic = _
    rw [applied]
    rfl

/-- The loop of a level stops at another token. -/
theorem stop (h : Reads bindings (some level) level.tighter r x q)
    (taken : Reading.next q = .ok t z) (other : t.isOperator level.symbols = false) :
    Reads bindings (some level) (some level) r x (z.push t) := by
  obtain ⟨ts, tree, mid, delivered, rests, derived, valued⟩ := h
  obtain ⟨first, tighter⟩ := rests.next taken
  refine ⟨ts, tree, mid, delivered, .peeked first ?_, derived, valued⟩
  intro l hl
  rw [Level.upTo_some] at hl
  rcases List.mem_cons.1 hl with rfl | hl
  · exact other
  · exact tighter l hl

/-- The parenthesis behind an expression, perhaps after the variables have been cleared. -/
theorem close {q' : Reader} (h : Reads bindings (some .sum) (some .sum) r x q)
    (alike : q.Alike q') (taken : Reading.next q' = .ok t z) :
    ∃ ts tree, r.Delivers (ts ++ [t]) z ∧
      (∀ rest, Derives (some .sum) (ts ++ t :: rest) tree (t :: rest)) ∧
      tree.value bindings = .ok x := by
  obtain ⟨ts, tree, mid, delivered, rests, derived, valued⟩ := h
  obtain ⟨z', taken', alike'⟩ := alike.symm.next taken
  have first := (rests.next taken').1
  refine ⟨ts, tree, delivered.append (.next first (.done alike'.symm)), ?_, valued⟩
  intro rest
  refine derived (t :: rest) ?_
  intro u hu
  cases hu
  exact ⟨z', first⟩

end Reads

namespace Evaluating

/-! ### Variables during an expression -/

/-- The variables are those of the beginning, or they have been cleared. -/
def Within (bindings : Table Value) (s : Session) : Prop :=
  s.bindings = bindings ∨ s.bindings = []

theorem Step.within {α : Type} {a : Evaluating α} (h : Step α a) {bindings : Table Value}
    {s : Session} (within : Within bindings s) : Within bindings (after a s) := by
  cases h with
  | reading h => rw [after_reading]; exact within
  | valueOf t => rw [after_valueOf]; exact within
  | endGroup =>
    rcases after_endGroup s with h | h <;> rw [h]
    · exact within
    · exact Or.inr rfl
  | define f => exact within

theorem within_after {α : Type} {a : Evaluating α} (h : Composed Step a) {bindings : Table Value}
    {s : Session} : Within bindings s → Within bindings (after a s) :=
  h.after_related (R := fun s t => Within bindings s → Within bindings t) (fun _ => id)
    (fun first later => later ∘ first) (fun _ step => step.within) s

theorem Within.of_ok {α : Type} {a : Evaluating α} [composed : Composed Step a]
    {bindings : Table Value} {s s' : Session} {x : α} (within : Within bindings s)
    (run : a s = .ok x s') : Within bindings s' := by
  have kept := within_after composed within
  rw [after_of_ok run] at kept
  exact kept

/-! ### What a rule has done when it returns -/

/-- No recovery from here on returns the value: diagnostics end the run, or it is a number. -/
def Firm (s : Session) (v : Value) : Prop :=
  s.reader.journal.policy = .raise ∨ ∃ x, v = .number x

section Returns

variable {s s' : Session} {t : Token} {x : Float} {v w : Value}

theorem firm_number (s : Session) (x : Float) : Firm s (.number x) := Or.inr ⟨x, rfl⟩

theorem firm_iff_of_ok {α : Type} {a : Evaluating α} [composed : Composed Step a] {y : α}
    (run : a s = .ok y s') : Firm s' v ↔ Firm s v := by
  have policy : s'.reader.journal.policy = s.reader.journal.policy :=
    (grows composed).policy_of_ok run
  unfold Firm
  rw [policy]

/-- An operation that gives such a value had such operands. -/
theorem Firm.operands {left right : Value} (firm : Firm s v)
    (applied : apply left t right = .ok v) : Firm s left ∧ Firm s right := by
  rcases firm with raising | ⟨x, rfl⟩
  · exact ⟨Or.inl raising, Or.inl raising⟩
  · obtain ⟨first, second⟩ := numbers_of_apply applied
    exact ⟨Or.inr first, Or.inr second⟩

/-- Recovery gives a text, if it goes on at all. -/
theorem recover_ne_firm {d : Diagnostic} (firm : Firm s v) : recover d s ≠ .ok v s' := by
  intro h
  obtain ⟨_, s₁, reported, returned⟩ := bind_eq_ok.1 h
  rcases firm with raising | ⟨x, rfl⟩
  · obtain ⟨q, reported, -⟩ := reading_eq_ok reported
    rw [Reading.report_of_raise d raising] at reported
    cases reported
  · cases returned

theorem settle_eq_firm {result : Except Diagnostic Value} (firm : Firm s v)
    (h : settle result s = .ok v s') : result = .ok v ∧ s' = s := by
  cases result with
  | ok w =>
    obtain ⟨rfl, rfl⟩ := pure_eq_ok.1 h
    exact ⟨rfl, rfl⟩
  | error d => exact absurd h (recover_ne_firm firm)

theorem closeGroup_eq_firm (firm : Firm s v) (h : closeGroup w s = .ok v s') :
    w = v ∧ ∃ t, next s = .ok t s' ∧ t.isPunctuation ")" = true := by
  obtain ⟨t, s₁, taken, closed⟩ := bind_eq_ok.1 h
  split at closed
  · rename_i closing
    obtain ⟨rfl, rfl⟩ := pure_eq_ok.1 closed
    exact ⟨rfl, t, taken, closing⟩
  · obtain ⟨_, s₂, pushed, recovered⟩ := bind_eq_ok.1 closed
    have firm₂ := (firm_iff_of_ok pushed).2 ((firm_iff_of_ok taken).2 firm)
    exact absurd recovered (recover_ne_firm firm₂)

theorem numeral_eq_ok (h : numeral t s = .ok v s') (bindings : Table Value) :
    (Tree.number t.text).value bindings = .ok v ∧ s' = s := by
  unfold numeral at h
  unfold Tree.value
  cases written : Number.read? t.text with
  | none => rw [written] at h; cases h
  | some y =>
    rw [written] at h
    cases h
    exact ⟨rfl, rfl⟩

/-- A variable that has a value was bound at the beginning. -/
theorem valueOf_eq_ok {bindings : Table Value} (within : Within bindings s)
    (h : valueOf t s = .ok v s') : (Tree.name t).value bindings = .ok v ∧ s' = s := by
  unfold valueOf at h
  unfold Tree.value
  cases known : s.lookup t.text with
  | none => rw [known] at h; cases h
  | some w =>
    rw [known] at h
    cases h
    refine ⟨?_, rfl⟩
    rcases within with same | cleared
    · rw [← same, show s.bindings.get? t.text = some v from known]
    · rw [Session.lookup, cleared] at known
      cases known

/-- From a text on the loop of a level gives a text. -/
theorem chain_text_ne_number {level : Level} {operand : Evaluating Value} {n : Nat} {w : String} :
    chain level operand n (.text w) s ≠ .ok (.number x) s' := by
  induction n generalizing s w with
  | zero => exact throw_ne_ok
  | succ n ih =>
    intro h
    obtain ⟨t, s₁, -, looped⟩ := bind_eq_ok.1 h
    split at looped
    · obtain ⟨right, s₂, -, rest⟩ := bind_eq_ok.1 looped
      obtain ⟨value, s₃, settled, again⟩ := bind_eq_ok.1 rest
      cases value with
      | text u => exact ih again
      | number y =>
        obtain ⟨⟨a, isNumber⟩, -⟩ := numbers_of_apply (settle_eq_firm (firm_number s₂ y) settled).1
        cases isNumber
    · obtain ⟨_, _, _, returned⟩ := bind_eq_ok.1 looped
      cases returned

/-- If the loop of a level gives such a value, it went on from one. -/
theorem firm_of_chain {level : Level} {operand : Evaluating Value} {n : Nat} (firm : Firm s v)
    (h : chain level operand n w s = .ok v s') : Firm s w := by
  rcases firm with raising | ⟨x, rfl⟩
  · exact Or.inl raising
  · cases w with
    | text u => exact absurd h chain_text_ne_number
    | number y => exact firm_number s y

/-- A minus chain has been taken up to the first other token. -/
theorem minusChain_eq_ok {n c : Nat} {minus u : Token} {odd : Bool}
    (sign : minus.isOperator ["-"] = true)
    (h : minusChain n (decide (c % 2 = 1)) minus s = .ok (odd, u) s') :
    ∃ more q, (∀ m ∈ minus :: more, m.isOperator ["-"] = true) ∧ u.isOperator ["-"] = false ∧
      odd = decide ((c + (more.length + 1)) % 2 = 1) ∧ s' = { s with reader := q } ∧
      s.reader.Delivers (more ++ [u]) q := by
  induction n generalizing c minus s with
  | zero => exact absurd h throw_ne_ok
  | succ n ih =>
    rw [minusChain_succ, if_pos sign, not_decide_odd] at h
    obtain ⟨t, s₁, taken, counted⟩ := bind_eq_ok.1 h
    obtain ⟨q, first, rfl⟩ := reading_eq_ok taken
    cases again : t.isOperator ["-"] with
    | true =>
      obtain ⟨more, z, signs, other, count, same, delivered⟩ := ih again counted
      refine ⟨t :: more, z, ?_, other, ?_, same, .next first delivered⟩
      · intro m hm
        rcases List.mem_cons.1 hm with rfl | hm
        · exact sign
        · exact signs m hm
      · rw [count, List.length_cons, show c + 1 + (more.length + 1) = c + (more.length + 1 + 1)
          by omega]
    | false =>
      cases n with
      | zero => exact absurd counted throw_ne_ok
      | succ n =>
        rw [minusChain_succ, again] at counted
        cases counted
        refine ⟨[], q, ?_, again, rfl, rfl, .single first⟩
        intro m hm
        rw [List.mem_singleton.1 hm]
        exact sign

end Returns

/-! ### The rules -/

/-- Whenever the rule returns a value that is no recovery, it has read an expression of the level
with that value. -/
def Sound (bindings : Table Value) (level : Option Level) (a : Evaluating Value) : Prop :=
  ∀ (s : Session) (v : Value) (s' : Session), Within bindings s → Firm s v → a s = .ok v s' →
    Reads bindings level level s.reader v s'.reader

variable {bindings : Table Value}

/-- What follows a minus chain and belongs to it. -/
theorem reads_negated {nested : Evaluating Value} [Composed Step nested]
    (h : Sound bindings (some .sum) nested)
    {s s' : Session} {t minus : Token} {more : List Token} {y : Value}
    (signs : ∀ m ∈ minus :: more, m.isOperator ["-"] = true)
    (other : t.isOperator ["-"] = false) (within : Within bindings s) (firm : Firm s y)
    (run : negated nested t s = .ok y s') :
    ∃ ts tree mid, s.reader.Delivers ts mid ∧ mid.Rests none s'.reader ∧
      (∀ rest, mid.Fits rest → Derives none (minus :: (more ++ t :: (ts ++ rest)))
        (.negation minus (more.length + 1) tree) rest) ∧
      tree.value bindings = .ok y := by
  unfold negated at run
  split at run
  · rename_i kind
    obtain ⟨valued, rfl⟩ := numeral_eq_ok run bindings
    exact ⟨[], .number t.text, s'.reader, .done (.refl _), .here rfl,
      fun rest _ => .negatedNumber signs kind, valued⟩
  split at run
  · rename_i opening
    obtain ⟨v, s₁, inner, closed⟩ := bind_eq_ok.1 run
    have firm₁ := (firm_iff_of_ok inner).2 firm
    obtain ⟨rfl, closing, taken, closes⟩ := closeGroup_eq_firm firm₁ closed
    obtain ⟨q, first, rfl⟩ := reading_eq_ok taken
    obtain ⟨ts, tree, delivered, derived, valued⟩ :=
      (h s v s₁ within firm inner).close (.refl s₁.reader) first
    refine ⟨ts ++ [closing], .group tree, q, delivered, .here rfl, ?_, valued⟩
    intro rest _
    rw [List.append_assoc]
    exact .negatedGroup signs opening closes (derived rest)
  · rename_i word opening
    obtain ⟨ts, tree, mid, delivered, rests, derived, valued⟩ :=
      h { s with reader := s.reader.push t } y s' within firm run
    -- the token put back is the first one of the expression
    cases delivered with
    | done alike =>
      have nothing : mid.Fits [] := fun u hu => by cases hu
      exact absurd rfl (derived [] nothing).ne_nil
    | @next _ r₁ _ u us first later =>
      rw [Reader.next_push] at first
      cases first
      refine ⟨us, tree, mid, later, rests.loosen, ?_, valued⟩
      intro rest fits
      exact .negatedSum signs word (Bool.eq_false_iff.2 opening) other (derived rest fits)
        (rests.stops fits)

/-- A minus chain in front of an operand that can be negated. -/
theorem reads_negation {nested : Evaluating Value} [Composed Step nested]
    (h : Sound bindings (some .sum) nested) {fuel : Nat} {minus : Token}
    (sign : minus.isOperator ["-"] = true) {s s' : Session} {x : Value} (within : Within bindings s)
    (firm : Firm s x) (run : negation fuel nested minus s = .ok x s') {r : Reader}
    (taken : Reading.next r = .ok minus s.reader) :
    Reads bindings none none r x s'.reader := by
  obtain ⟨⟨odd, t⟩, s₁, counted, rest⟩ := bind_eq_ok.1 run
  obtain ⟨operand, s₂, operated, settled⟩ := bind_eq_ok.1 rest
  have counted' : minusChain fuel (decide (0 % 2 = 1)) minus s = .ok (odd, t) s₁ := counted
  obtain ⟨more, q, signs, other, count, rfl, delivered⟩ := minusChain_eq_ok sign counted'
  have firm₁ := (firm_iff_of_ok counted).2 firm
  have firm₂ := (firm_iff_of_ok operated).2 firm₁
  cases operand with
  | text w => exact absurd settled (recover_ne_firm firm₂)
  | number y =>
    obtain ⟨ts, tree, mid, delivered', rests, derived, valued⟩ :=
      reads_negated h signs other (s := { s with reader := q }) within (firm_number _ y) operated
    obtain ⟨value, rfl⟩ := pure_eq_ok.1 settled
    refine ⟨minus :: (more ++ t :: ts), .negation minus (more.length + 1) tree, mid, ?_, rests,
      ?_, ?_⟩
    · have whole := Reader.Delivers.next taken (delivered.append delivered')
      rw [List.append_assoc] at whole
      exact whole
    · intro rest fits
      have whole := derived rest fits
      rw [List.cons_append, List.append_assoc]
      exact whole
    · rw [Tree.value, valued, ← value, count, Nat.zero_add]
      exact Value.negated_number minus (more.length + 1) y

theorem sound_primary {nested : Evaluating Value} [Composed Step nested]
    (h : Sound bindings (some .sum) nested) (fuel : Nat) :
    Sound bindings none (primary fuel nested) := by
  intro s x s' within firm run
  obtain ⟨t, s₁, taken, rest⟩ := bind_eq_ok.1 run
  obtain ⟨q, first, rfl⟩ := reading_eq_ok taken
  have firm₁ := (firm_iff_of_ok taken).2 firm
  split at rest
  · rename_i kind
    obtain ⟨valued, rfl⟩ := numeral_eq_ok rest bindings
    exact .primary (.single first) (fun _ => .number kind) valued
  split at rest
  · rename_i kind
    obtain ⟨rfl, rfl⟩ := pure_eq_ok.1 rest
    exact .primary (.single first) (fun _ => .string kind) rfl
  split at rest
  · rename_i kind
    obtain ⟨valued, rfl⟩ := valueOf_eq_ok (s := { s with reader := q }) within rest
    exact .primary (.single first) (fun _ => .name kind) valued
  split at rest
  · rename_i opening
    obtain ⟨v, s₁, inner, grouped⟩ := bind_eq_ok.1 rest
    obtain ⟨_, s₂, ended, closed⟩ := bind_eq_ok.1 grouped
    have firm₂ := (firm_iff_of_ok ended).2 ((firm_iff_of_ok inner).2 firm₁)
    obtain ⟨rfl, closing, taken', closes⟩ := closeGroup_eq_firm firm₂ closed
    obtain ⟨z, last, rfl⟩ := reading_eq_ok taken'
    have alike : s₁.reader.Alike s₂.reader := by
      rw [← after_of_ok ended]
      rcases after_endGroup s₁ with h | h <;> rw [h]
      · exact .refl _
      · exact Reader.alike_note_cleared _ _
    obtain ⟨ts, tree, delivered, derived, valued⟩ :=
      (h { s with reader := q } v s₁ within firm₁ inner).close alike last
    have valued' : (Tree.group tree).value bindings = .ok v := valued
    refine .primary (.next first delivered) (fun rest => ?_) valued'
    rw [List.cons_append, List.append_assoc]
    exact .group opening closes (derived rest)
  split at rest
  · rename_i sign
    exact reads_negation h sign (s := { s with reader := q }) within firm₁ rest first
  · obtain ⟨_, _, left, recovered⟩ := bind_eq_ok.1 rest
    exact absurd recovered (recover_ne_firm ((firm_iff_of_ok left).2 firm₁))

/-- The loop of a level goes on from what has been read. -/
theorem reads_chain {level : Level} {operand : Evaluating Value} [Composed Step operand]
    (h : Sound bindings level.tighter operand) {n : Nat} {r : Reader} {s s' : Session} {y x : Value}
    (within : Within bindings s) (firm : Firm s x)
    (left : Reads bindings (some level) level.tighter r y s.reader)
    (run : chain level operand n y s = .ok x s') :
    Reads bindings (some level) (some level) r x s'.reader := by
  induction n generalizing s y with
  | zero => exact absurd run throw_ne_ok
  | succ n ih =>
    rw [chain_succ] at run
    obtain ⟨t, s₁, taken, looped⟩ := bind_eq_ok.1 run
    obtain ⟨q, first, rfl⟩ := reading_eq_ok taken
    have firm₁ := (firm_iff_of_ok taken).2 firm
    split at looped
    · rename_i operator
      obtain ⟨right, s₂, operated, rest⟩ := bind_eq_ok.1 looped
      obtain ⟨value, s₃, settled, again⟩ := bind_eq_ok.1 rest
      -- the value that the loop goes on from is firm, and so are the operands that it is made of
      have firm₂ := (firm_iff_of_ok operated).2 firm₁
      have firmValue := firm_of_chain ((firm_iff_of_ok settled).2 firm₂) again
      obtain ⟨applied, rfl⟩ := settle_eq_firm ((firm_iff_of_ok settled).1 firmValue) settled
      have firmRight := (firm_iff_of_ok operated).1 (firmValue.operands applied).2
      have within' : Within bindings { s with reader := q } := within
      have second := h { s with reader := q } right s₃ within' firmRight operated
      exact ih (within'.of_ok operated) firm₂ (left.binary first operator second applied) again
    · rename_i other
      obtain ⟨_, s₂, pushed, returned⟩ := bind_eq_ok.1 looped
      cases pushed
      cases returned
      exact left.stop first (Bool.eq_false_iff.2 other)

theorem sound_joined {level : Level} {operand : Evaluating Value} [Composed Step operand]
    (h : Sound bindings level.tighter operand) (fuel : Nat) :
    Sound bindings (some level) (joined level fuel operand) := by
  intro s x s' within firm run
  obtain ⟨left, s₁, operated, looped⟩ := bind_eq_ok.1 run
  have firm₁ := (firm_iff_of_ok operated).2 firm
  have firmLeft := (firm_iff_of_ok operated).1 (firm_of_chain firm₁ looped)
  exact reads_chain h (within.of_ok operated) firm₁
    (h s left s₁ within firmLeft operated).operand looped

/-- **What is returned has been derived**, unless it is the placeholder of a recovery. -/
theorem sound_rules (fuel : Nat) : Sound bindings (some .sum) (expression fuel) := by
  induction fuel with
  | zero => exact fun s x s' _ _ run => absurd run throw_ne_ok
  | succ fuel ih =>
    have primaries := sound_primary ih (fuel + 1)
    have powers : Sound bindings (some .power) _ := sound_joined primaries (fuel + 1)
    have products : Sound bindings (some .product) _ := sound_joined powers (fuel + 1)
    exact sound_joined products (fuel + 1)

theorem sound_expression (fuel : Nat) (s : Session) (x : Float) (s' : Session)
    (within : Within bindings s) (run : expression fuel s = .ok (.number x) s') :
    Reads bindings (some .sum) (some .sum) s.reader (.number x) s'.reader :=
  sound_rules fuel s (.number x) s' within (firm_number s x) run

/-- **A number is not tainted.** If evaluation returns a number, from whatever session, then the
tokens it has taken derive a tree whose value that number is. One more token has been seen and is
pending; nothing has been collected, or one diagnostic, which says that this token is a string
without its end. -/
theorem evaluate_number {s s' : Session} {x : Float} (h : evaluate s = .ok (.number x) s') :
    ∃ taken tree look mid post, s.reader.Delivers taken mid ∧
      Reading.next mid = .ok look post ∧ s'.reader = post.push look ∧
      Derives (some .sum) taken tree [] ∧ tree.value s.bindings = .ok (.number x) ∧
      (s'.collected = s.collected ∨
        look.kind = .string ∧ s'.reader.pending = [look] ∧
          s'.collected = s.collected ++ [⟨.unterminatedString, look.location⟩]) := by
  rw [evaluate_eq] at h
  obtain ⟨ts, tree, mid, delivered, rests, derived, valued⟩ :=
    sound_expression _ s x s' (Or.inl rfl) h
  obtain ⟨look, post, seen, pushed⟩ := rests.exists_look
  have whole : Derives (some .sum) ts tree [] := by
    have nothing : mid.Fits [] := fun u hu => by cases hu
    rw [← List.append_nil ts]
    exact derived [] nothing
  refine ⟨ts, tree, look, mid, post, delivered, seen, pushed, whole, valued, ?_⟩
  -- strings are not among the tokens of a number, so that only the look collects anything
  have before : mid.journal.collected = s.collected := by
    obtain ⟨used, split, -, inside⟩ := whole.used
    rw [List.append_nil] at split
    subst split
    refine delivered.collected fun t ht string => ?_
    have among := inside t ht
    rw [string] at among
    exact Tree.string_not_mem_kinds valued among
  have behind : s'.collected = post.journal.collected := by
    unfold Session.collected
    rw [pushed]
    rfl
  rw [behind, ← before]
  rcases Reader.collected_of_next seen with same | ⟨string, -, none, added⟩
  · exact Or.inl same
  · refine Or.inr ⟨string, ?_, added⟩
    rw [pushed]
    exact congrArg (look :: ·) none

/-- The run has returned a number. -/
def isNumber : Outcome Session Value → Bool
  | .ok (.number _) _ => true
  | _ => false

/-- The theorem at a sum with a string behind it that does not end. -/
theorem evaluate_number_open_string :
    let s := Session.ofSource "1 + x \"a" "in" .collect true [("x", .number 2)]
    ∃ x s', evaluate s = .ok (.number x) s' ∧
      ∃ taken tree look mid post, s.reader.Delivers taken mid ∧
        Reading.next mid = .ok look post ∧ s'.reader = post.push look ∧
        Derives (some .sum) taken tree [] ∧ tree.value s.bindings = .ok (.number x) ∧
        (s'.collected = s.collected ∨
          look.kind = .string ∧ s'.reader.pending = [look] ∧
            s'.collected = s.collected ++ [⟨.unterminatedString, look.location⟩]) := by
  intro s
  have returns : isNumber (evaluate s) = true := by decide +kernel
  cases run : evaluate s with
  | error fault s' => rw [run] at returns; cases returns
  | ok v s' =>
    cases v with
    | text w => rw [run] at returns; cases returns
    | number x => exact ⟨x, s', rfl, evaluate_number run⟩

end Evaluating

end Reckoner
