import Reckoner.Proofs.Actions
import Reckoner.Proofs.Appended.Tokens
import Reckoner.Proofs.Moves

/-!
# Headers of function literals

The header of a function literal is a text of the form

    blanks NAME blanks '(' blanks (NAME blanks [',' blanks])* ')' blanks '=>'

where a name is a word that begins with a letter and is no part of a longer word. What is read
without a report about it is such a text, and each such text is read as what it says.

* `Heading` — the texts of headers;
* `Reading.quiet_header` — just they are read in silence.
-/

namespace Reckoner

open Reckoner.Text

/-! ### Texts -/

/-- A word that begins with a letter. -/
structure IsName (word : List Char) : Prop where
  begins : ∃ c ∈ word.head?, isLetter c = true
  inside : ∀ c ∈ word, isWordChar c = true

/-- A run of blanks. -/
def Blanks (text : List Char) : Prop := ∀ c ∈ text, isBlank c = true

/-- What may stand behind a parameter: blanks, and perhaps a comma and more of them. -/
inductive Gap : List Char → Prop
  | blanks {a : List Char} : Blanks a → Gap a
  | comma {a b : List Char} : Blanks a → Blanks b → Gap (a ++ ',' :: b)

/-- A list of parameters up to its closing parenthesis. No name is a part of a longer word. -/
inductive ParameterText : List Char → List (List Char) → Prop
  | none : ParameterText [] []
  | name {name gap text : List Char} {names : List (List Char)} : IsName name → Gap gap →
      (∀ c ∈ (gap ++ text).head?, isWordChar c = false) → ParameterText text names →
      ParameterText (name ++ (gap ++ text)) (name :: names)

/-- A header that announces this name and these parameters. -/
inductive Heading : List Char → List Char → List (List Char) → Prop
  | mk {a b c d name text : List Char} {names : List (List Char)} : Blanks a → IsName name →
      Blanks b → Blanks c → ParameterText text names → Blanks d →
      Heading (a ++ name ++ (b ++ ['('] ++ (c ++ (text ++ [')']) ++ (d ++ ['=', '>'])))) name names

theorem blanks_nil : Blanks [] := fun _ hc => absurd hc List.not_mem_nil

theorem blanks_space : Blanks [' '] := forall_mem_of_all (by decide)

theorem IsName.exists_cons {word : List Char} (h : IsName word) :
    ∃ c rest, word = c :: rest ∧ isLetter c = true := by
  obtain ⟨c, first, letter⟩ := h.begins
  cases word with
  | nil => cases first
  | cons d rest =>
    cases first
    exact ⟨c, rest, rfl, letter⟩

/-- In a list of parameters a name comes next or the closing parenthesis. -/
theorem ParameterText.head_append {text next : List Char} {names : List (List Char)}
    (h : ParameterText text names) (closing : ∀ c ∈ next.head?, c = ')') :
    ∀ c ∈ (text ++ next).head?, isLetter c = true ∨ c = ')' := by
  intro c hc
  cases h with
  | none => exact Or.inr (closing c hc)
  | name named _ _ _ =>
    obtain ⟨d, word, rfl, letter⟩ := named.exists_cons
    cases hc
    exact Or.inl letter

theorem ParameterText.named {text : List Char} {names : List (List Char)}
    (h : ParameterText text names) : ∀ w ∈ names, IsName w := by
  induction h with
  | none => exact fun w hw => absurd hw List.not_mem_nil
  | name named _ _ _ ih =>
    intro w hw
    rcases List.mem_cons.1 hw with rfl | hw
    · exact named
    · exact ih w hw

/-- What a header announces are names. -/
theorem Heading.named {text name : List Char} {names : List (List Char)}
    (h : Heading text name names) : IsName name ∧ ∀ w ∈ names, IsName w := by
  cases h with
  | mk _ named _ _ listed _ => exact ⟨named, listed.named⟩

/-! ### Parameters in their place -/

/-- A gap in front of a text that is no more of it. -/
structure GapBefore (gap next : List Char) : Prop where
  fills : Gap gap
  unblank : ∀ c ∈ next.head?, isBlank c = false
  single : ',' ∈ gap ∨ next.head? ≠ some ','

/-- Parameters in front of a text that goes on neither with the last name nor with the last gap. -/
inductive Listed : List Char → List (List Char) → List Char → Prop
  | none {next : List Char} : Listed [] [] next
  | name {name gap text next : List Char} {names : List (List Char)} : IsName name →
      GapBefore gap (text ++ next) → (∀ c ∈ (gap ++ (text ++ next)).head?, isWordChar c = false) →
      Listed text names next → Listed (name ++ (gap ++ text)) (name :: names) next

/-- A list of parameters begins with no blank. -/
theorem Listed.unblank {text next : List Char} {names : List (List Char)}
    (h : Listed text names next) : ∀ c ∈ text.head?, isBlank c = false := by
  intro c hc
  cases h with
  | none => cases hc
  | name named _ _ _ =>
    obtain ⟨d, word, rfl, letter⟩ := named.exists_cons
    cases hc
    exact isBlank_of_isLetter letter

/-- In front of the closing parenthesis, or of the end, any list of parameters is in its place. -/
theorem listed_iff {text next : List Char} {names : List (List Char)}
    (closing : ∀ c ∈ next.head?, c = ')') : Listed text names next ↔ ParameterText text names := by
  constructor
  · intro h
    induction h with
    | none => exact .none
    | @name name gap text next names named apart apart' _ ih =>
      refine .name named apart.fills (fun c hc => apart' c ?_) (ih closing)
      rw [← List.append_assoc, List.head?_append, Option.mem_def.1 hc]
      rfl
  · intro h
    induction h with
    | none => exact .none
    | @name name gap text names named apart apart' listed ih =>
      have initial := listed.head_append closing
      refine .name named ⟨apart, fun c hc => ?_, Or.inr fun comma => ?_⟩ (fun c hc => ?_) ih
      · rcases initial c hc with letter | rfl
        · exact isBlank_of_isLetter letter
        · decide
      · rcases initial ',' comma with letter | same
        · exact absurd letter (by decide)
        · cases same
      · rw [← List.append_assoc] at hc
        cases whole : gap ++ text with
        | nil =>
          rw [whole] at hc
          rw [closing c hc]
          decide
        | cons d more =>
          rw [whole] at hc apart'
          exact apart' c hc

/-! ### Readers that pass a text -/

namespace Reader

/-- The text comes next, and the other reader stands behind it. -/
structure Passes (r : Reader) (text : List Char) (q : Reader) : Prop where
  split : r.cursor.rest = text ++ q.cursor.rest
  reader : q = r.advance text.length

/-- A run of characters of the class ends here. -/
def EndsRun (test : Char → Bool) (r : Reader) : Prop := ∀ c ∈ r.cursor.rest.head?, test c = false

variable {r m q : Reader} {text more : List Char}

theorem passes_of_split (split : r.cursor.rest = text ++ more) :
    r.Passes text (r.advance text.length) ∧ (r.advance text.length).cursor.rest = more := by
  have behind : (r.advance text.length).cursor.rest = more := by
    rw [rest_advance, split, List.drop_left]
  exact ⟨⟨by rw [behind, split], rfl⟩, behind⟩

theorem Passes.refl (r : Reader) : r.Passes [] r := ⟨rfl, rfl⟩

theorem Passes.trans (h : r.Passes text m) (h' : m.Passes more q) : r.Passes (text ++ more) q := by
  constructor
  · rw [h.split, h'.split, List.append_assoc]
  · rw [h'.reader, h.reader, List.length_append]
    simp only [advance, Cursor.advance_advance]

/-- A text is passed part by part. -/
theorem Passes.exists_between (h : r.Passes (text ++ more) q) :
    ∃ m, r.Passes text m ∧ m.Passes more q := by
  have split := h.split
  rw [List.append_assoc] at split
  obtain ⟨first, behind⟩ := passes_of_split split
  refine ⟨_, first, behind, ?_⟩
  rw [h.reader, List.length_append]
  simp only [advance, Cursor.advance_advance]

theorem Passes.journal_eq (h : r.Passes text q) : q.journal = r.journal := by
  rw [h.reader]
  rfl

theorem endsRun_of_head {test : Char → Bool} {c : Char} (head : r.cursor.rest.head? = some c)
    (other : test c = false) : r.EndsRun test := by
  intro d hd
  cases head.symm.trans hd
  exact other

theorem Passes.head_of_sign {c : Char} {text : List Char} (h : r.Passes (c :: text) q) :
    r.cursor.rest.head? = some c := by
  rw [h.split]
  rfl

theorem Passes.head_of_name {name : List Char} (named : IsName name) (h : r.Passes name q) :
    ∃ c, r.cursor.rest.head? = some c ∧ isLetter c = true := by
  obtain ⟨c, word, rfl, letter⟩ := named.exists_cons
  exact ⟨c, h.head_of_sign, letter⟩

/-- A run ends in front of a text that neither begins with a character of it nor, if it is empty,
has one behind it. -/
theorem Passes.endsRun {test : Char → Bool} (h : r.Passes text q)
    (apart : ∀ c ∈ text.head?, test c = false) (behind : q.EndsRun test) : r.EndsRun test := by
  intro c hc
  rw [h.split] at hc
  cases text with
  | nil => exact behind c hc
  | cons d text => exact apart c hc

/-- Whoever has passed a name has less to read. -/
theorem Passes.length_lt {name : List Char} (named : IsName name)
    (h : r.Passes (name ++ text) q) : q.cursor.rest.length < r.cursor.rest.length := by
  obtain ⟨c, word, rfl, -⟩ := named.exists_cons
  rw [h.split]
  simp only [List.length_append, List.length_cons]
  omega

theorem length_rest_lt_budget (r : Reader) : r.cursor.rest.length < r.budget := by
  unfold budget
  omega

theorem passes_sign {c : Char} (head : r.cursor.rest.head? = some c) :
    r.Passes [c] (r.advance 1) := by
  cases left : r.cursor.rest with
  | nil =>
    rw [left] at head
    cases head
  | cons d rest =>
    rw [left] at head
    cases head
    have split : r.cursor.rest = [c] ++ rest := left
    exact (passes_of_split split).1

end Reader

namespace Reading

variable {α β : Type} {r q : Reader}

/-! ### Runs that say nothing about a header -/

/-- The run yields the result, and nothing that it has collected is about a header. -/
structure Quiet (a : Reading α) (r : Reader) (x : α) (q : Reader) : Prop where
  run : a r = .ok x q
  silent : ∃ later, q.journal.collected = r.journal.collected ++ later ∧
    ∀ d ∈ later, d.cause.inHeader = false

theorem Quiet.of_passes {a : Reading α} {x : α} {text : List Char} (run : a r = .ok x q)
    (h : r.Passes text q) : Quiet a r x q := by
  refine ⟨run, [], ?_, fun d hd => absurd hd List.not_mem_nil⟩
  rw [h.journal_eq, List.append_nil]

/-- What is quiet is so in each of its parts. -/
theorem quiet_bind {a : Reading α} {f : α → Reading β} [ha : Composed Step a]
    [hf : ∀ x, Composed Step (f x)] {y : β} :
    Quiet (a >>= f) r y q ↔ ∃ x m, Quiet a r x m ∧ Quiet (f x) m y q := by
  constructor
  · rintro ⟨run, later, same, silent⟩
    obtain ⟨x, m, first, second⟩ := bind_eq_ok.1 run
    have grown := (grows ha).collected r
    have grown' := (grows (hf x)).collected m
    rw [after_of_ok first] at grown
    rw [after_of_ok second] at grown'
    obtain ⟨early, whole⟩ := grown
    obtain ⟨late, whole'⟩ := grown'
    replace whole : m.journal.collected = r.journal.collected ++ early := whole.symm
    replace whole' : q.journal.collected = m.journal.collected ++ late := whole'.symm
    rw [whole', whole, List.append_assoc] at same
    obtain rfl := List.append_cancel_left same
    exact ⟨x, m, ⟨first, early, whole, fun d hd => silent d (List.mem_append_left _ hd)⟩,
      second, late, whole', fun d hd => silent d (List.mem_append_right _ hd)⟩
  · rintro ⟨x, m, ⟨first, early, whole, silent⟩, second, late, whole', silent'⟩
    refine ⟨bind_eq_ok.2 ⟨x, m, first, second⟩, early ++ late, ?_, ?_⟩
    · rw [whole', whole, List.append_assoc]
    · intro d hd
      rcases List.mem_append.1 hd with hd | hd
      · exact silent d hd
      · exact silent' d hd

theorem quiet_pure {x y : α} : Quiet (pure x) r y q ↔ y = x ∧ q = r := by
  constructor
  · rintro ⟨run, -⟩
    cases run
    exact ⟨rfl, rfl⟩
  · rintro ⟨rfl, rfl⟩
    exact ⟨rfl, [], (List.append_nil _).symm, fun d hd => absurd hd List.not_mem_nil⟩

theorem quiet_peek?_bind {f : Option Char → Reading β} {y : β} :
    Quiet (peek? >>= f) r y q ↔ Quiet (f r.cursor.rest.head?) r y q :=
  ⟨fun h => ⟨h.run, h.silent⟩, fun h => ⟨h.run, h.silent⟩⟩

theorem quiet_budget_bind {f : Nat → Reading β} {y : β} :
    Quiet (budget >>= f) r y q ↔ Quiet (f r.budget) r y q :=
  ⟨fun h => ⟨h.run, h.silent⟩, fun h => ⟨h.run, h.silent⟩⟩

/-- The next character is passed. -/
theorem quiet_skip_one {c : Char} (head : r.cursor.rest.head? = some c) :
    Quiet (skip 1) r () q ↔ r.Passes [c] q := by
  constructor
  · rintro ⟨run, -⟩
    cases run
    exact Reader.passes_sign head
  · intro h
    have run : skip 1 r = .ok () q := by
      rw [h.reader]
      rfl
    exact .of_passes run h

/-- A report about a header is not quiet. -/
theorem not_quiet_reportHere {c : Cause} (hc : c.inHeader = true) (r q : Reader) :
    ¬ Quiet (reportHere c) r () q := by
  rintro ⟨run, later, same, silent⟩
  rw [reportHere_eq_ok run] at same
  have added := (Journal.collected_note_collected r.journal ⟨c, r.here⟩).symm.trans same
  obtain rfl := List.append_cancel_left added
  have other := silent _ List.mem_cons_self
  rw [hc] at other
  cases other

/-- Where something else is reported, a condition is met in silence. -/
theorem quiet_ite_reportHere {p : Prop} [Decidable p] {a : Reading Unit} {c : Cause}
    (hc : c.inHeader = true) :
    Quiet (if p then a else reportHere c) r () q ↔ p ∧ Quiet a r () q := by
  by_cases h : p
  · simp only [h, if_true, true_and]
  · simp only [h, if_false, false_and, iff_false]
    exact not_quiet_reportHere hc r q

/-! ### Words and blanks -/

theorem quiet_takeWhile {test : Char → Bool} {text : List Char} :
    Quiet (takeWhile test) r text q ↔
      (∀ c ∈ text, test c = true) ∧ r.Passes text q ∧ q.EndsRun test := by
  constructor
  · rintro ⟨run, -⟩
    rw [takeWhile_eq_ok] at run
    cases run
    have split := (List.takeWhile_append_dropWhile (p := test) (l := r.cursor.rest)).symm
    obtain ⟨passes, behind⟩ := Reader.passes_of_split split
    refine ⟨fun c hc => List.mem_takeWhile_imp hc, passes, fun c hc => ?_⟩
    rw [behind] at hc
    exact head?_dropWhile_eq_false test r.cursor.rest c hc
  · rintro ⟨inside, passes, stops⟩
    have run : takeWhile test r = .ok text q := by
      rw [takeWhile_eq_ok, passes.split, takeWhile_append_of_head? inside stops, passes.reader]
    exact .of_passes run passes

theorem quiet_skipBlanks :
    Quiet skipBlanks r () q ↔ ∃ a, Blanks a ∧ r.Passes a q ∧ q.EndsRun isBlank := by
  unfold skipBlanks
  rw [quiet_bind]
  constructor
  · rintro ⟨a, m, taken, returned⟩
    obtain ⟨-, rfl⟩ := quiet_pure.1 returned
    exact ⟨a, quiet_takeWhile.1 taken⟩
  · rintro ⟨a, taken⟩
    exact ⟨a, q, quiet_takeWhile.2 taken, quiet_pure.2 ⟨rfl, rfl⟩⟩

theorem quiet_pastBlanks (r : Reader) : Quiet skipBlanks r () r.pastBlanks :=
  ⟨rfl, [], (List.append_nil _).symm, fun _ hd => absurd hd List.not_mem_nil⟩

/-- A name that comes next is read as a whole. -/
theorem quiet_word {c : Char} (head : r.cursor.rest.head? = some c) (letter : isLetter c = true)
    {x : String} :
    Quiet word r x q ↔
      ∃ name, x = String.ofList name ∧ IsName name ∧ r.Passes name q ∧ q.EndsRun isWordChar := by
  unfold word
  rw [quiet_bind]
  constructor
  · rintro ⟨name, m, taken, returned⟩
    obtain ⟨rfl, rfl⟩ := quiet_pure.1 returned
    obtain ⟨inside, passes, stops⟩ := quiet_takeWhile.1 taken
    refine ⟨name, rfl, ⟨?_, inside⟩, passes, stops⟩
    rw [passes.split] at head
    cases name with
    | nil =>
      have other := stops c head
      rw [isWordChar_of_isLetter letter] at other
      cases other
    | cons d rest =>
      cases head
      exact ⟨c, rfl, letter⟩
  · rintro ⟨name, rfl, named, taken⟩
    exact ⟨name, q, quiet_takeWhile.2 ⟨named.inside, taken⟩, quiet_pure.2 ⟨rfl, rfl⟩⟩

/-! ### The parts of a header -/

theorem quiet_requireName :
    Quiet requireName r () q ↔ (∃ c, r.cursor.rest.head? = some c ∧ isLetter c = true) ∧ q = r := by
  unfold requireName
  rw [quiet_peek?_bind, quiet_ite_reportHere rfl, quiet_pure, Option.any_eq_true]
  simp only [true_and]

theorem quiet_functionName {x : String} :
    Quiet functionName r x q ↔
      ∃ a name, x = String.ofList name ∧ Blanks a ∧ IsName name ∧ r.Passes (a ++ name) q ∧
        q.EndsRun isWordChar := by
  unfold functionName
  rw [quiet_bind]
  constructor
  · rintro ⟨_, m, passed, later⟩
    obtain ⟨a, blanks, before, -⟩ := quiet_skipBlanks.1 passed
    obtain ⟨_, m', required, read⟩ := quiet_bind.1 later
    obtain ⟨⟨c, head, letter⟩, rfl⟩ := quiet_requireName.1 required
    obtain ⟨name, rfl, named, passes, stops⟩ := (quiet_word head letter).1 read
    exact ⟨a, name, rfl, blanks, named, before.trans passes, stops⟩
  · rintro ⟨a, name, rfl, blanks, named, passes, stops⟩
    obtain ⟨m, before, passes⟩ := passes.exists_between
    obtain ⟨c, head, letter⟩ := passes.head_of_name named
    have passed := quiet_skipBlanks.2
      ⟨a, blanks, before, Reader.endsRun_of_head head (isBlank_of_isLetter letter)⟩
    have required := quiet_requireName.2 ⟨⟨c, head, letter⟩, rfl⟩
    have read := (quiet_word head letter).2 ⟨name, rfl, named, passes, stops⟩
    exact ⟨(), m, passed, quiet_bind.2 ⟨(), m, required, read⟩⟩

theorem quiet_openParameters :
    Quiet openParameters r () q ↔ ∃ b, Blanks b ∧ r.Passes (b ++ ['(']) q := by
  unfold openParameters
  rw [quiet_bind]
  constructor
  · rintro ⟨_, m, passed, later⟩
    obtain ⟨b, blanks, before, -⟩ := quiet_skipBlanks.1 passed
    obtain ⟨head, skipped⟩ := (quiet_ite_reportHere rfl).1 (quiet_peek?_bind.1 later)
    exact ⟨b, blanks, before.trans ((quiet_skip_one head).1 skipped)⟩
  · rintro ⟨b, blanks, passes⟩
    obtain ⟨m, before, sign⟩ := passes.exists_between
    have head := sign.head_of_sign
    have passed := quiet_skipBlanks.2 ⟨b, blanks, before, Reader.endsRun_of_head head (by decide)⟩
    refine ⟨(), m, passed, quiet_peek?_bind.2 ((quiet_ite_reportHere rfl).2 ⟨head, ?_⟩)⟩
    exact (quiet_skip_one head).2 sign

theorem quiet_closeParameters (stops : ∀ c ∈ r.cursor.rest.head?, c = ')') :
    Quiet closeParameters r () q ↔ r.Passes [')'] q := by
  unfold closeParameters
  rw [quiet_peek?_bind, quiet_ite_reportHere rfl]
  constructor
  · rintro ⟨some, skipped⟩
    obtain ⟨c, head⟩ := Option.isSome_iff_exists.1 some
    obtain rfl := stops c head
    exact (quiet_skip_one head).1 skipped
  · intro sign
    have head := sign.head_of_sign
    exact ⟨by rw [head]; rfl, (quiet_skip_one head).2 sign⟩

theorem quiet_requireLink :
    Quiet requireLink r () q ↔ ∃ d, Blanks d ∧ r.Passes (d ++ ['=', '>']) q := by
  constructor
  · intro h
    obtain ⟨d, blanks, before, -⟩ := quiet_skipBlanks.1 (quiet_pastBlanks r)
    by_cases arrow : ∃ rest, r.pastBlanks.cursor.rest = '=' :: '>' :: rest
    · obtain ⟨rest, split⟩ := arrow
      cases (requireLink_of_arrow split).symm.trans h.run
      replace split : r.pastBlanks.cursor.rest = ['=', '>'] ++ rest := split
      exact ⟨d, blanks, before.trans (Reader.passes_of_split split).1⟩
    · have reported := requireLink_of_other fun rest same => arrow ⟨rest, same⟩
      exact absurd ⟨reported ▸ h.run, h.silent⟩ (not_quiet_reportHere rfl r.pastBlanks q)
  · rintro ⟨d, blanks, passes⟩
    obtain ⟨m, before, sign⟩ := passes.exists_between
    have stops := Reader.endsRun_of_head sign.head_of_sign (show isBlank '=' = false by decide)
    cases (quiet_skipBlanks.2 ⟨d, blanks, before, stops⟩).run
    exact .of_passes (sign.reader ▸ requireLink_of_arrow sign.split) passes

/-! ### Parameters -/

/-- A gap is passed as a whole. -/
theorem quiet_passComma :
    Quiet passComma r () q ↔ ∃ gap, GapBefore gap q.cursor.rest ∧ r.Passes gap q := by
  unfold passComma
  rw [quiet_bind]
  constructor
  · rintro ⟨_, m, passed, later⟩
    obtain ⟨a, blanks, before, stops⟩ := quiet_skipBlanks.1 passed
    replace later := quiet_peek?_bind.1 later
    split at later
    · rename_i comma
      obtain ⟨_, m', skipped, passed'⟩ := quiet_bind.1 later
      obtain ⟨b, blanks', behind, stops'⟩ := quiet_skipBlanks.1 passed'
      have sign := (quiet_skip_one comma).1 skipped
      have within : ',' ∈ a ++ ',' :: b := List.mem_append_right a List.mem_cons_self
      exact ⟨a ++ ',' :: b, ⟨.comma blanks blanks', stops', Or.inl within⟩,
        before.trans (sign.trans behind)⟩
    · rename_i none
      obtain ⟨-, rfl⟩ := quiet_pure.1 later
      exact ⟨a, ⟨.blanks blanks, stops, Or.inr none⟩, before⟩
  · rintro ⟨gap, ⟨gap', stops, single⟩, passes⟩
    cases gap' with
    | blanks blanks =>
      refine ⟨(), q, quiet_skipBlanks.2 ⟨gap, blanks, passes, stops⟩, quiet_peek?_bind.2 ?_⟩
      have none : q.cursor.rest.head? ≠ some ',' := by
        refine single.resolve_left fun within => ?_
        have blank := blanks ',' within
        exact absurd blank (by decide)
      rw [if_neg none]
      exact quiet_pure.2 ⟨rfl, rfl⟩
    | @comma a b blanks blanks' =>
      obtain ⟨m, before, behind⟩ := passes.exists_between
      have head := behind.head_of_sign
      replace behind : m.Passes ([','] ++ b) q := behind
      obtain ⟨m', sign, behind'⟩ := behind.exists_between
      have stops' := Reader.endsRun_of_head head (show isBlank ',' = false by decide)
      refine ⟨(), m, quiet_skipBlanks.2 ⟨a, blanks, before, stops'⟩, quiet_peek?_bind.2 ?_⟩
      rw [if_pos head]
      exact quiet_bind.2 ⟨(), m', (quiet_skip_one head).2 sign,
        quiet_skipBlanks.2 ⟨b, blanks', behind', stops⟩⟩

/-- What is read in silence as a parameter is a name. -/
theorem quiet_parameter {c : Char} (head : r.cursor.rest.head? = some c) {found : List String} :
    Quiet (parameter c) r found q ↔
      ∃ name, found = [String.ofList name] ∧ IsName name ∧ r.Passes name q ∧
        q.EndsRun isWordChar := by
  unfold parameter
  by_cases letter : isLetter c = true
  · rw [if_pos letter, quiet_bind]
    constructor
    · rintro ⟨x, m, read, returned⟩
      obtain ⟨rfl, rfl⟩ := quiet_pure.1 returned
      obtain ⟨name, rfl, taken⟩ := (quiet_word head letter).1 read
      exact ⟨name, rfl, taken⟩
    · rintro ⟨name, rfl, taken⟩
      exact ⟨_, q, (quiet_word head letter).2 ⟨name, rfl, taken⟩, quiet_pure.2 ⟨rfl, rfl⟩⟩
  · rw [if_neg letter, quiet_bind]
    constructor
    · rintro ⟨_, m, reported, -⟩
      exact absurd reported (not_quiet_reportHere rfl r m)
    · rintro ⟨name, rfl, named, passes, -⟩
      obtain ⟨d, first, initial⟩ := passes.head_of_name named
      cases head.symm.trans first
      exact absurd initial letter

/-- A turn read in silence is a name and the gap behind it. -/
theorem quiet_parameterTurn {c : Char} (head : r.cursor.rest.head? = some c)
    {found : List String} :
    Quiet (parameterTurn c) r found q ↔
      ∃ name gap, found = [String.ofList name] ∧ IsName name ∧ GapBefore gap q.cursor.rest ∧
        (∀ c ∈ (gap ++ q.cursor.rest).head?, isWordChar c = false) ∧
        r.Passes (name ++ gap) q := by
  unfold parameterTurn
  rw [quiet_bind]
  constructor
  · rintro ⟨_, m, read, later⟩
    obtain ⟨_, m', passed, returned⟩ := quiet_bind.1 later
    obtain ⟨rfl, rfl⟩ := quiet_pure.1 returned
    obtain ⟨name, rfl, named, before, stops⟩ := (quiet_parameter head).1 read
    obtain ⟨gap, apart, behind⟩ := quiet_passComma.1 passed
    unfold Reader.EndsRun at stops
    rw [behind.split] at stops
    exact ⟨name, gap, rfl, named, apart, stops, before.trans behind⟩
  · rintro ⟨name, gap, rfl, named, apart, apart', passes⟩
    obtain ⟨m, before, behind⟩ := passes.exists_between
    have stops : m.EndsRun isWordChar := by
      unfold Reader.EndsRun
      rw [behind.split]
      exact apart'
    exact ⟨_, m, (quiet_parameter head).2 ⟨name, rfl, named, before, stops⟩,
      quiet_bind.2 ⟨(), q, quiet_passComma.2 ⟨gap, apart, behind⟩, quiet_pure.2 ⟨rfl, rfl⟩⟩⟩

section Turn

variable {c : Char} {found : List String} {text : List Char} {names : List (List Char)}

/-- A turn takes something and the blanks behind it. -/
theorem Quiet.of_parameterTurn (turn : Quiet (parameterTurn c) r found m)
    (head : r.cursor.rest.head? = some c) :
    m.cursor.rest.length < r.cursor.rest.length ∧ m.EndsRun isBlank ∧ m.journal = r.journal := by
  obtain ⟨name, gap, -, named, apart, -, before⟩ := (quiet_parameterTurn head).1 turn
  exact ⟨before.length_lt named, apart.unblank, before.journal_eq⟩

/-- A turn and the list behind it make up a list. -/
theorem listed_of_turn (head : r.cursor.rest.head? = some c)
    (turn : Quiet (parameterTurn c) r found m) (listed : Listed text names q.cursor.rest)
    (behind : m.Passes text q) :
    ∃ name whole, found = [String.ofList name] ∧ Listed whole (name :: names) q.cursor.rest ∧
      r.Passes whole q := by
  obtain ⟨name, gap, rfl, named, apart, apart', before⟩ := (quiet_parameterTurn head).1 turn
  rw [behind.split] at apart apart'
  refine ⟨name, name ++ (gap ++ text), rfl, .name named apart apart' listed, ?_⟩
  rw [← List.append_assoc]
  exact before.trans behind

/-- A list that is not empty begins with a turn. -/
theorem exists_turn (head : r.cursor.rest.head? = some c) {name gap : List Char}
    (named : IsName name) (apart : GapBefore gap (text ++ q.cursor.rest))
    (apart' : ∀ c ∈ (gap ++ (text ++ q.cursor.rest)).head?, isWordChar c = false)
    (passes : r.Passes (name ++ (gap ++ text)) q) :
    ∃ m, Quiet (parameterTurn c) r [String.ofList name] m ∧ m.Passes text q := by
  rw [← List.append_assoc] at passes
  obtain ⟨m, before, behind⟩ := passes.exists_between
  rw [← behind.split] at apart apart'
  exact ⟨m, (quiet_parameterTurn head).2 ⟨name, gap, rfl, named, apart, apart', before⟩, behind⟩

end Turn

/-- Where the list ends, there is none to pass. -/
theorem eq_of_listed_of_end {text : List Char} {names : List (List Char)}
    (closing : ∀ c ∈ r.cursor.rest.head?, c = ')') (listed : Listed text names q.cursor.rest)
    (passes : r.Passes text q) : names = [] ∧ q = r := by
  cases listed with
  | none => exact ⟨rfl, passes.reader⟩
  | name named _ _ _ =>
    obtain ⟨m, before, -⟩ := passes.exists_between
    obtain ⟨c, head, letter⟩ := before.head_of_name named
    rw [closing c head] at letter
    exact absurd letter (by decide)

/-- Where the list ends, no parameter is read. -/
theorem quiet_parameters_of_end {n : Nat} (ends : parameters n r = .ok [] r)
    (closing : ∀ c ∈ r.cursor.rest.head?, c = ')') {xs : List String} :
    Quiet (parameters n) r xs q ↔
      ∃ text names, xs = names.map String.ofList ∧ Listed text names q.cursor.rest ∧
        r.Passes text q ∧ ∀ c ∈ q.cursor.rest.head?, c = ')' := by
  constructor
  · rintro ⟨run, -⟩
    cases ends.symm.trans run
    exact ⟨[], [], rfl, .none, .refl _, closing⟩
  · rintro ⟨text, names, rfl, listed, passes, -⟩
    obtain ⟨rfl, rfl⟩ := eq_of_listed_of_end closing listed passes
    exact .of_passes ends passes

/-- **Parameters read in silence** make up a list of them, behind which the closing parenthesis
stands unless the source ends there. -/
theorem quiet_parameters {n : Nat} (enough : r.cursor.rest.length < n) {xs : List String} :
    Quiet (parameters n) r xs q ↔
      ∃ text names, xs = names.map String.ofList ∧ Listed text names q.cursor.rest ∧
        r.Passes text q ∧ ∀ c ∈ q.cursor.rest.head?, c = ')' := by
  induction n generalizing r xs with
  | zero => exact absurd enough (Nat.not_lt_zero _)
  | succ n ih =>
    cases rest : r.cursor.rest with
    | nil =>
      refine quiet_parameters_of_end (parameters_of_end n rest) ?_
      rw [rest]
      exact fun c hc => nomatch hc
    | cons c cs =>
      by_cases closing : c = ')'
      · subst closing
        refine quiet_parameters_of_end (parameters_of_closing n rest) ?_
        rw [rest]
        exact fun c hc => (Option.some.inj hc).symm
      have head : r.cursor.rest.head? = some c := by rw [rest, List.head?_cons]
      have turns : Quiet (parameters (n + 1)) r xs q ↔ Quiet (do
          let found ← parameterTurn c
          return found ++ (← parameters n)) r xs q :=
        ⟨fun h => ⟨parameters_of_turn n rest closing ▸ h.run, h.silent⟩,
          fun h => ⟨(parameters_of_turn n rest closing).trans h.run, h.silent⟩⟩
      rw [turns, quiet_bind]
      constructor
      · rintro ⟨found, m, turn, later⟩
        obtain ⟨ys, m', read, returned⟩ := quiet_bind.1 later
        obtain ⟨rfl, rfl⟩ := quiet_pure.1 returned
        have shorter := (turn.of_parameterTurn head).1
        obtain ⟨text, names, rfl, listed, behind, ends⟩ := (ih (by omega)).1 read
        obtain ⟨name, whole, rfl, listed', passes⟩ := listed_of_turn head turn listed behind
        exact ⟨whole, name :: names, rfl, listed', passes, ends⟩
      · rintro ⟨text, names, rfl, listed, passes, ends⟩
        cases listed with
        | none =>
          have same : r.cursor.rest = q.cursor.rest := passes.split
          rw [same] at head
          exact absurd (ends c head) closing
        | name named apart apart' listed =>
          obtain ⟨m, turn, behind⟩ := exists_turn head named apart apart' passes
          have shorter := (turn.of_parameterTurn head).1
          have read := (ih (by omega)).2 ⟨_, _, rfl, listed, behind, ends⟩
          exact ⟨_, m, turn, quiet_bind.2 ⟨_, q, read, quiet_pure.2 ⟨rfl, rfl⟩⟩⟩

theorem quiet_parameterList {xs : List String} :
    Quiet parameterList r xs q ↔
      ∃ c text names, xs = names.map String.ofList ∧ Blanks c ∧ ParameterText text names ∧
        r.Passes (c ++ (text ++ [')'])) q := by
  unfold parameterList
  rw [quiet_bind]
  constructor
  · rintro ⟨_, m, passed, later⟩
    obtain ⟨c, blanks, before, -⟩ := quiet_skipBlanks.1 passed
    obtain ⟨ys, m', read, later⟩ := quiet_bind.1 (quiet_budget_bind.1 later)
    obtain ⟨_, m'', closed, returned⟩ := quiet_bind.1 later
    obtain ⟨rfl, rfl⟩ := quiet_pure.1 returned
    obtain ⟨text, names, rfl, listed, between, ends⟩ :=
      (quiet_parameters m.length_rest_lt_budget).1 read
    have behind := (quiet_closeParameters ends).1 closed
    exact ⟨c, text, names, rfl, blanks, (listed_iff ends).1 listed,
      before.trans (between.trans behind)⟩
  · rintro ⟨c, text, names, rfl, blanks, listed, passes⟩
    obtain ⟨m, before, passes⟩ := passes.exists_between
    obtain ⟨m', between, behind⟩ := passes.exists_between
    have closing : ∀ c ∈ m'.cursor.rest.head?, c = ')' := fun c hc =>
      Option.some.inj (hc.symm.trans behind.head_of_sign)
    have stops : m.EndsRun isBlank := by
      unfold Reader.EndsRun
      rw [between.split]
      intro c hc
      rcases listed.head_append closing c hc with letter | rfl
      · exact isBlank_of_isLetter letter
      · decide
    have read := (quiet_parameters m.length_rest_lt_budget).2
      ⟨text, names, rfl, (listed_iff closing).2 listed, between, closing⟩
    have closed := (quiet_closeParameters closing).2 behind
    refine ⟨(), m, quiet_skipBlanks.2 ⟨c, blanks, before, stops⟩, quiet_budget_bind.2 ?_⟩
    exact quiet_bind.2 ⟨_, m', read, quiet_bind.2 ⟨(), q, closed, quiet_pure.2 ⟨rfl, rfl⟩⟩⟩

/-! ### The whole header -/

/-- **The texts of headers are just what is read in silence** as a header, and they are read as what
they say. -/
theorem quiet_header {x : String} {xs : List String} :
    Quiet header r (x, xs) q ↔
      ∃ text name names, x = String.ofList name ∧ xs = names.map String.ofList ∧
        Heading text name names ∧ r.Passes text q := by
  unfold header
  rw [quiet_bind]
  constructor
  · rintro ⟨y, m₁, named, later⟩
    obtain ⟨_, m₂, opened, later⟩ := quiet_bind.1 later
    obtain ⟨ys, m₃, listed, later⟩ := quiet_bind.1 later
    obtain ⟨_, m₄, linked, returned⟩ := quiet_bind.1 later
    obtain ⟨same, rfl⟩ := quiet_pure.1 returned
    cases same
    obtain ⟨a, name, rfl, ha, hn, first, -⟩ := quiet_functionName.1 named
    obtain ⟨b, hb, second⟩ := quiet_openParameters.1 opened
    obtain ⟨c, text, names, rfl, hc, hp, third⟩ := quiet_parameterList.1 listed
    obtain ⟨d, hd, fourth⟩ := quiet_requireLink.1 linked
    exact ⟨_, name, names, rfl, rfl, .mk ha hn hb hc hp hd,
      first.trans (second.trans (third.trans fourth))⟩
  · rintro ⟨text, name, names, rfl, rfl, heading, passes⟩
    cases heading with
    | @mk a b c d _ text _ ha hn hb hc hp hd =>
      obtain ⟨m₁, first, passes⟩ := passes.exists_between
      obtain ⟨m₂, second, passes⟩ := passes.exists_between
      obtain ⟨m₃, third, fourth⟩ := passes.exists_between
      obtain ⟨m, blanks, sign⟩ := second.exists_between
      have stops := blanks.endsRun
        (fun e he => isWordChar_of_isBlank (hb e (List.mem_of_mem_head? he)))
        (Reader.endsRun_of_head sign.head_of_sign (by decide))
      have named := quiet_functionName.2 ⟨a, name, rfl, ha, hn, first, stops⟩
      have opened := quiet_openParameters.2 ⟨b, hb, second⟩
      have listed := quiet_parameterList.2 ⟨c, text, names, rfl, hc, hp, third⟩
      have linked := quiet_requireLink.2 ⟨d, hd, fourth⟩
      exact ⟨_, m₁, named, quiet_bind.2 ⟨_, m₂, opened, quiet_bind.2 ⟨_, m₃, listed,
        quiet_bind.2 ⟨_, q, linked, quiet_pure.2 ⟨rfl, rfl⟩⟩⟩⟩⟩

end Reading

end Reckoner
