import Reckoner.Proofs.Fuel
import Reckoner.Proofs.Recovery

/-!
# Commas between parameters

Behind each parameter of a header one comma is passed, but none is asked for. So lists of parameters
are read in silence where a comma is missing between two names or stands behind the last one. All
commas in front of the first name, and all but one behind each name, are taken for bad parameters
and reported one by one.

* `SpacedHeading` — headers whose parameters are names with any blanks and commas around them;
* `surplus` — how many of the commas are reported;
* `WellSeparated` — a single comma between any two names, and no others;
* `Reading.parameters_of_spaced` — the parameters of such a header, name by name;
* `Reading.functionLiteral_of_commas` — the whole literal, under both policies.
-/

namespace Reckoner

open Reckoner.Text

/-! ### Texts -/

/-- Blanks and commas. -/
inductive Separators : List Char → Prop
  | blanks {a : List Char} : Blanks a → Separators a
  | comma {a more : List Char} : Blanks a → Separators more → Separators (a ++ ',' :: more)

/-- A name in a list of parameters, and the blanks and commas behind it. -/
structure Spaced where
  name : List Char
  behind : List Char

/-- Names up to a closing parenthesis, each with what is behind it. No name is a part of a longer
word. -/
inductive NameText : List Char → List Spaced → Prop
  | none : NameText [] []
  | name {name gap text : List Char} {xs : List Spaced} : IsName name → Separators gap →
      (∀ c ∈ (gap ++ text).head?, isWordChar c = false) → NameText text xs →
      NameText (name ++ (gap ++ text)) (⟨name, gap⟩ :: xs)

/-- A header with this name, and with these separators and names in its parentheses. -/
inductive SpacedHeading : List Char → List Char → List Char → List Spaced → Prop
  | mk {a b d lead name text : List Char} {xs : List Spaced} : Blanks a → IsName name →
      Blanks b → Separators lead → NameText text xs → Blanks d →
      SpacedHeading (a ++ name ++ (b ++ ['('] ++ (lead ++ (text ++ [')']) ++ (d ++ ['=', '>']))))
        name lead xs

/-- The commas in front of the names, and those behind each name but one. -/
def surplus (lead : List Char) : List Spaced → Nat
  | [] => lead.count ','
  | x :: xs => x.behind.count ',' - 1 + surplus lead xs

/-- There is a single comma between any two names, and there are no others. -/
structure WellSeparated (lead : List Char) (xs : List Spaced) : Prop where
  front : ',' ∉ lead
  between : ∀ x ∈ xs.dropLast, x.behind.count ',' = 1
  last : ∀ x ∈ xs.getLast?, ',' ∉ x.behind

/-- The parameters that these names make. -/
def Spaced.parameters (xs : List Spaced) : List String := xs.map fun x => String.ofList x.name

theorem Spaced.map_name (xs : List Spaced) :
    (xs.map Spaced.name).map String.ofList = parameters xs := List.map_map

theorem not_mem_of_blanks {a : List Char} (h : Blanks a) : ',' ∉ a := fun comma =>
  absurd (h ',' comma) (by decide)

theorem count_of_blanks {a : List Char} (h : Blanks a) : a.count ',' = 0 :=
  List.count_eq_zero.2 (not_mem_of_blanks h)

theorem count_append_comma {a more : List Char} (h : Blanks a) :
    (a ++ ',' :: more).count ',' = more.count ',' + 1 := by
  rw [List.count_append, count_of_blanks h, List.count_cons_self, Nat.zero_add]

/-- Blanks and commas may stand in any order. -/
theorem separators_iff {text : List Char} :
    Separators text ↔ ∀ c ∈ text, isBlank c = true ∨ c = ',' := by
  constructor
  · intro h
    induction h with
    | blanks blanks => exact fun c hc => Or.inl (blanks c hc)
    | comma blanks _ ih =>
      exact List.forall_mem_append.2
        ⟨fun c hc => Or.inl (blanks c hc), List.forall_mem_cons.2 ⟨Or.inr rfl, ih⟩⟩
  · intro h
    induction text with
    | nil => exact .blanks blanks_nil
    | cons c text ih =>
      obtain ⟨blank | rfl, later⟩ := List.forall_mem_cons.1 h
      · cases ih later with
        | blanks blanks => exact .blanks (List.forall_mem_cons.2 ⟨blank, blanks⟩)
        | comma blanks more => exact .comma (List.forall_mem_cons.2 ⟨blank, blanks⟩) more
      · exact .comma blanks_nil (ih later)

theorem Separators.blanks_of_count {a : List Char} (h : Separators a) (none : a.count ',' = 0) :
    Blanks a := by
  cases h with
  | blanks blanks => exact blanks
  | comma blanks _ =>
    rw [count_append_comma blanks] at none
    cases none

theorem blanks_iff {a : List Char} : Blanks a ↔ Separators a ∧ ',' ∉ a := by
  constructor
  · exact fun h => ⟨.blanks h, not_mem_of_blanks h⟩
  · rintro ⟨separators, none⟩
    exact separators.blanks_of_count (List.count_eq_zero.2 none)

/-- A gap is what has at most one comma. -/
theorem gap_iff {gap : List Char} : Gap gap ↔ Separators gap ∧ gap.count ',' ≤ 1 := by
  constructor
  · intro h
    cases h with
    | blanks blanks => exact ⟨.blanks blanks, by rw [count_of_blanks blanks]; exact Nat.zero_le 1⟩
    | comma blanks blanks' =>
      refine ⟨.comma blanks (.blanks blanks'), ?_⟩
      rw [count_append_comma blanks, count_of_blanks blanks']
  · rintro ⟨separators, single⟩
    cases separators with
    | blanks blanks => exact .blanks blanks
    | comma blanks more =>
      rw [count_append_comma blanks] at single
      exact .comma blanks (more.blanks_of_count (by omega))

theorem surplus_cons (lead name gap : List Char) (xs : List Spaced) :
    surplus lead (⟨name, gap⟩ :: xs) = gap.count ',' - 1 + surplus lead xs := rfl

theorem surplus_eq (lead : List Char) (xs : List Spaced) :
    surplus lead xs = lead.count ',' + surplus [] xs := by
  induction xs with
  | nil => rfl
  | cons x xs ih =>
    rw [surplus, surplus, ih]
    omega

theorem surplus_eq_zero_iff {lead : List Char} {xs : List Spaced} :
    surplus lead xs = 0 ↔ ',' ∉ lead ∧ ∀ x ∈ xs, x.behind.count ',' ≤ 1 := by
  induction xs with
  | nil =>
    rw [surplus, List.count_eq_zero]
    exact (and_iff_left fun x hx => absurd hx List.not_mem_nil).symm
  | cons x xs ih =>
    rw [surplus, Nat.add_eq_zero_iff, Nat.sub_eq_zero_iff_le, ih, List.forall_mem_cons]
    exact and_left_comm

/-- A well separated list is empty, or it has a last name, and one comma behind each name in front
of it. -/
theorem WellSeparated.nil_or_concat {lead : List Char} {xs : List Spaced}
    (h : WellSeparated lead xs) :
    xs = [] ∨ ∃ ys y, xs = ys ++ [y] ∧ (∀ x ∈ ys, x.behind.count ',' = 1) ∧
      y.behind.count ',' = 0 := by
  rcases List.eq_nil_or_concat xs with rfl | ⟨ys, y, rfl⟩
  · exact Or.inl rfl
  · have between := h.between
    have last := h.last
    rw [List.concat_eq_append] at between last ⊢
    rw [List.dropLast_concat] at between
    rw [List.getLast?_concat] at last
    exact Or.inr ⟨ys, y, rfl, between, List.count_eq_zero.2 (last y rfl)⟩

/-- What is not reported of a list that is not well separated: a comma that is missing between two
names, and one behind the last name. -/
theorem wellSeparated_iff {lead : List Char} {xs : List Spaced} :
    WellSeparated lead xs ↔ surplus lead xs = 0 ∧ (∀ x ∈ xs.dropLast, ',' ∈ x.behind) ∧
      ∀ x ∈ xs.getLast?, ',' ∉ x.behind := by
  rw [surplus_eq_zero_iff]
  constructor
  · intro h
    refine ⟨⟨h.front, fun x hx => ?_⟩, fun x hx => ?_, h.last⟩
    · obtain rfl | ⟨ys, y, rfl, between, last⟩ := h.nil_or_concat
      · exact absurd hx List.not_mem_nil
      · rcases List.mem_append.1 hx with inside | here
        · exact Nat.le_of_eq (between x inside)
        · rw [List.mem_singleton.1 here, last]
          exact Nat.zero_le 1
    · refine List.count_pos_iff.1 ?_
      rw [h.between x hx]
      exact Nat.one_pos
  · rintro ⟨⟨front, single⟩, between, last⟩
    refine ⟨front, fun x hx => ?_, last⟩
    have some := List.count_pos_iff.2 (between x hx)
    have most := single x ((List.dropLast_subset xs) hx)
    omega

/-- Lists that are read in silence are those with at most one comma behind each name. -/
theorem parameterText_iff {text : List Char} {names : List (List Char)} :
    ParameterText text names ↔
      ∃ xs, NameText text xs ∧ (∀ x ∈ xs, x.behind.count ',' ≤ 1) ∧ names = xs.map Spaced.name := by
  constructor
  · intro h
    induction h with
    | none => exact ⟨[], .none, fun x hx => absurd hx List.not_mem_nil, rfl⟩
    | @name name gap text names named fills apart _ ih =>
      obtain ⟨xs, listed, single, rfl⟩ := ih
      obtain ⟨separators, most⟩ := gap_iff.1 fills
      exact ⟨⟨name, gap⟩ :: xs, .name named separators apart listed,
        List.forall_mem_cons.2 ⟨most, single⟩, rfl⟩
  · rintro ⟨xs, listed, single, rfl⟩
    induction listed with
    | none => exact .none
    | name named separators apart _ ih =>
      obtain ⟨most, single⟩ := List.forall_mem_cons.1 single
      exact .name named (gap_iff.2 ⟨separators, most⟩) apart (ih single)

/-- Headers that are read in silence are those without a surplus comma. -/
theorem heading_iff {text name : List Char} {names : List (List Char)} :
    Heading text name names ↔
      ∃ lead xs, SpacedHeading text name lead xs ∧ surplus lead xs = 0 ∧
        names = xs.map Spaced.name := by
  constructor
  · rintro ⟨ha, named, hb, hc, parameters, hd⟩
    obtain ⟨xs, listed, single, rfl⟩ := parameterText_iff.1 parameters
    exact ⟨_, xs, .mk ha named hb (.blanks hc) listed hd,
      surplus_eq_zero_iff.2 ⟨not_mem_of_blanks hc, single⟩, rfl⟩
  · rintro ⟨lead, xs, ⟨ha, named, hb, separators, listed, hd⟩, none, rfl⟩
    obtain ⟨front, single⟩ := surplus_eq_zero_iff.1 none
    exact .mk ha named hb (blanks_iff.2 ⟨separators, front⟩)
      (parameterText_iff.2 ⟨xs, listed, single, rfl⟩) hd

/-- A name has no comma in it. -/
theorem count_of_isName {word : List Char} (h : IsName word) : word.count ',' = 0 :=
  List.count_eq_zero.2 fun comma => absurd (h.inside ',' comma) (by decide)

theorem NameText.count {text : List Char} {xs : List Spaced} (h : NameText text xs) :
    text.count ',' = (xs.flatMap Spaced.behind).count ',' := by
  induction h with
  | none => rfl
  | name named _ _ _ ih =>
    rw [List.count_append, List.count_append, count_of_isName named, ih, Nat.zero_add,
      List.flatMap_cons, List.count_append]

theorem count_of_single {xs : List Spaced} (single : ∀ x ∈ xs, x.behind.count ',' = 1) :
    (xs.flatMap Spaced.behind).count ',' = xs.length := by
  induction xs with
  | nil => rfl
  | cons x xs ih =>
    obtain ⟨one, single⟩ := List.forall_mem_cons.1 single
    rw [List.flatMap_cons, List.count_append, one, ih single, List.length_cons, Nat.add_comm]

/-- A header whose parameters are well separated has a comma less than it has parameters. -/
theorem SpacedHeading.count {text name lead : List Char} {xs : List Spaced}
    (h : SpacedHeading text name lead xs) (separated : WellSeparated lead xs) :
    text.count ',' = xs.length - 1 := by
  have behind : (xs.flatMap Spaced.behind).count ',' = xs.length - 1 := by
    obtain rfl | ⟨ys, y, rfl, between, last⟩ := separated.nil_or_concat
    · rfl
    · rw [List.flatMap_append, List.count_append, count_of_single between, List.flatMap_singleton,
        last, List.length_append]
      rfl
  cases h with
  | @mk a b d _ _ inner _ ha named hb _ listed hd =>
    have front := List.count_eq_zero.2 separated.front
    simp [List.count_append, count_of_blanks ha, count_of_blanks hb, count_of_blanks hd,
      count_of_isName named, front, listed.count, behind]

/-- In a list of parameters a name comes next or the closing parenthesis. -/
theorem NameText.head_append {text : List Char} {xs : List Spaced} (h : NameText text xs)
    (next : List Char) :
    ∃ c, (text ++ ')' :: next).head? = some c ∧ (isLetter c = true ∨ c = ')') := by
  cases h with
  | none => exact ⟨')', rfl, Or.inr rfl⟩
  | name named _ _ _ =>
    obtain ⟨c, word, rfl, letter⟩ := named.exists_cons
    exact ⟨c, rfl, Or.inl letter⟩

/-- It begins with neither a blank nor a comma. -/
theorem NameText.unblank {text : List Char} {xs : List Spaced} (h : NameText text xs)
    (next : List Char) : ∀ c ∈ (text ++ ')' :: next).head?, isBlank c = false ∧ c ≠ ',' := by
  intro c hc
  obtain ⟨d, head, letter | rfl⟩ := h.head_append next
  · cases hc.symm.trans head
    refine ⟨isBlank_of_isLetter letter, ?_⟩
    rintro rfl
    exact absurd letter (by decide)
  · cases hc.symm.trans head
    decide

/-- A name that ends in front of the closing parenthesis ends there in any source. -/
theorem apart_append {text : List Char} (apart : ∀ c ∈ text.head?, isWordChar c = false)
    (next : List Char) : ∀ c ∈ (text ++ ')' :: next).head?, isWordChar c = false := by
  intro c hc
  cases text with
  | nil =>
    cases hc
    decide
  | cons d text => exact apart c hc

/-! ### Where a reader stops -/

/-- The first surplus comma behind a name: what stands in front of it is read in silence. -/
theorem NameText.exists_listed {text : List Char} {xs : List Spaced} (h : NameText text xs)
    (some : 0 < surplus [] xs) (next : List Char) :
    ∃ front names more, text ++ ')' :: next = front ++ ',' :: more ∧
      Listed front names (',' :: more) := by
  induction h with
  | none => exact absurd some (Nat.lt_irrefl 0)
  | @name name gap text xs named separators apart listed ih =>
    rw [surplus_cons] at some
    have apart' := apart_append apart next
    rw [List.append_assoc] at apart'
    by_cases single : gap.count ',' ≤ 1
    · obtain ⟨front, names, more, same, before⟩ := ih (by omega)
      have ends := listed.unblank next
      rw [same] at ends apart'
      refine ⟨name ++ (gap ++ front), name :: names, more, ?_, .name named ?_ apart' before⟩
      · simp only [List.append_assoc, same]
      · exact ⟨gap_iff.2 ⟨separators, single⟩, fun c hc => (ends c hc).1,
          Or.inr fun comma => (ends ',' comma).2 rfl⟩
    · -- behind the comma that the name may have, there is another one
      obtain ⟨a, b, rest, ha, hb, rfl⟩ : ∃ a b rest, Blanks a ∧ Blanks b ∧
          gap = a ++ ',' :: (b ++ ',' :: rest) := by
        cases separators with
        | blanks blanks =>
          rw [count_of_blanks blanks] at single
          exact absurd (Nat.zero_le 1) single
        | @comma a _ ha more =>
          cases more with
          | blanks blanks =>
            rw [count_append_comma ha, count_of_blanks blanks] at single
            exact absurd (Nat.le_refl 1) single
          | comma hb _ => exact ⟨a, _, _, ha, hb, rfl⟩
      refine ⟨name ++ (a ++ ',' :: b ++ []), [name], rest ++ (text ++ ')' :: next), ?_, ?_⟩
      · simp only [List.append_assoc, List.cons_append, List.nil_append]
      · have within : ',' ∈ a ++ ',' :: b := List.mem_append_right a List.mem_cons_self
        refine .name named ⟨.comma ha hb, ?_, Or.inl within⟩ ?_ .none
        · rintro c ⟨⟩
          decide
        · simp only [List.append_assoc, List.cons_append, List.nil_append] at apart' ⊢
          intro c hc
          refine apart' c ?_
          cases a <;> exact hc

/-- Where there is a surplus comma, a header misses a parameter in front of the first of them. -/
theorem SpacedHeading.exists_missing {text name lead : List Char} {xs : List Spaced}
    (h : SpacedHeading text name lead xs) (some : 0 < surplus lead xs) (next : List Char) :
    ∃ front more, text ++ next = front ++ ',' :: more ∧
      Missing .missingParameter front (',' :: more) := by
  cases h with
  | @mk a b d _ _ inner _ ha named hb separators listed hd =>
    have opening : Opening (a ++ name ++ (b ++ ['('])) := .mk ha named hb
    have missing {c front more : List Char} {names : List (List Char)} (hc : Blanks c)
        (before : Listed front names (',' :: more)) : Missing .missingParameter
          (a ++ name ++ (b ++ ['(']) ++ (c ++ front)) (',' :: more) :=
      .parameter opening hc before (by decide) (by decide) (by decide)
    cases separators with
    | @comma c more hc _ =>
      refine ⟨_, more ++ (inner ++ [')'] ++ (d ++ ['=', '>']) ++ next), ?_, missing hc .none⟩
      simp only [List.append_assoc, List.cons_append, List.nil_append]
    | blanks hc =>
      have some' : 0 < surplus [] xs := by
        rwa [surplus_eq, count_of_blanks hc, Nat.zero_add] at some
      obtain ⟨front, names, more, same, before⟩ :=
        listed.exists_listed some' (d ++ ['=', '>'] ++ next)
      refine ⟨_, _, ?_, missing hc before⟩
      simp only [List.append_assoc, List.cons_append, List.nil_append] at same ⊢
      rw [same]

namespace Reading

variable {r : Reader} {xs : List Spaced} {lead next : List Char}

/-- A comma that stands for a parameter is reported and passed, and so are the blanks behind it. -/
theorem parameters_of_comma (n : Nat) {rest : List Char} (collecting : r.journal.policy = .collect)
    (split : r.cursor.rest = ',' :: rest) :
    parameters (n + 1) r =
      parameters n ((r.note (.collected ⟨.missingParameter, r.here⟩)).advance 1).pastBlanks := by
  let m := r.note (.collected ⟨.missingParameter, r.here⟩)
  have reported : reportHere .missingParameter r = .ok () m := report_of_collect _ collecting
  have here : m.cursor.rest = ',' :: rest := split
  have nothing : takeWhile (fun e => e != ',' && e != ')') m = .ok [] m := by
    rw [takeWhile_eq_ok, here]
    rfl
  have read : parameter ',' r = .ok [] m := by
    unfold parameter
    rw [if_neg (by decide), bind_of_ok reported, bind_of_ok nothing]
    rfl
  have stops : m.EndsRun isBlank :=
    Reader.endsRun_of_head (c := ',') (by rw [here]; rfl) (by decide)
  have same := pastBlanks_of_passes blanks_nil (.refl m) stops
  have passed := passComma_of_comma (r := m) (by rw [same, here])
  rw [same] at passed
  rw [parameters_of_turn n split (by decide), bind_of_ok (parameterTurn_of_ok read passed)]
  show (parameters n >>= pure) _ = _
  rw [bind_pure]

/-- All commas that stand where a parameter should be are reported one by one. -/
theorem parameters_of_separators {gap : List Char} (separators : Separators gap)
    (collecting : r.journal.policy = .collect) (split : r.cursor.rest = gap ++ next)
    (unblank : ∀ c ∈ next.head?, isBlank c = false) :
    ∃ q ds, (∀ n, parameters (gap.count ',' + n) r.pastBlanks = parameters n q) ∧
      r.Recovers gap ds q ∧ ds.length = gap.count ',' ∧
      ∀ d ∈ ds, d.cause = .missingParameter := by
  induction separators generalizing r with
  | @blanks a blanks =>
    obtain ⟨passes, behind⟩ := Reader.passes_of_split split
    have stops : (r.advance a.length).EndsRun isBlank := by
      unfold Reader.EndsRun
      rw [behind]
      exact unblank
    rw [count_of_blanks blanks, pastBlanks_of_passes blanks passes stops]
    exact ⟨_, [], fun n => by rw [Nat.zero_add], passes.recovers, rfl,
      fun d hd => absurd hd List.not_mem_nil⟩
  | @comma a more blanks _ ih =>
    have split' : r.cursor.rest = a ++ ',' :: (more ++ next) := by
      rw [split, List.append_assoc, List.cons_append]
    obtain ⟨front, behind⟩ := Reader.passes_of_split split'
    have stops : (r.advance a.length).EndsRun isBlank :=
      Reader.endsRun_of_head (by rw [behind]; rfl) (by decide)
    let m := r.advance a.length
    let m' := (m.note (.collected ⟨.missingParameter, m.here⟩)).advance 1
    have comma : m.Recovers [','] [⟨.missingParameter, m.here⟩] m' :=
      ⟨(Reader.passes_sign (r := m) (by rw [behind]; rfl)).split, rfl⟩
    have before := front.recovers.trans comma
    obtain ⟨q, ds, reads, recovers, counted, causes⟩ :=
      ih (r := m') (before.policy.trans collecting) (comma.rest_eq behind)
    refine ⟨q, ⟨.missingParameter, m.here⟩ :: ds, fun n => ?_, ?_, ?_, ?_⟩
    · rw [count_append_comma blanks, pastBlanks_of_passes blanks front stops, Nat.add_right_comm,
        parameters_of_comma (r := m) _ collecting behind]
      exact reads n
    · have whole := before.trans recovers
      simp only [List.append_assoc, List.cons_append, List.nil_append] at whole
      exact whole
    · rw [count_append_comma blanks, List.length_cons, counted]
    · exact List.forall_mem_cons.2 ⟨rfl, causes⟩

/-- A turn takes the name and, of what is behind it, as much as the first comma ends. -/
theorem parameterTurn_of_spaced {c : Char} {name gap rest : List Char} (named : IsName name)
    (separators : Separators gap) (head : r.cursor.rest.head? = some c)
    (split : r.cursor.rest = name ++ (gap ++ rest))
    (apart : ∀ c ∈ (gap ++ rest).head?, isWordChar c = false)
    (unblank : ∀ c ∈ rest.head?, isBlank c = false ∧ c ≠ ',') :
    ∃ front back m, gap = front ++ back ∧ Separators back ∧ back.count ',' = gap.count ',' - 1 ∧
      parameterTurn c r = .ok [String.ofList name] m.pastBlanks ∧
      r.Recovers (name ++ front) [] m ∧ m.cursor.rest = back ++ rest := by
  cases separators with
  | blanks blanks =>
    obtain ⟨m, read, recovers, behind⟩ :=
      parameter_of_name named head blanks split apart fun c hc => (unblank c hc).1
    have none : m.pastBlanks.cursor.rest.head? ≠ some ',' := by
      rw [behind]
      exact fun comma => (unblank ',' comma).2 rfl
    refine ⟨gap, [], m.pastBlanks, (List.append_nil _).symm, .blanks blanks_nil, ?_,
      parameterTurn_of_other read none, recovers, behind⟩
    rw [count_of_blanks blanks, List.count_nil]
  | @comma a more blanks separators =>
    rw [List.append_assoc] at split apart
    obtain ⟨m, read, recovers, behind⟩ := parameter_of_name named head blanks split apart
      fun c hc => by cases hc; decide
    obtain ⟨q, turn, whole, rest⟩ := parameterTurn_of_comma read recovers behind
    rw [List.append_assoc] at whole
    refine ⟨a ++ [','], more, q, ?_, separators, ?_, turn, whole, rest⟩
    · rw [List.append_assoc, List.cons_append, List.nil_append]
    · rw [count_append_comma blanks, Nat.add_sub_cancel]

/-- **Parameters name by name.** The names are found in their order, and the surplus commas are
reported. -/
theorem parameters_of_spaced {n : Nat} {text : List Char} (listed : NameText text xs)
    (separators : Separators lead) (collecting : r.journal.policy = .collect)
    (split : r.cursor.rest = lead ++ (text ++ ')' :: next))
    (enough : lead.length + text.length < n) :
    ∃ q ds, parameters n r.pastBlanks = .ok (Spaced.parameters xs) q ∧
      r.Recovers (lead ++ text) ds q ∧ ds.length = surplus lead xs ∧
      ∀ d ∈ ds, d.cause = .missingParameter := by
  induction listed generalizing r lead n with
  | none =>
    obtain ⟨q, ds, reads, recovers, counted, causes⟩ :=
      parameters_of_separators separators collecting split (by rintro c ⟨⟩; decide)
    have fewer := List.count_le_length (a := ',') (l := lead)
    obtain ⟨k, rfl⟩ : ∃ k, n = lead.count ',' + (k + 1) := ⟨n - lead.count ',' - 1, by omega⟩
    refine ⟨q, ds, ?_, by rw [List.append_nil]; exact recovers, counted, causes⟩
    rw [reads]
    exact parameters_of_closing k (recovers.rest_eq split)
  | @name name gap text xs named separators' apart listed ih =>
    have unblank := listed.unblank next
    have apart' := apart_append apart next
    obtain ⟨c, word, rfl, letter⟩ := named.exists_cons
    obtain ⟨p, ds, reads, recovers, counted, causes⟩ :=
      parameters_of_separators separators collecting split
        (by rintro c ⟨⟩; exact isBlank_of_isLetter letter)
    have rest := recovers.rest_eq split
    rw [List.append_assoc, List.append_assoc] at rest
    rw [List.append_assoc] at apart'
    obtain ⟨front, back, m, rfl, separators'', single, turn, recovers', rest'⟩ :=
      parameterTurn_of_spaced named separators' (by rw [rest]; rfl) rest apart' unblank
    have before := recovers.trans recovers'
    have fewer := List.count_le_length (a := ',') (l := lead)
    simp only [List.length_append, List.length_cons] at enough
    obtain ⟨k, rfl⟩ : ∃ k, n = lead.count ',' + (k + 1) := ⟨n - lead.count ',' - 1, by omega⟩
    obtain ⟨q, es, read, recovers'', counted', causes'⟩ :=
      ih (n := k) separators'' (before.policy.trans collecting) rest' (by omega)
    have inside : c ≠ ')' := by
      rintro rfl
      exact absurd letter (by decide)
    refine ⟨q, ds ++ es, ?_, ?_, ?_, ?_⟩
    · rw [reads, parameters_of_turn k rest inside, bind_of_ok turn, bind_of_ok read]
      rfl
    · have whole := before.trans recovers''
      rw [List.append_nil] at whole
      simp only [List.append_assoc] at whole ⊢
      exact whole
    · rw [List.length_append, counted, counted', surplus_cons, surplus_eq lead, surplus_eq back,
        single]
      omega
    · exact List.forall_mem_append.2 ⟨causes, causes'⟩

/-- **Headers with any commas.** Where diagnostics are collected, the name and the parameters are
found, and each surplus comma is reported. -/
theorem header_of_spaced {text name : List Char} (heading : SpacedHeading text name lead xs)
    (collecting : r.journal.policy = .collect) (split : r.cursor.rest = text ++ next) :
    ∃ q ds, header r = .ok (String.ofList name, Spaced.parameters xs) q ∧ r.Recovers text ds q ∧
      ds.length = surplus lead xs ∧ ∀ d ∈ ds, d.cause = .missingParameter := by
  cases heading with
  | @mk a b d lead name text xs ha named hb separators listed hd =>
    have split' : r.cursor.rest = a ++ name ++ (b ++ ['(']) ++
        (lead ++ (text ++ ')' :: (d ++ ['=', '>'] ++ next))) := by
      rw [split]
      simp only [List.append_assoc, List.cons_append, List.nil_append]
    obtain ⟨m, front, split₁⟩ : ∃ m, r.Passes (a ++ name ++ (b ++ ['('])) m ∧ m.cursor.rest = _ :=
      ⟨_, Reader.passes_of_split split'⟩
    have collecting' : m.journal.policy = .collect := front.journal_eq ▸ collecting
    -- what is left is enough for each turn, and so is any more
    have room := m.pastBlanks.weight_lt_budget
    obtain ⟨p, ds, read, recovers, counted, causes⟩ := parameters_of_spaced
      (n := m.pastBlanks.budget + (lead.length + text.length)) listed separators collecting' split₁
      (by omega)
    rw [parameters_eq (m := m.pastBlanks.budget) (by omega) room] at read
    rw [← List.append_assoc] at split₁
    obtain ⟨between, whole, split₂⟩ :=
      parameterList_of_parameters read recovers (recovers.rest_eq split₁)
    obtain ⟨q, announced, recovers'⟩ :=
      header_of_parameters ha named hb hd front between whole split₂
    rw [List.append_assoc lead] at recovers'
    exact ⟨q, ds, announced, recovers', counted, causes⟩

/-! ### Whole literals -/

/-- **Commas that are reported.** A header is read in silence just if its parameters are names, with
blanks and commas around them, and none of the commas is a surplus one. What a list that is not well
separated may then lack is a comma between two names, or it has one behind the last name: this is
not reported. But each surplus comma is. Where diagnostics are collected, they are reported one by
one, and the literal is the one that the names announce. Where they are not, the run stops at the
first of them, up to which nothing is missing. -/
theorem functionLiteral_of_commas (r : Reader) :
    (∀ heading q, Quiet header r heading q ↔
      ∃ text name lead xs, SpacedHeading text name lead xs ∧ surplus lead xs = 0 ∧
        heading = (String.ofList name, Spaced.parameters xs) ∧ r.Passes text q) ∧
    ∀ text next name lead xs, SpacedHeading text name lead xs → r.cursor.rest = text ++ next →
      let heading := (String.ofList name, Spaced.parameters xs)
      (WellSeparated lead xs ↔ surplus lead xs = 0 ∧ (∀ x ∈ xs.dropLast, ',' ∈ x.behind) ∧
        ∀ x ∈ xs.getLast?, ',' ∉ x.behind) ∧
      (surplus lead xs = 0 → functionLiteral r = literalFrom heading (r.advance text.length)) ∧
      (0 < surplus lead xs → r.journal.policy = .raise →
        ∃ front q, r.Passes front q ∧ Missing .missingParameter front q.cursor.rest ∧
          q.cursor.rest.head? = some ',' ∧
          functionLiteral r = .error (.diagnostic ⟨.missingParameter, q.here⟩) q) ∧
      (r.journal.policy = .collect → ∃ q ds, r.Recovers text ds q ∧
        ds.length = surplus lead xs ∧ (∀ d ∈ ds, d.cause = .missingParameter) ∧
        functionLiteral r = literalFrom heading q) := by
  refine ⟨fun heading q => ?_, ?_⟩
  · obtain ⟨x, ys⟩ := heading
    rw [quiet_header]
    constructor
    · rintro ⟨text, name, names, rfl, rfl, heading, passes⟩
      obtain ⟨lead, xs, spaced, none, rfl⟩ := heading_iff.1 heading
      exact ⟨text, name, lead, xs, spaced, none, by rw [Spaced.map_name], passes⟩
    · rintro ⟨text, name, lead, xs, spaced, none, ⟨⟩, passes⟩
      exact ⟨text, name, xs.map Spaced.name, rfl, (Spaced.map_name xs).symm,
        heading_iff.2 ⟨lead, xs, spaced, none, rfl⟩, passes⟩
  · intro text next name lead xs spaced split heading
    refine ⟨wellSeparated_iff, fun none => ?_, fun some raising => ?_, fun collecting => ?_⟩
    · have whole := functionLiteral_of_heading (heading_iff.2 ⟨lead, xs, spaced, none, rfl⟩) split
      rw [Spaced.map_name] at whole
      exact whole
    · obtain ⟨front, more, same, missing⟩ := spaced.exists_missing some next
      obtain ⟨passes, behind⟩ := Reader.passes_of_split (split.trans same)
      rw [← behind] at missing
      have stopped := header_of_missing raising missing passes
      exact ⟨front, _, passes, missing, by rw [behind, List.head?_cons],
        functionLiteral_eq ▸ bind_of_error stopped⟩
    · obtain ⟨q, ds, announced, recovers, counted, causes⟩ :=
        header_of_spaced spaced collecting split
      exact ⟨q, ds, recovers, counted, causes, functionLiteral_eq ▸ bind_of_ok announced⟩

/-- The theorem where commas stand in front of, between and behind two names, and where there is
none at all. -/
theorem functionLiteral_of_commas_heaped :
    let r policy := Reader.ofSource "f(,a, ,b,)=> a" "in" policy
    let r' := Reader.ofSource "f(a b)=> a" "in" .raise
    (∃ front q, (r .raise).Passes front q ∧ Missing .missingParameter front q.cursor.rest ∧
      q.cursor.rest.head? = some ',' ∧
      functionLiteral (r .raise) = .error (.diagnostic ⟨.missingParameter, q.here⟩) q) ∧
    (∃ q, q.journal.collected.length = 2 ∧
      (∀ d ∈ q.journal.collected, d.cause = .missingParameter) ∧
      functionLiteral (r .collect) = literalFrom ("f", ["a", "b"]) q) ∧
    functionLiteral r' = literalFrom ("f", ["a", "b"]) (r'.advance 8) ∧
    Quiet header r' ("f", ["a", "b"]) (r'.advance 8) := by
  intro r r'
  have a : IsName ['a'] := ⟨⟨'a', rfl, by decide⟩, forall_mem_of_all (by decide)⟩
  have b : IsName ['b'] := ⟨⟨'b', rfl, by decide⟩, forall_mem_of_all (by decide)⟩
  have f : IsName ['f'] := ⟨⟨'f', rfl, by decide⟩, forall_mem_of_all (by decide)⟩
  have none : Separators [] := .blanks blanks_nil
  have comma : Separators [','] := separators_iff.2 (forall_mem_of_all (by decide))
  have commas : Separators [',', ' ', ','] := separators_iff.2 (forall_mem_of_all (by decide))
  have heaped : SpacedHeading "f(,a, ,b,)=>".toList ['f'] [',']
      [⟨['a'], [',', ' ', ',']⟩, ⟨['b'], [',']⟩] :=
    .mk blanks_nil f blanks_nil comma (.name a commas (by rintro c ⟨⟩; decide)
      (.name b comma (by rintro c ⟨⟩; decide) .none)) blanks_nil
  have bare : SpacedHeading "f(a b)=>".toList ['f'] [] [⟨['a'], [' ']⟩, ⟨['b'], []⟩] :=
    .mk blanks_nil f blanks_nil none (.name a (.blanks blanks_space) (by rintro c ⟨⟩; decide)
      (.name b none (by rintro c ⟨⟩) .none)) blanks_nil
  obtain ⟨-, -, stops, -⟩ :=
    (functionLiteral_of_commas (r .raise)).2 _ " a".toList _ _ _ heaped rfl
  obtain ⟨-, -, -, goesOn⟩ :=
    (functionLiteral_of_commas (r .collect)).2 _ " a".toList _ _ _ heaped rfl
  obtain ⟨quiet, literals⟩ := functionLiteral_of_commas r'
  obtain ⟨q, ds, recovers, two, causes, same⟩ := goesOn rfl
  have collected : q.journal.collected = ds := recovers.collected
  refine ⟨stops (by decide) rfl, ⟨q, ?_, ?_, same⟩, ?_, ?_⟩
  · rw [collected, two]
    rfl
  · rw [collected]
    exact causes
  · exact (literals _ " a".toList _ _ _ bare rfl).2.1 rfl
  · exact (quiet _ _).2 ⟨_, _, _, _, bare, rfl, rfl, rfl, rfl⟩

/-- What a well separated header announces is told by its commas. -/
theorem count_of_header {r q : Reader} {x : String} {ys : List String}
    (run : header r = .ok (x, ys) q) (before : List Char)
    (split : r.cursor.rest = before ++ q.cursor.rest)
    {text name lead : List Char} {xs : List Spaced} (spaced : SpacedHeading text name lead xs)
    (separated : WellSeparated lead xs) (within : text <+: r.cursor.rest) :
    before.count ',' = ys.length - 1 := by
  obtain ⟨next, same⟩ := within
  have none := (wellSeparated_iff.1 separated).1
  obtain ⟨passes, behind⟩ := Reader.passes_of_split same.symm
  have read := quiet_header.2
    ⟨text, name, _, rfl, rfl, heading_iff.2 ⟨lead, xs, spaced, none, rfl⟩, passes⟩
  cases run.symm.trans read.run
  obtain rfl := List.append_cancel_right (split.symm.trans passes.split)
  rw [spaced.count separated, List.length_map, List.length_map]

/-- Two headers without a report: one lacks the comma between its names, and the other has one
behind its only name. -/
theorem unreported_commas :
    let r source := Reader.ofSource source "in" .raise
    let separated source := ∃ text name lead xs, SpacedHeading text name lead xs ∧
      WellSeparated lead xs ∧ text <+: (r source).cursor.rest
    (∃ f q, functionLiteral (r "f(a b) => a;") = .ok f q ∧ f.parameters = ["a", "b"]) ∧
      ¬ separated "f(a b) => a;" ∧
    (∃ f q, functionLiteral (r "f(a,) => a;") = .ok f q ∧ f.parameters = ["a"]) ∧
      ¬ separated "f(a,) => a;" := by
  intro r separated
  refine ⟨by decide +kernel, ?_, by decide +kernel, ?_⟩
  · rintro ⟨text, name, lead, xs, spaced, well, within⟩
    have read : ∃ x q, header (r "f(a b) => a;") = .ok x q ∧
        x = ("f", ["a", "b"]) ∧ q.cursor.rest = " a;".toList := by decide +kernel
    obtain ⟨-, q, run, rfl, rest⟩ := read
    have counted := count_of_header run "f(a b) =>".toList (by rw [rest]; rfl)
      spaced well within
    exact absurd counted (by decide)
  · rintro ⟨text, name, lead, xs, spaced, well, within⟩
    have read : ∃ x q, header (r "f(a,) => a;") = .ok x q ∧
        x = ("f", ["a"]) ∧ q.cursor.rest = " a;".toList := by decide +kernel
    obtain ⟨-, q, run, rfl, rest⟩ := read
    have counted := count_of_header run "f(a,) =>".toList (by rw [rest]; rfl)
      spaced well within
    exact absurd counted (by decide)

end Reading

end Reckoner
