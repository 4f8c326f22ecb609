import Reckoner.Proofs.Appended.Header
import Reckoner.Proofs.Capture
import Reckoner.Proofs.Missing

/-!
# Headers with bad parameters

Where diagnostics are collected, a header is read whose list of parameters has junk in it. Anything
may stand for a parameter that has neither a comma nor a closing parenthesis in it and begins with
neither a letter nor a blank. Each such item is reported once, where it begins, and is passed as a
whole. All else is read as if the junk had been left out together with its commas.

* `Slot`, `Slot.header` — the texts of such headers;
* `Reading.parameters_of_slots` — their parameters, slot by slot;
* `Reading.header_of_slots` — the whole header;
* `Reading.functionLiteral_of_slots` — the literal, compared with the one without junk.
-/

namespace Reckoner

open Reckoner.Text

/-! ### Texts -/

/-- What is no parameter, and does not end before the next comma or closing parenthesis. -/
structure Junk (text : List Char) : Prop where
  begins : ∃ c ∈ text.head?, isLetter c = false ∧ isBlank c = false
  inside : ∀ c ∈ text, c ≠ ',' ∧ c ≠ ')'

/-- A place in a list of parameters: what stands there, and the blanks around it. -/
structure Slot where
  front : List Char
  item : List Char
  behind : List Char

namespace Slot

/-- The item is a name, or it is junk. -/
structure Fits (x : Slot) : Prop where
  front : Blanks x.front
  behind : Blanks x.behind
  item : IsName x.item ∨ Junk x.item

/-- The text of a slot. -/
def text (x : Slot) : List Char := x.front ++ (x.item ++ x.behind)

/-- The item is a name if it begins like one. -/
def named (x : Slot) : Bool := x.item.head?.any isLetter

/-- The parameters that are left of the slots. -/
def names (xs : List Slot) : List String :=
  (xs.filter named).map fun x => String.ofList x.item

/-- Slots with commas between them. -/
def listText (xs : List Slot) : List Char := List.intercalate [','] (xs.map text)

/-- A header with such a list of parameters. -/
def header (a name b : List Char) (xs : List Slot) (d : List Char) : List Char :=
  a ++ name ++ (b ++ ['('] ++ (listText xs ++ [')'] ++ (d ++ ['=', '>'])))

/-- What is reported about slots that come next: each junk item, where it begins. -/
def reports (r : Reader) : List Slot → List Diagnostic
  | [] => []
  | x :: xs =>
    (if x.named then [] else [⟨.missingParameter, (r.advance x.front.length).here⟩]) ++
      reports (r.advance (x.text.length + 1)) xs

theorem listText_nil : listText [] = [] := rfl

theorem listText_singleton (x : Slot) : listText [x] = x.text := by
  simp [listText]

theorem listText_cons_cons (x y : Slot) (xs : List Slot) :
    listText (x :: y :: xs) = x.text ++ ',' :: listText (y :: xs) := by
  simp [listText, List.intercalate_cons_cons]

theorem named_of_isName {x : Slot} (h : IsName x.item) : x.named = true := by
  obtain ⟨c, first, letter⟩ := h.begins
  rw [named, Option.mem_def.1 first]
  exact letter

theorem not_named_of_junk {x : Slot} (h : Junk x.item) : x.named = false := by
  obtain ⟨c, first, other, -⟩ := h.begins
  rw [named, Option.mem_def.1 first]
  exact other

/-- No slot's item begins with a blank. -/
theorem Fits.unblank {x : Slot} (h : x.Fits) :
    ∃ c ∈ x.item.head?, isBlank c = false ∧ c ≠ ')' := by
  rcases h.item with named | junk
  · obtain ⟨c, first, letter⟩ := named.begins
    refine ⟨c, first, isBlank_of_isLetter letter, ?_⟩
    rintro rfl
    exact absurd letter (by decide)
  · obtain ⟨c, first, -, unblank⟩ := junk.begins
    exact ⟨c, first, unblank, (junk.inside c (List.mem_of_mem_head? first)).2⟩

theorem length_reports (r : Reader) (xs : List Slot) :
    (reports r xs).length = xs.countP fun x => !x.named := by
  induction xs generalizing r with
  | nil => rfl
  | cons x xs ih =>
    rw [reports, List.length_append, ih, List.countP_cons]
    cases x.named <;> simp [Nat.add_comm]

theorem names_named (xs : List Slot) : names (xs.filter named) = names xs := by
  unfold names
  rw [List.filter_filter]
  simp only [Bool.and_self]

theorem reports_named (r : Reader) (xs : List Slot) : reports r (xs.filter named) = [] := by
  rw [← List.length_eq_zero_iff, length_reports, List.countP_eq_zero]
  intro x hx
  simp [(List.mem_filter.1 hx).2]

theorem cause_of_mem_reports {r : Reader} {xs : List Slot} :
    ∀ d ∈ reports r xs, d.cause = .missingParameter := by
  induction xs generalizing r with
  | nil => exact fun d hd => absurd hd List.not_mem_nil
  | cons x xs ih =>
    intro d hd
    rcases List.mem_append.1 hd with hd | hd
    · cases named : x.named with
      | true =>
        rw [named] at hd
        exact absurd hd List.not_mem_nil
      | false =>
        rw [named] at hd
        rw [List.mem_singleton.1 hd]
    · exact ih d hd

/-- In each slot there is something that is no blank. -/
theorem length_le_countP {xs : List Slot} (fits : ∀ x ∈ xs, x.Fits) :
    xs.length ≤ (listText xs).countP fun c => !isBlank c := by
  induction xs with
  | nil => exact Nat.zero_le _
  | cons x xs ih =>
    have later := ih fun y hy => fits y (List.mem_cons_of_mem x hy)
    obtain ⟨c, first, solid, -⟩ := (fits x List.mem_cons_self).unblank
    have some : 0 < x.text.countP fun c => !isBlank c := by
      refine List.countP_pos_iff.2 ⟨c, ?_, by rw [solid]; rfl⟩
      exact List.mem_append_right _ (List.mem_append_left _ (List.mem_of_mem_head? first))
    cases xs with
    | nil =>
      rw [listText_singleton]
      exact some
    | cons y ys =>
      rw [listText_cons_cons, List.countP_append, List.countP_cons, List.length_cons]
      omega

/-- Only the place and the name of the source matter for what is reported. -/
theorem reports_congr {r q : Reader} (cursor : r.cursor = q.cursor) (file : r.file = q.file)
    (xs : List Slot) : reports r xs = reports q xs := by
  induction xs generalizing r q with
  | nil => rfl
  | cons x xs ih =>
    have moved (n : Nat) : (r.advance n).cursor = (q.advance n).cursor :=
      congrArg (Cursor.advance · n) cursor
    have here (n : Nat) : (r.advance n).here = (q.advance n).here := by
      unfold Reader.here
      rw [moved n, show (r.advance n).file = (q.advance n).file from file]
    rw [reports, reports, here, ih (moved _) file]

end Slot

/-! ### Readers that recover -/

/-- The journal in which some more diagnostics have been collected. -/
def Journal.collect (j : Journal) (ds : List Diagnostic) : Journal :=
  { j with events := j.events ++ ds.map .collected }

theorem Journal.collected_collect (j : Journal) (ds : List Diagnostic) :
    (j.collect ds).collected = j.collected ++ ds := by
  have all : (ds.map Event.collected).filterMap Event.diagnostic? = ds := by
    rw [List.filterMap_map]
    exact List.filterMap_some
  rw [collected, collect, List.filterMap_append, all]
  rfl

namespace Reader

/-- The text comes next, and the other reader stands behind it and has collected these
diagnostics on the way. -/
structure Recovers (r : Reader) (text : List Char) (ds : List Diagnostic) (q : Reader) : Prop where
  split : r.cursor.rest = text ++ q.cursor.rest
  reader : q = { r.advance text.length with journal := r.journal.collect ds }

variable {r m q : Reader} {text more : List Char} {ds es : List Diagnostic}

theorem Passes.recovers (h : r.Passes text q) : r.Recovers text [] q where
  split := h.split
  reader := by
    rw [h.reader, Journal.collect, List.map_nil, List.append_nil]
    rfl

theorem Recovers.trans (h : r.Recovers text ds m) (h' : m.Recovers more es q) :
    r.Recovers (text ++ more) (ds ++ es) q where
  split := by rw [h.split, h'.split, List.append_assoc]
  reader := by
    rw [h'.reader, h.reader, List.length_append]
    simp only [advance, Cursor.advance_advance, Journal.collect, List.map_append,
      List.append_assoc]

theorem Recovers.collected (h : r.Recovers text ds q) :
    q.journal.collected = r.journal.collected ++ ds := by
  rw [h.reader]
  exact Journal.collected_collect _ _

theorem Recovers.policy (h : r.Recovers text ds q) : q.journal.policy = r.journal.policy := by
  rw [h.reader]
  rfl

theorem Recovers.pending (h : r.Recovers text ds q) : q.pending = r.pending := by
  rw [h.reader]
  rfl

theorem Recovers.rest_eq {next : List Char} (h : r.Recovers text ds q)
    (split : r.cursor.rest = text ++ next) : q.cursor.rest = next :=
  List.append_cancel_left (h.split.symm.trans split)

/-- These diagnostics have been collected, and after them only such as are not about a header. -/
def Reports (r : Reader) (ds : List Diagnostic) (q : Reader) : Prop :=
  ∃ more, q.journal.collected = r.journal.collected ++ ds ++ more ∧
    ∀ d ∈ more, d.cause.inHeader = false

theorem Reports.refl (r : Reader) : r.Reports [] r :=
  ⟨[], by rw [List.append_nil, List.append_nil], fun _ hd => absurd hd List.not_mem_nil⟩

theorem Reports.trans (h : r.Reports ds m) (h' : m.Reports [] q) : r.Reports ds q := by
  obtain ⟨more, same, silent⟩ := h
  obtain ⟨later, same', silent'⟩ := h'
  refine ⟨more ++ later, ?_, fun d hd => ?_⟩
  · rw [same', same, List.append_nil, List.append_assoc (r.journal.collected ++ ds)]
  · rcases List.mem_append.1 hd with hd | hd
    · exact silent d hd
    · exact silent' d hd

theorem Recovers.reports (h : r.Recovers text ds m) (h' : m.Reports [] q) : r.Reports ds q := by
  refine Reports.trans ⟨[], ?_, fun _ hd => absurd hd List.not_mem_nil⟩ h'
  rw [h.collected, List.append_nil]

end Reader

/-- Both runs capture a literal with this heading and the same body but for locations, or a
character that begins no token stops both. These hold of the readers that are left. -/
inductive SameCapture (heading : String × List String) (L R : Reader → Prop) :
    Outcome Reader FunctionLiteral → Outcome Reader FunctionLiteral → Prop
  | ok {f g : FunctionLiteral} {l r : Reader} : (g.name, g.parameters) = heading →
      f.bare = g.bare → L l → R r → SameCapture heading L R (.ok f l) (.ok g r)
  | error {fault fault' : Fault} {l r : Reader} : fault'.Stray → fault.Alike fault' → L l → R r →
      SameCapture heading L R (.error fault l) (.error fault' r)

namespace Reading

variable {r q : Reader} {x : Slot} {xs : List Slot} {sep next : List Char}

/-! ### Slot by slot -/

theorem pastBlanks_of_passes {text : List Char} (blanks : Blanks text) (passes : r.Passes text q)
    (stops : q.EndsRun isBlank) : r.pastBlanks = q :=
  (eq_pastBlanks_iff.2 ⟨text, blanks, passes, stops⟩).symm

theorem passComma_of_comma {more : List Char} (comma : r.pastBlanks.cursor.rest = ',' :: more) :
    passComma r = .ok () (r.pastBlanks.advance 1).pastBlanks := by
  have blanks : skipBlanks r = .ok () r.pastBlanks := rfl
  unfold passComma
  rw [bind_of_ok blanks, bind_of_ok (peek?_of_cons comma), if_pos rfl]
  rfl

theorem passComma_of_other (other : r.pastBlanks.cursor.rest.head? ≠ some ',') :
    passComma r = .ok () r.pastBlanks := by
  have blanks : skipBlanks r = .ok () r.pastBlanks := rfl
  have seen : peek? r.pastBlanks = .ok r.pastBlanks.cursor.rest.head? r.pastBlanks := rfl
  unfold passComma
  rw [bind_of_ok blanks, bind_of_ok seen, if_neg other]
  rfl

theorem parameterTurn_of_ok {c : Char} {found : List String} {m : Reader}
    (read : parameter c r = .ok found m) (passed : passComma m = .ok () q) :
    parameterTurn c r = .ok found q := by
  unfold parameterTurn
  rw [bind_of_ok read, bind_of_ok passed]
  rfl

/-- A turn takes the comma behind the parameter. -/
theorem parameterTurn_of_comma {p m : Reader} {c : Char} {found : List String}
    {text more : List Char} {ds : List Diagnostic} (read : parameter c r = .ok found m)
    (before : p.Recovers text ds m.pastBlanks) (behind : m.pastBlanks.cursor.rest = ',' :: more) :
    ∃ q, parameterTurn c r = .ok found q.pastBlanks ∧ p.Recovers (text ++ [',']) ds q ∧
      q.cursor.rest = more := by
  have comma : m.pastBlanks.Passes [','] (m.pastBlanks.advance 1) :=
    Reader.passes_sign (by rw [behind]; rfl)
  have whole := before.trans comma.recovers
  rw [List.append_nil] at whole
  exact ⟨_, parameterTurn_of_ok read (passComma_of_comma behind), whole,
    comma.recovers.rest_eq behind⟩

/-- Without one it takes the blanks alone. -/
theorem parameterTurn_of_other {m : Reader} {c : Char} {found : List String}
    (read : parameter c r = .ok found m) (other : m.pastBlanks.cursor.rest.head? ≠ some ',') :
    parameterTurn c r = .ok found m.pastBlanks.pastBlanks := by
  rw [Reader.pastBlanks_pastBlanks]
  exact parameterTurn_of_ok read (passComma_of_other other)

/-- The sign behind a parameter ends both names and blanks. -/
theorem ends_of_sign (ends : ∃ c ∈ sep.head?, c = ',' ∨ c = ')') :
    ∀ c ∈ sep.head?, isBlank c = false ∧ isWordChar c = false := by
  intro c hc
  obtain ⟨d, first, sign⟩ := ends
  cases hc.symm.trans first
  rcases sign with rfl | rfl <;> decide

/-- A word ends in front of blanks and of what ends a word behind them. -/
theorem apart_of_blanks {a : List Char} (blanks : Blanks a)
    (apart : ∀ c ∈ sep.head?, isWordChar c = false) :
    ∀ c ∈ (a ++ sep).head?, isWordChar c = false := by
  intro c hc
  cases a with
  | nil => exact apart c hc
  | cons d a =>
    cases hc
    exact isWordChar_of_isBlank (blanks c List.mem_cons_self)

/-- A name is taken, and the blanks behind it can be passed. -/
theorem parameter_of_name {c : Char} {text blanks : List Char} (named : IsName text)
    (head : r.cursor.rest.head? = some c) (hb : Blanks blanks)
    (split : r.cursor.rest = text ++ (blanks ++ sep))
    (apart : ∀ c ∈ (blanks ++ sep).head?, isWordChar c = false)
    (unblank : ∀ c ∈ sep.head?, isBlank c = false) :
    ∃ m, parameter c r = .ok [String.ofList text] m ∧
      r.Recovers (text ++ blanks) [] m.pastBlanks ∧ m.pastBlanks.cursor.rest = sep := by
  obtain ⟨passes, rest⟩ := Reader.passes_of_split split
  obtain ⟨passes', rest'⟩ := Reader.passes_of_split rest
  have stops : ((r.advance text.length).advance blanks.length).EndsRun isBlank := by
    intro d hd
    rw [rest'] at hd
    exact unblank d hd
  have ends : (r.advance text.length).EndsRun isWordChar := by
    unfold Reader.EndsRun
    rw [rest]
    exact apart
  refine ⟨_, ((quiet_parameter head).2 ⟨text, rfl, named, passes, ends⟩).run, ?_⟩
  rw [pastBlanks_of_passes hb passes' stops]
  exact ⟨(passes.trans passes').recovers, rest'⟩

/-- Junk is reported and passed, and so are the blanks behind it. -/
theorem parameter_of_junk {c : Char} {text blanks : List Char} (junk : Junk text)
    (head : r.cursor.rest.head? = some c) (hb : Blanks blanks)
    (collecting : r.journal.policy = .collect)
    (split : r.cursor.rest = text ++ (blanks ++ sep)) (ends : ∃ c ∈ sep.head?, c = ',' ∨ c = ')') :
    ∃ m, parameter c r = .ok [] m ∧
      r.Recovers (text ++ blanks) [⟨.missingParameter, r.here⟩] m.pastBlanks ∧
      m.pastBlanks.cursor.rest = sep := by
  rw [← List.append_assoc] at split
  obtain ⟨d, first, other, -⟩ := junk.begins
  have same : c = d := by
    rw [split, List.append_assoc, List.head?_append, Option.mem_def.1 first] at head
    exact (Option.some.inj head).symm
  have inside : ∀ e ∈ text ++ blanks, (e != ',' && e != ')') = true := by
    intro e he
    rcases List.mem_append.1 he with he | he
    · simp [junk.inside e he]
    · have blank := hb e he
      have apart : e ≠ ',' ∧ e ≠ ')' := by
        constructor
        · rintro rfl
          exact absurd blank (by decide)
        · rintro rfl
          exact absurd blank (by decide)
      simp [apart]
  have stops : ∀ e ∈ sep.head?, (e != ',' && e != ')') = false := by
    intro e he
    obtain ⟨f, first, sign⟩ := ends
    cases he.symm.trans first
    rcases sign with rfl | rfl <;> rfl
  obtain ⟨passes, behind⟩ := Reader.passes_of_split split
  let m := (r.note (.collected ⟨.missingParameter, r.here⟩)).advance (text ++ blanks).length
  have reported : reportHere .missingParameter r =
      .ok () (r.note (.collected ⟨.missingParameter, r.here⟩)) := report_of_collect _ collecting
  have rest : m.cursor.rest = sep := behind
  have taken : takeWhile (fun e => e != ',' && e != ')')
      (r.note (.collected ⟨.missingParameter, r.here⟩)) = .ok (text ++ blanks) m := by
    have left : (r.note (.collected ⟨.missingParameter, r.here⟩)).cursor.rest =
        text ++ blanks ++ sep := split
    rw [takeWhile_eq_ok, left, takeWhile_append_of_head? inside stops]
  have past : m.pastBlanks = m := by
    refine pastBlanks_of_passes blanks_nil (.refl m) fun d hd => ?_
    rw [rest] at hd
    exact (ends_of_sign ends d hd).1
  refine ⟨m, ?_, ?_⟩
  · unfold parameter
    rw [if_neg (by rw [same, other]; exact Bool.false_ne_true), bind_of_ok reported,
      bind_of_ok taken]
    rfl
  · rw [past]
    refine ⟨⟨?_, rfl⟩, rest⟩
    rw [rest]
    exact split

/-- What a slot is read as, up to the comma or parenthesis behind it. -/
theorem parameter_of_slot (fits : x.Fits) (collecting : r.journal.policy = .collect)
    (split : r.cursor.rest = x.text ++ sep) (ends : ∃ c ∈ sep.head?, c = ',' ∨ c = ')') :
    ∃ c m, r.pastBlanks.cursor.rest.head? = some c ∧ c ≠ ')' ∧
      parameter c r.pastBlanks = .ok (Slot.names [x]) m ∧
      r.Recovers x.text
        (if x.named then [] else [⟨.missingParameter, (r.advance x.front.length).here⟩])
        m.pastBlanks ∧
      m.pastBlanks.cursor.rest = sep := by
  obtain ⟨c, first, solid, inside⟩ := fits.unblank
  have split' : r.cursor.rest = x.front ++ (x.item ++ (x.behind ++ sep)) := by
    rw [split, Slot.text]
    simp only [List.append_assoc]
  obtain ⟨front, rest⟩ := Reader.passes_of_split split'
  have head : (r.advance x.front.length).cursor.rest.head? = some c := by
    rw [rest, List.head?_append, Option.mem_def.1 first]
    rfl
  rw [pastBlanks_of_passes fits.front front (Reader.endsRun_of_head head solid)]
  rcases fits.item with named | junk
  · have unblank := ends_of_sign ends
    obtain ⟨m, read, recovers, behind⟩ := parameter_of_name named head fits.behind rest
      (apart_of_blanks fits.behind fun d hd => (unblank d hd).2) fun d hd => (unblank d hd).1
    have is := Slot.named_of_isName named
    have same : Slot.names [x] = [String.ofList x.item] := by
      simp [Slot.names, is]
    rw [same, is, if_pos rfl]
    exact ⟨c, m, head, inside, read, front.recovers.trans recovers, behind⟩
  · obtain ⟨m, read, recovers, behind⟩ :=
      parameter_of_junk junk head fits.behind collecting rest ends
    have not := Slot.not_named_of_junk junk
    have none : Slot.names [x] = [] := by
      simp [Slot.names, not]
    rw [none, not, if_neg Bool.false_ne_true]
    exact ⟨c, m, head, inside, read, front.recovers.trans recovers, behind⟩

/-- A turn takes a slot and the comma behind it, where there is one. -/
theorem parameterTurn_of_slot {comma : List Char} (fits : x.Fits)
    (collecting : r.journal.policy = .collect) (split : r.cursor.rest = x.text ++ (comma ++ next))
    (sign : comma = [','] ∨ comma = [] ∧ next.head? = some ')') :
    ∃ c m, r.pastBlanks.cursor.rest.head? = some c ∧ c ≠ ')' ∧
      parameterTurn c r.pastBlanks = .ok (Slot.names [x]) m.pastBlanks ∧
      r.Recovers (x.text ++ comma)
        (if x.named then [] else [⟨.missingParameter, (r.advance x.front.length).here⟩]) m ∧
      m.cursor.rest = next := by
  have ends : ∃ c ∈ (comma ++ next).head?, c = ',' ∨ c = ')' := by
    rcases sign with rfl | ⟨rfl, closing⟩
    · exact ⟨',', rfl, Or.inl rfl⟩
    · exact ⟨')', closing, Or.inr rfl⟩
  obtain ⟨c, m, head, inside, read, recovers, behind⟩ :=
    parameter_of_slot fits collecting split ends
  rcases sign with rfl | ⟨rfl, closing⟩
  · obtain ⟨q, turn, whole, rest⟩ := parameterTurn_of_comma read recovers behind
    exact ⟨c, q, head, inside, turn, whole, rest⟩
  · have other : m.pastBlanks.cursor.rest.head? ≠ some ',' := by
      rw [behind, List.nil_append, closing]
      decide
    rw [List.append_nil]
    exact ⟨c, m.pastBlanks, head, inside, parameterTurn_of_other read other, recovers, behind⟩

theorem names_cons (x : Slot) (xs : List Slot) :
    Slot.names (x :: xs) = Slot.names [x] ++ Slot.names xs := by
  unfold Slot.names
  rw [← List.map_append, ← List.filter_append]
  rfl

/-- Behind a slot stands a comma or, behind the last one, nothing. -/
theorem exists_listText_cons (x : Slot) (xs : List Slot) :
    ∃ comma, Slot.listText (x :: xs) = x.text ++ (comma ++ Slot.listText xs) ∧
      (comma = [','] ∨ comma = [] ∧ xs = []) := by
  cases xs with
  | nil => exact ⟨[], by rw [Slot.listText_singleton, Slot.listText_nil]; simp, Or.inr ⟨rfl, rfl⟩⟩
  | cons y ys => exact ⟨[','], Slot.listText_cons_cons x y ys, Or.inl rfl⟩

/-- **Parameters slot by slot.** The names are found in their order, and the junk is reported. -/
theorem parameters_of_slots {n : Nat} (fits : ∀ x ∈ xs, x.Fits)
    (collecting : r.journal.policy = .collect)
    (split : r.cursor.rest = Slot.listText xs ++ ')' :: next) (enough : xs.length < n) :
    ∃ q, parameters n r.pastBlanks = .ok (Slot.names xs) q ∧
      r.Recovers (Slot.listText xs) (Slot.reports r xs) q ∧ q.cursor.rest = ')' :: next := by
  induction xs generalizing r n with
  | nil =>
    obtain ⟨n, rfl⟩ : ∃ k, n = k + 1 := ⟨n - 1, by omega⟩
    have rest : r.cursor.rest = ')' :: next := split
    have stops : r.EndsRun isBlank := Reader.endsRun_of_head (by rw [rest]; rfl) (by decide)
    rw [pastBlanks_of_passes blanks_nil (.refl r) stops]
    exact ⟨r, parameters_of_closing n rest, (Reader.Passes.refl r).recovers, rest⟩
  | cons x xs ih =>
    obtain ⟨n, rfl⟩ : ∃ k, n = k + 1 := ⟨n - 1, by omega⟩
    obtain ⟨comma, text, sign⟩ := exists_listText_cons x xs
    rw [text, List.append_assoc, List.append_assoc] at split
    have sign' : comma = [','] ∨ comma = [] ∧
        (Slot.listText xs ++ ')' :: next).head? = some ')' :=
      sign.imp_right fun last => ⟨last.1, by rw [last.2]; rfl⟩
    obtain ⟨c, m, head, inside, turn, before, behind⟩ :=
      parameterTurn_of_slot (fits x List.mem_cons_self) collecting split sign'
    obtain ⟨cs, rest⟩ := List.head?_eq_some_iff.1 head
    obtain ⟨q, later, recovers, rest'⟩ := ih (fun y hy => fits y (List.mem_cons_of_mem x hy))
      (before.policy.trans collecting) behind (Nat.lt_of_succ_lt_succ enough)
    refine ⟨q, ?_, ?_, rest'⟩
    · rw [parameters_of_turn n rest inside, names_cons, bind_of_ok turn, bind_of_ok later]
      rfl
    · have place : Slot.reports m xs = Slot.reports (r.advance (x.text.length + 1)) xs := by
        rcases sign with rfl | ⟨-, rfl⟩
        · refine Slot.reports_congr ?_ ?_ xs
          · rw [before.reader, List.length_append]
            rfl
          · rw [before.reader]
            rfl
        · rfl
      rw [text, Slot.reports, ← place, ← List.append_assoc]
      exact before.trans recovers

/-! ### The whole header -/

/-- There is enough left to be read for every slot. -/
theorem length_lt_budget (fits : ∀ x ∈ xs, x.Fits)
    (split : r.cursor.rest = Slot.listText xs ++ next) : xs.length < r.pastBlanks.budget := by
  have solid : r.pastBlanks.cursor.rest.countP (fun c => !isBlank c) =
      r.cursor.rest.countP fun c => !isBlank c := by
    have none : (r.cursor.rest.takeWhile isBlank).countP (fun c => !isBlank c) = 0 := by
      refine List.countP_eq_zero.2 fun c hc => ?_
      simp [List.mem_takeWhile_imp hc]
    have parts := congrArg (List.countP fun c => !isBlank c)
      (List.takeWhile_append_dropWhile (p := isBlank) (l := r.cursor.rest))
    rw [List.countP_append, none, Nat.zero_add] at parts
    rw [Reader.rest_pastBlanks]
    exact parts
  have counted := Slot.length_le_countP fits
  have all := List.countP_le_length (p := fun c => !isBlank c) (l := r.pastBlanks.cursor.rest)
  rw [solid, split, List.countP_append] at all
  have room := r.pastBlanks.length_rest_lt_budget
  omega

/-- The list of parameters is closed where the parameters end. -/
theorem parameterList_of_parameters {m : Reader} {inner : List Char} {names : List String}
    {ds : List Diagnostic} (read : parameters r.pastBlanks.budget r.pastBlanks = .ok names m)
    (recovers : r.Recovers inner ds m) (split : m.cursor.rest = ')' :: next) :
    parameterList r = .ok names (m.advance 1) ∧
      r.Recovers (inner ++ [')']) ds (m.advance 1) ∧ (m.advance 1).cursor.rest = next := by
  have sign : m.Passes [')'] (m.advance 1) := Reader.passes_sign (by rw [split]; rfl)
  have stops : ∀ c ∈ m.cursor.rest.head?, c = ')' := by
    rw [split]
    exact fun c hc => (Option.some.inj hc).symm
  have closed := ((quiet_closeParameters stops).2 sign).run
  have whole := recovers.trans sign.recovers
  rw [List.append_nil] at whole
  exact ⟨(bind_of_ok read).trans (bind_of_ok closed), whole, sign.recovers.rest_eq split⟩

/-- **A header around a list of parameters.** It is read if the list is, and what is collected is
collected inside the parentheses. -/
theorem header_of_parameters {m : Reader} {a name b inner d : List Char} {names : List String}
    {ds : List Diagnostic} (ha : Blanks a) (named : IsName name) (hb : Blanks b) (hd : Blanks d)
    (front : r.Passes (a ++ name ++ (b ++ ['('])) m) (read : parameterList m = .ok names q)
    (recovers : m.Recovers (inner ++ [')']) ds q)
    (split : q.cursor.rest = d ++ ['=', '>'] ++ next) :
    ∃ q, header r = .ok (String.ofList name, names) q ∧
      r.Recovers (a ++ name ++ (b ++ ['('] ++ (inner ++ [')'] ++ (d ++ ['=', '>'])))) ds q := by
  obtain ⟨m', first, second⟩ := front.exists_between
  -- the name ends in front of the parenthesis or of the blanks before it
  have apart : m'.EndsRun isWordChar := by
    obtain ⟨_, blanks, sign⟩ := second.exists_between
    refine blanks.endsRun (fun e he => isWordChar_of_isBlank (hb e (List.mem_of_mem_head? he))) ?_
    exact Reader.endsRun_of_head sign.head_of_sign (by decide)
  have nameRead := (quiet_functionName.2 ⟨a, name, rfl, ha, named, first, apart⟩).run
  have opened := (quiet_openParameters.2 ⟨b, hb, second⟩).run
  obtain ⟨arrow, -⟩ := Reader.passes_of_split split
  have linked := (quiet_requireLink.2 ⟨d, hd, arrow⟩).run
  refine ⟨q.advance (d ++ ['=', '>']).length, ?_, ?_⟩
  · unfold header
    rw [bind_of_ok nameRead, bind_of_ok opened, bind_of_ok read, bind_of_ok linked]
    rfl
  · have whole := front.recovers.trans (recovers.trans arrow.recovers)
    rw [List.nil_append, List.append_nil] at whole
    simp only [List.append_assoc] at whole ⊢
    exact whole

/-- **Headers with junk.** The name and the names among the parameters are found, and each junk
item is reported. -/
theorem header_of_slots {a name b d : List Char} (ha : Blanks a) (named : IsName name)
    (hb : Blanks b) (hd : Blanks d) (fits : ∀ x ∈ xs, x.Fits)
    (collecting : r.journal.policy = .collect)
    (split : r.cursor.rest = Slot.header a name b xs d ++ next) :
    ∃ q, header r = .ok (String.ofList name, Slot.names xs) q ∧
      r.Recovers (Slot.header a name b xs d)
        (Slot.reports (r.advance (a ++ name ++ (b ++ ['('])).length) xs) q := by
  have split' : r.cursor.rest = a ++ name ++ (b ++ ['(']) ++
      (Slot.listText xs ++ ')' :: (d ++ ['=', '>'] ++ next)) := by
    rw [split, Slot.header]
    simp only [List.append_assoc, List.cons_append, List.nil_append]
  obtain ⟨front, split₁⟩ := Reader.passes_of_split split'
  obtain ⟨m, read, recovers, split₂⟩ := parameters_of_slots fits
    (show (r.advance _).journal.policy = .collect from collecting) split₁
    (length_lt_budget fits split₁)
  obtain ⟨listed, whole, split₃⟩ := parameterList_of_parameters read recovers split₂
  exact header_of_parameters ha named hb hd front listed whole split₃

/-! ### The whole literal -/

/-- Where diagnostics are collected, a body is read without a report about a header, and only a
character that begins no token stops it. -/
theorem meets_body_of_collect {n : Nat} (collecting : r.journal.policy = .collect)
    (enough : r.weight < n) :
    Meets (fun fault q => fault.Stray ∧ r.Reports [] q) (fun _ q => r.Reports [] q) (body n r) := by
  induction n generalizing r with
  | zero => exact absurd enough (Nat.not_lt_zero _)
  | succ n ih =>
    unfold body
    cases run : Reading.next r with
    | error fault m =>
      rw [bind_of_error run]
      cases failure_of_next run with
      | stray none scanned => exact .error ⟨⟨_, rfl, rfl⟩, .refl _⟩
      | unterminated none scanned raising =>
        rw [collecting] at raising
        cases raising
    | ok t m =>
      rw [bind_of_ok run]
      have first : r.Reports [] m := by
        rcases Reader.collected_of_next run with same | ⟨-, -, -, more⟩
        · exact ⟨[], by rw [same, List.append_nil, List.append_nil],
            fun d hd => absurd hd List.not_mem_nil⟩
        · refine ⟨[⟨.unterminatedString, t.location⟩], by rw [more, List.append_nil], ?_⟩
          intro d hd
          rw [List.mem_singleton.1 hd]
          rfl
      split
      · exact .ok first
      · rename_i ongoing
        have last := (TokenKind.inside_iff.1 (Bool.eq_false_iff.2 ongoing)).1
        have policy := (grows composed_next).policy r
        rw [after_of_ok run] at policy
        have less := Reader.weight_lt_of_next run last
        have later := ih (r := m) (policy.trans collecting) (by omega)
        refine (later.imp_error fun _ _ ended => ⟨ended.1, first.trans ended.2⟩).bind
          fun x z _ rest => .ok (first.trans rest)

/-- So is what comes behind a header. -/
theorem meets_literalFrom_of_collect (heading : String × List String)
    (collecting : r.journal.policy = .collect) :
    Meets (fun fault q => fault.Stray ∧ r.Reports [] q)
      (fun f q => (f.name, f.parameters) = heading ∧ r.Reports [] q) (literalFrom heading r) := by
  show Meets _ _ ((body r.budget >>= _ : Reading FunctionLiteral) r)
  refine (meets_body_of_collect collecting r.weight_lt_budget).bind fun x q _ reports => ?_
  obtain ⟨more, same, silent⟩ := reports
  refine .ok ⟨rfl, more, ?_, silent⟩
  exact (Journal.collected_note_captured _ _).trans same

/-- **Bad parameters are skipped one by one.** Where diagnostics are collected, let a header come
next whose parameters are names and junk items. The literal is captured with the names, and each
junk item is reported, and nothing else about the header is. The body is the one that is captured
from the header without the junk; if a character begins no token, it stops both runs. -/
theorem functionLiteral_of_slots {a name b d : List Char} (file : String) (ha : Blanks a)
    (named : IsName name) (hb : Blanks b) (hd : Blanks d) (fits : ∀ x ∈ xs, x.Fits)
    (none : r.pending = []) (collecting : r.journal.policy = .collect)
    (split : r.cursor.rest = Slot.header a name b xs d ++ next) :
    let junk := Slot.reports (r.advance (a ++ name ++ (b ++ ['('])).length) xs
    let cleaned := Slot.header a name b (xs.filter Slot.named) d ++ next
    let l := Reader.ofSource (String.ofList cleaned) file .collect
    junk.length = xs.countP (fun x => !x.named) ∧
      (∀ d ∈ junk, d.cause = .missingParameter) ∧
      SameCapture (String.ofList name, Slot.names xs) (l.Reports []) (r.Reports junk)
        (functionLiteral l) (functionLiteral r) := by
  intro junk cleaned l
  refine ⟨Slot.length_reports _ xs, Slot.cause_of_mem_reports, ?_⟩
  have text : l.cursor.rest = cleaned := String.toList_ofList
  have fits' : ∀ x ∈ xs.filter Slot.named, x.Fits := fun x hx => fits x (List.mem_filter.1 hx).1
  obtain ⟨q, announced, recovers⟩ := header_of_slots ha named hb hd fits collecting split
  obtain ⟨p, announced', recovers'⟩ := header_of_slots ha named hb hd fits' rfl text
  rw [Slot.names_named] at announced'
  rw [Slot.reports_named] at recovers'
  have rest := recovers.rest_eq split
  have rest' := recovers'.rest_eq text
  have nothing : p.journal.kinds = [] := by
    rw [Journal.kinds, recovers'.collected]
    rfl
  have between : Appended.Between Option.none q.journal.kinds p q := by
    refine ⟨recovers'.pending, recovers.pending.trans none, ?_, ?_, ?_⟩
    · rw [rest, rest']
      exact (List.append_nil next).symm
    · rw [recovers.policy, recovers'.policy, collecting]
      rfl
    · rw [nothing, List.append_nil]
  have both := Appended.ends_literalFrom between (String.ofList name, Slot.names xs)
  have left := meets_literalFrom_of_collect (String.ofList name, Slot.names xs)
    (recovers'.policy.trans rfl)
  have right := meets_literalFrom_of_collect (String.ofList name, Slot.names xs)
    (recovers.policy.trans collecting)
  rw [functionLiteral_eq, bind_of_ok announced, bind_of_ok announced']
  revert both left right
  generalize literalFrom (String.ofList name, Slot.names xs) p = o
  generalize literalFrom (String.ofList name, Slot.names xs) q = o'
  rintro (@⟨f, g, z, w, same⟩ | @⟨fault, fault', z, w, alike, -⟩ | lost) left right
  · cases left with | ok left =>
    cases right with | ok right =>
    exact .ok right.1 same.1 (recovers'.reports left.2) (recovers.reports right.2)
  · cases left with | error left =>
    cases right with | error right =>
    exact .error right.1 alike (recovers'.reports left.2) (recovers.reports right.2)
  · cases o <;> exact absurd rfl lost.1

/-- The theorem at a list with a name between two junk items, of which the first holds a semicolon,
a quote and an arrow. -/
theorem functionLiteral_of_slots_arrow :
    let xs : List Slot := [⟨[], ['1', ';', '"', '=', '>', 'b'], [' ']⟩, ⟨['\n'], ['c', '2'], []⟩,
      ⟨[' '], ['$'], []⟩]
    let next := [' ', 'c', '2', ';']
    let text := Slot.header [' '] ['f'] [] xs [' ']
    let cleaned := Slot.header [' '] ['f'] [] (xs.filter Slot.named) [' '] ++ next
    let r := Reader.ofSource (String.ofList (text ++ next)) "in" .collect
    let l := Reader.ofSource (String.ofList cleaned) "" .collect
    let junk := Slot.reports (r.advance 3) xs
    Blanks [' '] ∧ IsName ['f'] ∧ Blanks [] ∧ (∀ x ∈ xs, x.Fits) ∧ r.pending = [] ∧
      r.journal.policy = .collect ∧ r.cursor.rest = text ++ next ∧
      junk.length = 2 ∧ (∀ d ∈ junk, d.cause = .missingParameter) ∧
      SameCapture ("f", ["c2"]) (l.Reports []) (r.Reports junk) (functionLiteral l)
        (functionLiteral r) := by
  intro xs next text cleaned r l junk
  have named : IsName ['f'] := ⟨⟨'f', rfl, by decide⟩, forall_mem_of_all (by decide)⟩
  have fits : ∀ x ∈ xs, x.Fits := by
    intro x hx
    simp only [xs, List.mem_cons, List.not_mem_nil, or_false] at hx
    rcases hx with rfl | rfl | rfl
    · refine ⟨blanks_nil, blanks_space, Or.inr ⟨⟨'1', rfl, by decide⟩, ?_⟩⟩
      exact forall_mem_of_all (p := fun c => c ≠ ',' ∧ c ≠ ')') (by decide)
    · refine ⟨forall_mem_of_all (by decide), blanks_nil, Or.inl ⟨⟨'c', rfl, by decide⟩, ?_⟩⟩
      exact forall_mem_of_all (by decide)
    · refine ⟨blanks_space, blanks_nil, Or.inr ⟨⟨'$', rfl, by decide⟩, ?_⟩⟩
      exact forall_mem_of_all (p := fun c => c ≠ ',' ∧ c ≠ ')') (by decide)
  have split : r.cursor.rest = text ++ next := String.toList_ofList
  exact ⟨blanks_space, named, blanks_nil, fits, rfl, rfl, split,
    functionLiteral_of_slots "" blanks_space named blanks_nil blanks_space fits rfl rfl split⟩

end Reading

end Reckoner
