import Reckoner.Proofs.Calls
import Reckoner.Proofs.Delivery
import Reckoner.Proofs.Guard.Sessions
import Reckoner.Proofs.Lexing.Decomposition
import Reckoner.Proofs.Lexing.Taking

/-!
# Every position is true

The line and the column of a position are counted from the text before it. Whatever is called, in
whatever order and however it ends, the cursor bears the line and the column of its position, and so
does everything that has been noted by the way: each token that has been scanned those of its end,
and, as long as no token comes from elsewhere, each token of a captured body and each diagnostic
those of a position that the cursor has passed.

* `placeAt`, `ScannedAt` — what is true of a position and of a token;
* `Provenance.guard` — what holds throughout a call;
* `positions_of_calls` — the statement for all calls.
-/

namespace Reckoner

open Reckoner.Text

/-! ### Lines and columns -/

/-- The line and the column of a position: one more than there are newlines before it, and one more
than there are characters between it and the last of them. -/
def placeAt (source : List Char) (p : Nat) : Place :=
  let before := source.take p
  ⟨1 + before.count '\n', 1 + (before.reverse.takeWhile (· != '\n')).length⟩

theorem after_start_eq (cs : List Char) :
    Place.start.after cs =
      ⟨1 + cs.count '\n', 1 + (cs.reverse.takeWhile (· != '\n')).length⟩ := by
  obtain ⟨ds, rfl⟩ : ∃ ds : List Char, cs = ds.reverse := ⟨cs.reverse, cs.reverse_reverse.symm⟩
  induction ds with
  | nil => rfl
  | cons c ds ih =>
    rw [List.reverse_cons, Place.after_append, ih]
    by_cases newline : c = '\n'
    · subst newline
      simp [Place.step, Nat.add_assoc]
    · simp [Place.step, newline, Nat.add_assoc]

theorem Cursor.In.place_eq {c : Cursor} {source : List Char} (h : c.In source) :
    c.place = placeAt source c.pos := by
  obtain ⟨read, split, pos, place⟩ := h
  have before : source.take c.pos = read := by rw [split, pos, List.take_left]
  rw [place, after_start_eq]
  unfold placeAt
  rw [before]

theorem Cursor.In.pos_le {c : Cursor} {source : List Char} (h : c.In source) :
    c.pos ≤ source.length := by
  obtain ⟨read, split, pos, -⟩ := h
  rw [split, pos, List.length_append]
  exact Nat.le_add_right _ _

/-- What has been read since an earlier cursor in the same text. -/
theorem Cursor.In.take_eq {c d : Cursor} {source taken : List Char} (h : c.In source)
    (h' : d.In source) (split : c.rest = taken ++ d.rest) :
    source.take d.pos = source.take c.pos ++ taken := by
  obtain ⟨before, whole, pos, -⟩ := h
  obtain ⟨read, whole', pos', -⟩ := h'
  have both : read ++ d.rest = (before ++ taken) ++ d.rest := by
    rw [← whole', whole, split, List.append_assoc]
  have same : read = before ++ taken := List.append_cancel_right both
  rw [whole', pos', List.take_left, ← whole', whole, pos, List.take_left, same]

/-! ### Tokens -/

/-- The token bears the line and the column of the position, and it ends there: it is spelled out
right before, or it is a string without its end, or the end of the input. -/
structure ScannedAt (source : List Char) (file : String) (p : Nat) (t : Token) : Prop where
  location : t.location = (placeAt source p).inFile file
  bounded : p ≤ source.length
  ending : if t.kind = .endOfInput then p = source.length else
    t.spelling.toList <:+ source.take p ∨
      t.kind = .string ∧ p = source.length ∧ '"' :: t.text.toList <:+ source

section Scanned

variable {source : List Char} {r q : Reader} {t : Token}

theorem here_eq (h : q.cursor.In source) :
    q.here = (placeAt source q.cursor.pos).inFile q.file := by
  rw [← h.place_eq]
  rfl

theorem pos_of_rest_nil {c : Cursor} (h : c.In source) (nothing : c.rest = []) :
    c.pos = source.length := by
  obtain ⟨read, split, pos, -⟩ := h
  rw [pos, split, nothing, List.append_nil]

/-- What has been spelled out between two cursors ends at the second. -/
theorem suffix_take_of_split {before spelling : List Char} (h : r.cursor.In source)
    (h' : q.cursor.In source) (split : r.cursor.rest = before ++ spelling ++ q.cursor.rest) :
    spelling <:+ source.take q.cursor.pos := by
  rw [h.take_eq h' split, ← List.append_assoc]
  exact List.suffix_append _ _

theorem scannedAt_of_takes (h : r.cursor.In source) (h' : q.cursor.In source)
    (taken : Reading.Takes r t q) : ScannedAt source q.file q.cursor.pos t := by
  cases taken with
  | nothing none => exact ⟨here_eq h', h'.pos_le, by rw [if_pos rfl]; exact pos_of_rest_nil h' none⟩
  | @lexeme l blanks _ formed split =>
    refine ⟨here_eq h', h'.pos_le, ?_⟩
    rw [if_neg formed.kind_ne_endOfInput, Token.toList_spelling, Token.lexeme_mk]
    exact Or.inl (suffix_take_of_split h h' split)
  | @unterminated text blanks _ opened split none =>
    refine ⟨here_eq h', h'.pos_le, ?_⟩
    rw [if_neg (by simp)]
    refine Or.inr ⟨rfl, pos_of_rest_nil h' none, ?_⟩
    obtain ⟨before, whole, -⟩ := h
    rw [String.toList_ofList, whole, split, ← List.append_assoc]
    exact List.suffix_append _ _

theorem scannedAt_of_scan (h : r.cursor.In source) (run : Reading.scan r = .ok t q) :
    ScannedAt source r.file q.cursor.pos t := by
  have inside := (Reading.reaches_of_ok run).inSource h
  rw [← Reading.file_of_ok run]
  exact scannedAt_of_takes h inside (Reading.takes_of_scan run)

theorem scanNumber_of_cons {c : Char} {cs number : List Char} (text : r.cursor.rest = c :: cs)
    (written : Lexeme.signedNumberText (c :: cs) = number) :
    Reading.scanNumber r = .ok ⟨.number, String.ofList number, (r.advance number.length).here⟩
      (r.advance number.length) := by
  have seen : Reading.rest r = .ok (c :: cs) r := by rw [Reading.rest, text]
  subst written
  unfold Reading.scanNumber
  rw [bind_of_ok seen]
  rfl

theorem scanNumber_of_nil (text : r.cursor.rest = []) :
    Reading.scanNumber r = .error .endOfSource r := by
  have seen : Reading.rest r = .ok [] r := by rw [Reading.rest, text]
  unfold Reading.scanNumber
  rw [bind_of_ok seen]
  rfl

/-- A number that is scanned by itself is right before where that ends, even if it is empty. -/
theorem scannedAt_of_scanNumber (h : r.cursor.In source)
    (run : Reading.scanNumber r = .ok t q) : ScannedAt source r.file q.cursor.pos t := by
  have inside := (Reading.reaches_of_ok run).inSource h
  rw [← Reading.file_of_ok run]
  cases text : r.cursor.rest with
  | nil =>
    rw [scanNumber_of_nil text] at run
    cases run
  | cons c cs =>
    obtain ⟨more, whole⟩ := Lexeme.exists_signedNumberText_append (c :: cs)
    generalize written : Lexeme.signedNumberText (c :: cs) = number at whole
    rw [scanNumber_of_cons text written] at run
    cases run
    have split : r.cursor.rest = [] ++ number ++ (r.advance number.length).cursor.rest := by
      rw [Reader.rest_advance, text, whole, List.drop_left]
      rfl
    refine ⟨here_eq inside, inside.pos_le, ?_⟩
    rw [if_neg (by simp), Token.toList_spelling, Token.lexeme_mk ⟨.number, number⟩]
    exact Or.inl (suffix_take_of_split h inside split)

theorem scannedAt_of_scanLink (h : r.cursor.In source)
    (run : Reading.scanLink? r = .ok (some t) q) : ScannedAt source r.file q.cursor.pos t := by
  have inside := (Reading.reaches_of_ok run).inSource h
  rw [← Reading.file_of_ok run]
  by_cases arrow : ∃ rest, r.pastBlanks.cursor.rest = '=' :: '>' :: rest
  · obtain ⟨rest, text⟩ := arrow
    rw [Reading.scanLink?_of_arrow text] at run
    cases run
    have split : r.cursor.rest = r.cursor.rest.takeWhile isBlank ++ "=>".toList ++
        (r.pastBlanks.advance 2).cursor.rest := by
      rw [Reader.rest_advance, text, List.append_assoc]
      exact (Reading.rest_eq_blanks_append r).trans (by rw [text]; rfl)
    refine ⟨here_eq inside, inside.pos_le, ?_⟩
    rw [if_neg (by simp)]
    exact Or.inl (suffix_take_of_split h inside split)
  · rw [Reading.scanLink?_of_other fun rest same => arrow ⟨rest, same⟩] at run
    cases run

end Scanned

/-! ### Where tokens and locations come from -/

/-- A named source, how far it has been read, the tokens that come from elsewhere, and those that
have ended the bodies of literals. -/
structure Provenance where
  source : List Char
  file : String
  limit : Nat
  foreign : List Token
  terminators : List Token

namespace Provenance

/-- The location is that of a position that has been passed, or of a token from elsewhere. -/
def Placed (P : Provenance) (l : Location) : Prop :=
  (∃ t ∈ P.foreign, l = t.location) ∨ ∃ p ≤ P.limit, l = (placeAt P.source p).inFile P.file

/-- The token has been scanned, or pushed back without having been. -/
def Known (P : Provenance) (t : Token) : Prop :=
  t ∈ P.foreign ∨ t ∈ P.terminators ∨ ∃ p ≤ P.limit, ScannedAt P.source P.file p t

/-- The body is one of known tokens, but for the one that ends it. -/
structure Captures (P : Provenance) (f : FunctionLiteral) : Prop where
  tokens : ∀ t ∈ f.body.dropLast, P.Known t
  places : ∀ t ∈ f.body, P.Placed t.location

/-- The reader stands in the source, and what it has noted comes from there. -/
structure Holds (P : Provenance) (r : Reader) : Prop where
  cursor : r.cursor.In P.source
  file : r.file = P.file
  within : r.cursor.pos ≤ P.limit
  pending : ∀ t ∈ r.pending, P.Known t
  collected : ∀ d ∈ r.journal.collected, P.Placed d.location
  captured : ∀ f ∈ r.journal.captured, P.Captures f

/-- More has been read of the same source, and more tokens have come from elsewhere. -/
structure Extends (P P' : Provenance) : Prop where
  source : P'.source = P.source
  file : P'.file = P.file
  limit : P.limit ≤ P'.limit
  foreign : P.foreign ⊆ P'.foreign
  terminators : P.terminators ⊆ P'.terminators

section Extends

variable {P P' : Provenance} (h : P.Extends P')
include h

theorem Extends.placed {l : Location} (placed : P.Placed l) : P'.Placed l := by
  rcases placed with ⟨t, ht, same⟩ | ⟨p, passed, same⟩
  · exact Or.inl ⟨t, h.foreign ht, same⟩
  · rw [← h.source, ← h.file] at same
    exact Or.inr ⟨p, Nat.le_trans passed h.limit, same⟩

theorem Extends.known {t : Token} (known : P.Known t) : P'.Known t := by
  rcases known with ht | ht | ⟨p, passed, scanned⟩
  · exact Or.inl (h.foreign ht)
  · exact Or.inr (Or.inl (h.terminators ht))
  · rw [← h.source, ← h.file] at scanned
    exact Or.inr (Or.inr ⟨p, Nat.le_trans passed h.limit, scanned⟩)

theorem Extends.captures {f : FunctionLiteral} (captured : P.Captures f) : P'.Captures f :=
  ⟨fun t ht => h.known (captured.tokens t ht), fun t ht => h.placed (captured.places t ht)⟩

theorem Extends.holds {r : Reader} (holds : P.Holds r) : P'.Holds r where
  cursor := h.source ▸ holds.cursor
  file := holds.file.trans h.file.symm
  within := Nat.le_trans holds.within h.limit
  pending t ht := h.known (holds.pending t ht)
  collected d hd := h.placed (holds.collected d hd)
  captured f hf := h.captures (holds.captured f hf)

end Extends

variable {P : Provenance} {r q : Reader} {t : Token}

theorem Holds.placed_of_le (h : P.Holds r) (moved : q.cursor.In P.source) (file : q.file = r.file)
    (within : q.cursor.pos ≤ P.limit) : P.Placed q.here :=
  Or.inr ⟨q.cursor.pos, within, by rw [here_eq moved, file, h.file]⟩

/-- A token that is taken is known, if what has been read for it is within the limit. -/
theorem Holds.known_of_next (h : P.Holds r) (run : Reading.next r = .ok t q)
    (within : q.cursor.pos ≤ P.limit) : P.Known t := by
  rcases Reading.pending_of_next run with waiting | ⟨-, -, scanned⟩
  · exact h.pending t (by rw [waiting]; exact List.mem_cons_self)
  · exact Or.inr (Or.inr ⟨_, within, h.file ▸ scannedAt_of_scan h.cursor scanned⟩)

theorem Holds.next (h : P.Holds r) (run : Reading.next r = .ok t q)
    (within : q.cursor.pos ≤ P.limit) : P.Holds q := by
  have inside := (Reading.reaches_of_ok run).inSource h.cursor
  have file := Reading.file_of_ok run
  refine ⟨inside, file.trans h.file, within, ?_, ?_, ?_⟩
  · rcases Reading.pending_of_next run with waiting | ⟨-, none, -⟩
    · intro u hu
      exact h.pending u (by rw [waiting]; exact List.mem_cons_of_mem t hu)
    · intro u hu
      rw [none] at hu
      exact absurd hu List.not_mem_nil
  · rcases Reader.collected_of_next run with same | ⟨-, none, -, more⟩
    · rw [same]
      exact h.collected
    · intro d hd
      rw [more] at hd
      rcases List.mem_append.1 hd with hd | hd
      · exact h.collected d hd
      · have scanned := (Reading.next_of_pending_nil none).symm.trans run
        rw [List.mem_singleton.1 hd, (scannedAt_of_scan h.cursor scanned).location, h.file]
        exact Or.inr ⟨_, within, rfl⟩
  · rw [Reader.captured_of_next run]
    exact h.captured

theorem Holds.stopped {fault : Fault} (h : P.Holds r) (run : Reading.next r = .error fault q)
    (within : q.cursor.pos ≤ P.limit) :
    (∀ d, fault = .diagnostic d → P.Placed d.location) ∧ P.Holds q := by
  have inside := (Reading.reaches_of_error run).inSource h.cursor
  have file := Reading.file_of_error run
  have placed := h.placed_of_le inside file within
  cases Reading.failure_of_next run with
  | stray none scanned =>
    refine ⟨fun d same => ?_, inside, h.file, within, h.pending, h.collected, h.captured⟩
    cases same
    exact placed
  | unterminated none scanned raising =>
    refine ⟨fun d same => ?_, inside, h.file, within, h.pending, h.collected, h.captured⟩
    cases same
    exact placed

theorem Holds.push (h : P.Holds r) (known : P.Known t) : P.Holds (r.push t) := by
  refine ⟨h.cursor, h.file, h.within, ?_, h.collected, h.captured⟩
  intro u hu
  rcases List.mem_cons.1 hu with rfl | hu
  · exact known
  · exact h.pending u hu

theorem placed_of_known (ends : ∀ t ∈ P.terminators, P.Placed t.location) (known : P.Known t) :
    P.Placed t.location := by
  rcases known with ht | ht | ⟨p, passed, scanned⟩
  · exact Or.inl ⟨t, ht, rfl⟩
  · exact ends t ht
  · exact Or.inr ⟨p, passed, scanned.location⟩

/-- Within the limit everything comes from the source or from elsewhere. -/
def guard (P : Provenance) (ends : ∀ t ∈ P.terminators, P.Placed t.location) : Guard where
  readers := P.Holds
  calm _ := True
  tokens := P.Known
  places := P.Placed
  literals := P.Captures
  faults fault := ∀ d, fault = .diagnostic d → P.Placed d.location
  lost c := P.limit < c.pos
  keepsLost moved past := Nat.lt_of_lt_of_le past moved.pos_le
  advance := by
    intro r n h _
    rcases Nat.lt_or_ge P.limit (r.advance n).cursor.pos with past | within
    · exact Or.inr past
    · exact Or.inl ⟨h.cursor.advance n, h.file, within, h.pending, h.collected, h.captured⟩
  note := by
    intro r e none literal h
    refine ⟨h.cursor, h.file, h.within, h.pending, ?_, ?_⟩
    · cases e with
      | collected d => cases none
      | captured f => exact (Journal.collected_note_captured r.journal f).symm ▸ h.collected
      | cleared n => exact (Journal.collected_note_cleared r.journal n).symm ▸ h.collected
    · cases e with
      | collected d => cases none
      | captured f =>
        intro g hg
        have more := Journal.captured_note_captured r.journal f
        rcases List.mem_append.1 (more ▸ hg) with hg | hg
        · exact h.captured g hg
        · exact literal g (congrArg Event.captured (List.mem_singleton.1 hg).symm)
      | cleared n => exact (Journal.captured_note_cleared r.journal n).symm ▸ h.captured
  collected := by
    intro r d _ placed h _
    refine ⟨h.cursor, h.file, h.within, h.pending, ?_, ?_⟩
    · intro u hu
      have more := Journal.collected_note_collected r.journal d
      rcases List.mem_append.1 (more ▸ hu) with hu | hu
      · exact h.collected u hu
      · rw [List.mem_singleton.1 hu]
        exact placed
    · exact (Journal.captured_note_collected r.journal d).symm ▸ h.captured
  raised := by
    intro r d _ placed _ _ u same
    cases same
    exact placed
  here h := h.placed_of_le h.cursor rfl h.within
  place known := placed_of_known ends known
  captured := by
    intro name names ts t tokens terminator
    have last : P.Placed t.location := placed_of_known ends terminator
    refine ⟨?_, ?_⟩
    · rw [FunctionLiteral.capture_dropLast]
      exact fun u hu => (tokens u hu).1
    · intro u hu
      rcases List.mem_append.1 hu with hu | hu
      · exact placed_of_known ends (tokens u hu).1
      · rw [List.mem_singleton.1 hu]
        exact last
  delivered := by
    intro r q t h run
    rcases Nat.lt_or_ge P.limit q.cursor.pos with past | within
    · exact Or.inr past
    · have known := h.known_of_next run within
      have holds := h.next run within
      exact Or.inl ⟨known, holds, trivial, holds.push known⟩
  stopped := by
    intro r q fault h run
    rcases Nat.lt_or_ge P.limit q.cursor.pos with past | within
    · exact Or.inr past
    · exact Or.inl (h.stopped run within)
  numeral _ _ _ d same := by cases same
  undefined known d same := by
    cases same
    exact placed_of_known ends known

end Provenance

/-! ### One call -/

namespace Provenance

open Evaluating

variable {P : Provenance} {ends : ∀ t ∈ P.terminators, P.Placed t.location} {s : Session}

/-- The same answer twice, which hands out known tokens, in one session within the guard. -/
def Answers (P : Provenance) (ends : ∀ t ∈ P.terminators, P.Placed t.location) (x : Answer)
    (l : Session) (y : Answer) (r : Session) : Prop :=
  x = y ∧ l = r ∧ (P.guard ends).Inside l ∧ ∀ t ∈ x.handed, P.Known t

theorem ends_reading {α : Type} {a : Reading α} {make : α → Answer}
    (h : (P.guard ends).Inside s)
    (read : (P.guard ends).Ends (fun x q => (∀ t ∈ (make x).handed, P.Known t) ∧ P.Holds q)
      (a s.reader)) :
    (P.guard ends).pairing.Ends (P.Answers ends) ((reading a >>= fun x => pure (make x)) s)
      ((reading a >>= fun x => pure (make x)) s) := by
  refine Link.Ends.bind (Guard.ends_reading_of h read) (P.guard ends).pairing.keeps
    fun x l y r ended => ?_
  obtain ⟨rfl, rfl, q, ⟨known, holds⟩, rfl⟩ := ended
  exact .ok ⟨rfl, rfl, ⟨holds, h.functions⟩, known⟩

theorem ends_scanNumber {r : Reader} (h : P.Holds r) :
    (P.guard ends).Ends (fun t q => P.Known t ∧ P.Holds q) (Reading.scanNumber r) := by
  cases text : r.cursor.rest with
  | nil =>
    rw [scanNumber_of_nil text]
    exact .error (fun d same => by cases same) h
  | cons c cs =>
    have run := scanNumber_of_cons text rfl
    have scanned := scannedAt_of_scanNumber h.cursor run
    rw [run]
    refine Guard.ends_advance ⟨h, trivial⟩ _ _ fun between => ⟨?_, between.readers⟩
    exact Or.inr (Or.inr ⟨_, between.readers.within, h.file ▸ scanned⟩)

theorem ends_scanLink {r : Reader} (h : P.Holds r) :
    (P.guard ends).Ends (fun found q => (∀ t ∈ found, P.Known t) ∧ P.Holds q)
      (Reading.scanLink? r) := by
  have kept := Guard.keeps_scanLink?.ends (G := P.guard ends) (r := r) ⟨h, trivial⟩
  have scanned : ∀ t q, Reading.scanLink? r = .ok (some t) q →
      ScannedAt P.source P.file q.cursor.pos t := fun t q run =>
    h.file ▸ scannedAt_of_scanLink h.cursor run
  revert kept scanned
  cases Reading.scanLink? r with
  | error fault q =>
    intro kept _
    cases kept with
    | error allowed readers => exact .error allowed readers
    | lost lost => exact .lost lost
  | ok found q =>
    intro kept scanned
    cases kept with
    | ok behind =>
      refine .ok ⟨fun t same => ?_, behind.1.readers⟩
      exact Or.inr (Or.inr ⟨_, behind.1.readers.within, scanned t q (by rw [same])⟩)
    | lost lost => exact .lost lost

/-- **One call.** Within the guard it hands out known tokens, if a token that it pushes back is
known. -/
theorem ends_serve (h : (P.guard ends).Inside s) (c : Call)
    (own : ∀ t, c = .pushBack t → P.Known t) :
    (P.guard ends).pairing.Ends (P.Answers ends) (c.serve s) (c.serve s) := by
  cases c with
  | request request =>
    cases request with
    | evaluate =>
      have within : (P.guard ends).pairing.Within s.reader.weight s.reader.weight s s :=
        ⟨⟨rfl, h⟩, Nat.le_refl _, Nat.le_refl _⟩
      refine (ends_evaluate within).bind (P.guard ends).pairing.keeps fun v l w r ended => ?_
      obtain ⟨rfl, within'⟩ := ended
      obtain ⟨rfl, inside⟩ := within'.states
      exact .ok ⟨rfl, rfl, inside, fun t ht => absurd ht List.not_mem_nil⟩
    | evaluateAll =>
      refine (Guard.ends_evaluateAll h).bind (P.guard ends).pairing.keeps fun v l w r ended => ?_
      obtain ⟨rfl, ⟨rfl, inside⟩, -⟩ := ended
      exact .ok ⟨rfl, rfl, inside, fun t ht => absurd ht List.not_mem_nil⟩
    | assign name given =>
      show (P.guard ends).pairing.Ends (P.Answers ends)
        ((Request.assign name given).serve s) ((Request.assign name given).serve s)
      rcases Request.serve_assign name given s with ⟨v, served⟩ | ⟨refusal, served⟩
      · rw [served]
        exact .ok ⟨rfl, rfl, ⟨h.reader, h.functions⟩, fun t ht => absurd ht List.not_mem_nil⟩
      · rw [served]
        exact .ok ⟨rfl, rfl, h, fun t ht => absurd ht List.not_mem_nil⟩
  | next =>
    refine ends_reading h ((Guard.ends_next h.reader).imp fun t q taken => ?_)
    refine ⟨fun u hu => ?_, taken.2.1.readers⟩
    rw [List.mem_singleton.1 hu]
    exact taken.1
  | pushBack t =>
    have known := own t rfl
    exact .ok ⟨rfl, rfl, ⟨h.reader.push known, h.functions⟩, fun u hu =>
      absurd hu List.not_mem_nil⟩
  | tokens =>
    refine ends_reading h ?_
    rw [Reading.tokens_eq]
    exact Guard.ends_pulls h.reader s.reader.weight_lt_budget
  | functionLiteral =>
    refine ends_reading h ((Guard.ends_functionLiteral ⟨h.reader, trivial⟩).imp fun f q read => ?_)
    exact ⟨fun u hu => absurd hu List.not_mem_nil, read.2.1.readers⟩
  | scanNumber =>
    refine ends_reading h ((ends_scanNumber h.reader).imp fun t q read => ?_)
    refine ⟨fun u hu => ?_, read.2⟩
    rw [List.mem_singleton.1 hu]
    exact read.1
  | scanLink =>
    refine ends_reading h ((ends_scanLink h.reader).imp fun found q read => ?_)
    refine ⟨fun u hu => ?_, read.2⟩
    cases found with
    | none => exact absurd hu List.not_mem_nil
    | some t =>
      rw [List.mem_singleton.1 hu]
      exact read.1 t rfl

/-- The same as a statement about the one run, which must not have gone past the limit. -/
theorem inside_of_serve (h : (P.guard ends).Inside s) (c : Call)
    (own : ∀ t, c = .pushBack t → P.Known t)
    (within : (after c.serve s).reader.cursor.pos ≤ P.limit) :
    (P.guard ends).Inside (after c.serve s) ∧
      (∀ x t, c.serve s = .ok x t → ∀ u ∈ x.handed, P.Known u) ∧
      ∀ d t, c.serve s = .error (.diagnostic d) t → P.Placed d.location := by
  have meets := Guard.meets_of_ends (ends_serve h c own) (Nat.not_lt.2 within)
  unfold after
  revert meets
  cases c.serve s with
  | ok x t =>
    rintro ⟨-, -, inside, known⟩
    refine ⟨inside, fun y u same => ?_, fun d u same => by cases same⟩
    cases same
    exact known
  | error fault t =>
    rintro (_ | ⟨placed, inside⟩)
    refine ⟨inside, (fun y u same => by cases same), fun d u same => ?_⟩
    cases same
    exact placed d rfl

end Provenance

/-! ### Any calls -/

namespace Evaluating

/-- What is captured stays noted. -/
theorem captured_subset {α : Type} {a : Evaluating α} (h : Composed Step a) (s : Session) :
    s.reader.journal.captured ⊆ (after a s).reader.journal.captured := by
  have reads {α : Type} {a : Reading α} (h : Composed Reading.Step a) (r : Reader) :
      r.journal.captured ⊆ (after a r).journal.captured := by
    refine h.after_related (R := fun r q : Reader => r.journal.captured ⊆ q.journal.captured)
      (fun _ => List.Subset.refl _) List.Subset.trans (fun r step => ?_) r
    cases step with
    | popPending? =>
      obtain ⟨c, pending, file, j⟩ := r
      cases pending <;> exact List.Subset.refl _
    | captured f =>
      exact (Journal.captured_note_captured r.journal f).symm ▸ List.subset_append_left _ _
    | report d =>
      cases policy : r.journal.policy with
      | raise =>
        rw [after_of_error (Reading.report_of_raise d policy)]
        exact List.Subset.refl _
      | collect =>
        rw [after_of_ok (Reading.report_of_collect d policy)]
        exact (Journal.captured_note_collected r.journal d).symm ▸ List.Subset.refl _
    | _ => exact List.Subset.refl _
  refine h.after_related
    (R := fun s t : Session => s.reader.journal.captured ⊆ t.reader.journal.captured)
    (fun _ => List.Subset.refl _) List.Subset.trans (fun s step => ?_) s
  cases step with
  | reading h =>
    rw [after_reading]
    exact reads h s.reader
  | valueOf t =>
    rw [after_valueOf]
    exact List.Subset.refl _
  | endGroup =>
    rcases after_endGroup s with kept | cleared
    · rw [kept]
      exact List.Subset.refl _
    · rw [cleared]
      exact (Journal.captured_note_cleared s.reader.journal _).symm ▸ List.Subset.refl _
  | define f => exact List.Subset.refl _

end Evaluating

namespace Call

open Evaluating

/-- All calls but assignments are composed of steps. -/
theorem after_serve_related {R : Session → Session → Prop}
    (composed : ∀ {α : Type} {a : Evaluating α} (s : Session), Composed Step a → R s (after a s))
    (assigned : ∀ (s : Session) bindings, R s { s with bindings := bindings }) (c : Call)
    (s : Session) : R s (after c.serve s) := by
  cases c with
  | request request =>
    cases request with
    | assign name given =>
      obtain ⟨bindings, same⟩ := Request.after_assign name given s
      show R s (after (Request.assign name given).serve s)
      rw [same]
      exact assigned s bindings
    | _ => exact composed s (composed_bind (a := _))
  | _ => exact composed s (composed_bind (a := _))

end Call

namespace History

open Evaluating

variable {source : List Char} {file : String} {h : History}

/-- The tokens that end the bodies of the literals captured so far. -/
def terminators (h : History) : List Token :=
  h.session.reader.journal.captured.filterMap fun f => f.body.getLast?

/-- Where everything in the history comes from. -/
def provenance (source : List Char) (file : String) (h : History) : Provenance :=
  ⟨source, file, h.session.reader.cursor.pos, h.foreign, h.terminators⟩

/-- All that has been noted comes from there. -/
structure Sound (source : List Char) (file : String) (h : History) : Prop where
  reader : (h.provenance source file).Holds h.session.reader
  functions : ∀ f ∈ h.session.functions.values, (h.provenance source file).Captures f
  handed : ∀ t ∈ h.handed, (h.provenance source file).Known t
  faults : ∀ d, .diagnostic d ∈ h.faults → (h.provenance source file).Placed d.location

theorem Sound.placed_of_terminator (sound : h.Sound source file) {t : Token}
    (ht : t ∈ h.terminators) : (h.provenance source file).Placed t.location := by
  obtain ⟨f, hf, last⟩ := List.mem_filterMap.1 ht
  exact (sound.reader.captured f hf).places t (List.mem_of_getLast? last)

/-- What is known has been scanned, or it comes from elsewhere, or it has ended a body. -/
theorem Sound.known (sound : h.Sound source file) {t : Token} (ht : t ∈ h.known) :
    (h.provenance source file).Known t := by
  rcases List.mem_append.1 ht with ht | ht
  · rcases List.mem_append.1 ht with ht | ht
    · exact sound.handed t ht
    · exact sound.reader.pending t ht
  · obtain ⟨f, hf, ht⟩ := List.mem_flatMap.1 ht
    have some : f.body ≠ [] := List.ne_nil_of_mem ht
    rw [← List.dropLast_concat_getLast some] at ht
    rcases List.mem_append.1 ht with ht | ht
    · exact (sound.reader.captured f hf).tokens t ht
    · refine Or.inr (Or.inl (List.mem_filterMap.2 ⟨f, hf, ?_⟩))
      rw [List.mem_singleton.1 ht]
      exact List.getLast?_eq_some_getLast some

theorem pos_le_call (h : History) (c : Call) :
    h.session.reader.cursor.pos ≤ (h.call c).session.reader.cursor.pos := by
  rw [session_call]
  exact c.after_serve_related
    (R := fun s t : Session => s.reader.cursor.pos ≤ t.reader.cursor.pos)
    (fun s composed => (Evaluating.reaches composed s).pos_le) (fun _ _ => Nat.le_refl _) _

theorem foreign_call (h : History) (c : Call) : (h.call c).foreign = h.foreignAfter c := by
  unfold call
  cases c.serve h.session <;> rfl

theorem foreign_subset (h : History) (c : Call) : h.foreign ⊆ (h.call c).foreign := by
  rw [foreign_call]
  cases c with
  | pushBack t =>
    show h.foreign ⊆ if t ∈ h.known then h.foreign else t :: h.foreign
    by_cases known : t ∈ h.known
    · rw [if_pos known]
      exact List.Subset.refl _
    · rw [if_neg known]
      exact List.subset_cons_self t h.foreign
  | _ => exact List.Subset.refl _

theorem terminators_subset (h : History) (c : Call) : h.terminators ⊆ (h.call c).terminators := by
  have more := c.after_serve_related
    (R := fun s t : Session => s.reader.journal.captured ⊆ t.reader.journal.captured)
    (fun s composed => captured_subset composed s) (fun _ _ => List.Subset.refl _) h.session
  rw [← session_call] at more
  intro t ht
  obtain ⟨f, hf, last⟩ := List.mem_filterMap.1 ht
  exact List.mem_filterMap.2 ⟨f, more hf, last⟩

theorem mem_handed_call {c : Call} {t : Token} (ht : t ∈ (h.call c).handed) :
    t ∈ h.handed ∨ ∃ x s, c.serve h.session = .ok x s ∧ t ∈ x.handed := by
  unfold call at ht
  revert ht
  cases c.serve h.session with
  | ok x s => exact fun ht => (List.mem_append.1 ht).imp_right fun ht => ⟨x, s, rfl, ht⟩
  | error fault s => exact Or.inl

theorem mem_faults_call {c : Call} {fault : Fault} (hf : fault ∈ (h.call c).faults) :
    fault ∈ h.faults ∨ ∃ s, c.serve h.session = .error fault s := by
  unfold call at hf
  revert hf
  cases c.serve h.session with
  | ok x s => exact Or.inl
  | error stop s =>
    refine fun hf => (List.mem_append.1 hf).imp_right fun hf => ⟨s, ?_⟩
    rw [List.mem_singleton.1 hf]

/-- **One call.** What it notes comes from the source, too. -/
theorem Sound.call (sound : h.Sound source file) (c : Call) : (h.call c).Sound source file := by
  -- what the call itself captures cannot be pushed back before it has ended
  let P : Provenance := ⟨source, file, (h.call c).session.reader.cursor.pos,
    (h.call c).foreign, h.terminators⟩
  have before : (h.provenance source file).Extends P :=
    ⟨rfl, rfl, h.pos_le_call c, h.foreign_subset c, List.Subset.refl _⟩
  have behind : P.Extends ((h.call c).provenance source file) :=
    ⟨rfl, rfl, Nat.le_refl _, List.Subset.refl _, h.terminators_subset c⟩
  have ends : ∀ t ∈ P.terminators, P.Placed t.location :=
    fun t ht => before.placed (sound.placed_of_terminator ht)
  have inside : (P.guard ends).Inside h.session :=
    ⟨before.holds sound.reader, fun f hf => before.captures (sound.functions f hf)⟩
  have own : ∀ t, c = .pushBack t → P.Known t := by
    rintro t rfl
    by_cases known : t ∈ h.known
    · exact before.known (sound.known known)
    · refine Or.inl ?_
      show t ∈ (h.call (.pushBack t)).foreign
      rw [h.foreign_call, foreignAfter, if_neg known]
      exact List.mem_cons_self
  have within : (after c.serve h.session).reader.cursor.pos ≤ P.limit :=
    Nat.le_of_eq (congrArg (·.reader.cursor.pos) (h.session_call c).symm)
  obtain ⟨inside', handed, faults⟩ := Provenance.inside_of_serve inside c own within
  rw [← session_call] at inside'
  refine ⟨behind.holds inside'.reader, fun f hf => behind.captures (inside'.functions f hf), ?_, ?_⟩
  · intro t ht
    rcases mem_handed_call ht with ht | ⟨x, s, run, ht⟩
    · exact behind.known (before.known (sound.handed t ht))
    · exact behind.known (handed x s run t ht)
  · intro d hd
    rcases mem_faults_call hd with hd | ⟨s, run⟩
    · exact behind.placed (before.placed (sound.faults d hd))
    · exact behind.placed (faults d s run)

theorem sound_of (source file : String) (policy : Policy) (clearOnGroup : Bool)
    (bindings : Table Value) (calls : List Call) :
    (History.of (Session.ofSource source file policy clearOnGroup bindings) calls).Sound
      source.toList file := by
  have fresh : Sound source.toList file
      ⟨Session.ofSource source file policy clearOnGroup bindings, [], [], []⟩ := by
    refine ⟨⟨Cursor.atStart_in source.toList, rfl, Nat.le_refl 0, ?_, ?_, ?_⟩, ?_, ?_, ?_⟩
    all_goals intro x hx; exact absurd hx List.not_mem_nil
  unfold History.of
  revert fresh
  generalize (⟨Session.ofSource source file policy clearOnGroup bindings, [], [], []⟩ : History) = h
  intro sound
  induction calls generalizing h with
  | nil => exact sound
  | cons c later ih => exact ih (h.call c) (sound.call c)

/-- The location is that of a position that the cursor has passed. -/
def Passed (source file : String) (h : History) (l : Location) : Prop :=
  ∃ p ≤ h.session.reader.cursor.pos, l = (placeAt source.toList p).inFile file

end History

/-- **Every position is true.** Whatever has been called, the cursor is in the source, bears the
line and the column of its position, and never goes back. A token that is scanned there, or has been
and is known, bears those of its own end. If no token has come from elsewhere, each token of a
captured body and each diagnostic, collected or not, bears those of a position that the cursor has
passed. -/
theorem positions_of_calls (source file : String) (policy : Policy) (clearOnGroup : Bool)
    (bindings : Table Value) (calls : List Call) :
    let h := History.of (Session.ofSource source file policy clearOnGroup bindings) calls
    let r := h.session.reader
    (r.cursor.pos ≤ source.length ∧ r.cursor.place = placeAt source.toList r.cursor.pos ∧
      ∀ c, r.cursor.pos ≤ (h.call c).session.reader.cursor.pos) ∧
    (∀ t q, Reading.scan r = .ok t q ∨ Reading.scanNumber r = .ok t q ∨
        Reading.scanLink? r = .ok (some t) q → ScannedAt source.toList file q.cursor.pos t) ∧
    (∀ t ∈ h.known, t ∈ h.foreign ∨ t ∈ h.terminators ∨
      ∃ p ≤ r.cursor.pos, ScannedAt source.toList file p t) ∧
    (h.foreign = [] →
      (∀ f, f ∈ r.journal.captured ∨ f ∈ h.session.functions.values →
        ∀ t ∈ f.body, h.Passed source file t.location) ∧
      ∀ d, d ∈ r.journal.collected ∨ .diagnostic d ∈ h.faults →
        h.Passed source file d.location) := by
  intro h r
  have sound := History.sound_of source file policy clearOnGroup bindings calls
  have inside := sound.reader.cursor
  refine ⟨⟨?_, inside.place_eq, h.pos_le_call⟩, ?_, fun t ht => sound.known ht, ?_⟩
  · exact Nat.le_trans inside.pos_le (Nat.le_of_eq String.length_toList)
  · have named : r.file = file := sound.reader.file
    rintro t q (run | run | run)
    · exact named ▸ scannedAt_of_scan inside run
    · exact named ▸ scannedAt_of_scanNumber inside run
    · exact named ▸ scannedAt_of_scanLink inside run
  · intro own
    have passed {l : Location} (placed : (h.provenance source.toList file).Placed l) :
        h.Passed source file l := by
      rcases placed with ⟨t, ht, -⟩ | passed
      · rw [show (h.provenance source.toList file).foreign = [] from own] at ht
        exact absurd ht List.not_mem_nil
      · exact passed
    constructor
    · rintro f (hf | hf) t ht
      · exact passed ((sound.reader.captured f hf).places t ht)
      · exact passed ((sound.functions f hf).places t ht)
    · rintro d (hd | hd)
      · exact passed (sound.reader.collected d hd)
      · exact passed (sound.faults d hd)

/-- The theorem where a token is put back that had been handed out, a missing operand is collected,
a body is captured that goes over two lines, and a character stops the run that begins no token. -/
theorem positions_of_calls_own_push :
    let source := "1 + ;\nfunction f(a b) => \"x\ny\" 2; $"
    let calls : List Call :=
      [.next, .pushBack ⟨.number, "1", ⟨1, 2, "in"⟩⟩, .request .evaluateAll]
    ∃ h, h = History.of (Session.ofSource source "in" .collect true []) calls ∧
      h.foreign = [] ∧
      h.session.reader.journal.captured.map (fun f => f.body.map Token.location) =
        [[⟨3, 3, "in"⟩, ⟨3, 5, "in"⟩, ⟨3, 6, "in"⟩]] ∧
      (∀ f ∈ h.session.reader.journal.captured, ∀ t ∈ f.body,
        h.Passed source "in" t.location) ∧
      ∃ d, .diagnostic d ∈ h.faults ∧ h.Passed source "in" d.location := by
  intro source calls
  have own : (History.of (Session.ofSource source "in" .collect true []) calls).foreign = [] := by
    decide +kernel
  have locations : (History.of (Session.ofSource source "in" .collect true [])
      calls).session.reader.journal.captured.map (fun f => f.body.map Token.location) =
        [[⟨3, 3, "in"⟩, ⟨3, 5, "in"⟩, ⟨3, 6, "in"⟩]] := by
    decide +kernel
  have stopped : Fault.diagnostic ⟨.invalidCharacter "$", ⟨3, 7, "in"⟩⟩ ∈
      (History.of (Session.ofSource source "in" .collect true []) calls).faults := by
    decide +kernel
  have positions := positions_of_calls source "in" .collect true [] calls
  revert own locations stopped positions
  generalize History.of (Session.ofSource source "in" .collect true []) calls = h
  intro own locations stopped positions
  obtain ⟨bodies, diagnostics⟩ := positions.2.2.2 own
  exact ⟨h, rfl, own, locations, fun f hf => bodies f (Or.inl hf), _, stopped,
    diagnostics _ (Or.inr stopped)⟩

end Reckoner
