import Mathlib.Data.List.Induction
import Reckoner.Proofs.Lexing.Tape

/-!
# A stack on top of a tape

Seen from outside, a reader is a stack of tokens on top of the tape of its source. A token that is
pushed back goes on the stack; a pull takes what is on top, or the next element of the tape if there
is nothing. So whatever is pushed in between, the elements of the tape come one after the other, and
what is pushed comes once and the latest of it first.

* `Machine`, `Machine.waiting_run` — the machine, and in which order it delivers;
* `plays_script` — a reader answers as the machine does;
* `transcript_of_script` — the statement for whole sources and all scripts.
-/

namespace Reckoner

/-- What a script asks of a reader. -/
inductive Ask where
  | pull
  | push (t : Token)

namespace Ask

def isPull : Ask → Bool
  | pull => true
  | push _ => false

/-- Serves what is asked. Only a pull delivers something. -/
def serve : Ask → Reading (Option Token)
  | pull => do return some (← Reading.next)
  | push t => do
    Reading.pushBack t
    return none

end Ask

namespace Pushback

/-! ### The machine -/

/-- Where a pull finds what it delivers. -/
inductive Supply where
  /-- In the push at that position of the script. -/
  | pushed (i : Nat) (t : Token)
  /-- In that element of the tape. -/
  | scanned (n : Nat)

/-- The element of the tape, if it is one. -/
def Supply.scanned? : Supply → Option Nat
  | scanned n => some n
  | pushed _ _ => none

/-- The pushes that wait, each with its position in the script, how many elements of the tape have
been taken, and a log of what has been asked: where a pull has found something, and nothing for a
push. -/
structure Machine where
  stack : List (Nat × Token)
  taken : Nat
  log : List (Option Supply)

namespace Machine

/-- Before anything has been asked. -/
def start : Machine := ⟨[], 0, []⟩

/-- A push goes on the stack; a pull takes from it or, if it is empty, from the tape. -/
def serve (m : Machine) : Ask → Machine
  | .push t => ⟨(m.log.length, t) :: m.stack, m.taken, m.log ++ [none]⟩
  | .pull =>
    match m.stack with
    | (i, t) :: below => ⟨below, m.taken, m.log ++ [some (.pushed i t)]⟩
    | [] => ⟨[], m.taken + 1, m.log ++ [some (.scanned m.taken)]⟩

/-- The machine at the end of a script. -/
def run (script : List Ask) : Machine := script.foldl serve start

theorem run_concat (script : List Ask) (ask : Ask) :
    run (script ++ [ask]) = (run script).serve ask := by
  unfold run
  rw [List.foldl_append]
  rfl

/-- The pull at position `j` has delivered the push at position `i`. -/
def Delivers (m : Machine) (j i : Nat) (t : Token) : Prop :=
  m.log[j]? = some (some (.pushed i t))

/-- In which order everything has been delivered: the elements of the tape one after the other, and
every push at most once, when all that have been made since are gone. -/
structure Orderly (script : List Ask) (m : Machine) : Prop where
  asked : m.log.map Option.isSome = script.map Ask.isPull
  tape : m.log.filterMap (·.bind Supply.scanned?) = List.range m.taken
  pushed {j i : Nat} {t : Token} : m.Delivers j i t → i < j ∧ script[i]? = some (.push t)
  once {j l i : Nat} {t u : Token} : m.Delivers j i t → m.Delivers l i u → l = j
  latest {j i k : Nat} {t u : Token} : m.Delivers j i t → i < k → k < j →
    script[k]? = some (.push u) → ∃ l, k < l ∧ l < j ∧ m.Delivers l k u

/-- What holds of the stack on the way: the latest push is on top, and exactly those wait that have
not been delivered. -/
structure Waiting (script : List Ask) (m : Machine) : Prop extends Orderly script m where
  sorted : m.stack.Pairwise fun p q => q.1 < p.1
  waits {i : Nat} {t : Token} : (i, t) ∈ m.stack → script[i]? = some (.push t)
  undelivered {i j : Nat} {t u : Token} : (i, t) ∈ m.stack → ¬ m.Delivers j i u
  gone {k : Nat} {t : Token} : script[k]? = some (.push t) →
    (k, t) ∈ m.stack ∨ ∃ l, k < l ∧ m.Delivers l k t

section Concat

variable {α : Type} {l : List α} {x y : α} {i : Nat}

theorem getElem?_concat_iff :
    (l ++ [x])[i]? = some y ↔ l[i]? = some y ∨ i = l.length ∧ x = y := by
  rcases Nat.lt_trichotomy i l.length with inside | rfl | past
  · rw [List.getElem?_append_left inside]
    exact ⟨Or.inl, fun h => h.resolve_right fun h => by omega⟩
  · rw [List.getElem?_concat_length, List.getElem?_eq_none (Nat.le_refl _)]
    simp
  · rw [List.getElem?_append_right (by omega), List.getElem?_eq_none (by simp; omega),
      List.getElem?_eq_none (by omega)]
    simp
    omega

end Concat

variable {script : List Ask} {m : Machine} {i j : Nat} {t : Token}

theorem Delivers.lt_length (h : m.Delivers j i t) : j < m.log.length := by
  obtain ⟨inside, -⟩ := List.getElem?_eq_some_iff.1 h
  exact inside

theorem Orderly.length_log (h : Orderly script m) : m.log.length = script.length := by
  have lengths := congrArg List.length h.asked
  rw [List.length_map, List.length_map] at lengths
  exact lengths

/-- One more entry of the log. If it delivers a push, that has not been delivered before, and all
that have been made since are gone. -/
theorem Orderly.concat {m' : Machine} {ask : Ask} {entry : Option Supply} (h : Orderly script m)
    (log : m'.log = m.log ++ [entry]) (asked : entry.isSome = ask.isPull)
    (taken : List.range m'.taken = List.range m.taken ++ (entry.bind Supply.scanned?).toList)
    (fresh : ∀ {i : Nat} {t : Token}, entry = some (.pushed i t) → script[i]? = some (.push t) ∧
      (∀ j u, ¬ m.Delivers j i u) ∧ ∀ k u, i < k → script[k]? = some (.push u) →
        ∃ l, k < l ∧ m.Delivers l k u) :
    Orderly (script ++ [ask]) m' := by
  have length := h.length_log
  have delivers {j i : Nat} {t : Token} : m'.Delivers j i t ↔
      m.Delivers j i t ∨ j = m.log.length ∧ entry = some (.pushed i t) := by
    unfold Delivers
    rw [log]
    exact getElem?_concat_iff
  refine ⟨?_, ?_, ?_, ?_, ?_⟩
  · rw [log, List.map_append, List.map_append, h.asked, List.map_singleton, List.map_singleton,
      asked]
  · rw [log, List.filterMap_append, h.tape, taken, List.filterMap_cons]
    cases entry.bind Supply.scanned? <;> rfl
  · intro j i t delivered
    rcases delivers.1 delivered with before | ⟨rfl, last⟩
    · obtain ⟨earlier, pushed⟩ := h.pushed before
      exact ⟨earlier, getElem?_concat_iff.2 (Or.inl pushed)⟩
    · have pushed := (fresh last).1
      obtain ⟨inside, -⟩ := List.getElem?_eq_some_iff.1 pushed
      exact ⟨length ▸ inside, getElem?_concat_iff.2 (Or.inl pushed)⟩
  · intro j l i t u first second
    rcases delivers.1 first with before | ⟨rfl, last⟩
    · rcases delivers.1 second with before' | ⟨rfl, last⟩
      · exact h.once before before'
      · exact absurd before ((fresh last).2.1 _ _)
    · rcases delivers.1 second with before' | ⟨rfl, -⟩
      · exact absurd before' ((fresh last).2.1 _ _)
      · rfl
  · intro j i k t u delivered above earlier pushed
    have bound : j ≤ m.log.length := by
      rcases delivers.1 delivered with before | ⟨rfl, -⟩
      · exact Nat.le_of_lt before.lt_length
      · exact Nat.le_refl _
    replace pushed := (getElem?_concat_iff.1 pushed).resolve_right fun last => by omega
    rcases delivers.1 delivered with before | ⟨rfl, last⟩
    · obtain ⟨l, later, inside, gone⟩ := h.latest before above earlier pushed
      exact ⟨l, later, inside, delivers.2 (Or.inl gone)⟩
    · obtain ⟨l, later, gone⟩ := (fresh last).2.2 k u above pushed
      exact ⟨l, later, gone.lt_length, delivers.2 (Or.inl gone)⟩

namespace Waiting

theorem lt_length (h : Waiting script m) (waits : (i, t) ∈ m.stack) : i < m.log.length := by
  obtain ⟨inside, -⟩ := List.getElem?_eq_some_iff.1 (h.waits waits)
  rw [h.length_log]
  exact inside

theorem start : Waiting [] start where
  asked := rfl
  tape := rfl
  pushed h := by cases h
  once h := by cases h
  latest h := by cases h
  sorted := .nil
  waits h := by cases h
  undelivered h := by cases h
  gone h := by cases h

/-- A push waits on top of all others. -/
theorem push (h : Waiting script m) (t : Token) :
    Waiting (script ++ [.push t]) (m.serve (.push t)) := by
  have old {j i : Nat} {u : Token} (delivered : (m.serve (.push t)).Delivers j i u) :
      m.Delivers j i u := by
    rcases getElem?_concat_iff.1 delivered with before | ⟨-, none⟩
    · exact before
    · cases none
  refine ⟨h.concat rfl rfl (List.append_nil _).symm (fun none => by cases none), ?_, ?_, ?_, ?_⟩
  · exact List.pairwise_cons.2 ⟨fun p hp => h.lt_length hp, h.sorted⟩
  · intro i u waits
    rcases List.mem_cons.1 waits with top | below
    · cases top
      rw [h.length_log]
      exact List.getElem?_concat_length
    · exact getElem?_concat_iff.2 (Or.inl (h.waits below))
  · intro i j u w waits delivered
    rcases List.mem_cons.1 waits with top | below
    · cases top
      have earlier := (h.pushed (old delivered)).1
      have bound := (old delivered).lt_length
      omega
    · exact h.undelivered below (old delivered)
  · intro k u pushed
    rcases getElem?_concat_iff.1 pushed with before | ⟨last, same⟩
    · rcases h.gone before with waits | ⟨l, later, delivered⟩
      · exact Or.inl (List.mem_cons_of_mem _ waits)
      · exact Or.inr ⟨l, later, getElem?_concat_iff.2 (Or.inl delivered)⟩
    · cases same
      rw [last, ← h.length_log]
      exact Or.inl List.mem_cons_self

/-- Where a push is asked for, that is still so after a pull. -/
theorem push_of_concat {k : Nat} {u : Token} :
    (script ++ [Ask.pull])[k]? = some (.push u) ↔ script[k]? = some (.push u) := by
  refine getElem?_concat_iff.trans ⟨fun h => h.resolve_right ?_, Or.inl⟩
  rintro ⟨-, same⟩
  cases same

/-- The push on top is delivered; all that have been made since are gone. -/
theorem pop (h : Waiting script m) {below : List (Nat × Token)} (top : m.stack = (i, t) :: below) :
    Waiting (script ++ [.pull]) ⟨below, m.taken, m.log ++ [some (.pushed i t)]⟩ := by
  have waits : (i, t) ∈ m.stack := by rw [top]; exact List.mem_cons_self
  have deeper {p : Nat × Token} (hp : p ∈ below) : p ∈ m.stack := by
    rw [top]
    exact List.mem_cons_of_mem _ hp
  have sorted := h.sorted
  rw [top] at sorted
  obtain ⟨lower, rest⟩ := List.pairwise_cons.1 sorted
  refine ⟨h.concat rfl rfl (List.append_nil _).symm ?_, rest, ?_, ?_, ?_⟩
  · intro k u same
    cases same
    refine ⟨h.waits waits, fun j w => h.undelivered waits, fun k w above pushed => ?_⟩
    refine (h.gone pushed).resolve_left fun waits' => ?_
    rw [top] at waits'
    rcases List.mem_cons.1 waits' with equal | hidden
    · cases equal
      omega
    · have under : k < i := lower _ hidden
      omega
  · exact fun hidden => push_of_concat.2 (h.waits (deeper hidden))
  · intro k j u w hidden delivered
    rcases getElem?_concat_iff.1 delivered with before | ⟨-, same⟩
    · exact h.undelivered (deeper hidden) before
    · cases same
      exact absurd (lower _ hidden) (Nat.lt_irrefl _)
  · intro k u pushed
    rcases h.gone (push_of_concat.1 pushed) with waits' | ⟨l, later, gone⟩
    · have inside := h.lt_length waits'
      rw [top] at waits'
      rcases List.mem_cons.1 waits' with equal | hidden
      · cases equal
        exact Or.inr ⟨_, inside, getElem?_concat_iff.2 (Or.inr ⟨rfl, rfl⟩)⟩
      · exact Or.inl hidden
    · exact Or.inr ⟨l, later, getElem?_concat_iff.2 (Or.inl gone)⟩

/-- Where nothing waits, the next element of the tape is delivered. -/
theorem scan (h : Waiting script m) (none : m.stack = []) :
    Waiting (script ++ [.pull]) ⟨[], m.taken + 1, m.log ++ [some (.scanned m.taken)]⟩ := by
  refine ⟨h.concat rfl rfl List.range_succ (fun same => by cases same), .nil, ?_, ?_, ?_⟩
  · exact fun waits => absurd waits List.not_mem_nil
  · exact fun waits => absurd waits List.not_mem_nil
  · intro k u pushed
    rcases h.gone (push_of_concat.1 pushed) with waits | ⟨l, later, gone⟩
    · rw [none] at waits
      exact absurd waits List.not_mem_nil
    · exact Or.inr ⟨l, later, getElem?_concat_iff.2 (Or.inl gone)⟩

/-- **One ask.** -/
theorem serve (h : Waiting script m) (ask : Ask) : Waiting (script ++ [ask]) (m.serve ask) := by
  cases ask with
  | push t => exact h.push t
  | pull =>
    unfold Machine.serve
    cases top : m.stack with
    | nil => exact h.scan top
    | cons p below => exact h.pop top

end Waiting

/-- **What a machine delivers.** -/
theorem waiting_run (script : List Ask) : Waiting script (run script) := by
  induction script using List.reverseRecOn with
  | nil => exact Waiting.start
  | append_singleton script ask ih =>
    rw [run_concat]
    exact ih.serve ask

example (t u : Token) : (run [.push t, .pull, .push t, .push u, .pull, .pull, .pull]).log =
    [none, some (.pushed 0 t), none, none, some (.pushed 3 u), some (.pushed 2 t),
      some (.scanned 0)] := rfl

end Machine

/-! ### Readers as machines -/

/-- A reader and what it has answered: to each pull a token or a fault, to each push nothing. -/
structure Transcript where
  reader : Reader
  answers : List (Except Fault (Option Token))

namespace Transcript

/-- One more ask. After a fault the reader goes on from where that has left it. -/
def serve (s : Transcript) (ask : Ask) : Transcript :=
  ⟨after ask.serve s.reader, s.answers ++ [Outcome.result (ask.serve s.reader)]⟩

/-- The answers to a script. -/
def of (r : Reader) (script : List Ask) : Transcript := script.foldl serve ⟨r, []⟩

theorem of_concat (r : Reader) (script : List Ask) (ask : Ask) :
    of r (script ++ [ask]) = (of r script).serve ask := by
  unfold of
  rw [List.foldl_append]
  rfl

end Transcript

/-- What is answered with such a supply. -/
def Supply.answer (elements : Nat → Element) : Supply → Except Fault (Option Token)
  | pushed _ t => .ok (some t)
  | scanned n => (elements n).result.map some

/-- What is answered to an ask: nothing to a push. -/
def answer (elements : Nat → Element) : Option Supply → Except Fault (Option Token)
  | none => .ok none
  | some supply => supply.answer elements

/-- The reader stands where the machine does and has given the same answers. -/
structure Plays (start : Reader) (elements : Nat → Element) (m : Machine) (s : Transcript) :
    Prop where
  reader : s.reader = { start.scans m.taken with pending := m.stack.map (·.2) }
  answers : s.answers = m.log.map (answer elements)

section Plays

variable {start : Reader} {elements : Nat → Element} {m : Machine} {s : Transcript}

theorem result_pull (r : Reader) :
    Outcome.result (Ask.pull.serve r) = (Outcome.result (Reading.next r)).map some ∧
      after Ask.pull.serve r = after Reading.next r := by
  refine ⟨?_, after_bind_pure _ _ _⟩
  show Outcome.result ((Reading.next >>= fun t => pure (some t)) r) = _
  cases run : Reading.next r with
  | ok t q => rw [bind_of_ok run]; rfl
  | error fault q => rw [bind_of_error run]; rfl

/-- **One ask.** The reader answers as the machine does. -/
theorem Plays.serve (h : Plays start elements m s) (empty : start.pending = [])
    (yields : ∀ n, (start.scans n).Yields (elements n)) (ask : Ask) :
    Plays start elements (m.serve ask) (s.serve ask) := by
  cases ask with
  | push t =>
    refine ⟨?_, ?_⟩
    · show after (Ask.push t).serve s.reader = _
      rw [h.reader]
      rfl
    · show s.answers ++ [_] = (m.log ++ [none]).map _
      rw [List.map_append, h.answers]
      rfl
  | pull =>
    obtain ⟨result, state⟩ := result_pull s.reader
    show Plays start elements (m.serve .pull) ⟨after Ask.pull.serve s.reader, s.answers ++ [_]⟩
    rw [result, state]
    unfold Machine.serve
    cases top : m.stack with
    | cons p below =>
      have waiting : s.reader.pending = p.2 :: below.map (·.2) := by rw [h.reader, top]; rfl
      have taken := Reading.next_of_pending waiting
      rw [taken, after_of_ok taken]
      refine ⟨by rw [h.reader], ?_⟩
      rw [List.map_append, h.answers]
      rfl
    | nil =>
      have bare (n : Nat) : ({ start.scans n with pending := [] } : Reader) = start.scans n := by
        rw [← Reader.pending_scans empty n]
      have here : s.reader = start.scans m.taken := by
        rw [h.reader, top]
        exact bare m.taken
      have scanned : Reading.next s.reader = Reading.scan s.reader :=
        Reading.next_of_pending_nil (by rw [here]; exact Reader.pending_scans empty _)
      have moved : after Reading.next s.reader = start.scans (m.taken + 1) := by
        rw [← Reader.after_scan_scans, ← here]
        unfold after
        rw [scanned]
      refine ⟨moved.trans (bare _).symm, ?_⟩
      rw [scanned, here, (yields m.taken).result, List.map_append, h.answers]
      rfl

theorem plays_script (empty : start.pending = [])
    (yields : ∀ n, (start.scans n).Yields (elements n)) (script : List Ask) :
    Plays start elements (Machine.run script) (Transcript.of start script) := by
  induction script using List.reverseRecOn with
  | nil =>
    refine ⟨?_, rfl⟩
    show start = { start with pending := [] }
    rw [← empty]
  | append_singleton script ask ih =>
    rw [Machine.run_concat, Transcript.of_concat]
    exact ih.serve empty yields ask

end Plays

/-! ### Strings without their ends -/

/-- The answer says that a string does not end. -/
def isOpenString : Except Fault (Option Token) → Bool
  | .error (.diagnostic d) => d.cause == .unterminatedString
  | _ => false

/-- How often something has been said about a string without its end, as an answer or in the
journal. -/
def openStrings (s : Transcript) : Nat :=
  s.answers.countP isOpenString + s.reader.journal.collected.length

/-- How often it is said by an element. -/
def openness (e : Element) : Nat :=
  (if isOpenString (e.result.map some) then 1 else 0) + e.reported.length

/-- If one element of the tape says it, and only once, then the machine has said it once when it is
past that element, and before that not at all. -/
theorem openStrings_run_le {elements : Nat → Element} {first : Nat}
    (once : ∀ n, openness (elements n) ≤ if n = first then 1 else 0) (script : List Ask) :
    ((Machine.run script).log.map (answer elements)).countP isOpenString +
        ((List.range (Machine.run script).taken).flatMap fun n => (elements n).reported).length ≤
      if first < (Machine.run script).taken then 1 else 0 := by
  induction script using List.reverseRecOn with
  | nil => exact Nat.zero_le _
  | append_singleton script ask ih =>
    rw [Machine.run_concat]
    revert ih
    generalize Machine.run script = m
    obtain ⟨stack, taken, log⟩ := m
    intro ih
    cases ask with
    | push t =>
      show ((log ++ [none]).map _).countP _ + _ ≤ _
      rw [List.map_append, List.countP_append]
      exact ih
    | pull =>
      cases stack with
      | cons p below =>
        show ((log ++ [some (Supply.pushed p.1 p.2)]).map _).countP _ + _ ≤ _
        rw [List.map_append, List.countP_append]
        exact ih
      | nil =>
        replace ih : (log.map (answer elements)).countP isOpenString +
            ((List.range taken).flatMap fun n => (elements n).reported).length ≤
          if first < taken then 1 else 0 := ih
        have last : (if isOpenString (answer elements (some (Supply.scanned taken))) then 1 else 0) +
            (elements taken).reported.length ≤ if taken = first then 1 else 0 := once taken
        have bound : (if first < taken then 1 else 0) + (if taken = first then 1 else 0) ≤
            if first < taken + 1 then 1 else 0 := by
          split <;> split <;> split <;> omega
        show ((log ++ [some (Supply.scanned taken)]).map _).countP _ +
          ((List.range (taken + 1)).flatMap _).length ≤ if first < taken + 1 then 1 else 0
        rw [List.map_append, List.countP_append, List.range_succ, List.flatMap_append,
          List.length_append, List.flatMap_singleton, List.map_singleton, List.countP_singleton]
        omega

/-- The tape has one string without its end at most, where the halt begins. -/
theorem openness_tape (file : String) (policy : Policy) (pieces : List Piece)
    (passed : List Char) (halt : Halt) (n : Nat) :
    openness (tape file policy pieces passed halt n) ≤ if n = pieces.length then 1 else 0 := by
  unfold tape
  cases found : (tokensFrom file .start pieces)[n]? with
  | some t => exact Nat.zero_le _
  | none =>
    have past := List.getElem?_eq_none_iff.1 found
    rw [length_tokensFrom] at past
    cases halt with
    | ended => exact Nat.zero_le _
    | stray c => exact Nat.zero_le _
    | openString =>
      by_cases first : n = pieces.length
      · subst first
        rw [if_pos rfl, Nat.sub_self]
        cases policy <;> exact Nat.le_refl 1
      · obtain ⟨k, later⟩ : ∃ k, n - pieces.length = k + 1 := ⟨n - pieces.length - 1, by omega⟩
        rw [later]
        exact Nat.zero_le _

/-- **Pushing back.** A source is taken apart into pieces up to a halt, and this makes its tape.
Whatever is pulled and pushed back, in whatever order and with whatever success, a reader answers
as a stack on top of this tape: each push comes at most once, and when it does all that have been
made since are gone; the elements of the tape come one after the other, and what has been collected
is what has been reported along with those that have come. A string without its end is mentioned
once at most. -/
theorem transcript_of_script (source file : String) (policy : Policy) :
    ∃ pieces rest passed halt, Splits source.toList pieces rest ∧ Halts rest passed halt ∧
      ∀ script : List Ask,
        let elements := tape file policy pieces passed halt
        let m := Machine.run script
        let s := Transcript.of (Reader.ofSource source file policy) script
        s.answers = m.log.map (answer elements) ∧
        s.reader.pending = m.stack.map (·.2) ∧
        s.reader.journal.collected =
          (List.range m.taken).flatMap (fun n => (elements n).reported) ∧
        m.Orderly script ∧ openStrings s ≤ 1 := by
  obtain ⟨pieces, rest, passed, halt, splits, halts⟩ := exists_splits source.toList
  refine ⟨pieces, rest, passed, halt, splits, halts, fun script => ?_⟩
  intro elements m s
  have yields := Reader.yields_tape splits halts file policy
  have plays : Plays (Reader.ofSource source file policy) elements m s :=
    plays_script rfl yields script
  have ordered := (Machine.waiting_run script).toOrderly
  have collected : s.reader.journal.collected =
      (List.range m.taken).flatMap fun n => (elements n).reported := by
    rw [plays.reader]
    exact Reader.collected_scans yields rfl m.taken
  refine ⟨plays.answers, by rw [plays.reader], collected, ordered, ?_⟩
  unfold openStrings
  rw [plays.answers, collected]
  refine Nat.le_trans (openStrings_run_le (openness_tape file policy pieces passed halt) script) ?_
  split <;> omega

end Pushback

end Reckoner
