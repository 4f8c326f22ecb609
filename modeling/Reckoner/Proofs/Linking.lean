import Reckoner.Proofs.Steps

/-!
# Runs and their links

Two runs are compared step by step. A `Link` says which states and which faults of the two
correspond, and which ends of the left run are lost, so that nothing is claimed about the right
one. `Link.Ends` relates the outcomes, and it is kept by sequencing, by choices that both runs
make alike, and where sessions run actions of their readers.
-/

namespace Reckoner

/-- How two runs are compared. -/
structure Link (σ : Type) where
  /-- States that correspond. -/
  states : σ → σ → Prop
  /-- Faults that correspond. -/
  faults : Fault → Fault → Prop
  /-- Ends of the left run, with a fault or without, about which nothing is claimed. -/
  lost : Option Fault → σ → Prop

namespace Link

variable {σ α β γ δ : Type} {L : Link σ}

/-- The outcome of the left run is lost. -/
def Lost (L : Link σ) : Outcome σ α → Prop
  | .ok _ t => L.lost none t
  | .error fault t => L.lost (some fault) t

/-- The runs end with results and states that satisfy `Q`, or with faults and in states that
correspond, or the left one is lost. -/
inductive Ends (L : Link σ) (Q : α → σ → β → σ → Prop) : Outcome σ α → Outcome σ β → Prop
  | ok {x : α} {y : β} {l r : σ} : Q x l y r → Ends L Q (.ok x l) (.ok y r)
  | error {f g : Fault} {l r : σ} : L.faults f g → L.states l r →
      Ends L Q (.error f l) (.error g r)
  | lost {o : Outcome σ α} {p : Outcome σ β} : L.Lost o → Ends L Q o p

/-- What is lost stays lost, whatever composition of steps comes later. -/
def Keeps (L : Link σ) (Step : (α : Type) → EStateM Fault σ α → Prop) : Prop :=
  ∀ {α : Type} {a : EStateM Fault σ α} {s : σ}, Composed Step a → L.lost none s → L.Lost (a s)

variable {Q Q' : α → σ → β → σ → Prop} {R : γ → σ → δ → σ → Prop}

theorem Ends.imp {o : Outcome σ α} {p : Outcome σ β} (h : L.Ends Q o p)
    (hQ : ∀ x l y r, o = .ok x l → p = .ok y r → Q x l y r → Q' x l y r) : L.Ends Q' o p := by
  cases h with
  | ok hq => exact .ok (hQ _ _ _ _ rfl rfl hq)
  | error hf hs => exact .error hf hs
  | lost hl => exact .lost hl

/-- The same link where other ends of the left run are lost. -/
def losing (L : Link σ) (lost : Option Fault → σ → Prop) : Link σ := { L with lost := lost }

/-- Where more ends are lost, less is claimed. -/
theorem Ends.weaken {lost : Option Fault → σ → Prop} {o : Outcome σ α} {p : Outcome σ β}
    (h : L.Ends Q o p) (more : ∀ fault s, L.lost fault s → lost fault s) :
    (L.losing lost).Ends Q o p := by
  cases h with
  | ok hq => exact .ok hq
  | error hf hs => exact .error hf hs
  | lost hl => cases o with
    | ok x t => exact .lost (more none t hl)
    | error fault t => exact .lost (more (some fault) t hl)

section Bind

variable {a : EStateM Fault σ α} {b : EStateM Fault σ β} {f : α → EStateM Fault σ γ}
  {g : β → EStateM Fault σ δ} {l r : σ}

/-- Sequencing, for any relation of outcomes that allows for faults and for lost runs. -/
theorem Ends.bind_of {T : Outcome σ γ → Outcome σ δ → Prop} (h : L.Ends Q (a l) (b r))
    (ok : ∀ x l' y r', Q x l' y r' → T (f x l') (g y r'))
    (error : ∀ fault l' fault' r', L.faults fault fault' → L.states l' r' →
      T (.error fault l') (.error fault' r'))
    (goesOn : ∀ x s p, L.lost none s → T (f x s) p)
    (fails : ∀ fault s p, L.lost (some fault) s → T (.error fault s) p) :
    T ((a >>= f) l) ((b >>= g) r) := by
  revert h
  cases left : a l with
  | ok x l' =>
    rw [bind_of_ok left]
    cases right : b r with
    | ok y r' =>
      rw [bind_of_ok right]
      rintro (hq | ⟨_, _⟩ | hl)
      · exact ok x l' y r' hq
      · exact goesOn x l' _ hl
    | error g r' =>
      rintro (_ | _ | hl)
      exact goesOn x l' _ hl
  | error f l' =>
    rw [bind_of_error left]
    cases right : b r with
    | ok y r' =>
      rintro (_ | _ | hl)
      exact fails f l' _ hl
    | error g r' =>
      rw [bind_of_error right]
      rintro (_ | ⟨hf, hs⟩ | hl)
      · exact error f l' g r' hf hs
      · exact fails f l' _ hl

/-- Sequencing. -/
theorem Ends.bind {Step : (α : Type) → EStateM Fault σ α → Prop} (h : L.Ends Q (a l) (b r))
    (keeps : L.Keeps Step) (hfg : ∀ x l' y r', Q x l' y r' → L.Ends R (f x l') (g y r'))
    [c : ∀ x, Composed Step (f x)] : L.Ends R ((a >>= f) l) ((b >>= g) r) :=
  h.bind_of hfg (fun _ _ _ _ => .error) (fun x _ _ hl => .lost (keeps (c x) hl))
    fun _ _ _ hl => .lost hl

/-- What comes after a lost part is lost. -/
theorem Lost.bind {Step : (α : Type) → EStateM Fault σ α → Prop} (h : L.Lost (a l))
    (keeps : L.Keeps Step) [c : ∀ x, Composed Step (f x)] : L.Lost ((a >>= f) l) := by
  cases left : a l with
  | ok x l' =>
    rw [left] at h
    rw [bind_of_ok left]
    exact keeps (c x) h
  | error fault l' =>
    rw [left] at h
    rw [bind_of_error left]
    exact h

end Bind

/-- One composition of steps, run from states that correspond, ends alike in both runs if each step
does. -/
theorem ends_of_composed {Step : (α : Type) → EStateM Fault σ α → Prop} (keeps : L.Keeps Step)
    (faults : ∀ fault, L.faults fault fault)
    (steps : ∀ {α : Type} {a : EStateM Fault σ α} {l r : σ}, Step α a → L.states l r →
      L.Ends (fun x l' y r' => x = y ∧ L.states l' r') (a l) (a r))
    {a : EStateM Fault σ α} (h : Composed Step a) {l r : σ} (states : L.states l r) :
    L.Ends (fun x l' y r' => x = y ∧ L.states l' r') (a l) (a r) := by
  induction h generalizing l r with
  | step h => exact steps h states
  | pure x => exact .ok ⟨rfl, states⟩
  | throw fault => exact .error (faults fault) states
  | bind ha hf iha ihf =>
    refine (iha states).bind_of (fun x l' y r' ended => ?_) (fun _ _ _ _ => .error)
      (fun x _ _ lost => .lost (keeps (hf x) lost)) fun _ _ _ lost => .lost lost
    obtain ⟨rfl, later⟩ := ended
    exact ihf x later

/-- A choice that both runs make alike. -/
theorem Ends.ite {c c' : Prop} [Decidable c] [Decidable c'] {a a' : EStateM Fault σ α}
    {b b' : EStateM Fault σ β} {l r : σ} (same : c ↔ c') (pos : c → L.Ends Q (a l) (b r))
    (neg : ¬ c → L.Ends Q (a' l) (b' r)) :
    L.Ends Q ((if c then a else a') l) ((if c' then b else b') r) := by
  by_cases h : c
  · rw [if_pos h, if_pos (same.1 h)]
    exact pos h
  · rw [if_neg h, if_neg fun h' => h (same.2 h')]
    exact neg h

/-- Actions of readers, run by sessions that correspond whenever their readers do. -/
theorem Ends.reading {L : Link Reader} {M : Link Session} {l r : Session}
    {Q : α → Reader → β → Reader → Prop} {a : Reading α} {b : Reading β}
    (h : L.Ends Q (a l.reader) (b r.reader))
    (faults : ∀ f g, L.faults f g → M.faults f g)
    (states : ∀ p q, L.states p q → M.states { l with reader := p } { r with reader := q })
    (lost : ∀ fault p, L.lost fault p → M.lost fault { l with reader := p }) :
    M.Ends
      (fun x l' y r' => ∃ p q, l' = { l with reader := p } ∧ r' = { r with reader := q } ∧ Q x p y q)
      (Evaluating.reading a l) (Evaluating.reading b r) := by
  unfold Evaluating.reading
  revert h
  cases a l.reader with
  | ok x p =>
    cases b r.reader with
    | ok y q =>
      rintro (hq | _ | hl)
      · exact .ok ⟨p, q, rfl, rfl, hq⟩
      · exact .lost (lost none p hl)
    | error g q =>
      rintro (_ | _ | hl)
      exact .lost (lost none p hl)
  | error f p =>
    cases b r.reader with
    | ok y q =>
      rintro (_ | _ | hl)
      exact .lost (lost (some f) p hl)
    | error g q =>
      rintro (_ | ⟨hf, hs⟩ | hl)
      · exact .error (faults f g hf) (states p q hs)
      · exact .lost (lost (some f) p hl)

end Link

end Reckoner
