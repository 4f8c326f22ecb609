import Reckoner.Proofs.Linking

/-!
# Tables that say the same

A run looks names up in its table of variables and at most empties it; it never sees in which order
the names were bound. So two sessions whose tables agree on every name run alike, step by step.

* `Table.Agree` — the same names with the same values, in any order;
* `Table.agree_of_get?` — for tables without a repeated name it is enough to look names up;
* `Session.Agree`, `Evaluating.ends_of_agree` — runs of sessions with such tables.
-/

namespace Reckoner

namespace Table

variable {α : Type}

/-- The tables are of the same size, and every name is bound to the same in both. -/
structure Agree (t u : Table α) : Prop where
  length : t.length = u.length
  get? : ∀ name, t.get? name = u.get? name

theorem Agree.refl (t : Table α) : t.Agree t := ⟨rfl, fun _ => rfl⟩

/-- Binding never repeats a name. -/
theorem nodup_bind {t : Table α} (h : t.names.Nodup) (name : String) (value : α) :
    (t.bind name value).names.Nodup := by
  rw [names_bind]
  split
  · exact h
  · rename_i new
    refine List.nodup_append.2
      ⟨h, List.pairwise_singleton _ name, fun other old _ last same => new ?_⟩
    rw [← List.mem_singleton.1 last, ← same]
    exact old

/-- Where no name is repeated, tables in which the same is found are of the same size. -/
theorem agree_of_get? {t u : Table α} (ht : t.names.Nodup) (hu : u.names.Nodup)
    (same : ∀ name, t.get? name = u.get? name) : t.Agree u := by
  have names : t.names.Perm u.names := by
    refine (List.perm_ext_iff_of_nodup ht hu).2 fun name => ?_
    rw [← isSome_get?_iff, ← isSome_get?_iff, same]
  have sizes := names.length_eq
  unfold Table.names at sizes
  rw [List.length_map, List.length_map] at sizes
  exact ⟨sizes, same⟩

end Table

/-- Sessions with the same reader and the same functions, whose tables of variables agree. -/
structure Session.Agree (s t : Session) : Prop where
  reader : s.reader = t.reader
  bindings : s.bindings.Agree t.bindings
  functions : s.functions = t.functions
  clearOnGroup : s.clearOnGroup = t.clearOnGroup

namespace Evaluating

/-- The link of sessions that agree. Their runs end with the same faults, and none is lost. -/
def agreeing : Link Session where
  states := Session.Agree
  faults := Eq
  lost _ _ := False

theorem keeps_agreeing : agreeing.Keeps Step := fun _ lost => lost.elim

variable {l r : Session} {α : Type}

/-- What the reader does is the same in both. -/
theorem ends_reading_of_agree (action : Reading α) (h : l.Agree r) :
    agreeing.Ends (fun x l' y r' => x = y ∧ l'.Agree r') (reading action l) (reading action r) := by
  have kept (q : Reader) : Session.Agree { l with reader := q } { r with reader := q } :=
    ⟨rfl, h.bindings, h.functions, h.clearOnGroup⟩
  unfold reading
  rw [h.reader]
  cases action r.reader with
  | ok x q => exact .ok ⟨rfl, kept q⟩
  | error fault q => exact .error rfl (kept q)

/-- **Steps.** Only two of them use the table: one looks a name up, the other empties the table and
notes its size. -/
theorem Step.ends_of_agree {a : Evaluating α} (h : Step α a) (same : l.Agree r) :
    agreeing.Ends (fun x l' y r' => x = y ∧ l'.Agree r') (a l) (a r) := by
  cases h with
  | reading _ => exact ends_reading_of_agree _ same
  | valueOf t =>
    have found : l.lookup t.text = r.lookup t.text := same.bindings.get? t.text
    unfold Evaluating.valueOf
    rw [found]
    cases r.lookup t.text with
    | some v => exact .ok ⟨rfl, same⟩
    | none => exact .error rfl same
  | endGroup =>
    unfold Evaluating.endGroup
    rw [same.clearOnGroup]
    cases r.clearOnGroup with
    | false => exact .ok ⟨rfl, same⟩
    | true =>
      refine .ok ⟨rfl, ?_, .refl [], same.functions, rfl⟩
      show l.reader.note _ = r.reader.note _
      rw [same.reader, same.bindings.length]
  | define f =>
    refine .ok ⟨rfl, same.reader, same.bindings, ?_, same.clearOnGroup⟩
    show l.functions.bind f.name f = r.functions.bind f.name f
    rw [same.functions]

/-- **Runs.** Sessions that agree run alike and agree afterwards. -/
theorem ends_of_agree {a : Evaluating α} (h : Composed Step a) (same : l.Agree r) :
    agreeing.Ends (fun x l' y r' => x = y ∧ l'.Agree r') (a l) (a r) :=
  Link.ends_of_composed keeps_agreeing (fun _ => rfl) Step.ends_of_agree h same

end Evaluating

end Reckoner
