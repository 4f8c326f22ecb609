import Reckoner.Command.Run
import Reckoner.Proofs.Lexing.Classes
import Reckoner.Proofs.Rebinding

/-!
# What options choose

A list of options is accepted just if it can be put together of flags and settings; else the first
place where neither stands is reported, whatever the source, and nothing is evaluated. Of an
accepted list only this counts for the output and the exit code: whether it asks for collecting,
whether it asks for clearing, and the last value it sets for each name.

* `Item.AllWritten`, `Misfit` — lists of items as they are written, and what is none;
* `items_eq_ok_iff`, `items_eq_error_iff` — how options are read;
* `SameChoices`, `Rearranged` — lists of items between which a command does not distinguish;
* `evaluateWith_of_options` — the command on any list of options.
-/

namespace Reckoner.Command

/-! ### Options as they are written -/

/-- How an item is written. The name of a setting goes up to its first equals sign. -/
inductive Item.Written : Item → List String → Prop
  | collect : Written .collect ["--collect"]
  | clearOnGroup : Written .clearOnGroup ["--clear-on-group"]
  | verbose : Written .verbose ["--verbose"]
  | set {name value : List Char} : name ≠ [] → '=' ∉ name →
      Written (.set (String.ofList name) (valueOfText (String.ofList value)))
        ["--set", String.ofList (name ++ '=' :: value)]

/-- How a list of items is written: one after the other. -/
inductive Item.AllWritten : List Item → List String → Prop
  | nil : AllWritten [] []
  | cons {item : Item} {its : List Item} {part rest : List String} : item.Written part →
      AllWritten its rest → AllWritten (item :: its) (part ++ rest)

/-- The options begin with no item, and this is wrong with their first. -/
inductive Misfit : List String → Misuse → Prop
  | setting {text : String} {rest : List String} :
      (∀ name value, name ≠ [] → '=' ∉ name → text ≠ String.ofList (name ++ '=' :: value)) →
      Misfit ("--set" :: text :: rest) (.notASetting text)
  | option {text : String} {rest : List String} :
      text ∉ ["--collect", "--clear-on-group", "--verbose"] → (text = "--set" → rest = []) →
      Misfit (text :: rest) (.unknownOption text)

/-- A setting is split at its first equals sign. -/
theorem setting?_of_name {name value : List Char} (some : name ≠ []) (first : '=' ∉ name) :
    setting? (String.ofList (name ++ '=' :: value)) =
      .some (String.ofList name, valueOfText (String.ofList value)) := by
  have before : ∀ c ∈ name, (c != '=') = true := fun c hc =>
    bne_iff_ne.2 fun same => first (same ▸ hc)
  have sign : ∀ c ∈ ('=' :: value).head?, (c != '=') = false := fun c hc => by cases hc; rfl
  unfold setting?
  simp only [String.toList_ofList, takeWhile_append_of_head? before sign,
    dropWhile_append_of_head? before sign, some, if_false]

/-- What is split is a name, the first equals sign and a value. -/
theorem setting?_eq_some {text name : String} {value : Value}
    (h : setting? text = some (name, value)) :
    ∃ front back, front ≠ [] ∧ '=' ∉ front ∧ text = String.ofList (front ++ '=' :: back) ∧
      name = String.ofList front ∧ value = valueOfText (String.ofList back) := by
  have split := List.takeWhile_append_dropWhile (p := (· != '=')) (l := text.toList)
  have stops := head?_dropWhile_eq_false (· != '=') text.toList
  unfold setting? at h
  dsimp only at h
  cases behind : text.toList.dropWhile (· != '=') with
  | nil =>
    rw [behind] at h
    cases h
  | cons sign back =>
    rw [behind] at h split stops
    have equals : sign = '=' := by simpa using stops sign rfl
    subst equals
    dsimp only at h
    by_cases none : text.toList.takeWhile (· != '=') = []
    · rw [if_pos none] at h
      cases h
    · rw [if_neg none] at h
      cases h
      refine ⟨_, back, none, fun within => ?_, ?_, rfl, rfl⟩
      · exact absurd (List.mem_takeWhile_imp within) (by decide)
      · rw [split, String.ofList_toList]

theorem flag?_eq_none_iff {text : String} :
    flag? text = none ↔ text ∉ ["--collect", "--clear-on-group", "--verbose"] := by
  unfold flag?
  split <;> simp_all

/-- A flag is written as it is read. -/
theorem written_of_flag? {text : String} {item : Item} (h : flag? text = some item) :
    item.Written [text] := by
  unfold flag? at h
  split at h
  · cases h
    exact .collect
  · cases h
    exact .clearOnGroup
  · cases h
    exact .verbose
  · cases h

/-! ### How options are read -/

/-- One item is read as it is written. -/
theorem items_of_written {item : Item} {part : List String} (h : item.Written part)
    (rest : List String) : items (part ++ rest) = (items rest).map (item :: ·) := by
  cases h with
  | set some first =>
    show items ("--set" :: String.ofList _ :: rest) = _
    rw [items, setting?_of_name some first]
  | _ => rfl

/-- **Items.** They are read one after the other. -/
theorem items_of_allWritten {its : List Item} {options : List String}
    (h : Item.AllWritten its options) (rest : List String) :
    items (options ++ rest) = (items rest).map (its ++ ·) := by
  induction h with
  | nil =>
    rw [List.nil_append]
    cases items rest <;> rfl
  | cons written _ ih =>
    rw [List.append_assoc, items_of_written written, ih]
    cases items rest <;> rfl

/-- What begins with no item is refused. -/
theorem items_of_misfit {options : List String} {misuse : Misuse} (h : Misfit options misuse) :
    items options = .error misuse := by
  cases h with
  | @setting text rest other =>
    have unread : setting? text = none := by
      cases read : setting? text with
      | none => rfl
      | some found =>
        obtain ⟨front, back, some, first, same, -⟩ := setting?_eq_some read
        exact absurd same (other front back some first)
    rw [items, unread]
  | @option text rest other alone =>
    have shape : ∀ (t : String) (r : List String), text = "--set" → rest = t :: r → False := by
      intro t r same behind
      rw [alone same] at behind
      cases behind
    rw [items.eq_3 _ _ shape, flag?_eq_none_iff.2 other]

/-- Every list of options consists of items, up to its end or to the first place where none is. -/
theorem exists_allWritten (options : List String) :
    ∃ its before rest, Item.AllWritten its before ∧ options = before ++ rest ∧
      (rest = [] ∨ ∃ misuse, Misfit rest misuse) := by
  induction options using items.induct with
  | case1 => exact ⟨[], [], [], .nil, rfl, Or.inl rfl⟩
  | case2 text rest unread =>
    refine ⟨[], [], _, .nil, rfl, Or.inr ⟨_, .setting fun name value some first same => ?_⟩⟩
    rw [same, setting?_of_name some first] at unread
    cases unread
  | case3 text rest name value read ih =>
    obtain ⟨its, before, behind, written, rfl, ends⟩ := ih
    obtain ⟨front, back, some, first, rfl, rfl, rfl⟩ := setting?_eq_some read
    exact ⟨_, _, behind, .cons (.set some first) written, rfl, ends⟩
  | case4 text rest shape unread =>
    refine ⟨[], [], _, .nil, rfl, Or.inr ⟨_, .option (flag?_eq_none_iff.1 unread) fun same => ?_⟩⟩
    cases rest with
    | nil => rfl
    | cons t r => exact (shape t r same rfl).elim
  | case5 text rest shape item read ih =>
    obtain ⟨its, before, behind, written, rfl, ends⟩ := ih
    exact ⟨_, _, behind, .cons (written_of_flag? read) written, rfl, ends⟩

/-- **Accepted options** are just the lists of items. -/
theorem items_eq_ok_iff {options : List String} {its : List Item} :
    items options = .ok its ↔ Item.AllWritten its options := by
  constructor
  · intro h
    obtain ⟨more, before, rest, written, rfl, rfl | ⟨misuse, misfit⟩⟩ := exists_allWritten options
    · rw [items_of_allWritten written, items] at h
      obtain rfl : more = its := (List.append_nil more).symm.trans (Except.ok.inj h)
      rw [List.append_nil]
      exact written
    · rw [items_of_allWritten written, items_of_misfit misfit] at h
      cases h
  · intro written
    have read := items_of_allWritten written []
    rw [List.append_nil, items] at read
    rw [read]
    exact congrArg Except.ok (List.append_nil its)

/-- **Refused options** have a first place where no item is, and that is what is reported. -/
theorem items_eq_error_iff {options : List String} {misuse : Misuse} :
    items options = .error misuse ↔
      ∃ its before rest, options = before ++ rest ∧ Item.AllWritten its before ∧
        Misfit rest misuse := by
  constructor
  · intro h
    obtain ⟨its, before, rest, written, rfl, rfl | ⟨other, misfit⟩⟩ := exists_allWritten options
    · rw [items_of_allWritten written, items] at h
      cases h
    · rw [items_of_allWritten written, items_of_misfit misfit] at h
      cases h
      exact ⟨its, before, rest, rfl, written, misfit⟩
  · rintro ⟨its, before, rest, rfl, written, misfit⟩
    rw [items_of_allWritten written, items_of_misfit misfit]
    rfl

/-! ### What counts -/

/-- The value that an item sets for the name. -/
def Item.value? (name : String) : Item → Option Value
  | .set other value => if other = name then some value else none
  | _ => none

/-- The values set for the name, in order. -/
def settings (name : String) (its : List Item) : List Value := its.filterMap (Item.value? name)

/-- The same flags that matter for the result, and the same last value for each name. -/
structure SameChoices (its others : List Item) : Prop where
  collect : .collect ∈ its ↔ .collect ∈ others
  clearOnGroup : .clearOnGroup ∈ its ↔ .clearOnGroup ∈ others
  last : ∀ name, (settings name its).getLast? = (settings name others).getLast?

/-- Lists of items that differ in the order of the items, save that settings of one name keep
theirs, in how often a flag is given, and in whether and where the log is asked for. -/
inductive Rearranged : List Item → List Item → Prop
  | reorder {its others : List Item} : its.Perm others →
      (∀ name, settings name its = settings name others) → Rearranged its others
  | again {flag : Item} {front back : List Item} : flag = .collect ∨ flag = .clearOnGroup →
      flag ∈ front ++ back → Rearranged (front ++ back) (front ++ flag :: back)
  | verbose {front back : List Item} : Rearranged (front ++ back) (front ++ .verbose :: back)
  | symm {its others : List Item} : Rearranged its others → Rearranged others its
  | trans {its others more : List Item} : Rearranged its others → Rearranged others more →
      Rearranged its more

/-- An item that sets nothing for a name may stand anywhere. -/
theorem settings_of_none {name : String} {item : Item} (none : item.value? name = none)
    (front back : List Item) :
    settings name (front ++ item :: back) = settings name (front ++ back) := by
  unfold settings
  rw [List.filterMap_append, List.filterMap_append, List.filterMap_cons_none none]

/-- What is rearranged chooses the same. -/
theorem Rearranged.sameChoices {its others : List Item} (h : Rearranged its others) :
    SameChoices its others := by
  induction h with
  | reorder perm same => exact ⟨perm.mem_iff, perm.mem_iff, fun name => by rw [same name]⟩
  | @again flag front back kind known =>
    have member (item : Item) : item ∈ front ++ back ↔ item ∈ front ++ flag :: back := by
      rw [List.perm_middle.mem_iff, List.mem_cons]
      refine ⟨Or.inr, fun h => h.elim (fun same => ?_) id⟩
      rw [same]
      exact known
    refine ⟨member _, member _, fun name => ?_⟩
    rw [settings_of_none (by rcases kind with rfl | rfl <;> rfl)]
  | @verbose front back =>
    have member {item : Item} (other : item ≠ .verbose) :
        item ∈ front ++ back ↔ item ∈ front ++ .verbose :: back := by
      rw [List.perm_middle.mem_iff, List.mem_cons, or_iff_right other]
    refine ⟨member (by simp), member (by simp), fun name => ?_⟩
    rw [settings_of_none rfl]
  | symm _ ih => exact ⟨ih.collect.symm, ih.clearOnGroup.symm, fun name => (ih.last name).symm⟩
  | trans _ _ ih ih' =>
    exact ⟨ih.collect.trans ih'.collect, ih.clearOnGroup.trans ih'.clearOnGroup,
      fun name => (ih.last name).trans (ih'.last name)⟩

namespace Options

/-- Only the option for collecting changes the policy. -/
theorem policy_foldl_add (its : List Item) (o : Options) :
    (its.foldl add o).policy = .collect ↔ .collect ∈ its ∨ o.policy = .collect := by
  induction its generalizing o with
  | nil => simp
  | cons item its ih =>
    rw [List.foldl_cons, ih]
    cases item <;> simp [add]

/-- Only the option for clearing asks for it. -/
theorem clearOnGroup_foldl_add (its : List Item) (o : Options) :
    (its.foldl add o).clearOnGroup = true ↔ .clearOnGroup ∈ its ∨ o.clearOnGroup = true := by
  induction its generalizing o with
  | nil => simp
  | cons item its ih =>
    rw [List.foldl_cons, ih]
    cases item <;> simp [add]

/-- The last setting of a name counts. -/
theorem get?_foldl_add (its : List Item) (o : Options) (name : String) :
    (its.foldl add o).bindings.get? name =
      (settings name its).getLast?.or (o.bindings.get? name) := by
  induction its generalizing o with
  | nil => rfl
  | cons item its ih =>
    rw [List.foldl_cons, ih]
    cases item with
    | set other value =>
      show _ = (List.getLast? (List.filterMap _ (_ :: its))).or _
      by_cases same : other = name
      · subst same
        have sets : (Item.set other value).value? other = some value := if_pos rfl
        rw [List.filterMap_cons_some sets, List.getLast?_cons, add, Table.get?_bind_self,
          Option.or_some]
        rfl
      · have none : (Item.set other value).value? name = none := if_neg same
        rw [List.filterMap_cons_none none, add, Table.get?_bind_of_ne _ _ (Ne.symm same)]
        rfl
    | _ => rfl

theorem nodup_foldl_add (its : List Item) {o : Options} (h : o.bindings.names.Nodup) :
    (its.foldl add o).bindings.names.Nodup := by
  induction its generalizing o with
  | nil => exact h
  | cons item its ih =>
    rw [List.foldl_cons]
    cases item with
    | set name value => exact ih (Table.nodup_bind h name value)
    | _ => exact ih h

/-- The choices of a list of items are what it amounts to. -/
theorem policy_ofItems_iff (its : List Item) : (ofItems its).policy = .collect ↔ .collect ∈ its :=
  (policy_foldl_add its standard).trans (or_iff_left fun raised => by cases raised)

theorem clearOnGroup_ofItems_iff (its : List Item) :
    (ofItems its).clearOnGroup = true ↔ .clearOnGroup ∈ its :=
  (clearOnGroup_foldl_add its standard).trans (or_iff_left Bool.false_ne_true)

theorem get?_ofItems (its : List Item) (name : String) :
    (ofItems its).bindings.get? name = (settings name its).getLast? :=
  (get?_foldl_add its standard name).trans Option.or_none

/-- Lists of items that choose the same amount to the same, but for the log and the order in which
names are bound. -/
theorem of_sameChoices {its others : List Item} (h : SameChoices its others) :
    (ofItems its).policy = (ofItems others).policy ∧
      (ofItems its).clearOnGroup = (ofItems others).clearOnGroup ∧
      (ofItems its).bindings.Agree (ofItems others).bindings := by
  have policies (p q : Policy) : (p = .collect ↔ q = .collect) → p = q := by
    cases p <;> cases q <;> simp
  refine ⟨policies _ _ ?_, Bool.eq_iff_iff.2 ?_, ?_⟩
  · rw [policy_ofItems_iff, policy_ofItems_iff]
    exact h.collect
  · rw [clearOnGroup_ofItems_iff, clearOnGroup_ofItems_iff]
    exact h.clearOnGroup
  · have distinct (its : List Item) : (ofItems its).bindings.names.Nodup :=
      nodup_foldl_add its .nil
    refine Table.agree_of_get? (distinct its) (distinct others) fun name => ?_
    rw [get?_ofItems, get?_ofItems]
    exact h.last name

end Options

/-! ### The command -/

/-- Neither the log nor the order in which names are bound has an effect on what is printed. -/
theorem evaluate_congr (source file : String) {o p : Options} (policy : o.policy = p.policy)
    (clearOnGroup : o.clearOnGroup = p.clearOnGroup) (bindings : o.bindings.Agree p.bindings) :
    (evaluate source file o).lines = (evaluate source file p).lines ∧
      (evaluate source file o).ending = (evaluate source file p).ending := by
  have start : (Session.ofSource source file o.policy o.clearOnGroup o.bindings).Agree
      (Session.ofSource source file p.policy p.clearOnGroup p.bindings) :=
    ⟨congrArg (Reader.ofSource source file) policy, bindings, rfl, clearOnGroup⟩
  have runs := Evaluating.ends_of_agree Evaluating.composed_evaluateAll start
  unfold evaluate
  revert runs
  generalize Evaluating.evaluateAll
    (Session.ofSource source file o.policy o.clearOnGroup o.bindings) = left
  generalize Evaluating.evaluateAll
    (Session.ofSource source file p.policy p.clearOnGroup p.bindings) = right
  intro runs
  cases runs with
  | @ok x y s t ended =>
    obtain ⟨rfl, same⟩ := ended
    have collected : s.collected = t.collected :=
      congrArg (fun r => r.journal.collected) same.reader
    dsimp only
    rw [collected]
    split <;> exact ⟨rfl, rfl⟩
  | @error fault other s t faults same =>
    obtain rfl : fault = other := faults
    cases fault <;> exact ⟨rfl, rfl⟩
  | lost lost => cases left <;> exact lost.elim

/-- **Options.** A list of them is accepted just if it consists of items, and then its items are what
is evaluated with. Otherwise its first place where no item is makes the only line of output and the
exit code one, whatever the source. Two accepted lists that choose the same, and so two that are
rearrangements of one another, give the same output and the same exit code. -/
theorem evaluateWith_of_options (options : List String) :
    (∀ its, items options = .ok its ↔ Item.AllWritten its options) ∧
    (∀ its, Item.AllWritten its options → ∀ source file,
      evaluateWith source file options = evaluate source file (.ofItems its)) ∧
    ((∀ its, ¬ Item.AllWritten its options) →
      ∃ its before rest misuse, options = before ++ rest ∧ Item.AllWritten its before ∧
        Misfit rest misuse ∧ ∀ source file,
          evaluateWith source file options = ⟨["Error: " ++ misuse.message], [], .exit 1⟩) ∧
    ∀ its others its', Item.AllWritten its options → Item.AllWritten its' others →
      SameChoices its its' ∨ Rearranged its its' → ∀ source file,
        (evaluateWith source file options).output = (evaluateWith source file others).output ∧
        (evaluateWith source file options).ending = (evaluateWith source file others).ending := by
  have accepted {options : List String} {its : List Item} (written : Item.AllWritten its options)
      (source file : String) :
      evaluateWith source file options = evaluate source file (.ofItems its) := by
    unfold evaluateWith
    rw [items_eq_ok_iff.2 written]
  refine ⟨fun its => items_eq_ok_iff, fun its => accepted, fun none => ?_, ?_⟩
  · cases read : items options with
    | ok its => exact absurd (items_eq_ok_iff.1 read) (none its)
    | error misuse =>
      obtain ⟨its, before, rest, same, written, misfit⟩ := items_eq_error_iff.1 read
      refine ⟨its, before, rest, misuse, same, written, misfit, fun source file => ?_⟩
      unfold evaluateWith
      rw [read]
      rfl
  · intro its others its' written written' alike source file
    have same : SameChoices its its' := alike.elim id Rearranged.sameChoices
    obtain ⟨policy, clearOnGroup, bindings⟩ := Options.of_sameChoices same
    obtain ⟨lines, ending⟩ := evaluate_congr source file policy clearOnGroup bindings
    rw [accepted written, accepted written']
    refine ⟨?_, ending⟩
    unfold Report.output
    rw [lines]

/-- The theorem at options in which a value looks like a flag and `x` is set twice, with a flag given
twice and the log asked for elsewhere; and at a setting without a name behind a flag. -/
theorem evaluateWith_of_options_rearranged :
    let options := ["--set", "y=--verbose=1", "--collect", "--set", "x=a", "--set", "x=b", "--collect"]
    let others := ["--set", "x=a", "--verbose", "--set", "x=b", "--collect", "--set", "y=--verbose=1"]
    (∃ its its', Item.AllWritten its options ∧ Item.AllWritten its' others ∧ Rearranged its its') ∧
    (evaluateWith "x + y; y" "in" options).output = (evaluateWith "x + y; y" "in" others).output ∧
    (evaluateWith "x + y; y" "in" options).ending = (evaluateWith "x + y; y" "in" others).ending ∧
    (∀ its, ¬ Item.AllWritten its ["--verbose", "--set", "=1"]) ∧
    ∃ its before rest misuse, ["--verbose", "--set", "=1"] = before ++ rest ∧
      Item.AllWritten its before ∧ Misfit rest misuse ∧
      evaluateWith "x" "in" ["--verbose", "--set", "=1"] =
        ⟨["Error: " ++ misuse.message], [], .exit 1⟩ := by
  intro options others
  let y : Item := .set "y" (.text "--verbose=1")
  let a : Item := .set "x" (.text "a")
  let b : Item := .set "x" (.text "b")
  have written : Item.AllWritten [y, .collect, a, b, .collect] options :=
    items_eq_ok_iff.1 (by decide +kernel)
  have written' : Item.AllWritten [a, .verbose, b, .collect, y] others :=
    items_eq_ok_iff.1 (by decide +kernel)
  have rearranged : Rearranged [y, .collect, a, b, .collect] [a, .verbose, b, .collect, y] := by
    have once : Rearranged ([y, .collect, a, b] ++ []) ([y, .collect, a, b] ++ .collect :: []) :=
      .again (Or.inl rfl) (by simp)
    have logged : Rearranged ([a] ++ [b, .collect, y]) ([a] ++ .verbose :: [b, .collect, y]) :=
      .verbose
    have moved : Rearranged [y, .collect, a, b] [a, b, .collect, y] := by
      refine .reorder (by decide +kernel) fun name => ?_
      by_cases isX : "x" = name
      · subst isX
        rfl
      · simp [settings, List.filterMap_cons, Item.value?, y, a, b, isX]
    exact once.symm.trans (moved.trans logged)
  obtain ⟨output, ending⟩ := (evaluateWith_of_options options).2.2.2 _ others _ written written'
    (Or.inr rearranged) "x + y; y" "in"
  have refused : ∀ its, ¬ Item.AllWritten its ["--verbose", "--set", "=1"] := by
    intro its other
    have read := items_eq_ok_iff.2 other
    cases read
  obtain ⟨its, before, rest, misuse, same, first, misfit, report⟩ :=
    (evaluateWith_of_options ["--verbose", "--set", "=1"]).2.2.1 refused
  exact ⟨⟨_, _, written, written', rearranged⟩, output, ending, refused, its, before, rest, misuse,
    same, first, misfit, report "x" "in"⟩

end Reckoner.Command
