import Mathlib.Data.List.TakeWhile
import Reckoner.Lexeme

/-!
# The classes of lexemes

What a lexeme may be, said without the scanner: a number, a word, a string, a comparison or a
single sign. `Lexeme.WellFormed` lists the classes, and `Lexeme.LongestAt` says that a lexeme is
the longest piece of any class at the head of a text.

* `Scan.of_eq_lexeme_iff` — the scanner finds exactly the longest piece;
* `Scan.of_eq_stray_iff` — it stops at exactly the characters that begin no class;
* `Scan.of_eq_unterminated_iff` — and at a quote without a later one;
* `Scan.of_spelling_append` — a lexeme in front of a boundary is found again.
-/

namespace Reckoner

open Reckoner.Text

/-! ### Classes of characters that have nothing in common -/

namespace Text

/-- The characters of a closed list are checked one by one. A plain decision of the right side may
run through all characters that there are. -/
theorem forall_mem_of_all {cs : List Char} {p : Char → Prop} [DecidablePred p]
    (h : cs.all (fun c => decide (p c)) = true) : ∀ c ∈ cs, p c := by
  simpa only [List.all_eq_true, decide_eq_true_eq] using h

/-- The ASCII letters by their code points. -/
theorem isAlpha_iff {c : Char} : c.isAlpha = true ↔
    65 ≤ c.toNat ∧ c.toNat ≤ 90 ∨ 97 ≤ c.toNat ∧ c.toNat ≤ 122 := by
  show (decide (c.val ≥ 'A'.val ∧ c.val ≤ 'Z'.val) ||
    (decide (c.val ≥ 'a'.val) && decide (c.val ≤ 'z'.val))) = true ↔ _
  simp only [Bool.or_eq_true, Bool.and_eq_true, decide_eq_true_eq, ge_iff_le,
    UInt32.le_iff_toNat_le]
  exact Iff.rfl

theorem toNat_of_isDigit {c : Char} (h : c.isDigit = true) : 48 ≤ c.toNat ∧ c.toNat ≤ 57 := by
  simp only [Char.isDigit, Bool.and_eq_true, decide_eq_true_eq, ge_iff_le,
    UInt32.le_iff_toNat_le] at h
  exact h

/-- A digit begins no word. -/
theorem isLetter_of_isDigit {c : Char} (h : c.isDigit = true) : isLetter c = false := by
  obtain ⟨low, high⟩ := toNat_of_isDigit h
  have ascii : c.toNat < 128 := by omega
  simp only [isLetter, ascii, if_true]
  refine Bool.eq_false_iff.2 fun letter => ?_
  have range := isAlpha_iff.1 letter
  omega

/-- A digit may continue a word. -/
theorem isWordChar_of_isDigit {c : Char} (h : c.isDigit = true) : isWordChar c = true := by
  obtain ⟨low, high⟩ := toNat_of_isDigit h
  have ascii : c.toNat < 128 := by omega
  simp [isWordChar, isNumeral, ascii, h]

/-- All letters as ranges, the ASCII ones included. -/
theorem covers_of_isLetter {c : Char} (h : isLetter c = true) :
    covers ([(65, 90), (97, 122)] ++ letterRanges) c = true := by
  by_cases ascii : c.toNat < 128
  · simp only [isLetter, ascii, if_true] at h
    have range := isAlpha_iff.1 h
    simp [covers]
    omega
  · simp only [isLetter, ascii, if_false] at h
    simp only [covers, List.any_append, Bool.or_eq_true]
    exact Or.inr h

/-- A letter is no blank. -/
theorem isBlank_of_isLetter {c : Char} (h : isLetter c = true) : isBlank c = false :=
  covers_eq_false_of_apart (by decide +kernel) (covers_of_isLetter h)

theorem isBlank_of_isDigit {c : Char} (h : c.isDigit = true) : isBlank c = false := by
  have within : covers [(48, 57)] c = true := by
    obtain ⟨low, high⟩ := toNat_of_isDigit h
    simp [covers, low, high]
  exact covers_eq_false_of_apart (by decide) within

/-- A blank is no part of a word. -/
theorem isWordChar_of_isBlank {c : Char} (h : isBlank c = true) : isWordChar c = false := by
  have noLetter : isLetter c = false := by
    refine Bool.eq_false_iff.2 fun letter => ?_
    rw [isBlank_of_isLetter letter] at h
    cases h
  have noNumeral : isNumeral c = false := by
    refine Bool.eq_false_iff.2 fun numeral => ?_
    by_cases ascii : c.toNat < 128
    · simp only [isNumeral, ascii, if_true] at numeral
      rw [isBlank_of_isDigit numeral] at h
      cases h
    · simp only [isNumeral, ascii, if_false] at numeral
      have apart : covers numeralRanges c = false :=
        covers_eq_false_of_apart (by decide +kernel) h
      rw [numeral] at apart
      cases apart
  simp only [isWordChar, noLetter, noNumeral, Bool.or_false]

end Text

/-! ### The classes -/

namespace Lexeme

/-- The kind of a word: reserved words have their own, and `function` announces a literal. -/
def wordKind (word : List Char) : TokenKind :=
  if String.ofList word = "function" then .functionDeclaration
  else (keywords.lookup (String.ofList word)).getD .identifier

/-- The lexeme belongs to one of the classes. -/
inductive WellFormed : Lexeme → Prop
  | number {digits : List Char} : digits ≠ [] → (∀ c ∈ digits, c.isDigit = true) →
      WellFormed ⟨.number, digits⟩
  /-- A number with a point, behind which there need not be a digit. -/
  | decimal {digits fraction : List Char} : digits ≠ [] → (∀ c ∈ digits, c.isDigit = true) →
      (∀ c ∈ fraction, c.isDigit = true) → WellFormed ⟨.number, digits ++ '.' :: fraction⟩
  | word {c : Char} {rest : List Char} : isLetter c = true →
      (∀ d ∈ rest, isWordChar d = true) → WellFormed ⟨wordKind (c :: rest), c :: rest⟩
  | string {text : List Char} : '"' ∉ text → WellFormed ⟨.string, text⟩
  | comparison {c : Char} : c ∈ comparisonLeaders → WellFormed ⟨.comparison, [c, '=']⟩
  | operator {c : Char} : c ∈ operatorSigns ++ comparisonLeaders → WellFormed ⟨.operator, [c]⟩
  | punctuation {c : Char} : c ∈ punctuationSigns → WellFormed ⟨.punctuation, [c]⟩
  | semicolon : WellFormed ⟨.endOfLine, [';']⟩

/-- The text begins with the lexeme and with no longer one of any class. -/
structure LongestAt (l : Lexeme) (cs : List Char) : Prop where
  wellFormed : l.WellFormed
  isPrefix : l.spelling <+: cs
  longest : ∀ other : Lexeme, other.WellFormed → other.spelling <+: cs →
    other.spelling.length ≤ l.spelling.length

/-- The character stands at the head of a lexeme. -/
def Begins (c : Char) : Prop :=
  ∃ l : Lexeme, l.WellFormed ∧ l.spelling.head? = some c

/-- The kinds that words have. -/
def wordKinds : List TokenKind :=
  [.identifier, .letWord, .functionDeclaration, .ifWord, .elseWord, .inWord, .printWord]

theorem wordKind_mem (word : List Char) : wordKind word ∈ wordKinds := by
  unfold wordKind
  split
  · decide
  · rename_i other
    have apart : (String.ofList word == "function") = false := beq_eq_false_iff_ne.2 other
    simp only [keywords, List.lookup_cons, List.lookup_nil, apart]
    repeat' split
    all_goals decide

theorem wordKind_ne (word : List Char) {kind : TokenKind} (h : kind ∉ wordKinds) :
    wordKind word ≠ kind := by
  rintro rfl
  exact h (wordKind_mem word)

/-- A word that is not reserved is an identifier. -/
theorem wordKind_of_free {word : List Char} (free : String.ofList word ∉ keywords.map (·.1)) :
    wordKind word = .identifier := by
  have declares : String.ofList word ≠ "function" := by
    intro same
    rw [same] at free
    exact free (by decide)
  have absent : keywords.lookup (String.ofList word) = none := by
    rw [List.lookup_eq_none_iff]
    intro entry among
    rw [bne_iff_ne]
    intro same
    exact free (same ▸ List.mem_map_of_mem among)
  rw [wordKind, if_neg declares, absent]
  rfl

theorem ofWord_eq (word : List Char) : ofWord word = ⟨wordKind word, word⟩ := by
  unfold ofWord wordKind TokenKind.ofWord
  by_cases declares : String.ofList word = "function"
  · rw [declares]
    rfl
  · have reserved : (keywords.lookup (String.ofList word)).getD .identifier ≠ .functionWord := by
      have other : wordKind word ≠ .functionWord := wordKind_ne word (by decide)
      rwa [wordKind, if_neg declares] at other
    rw [if_neg declares]
    split
    · contradiction
    · rfl

theorem spelling_word (word : List Char) : spelling ⟨wordKind word, word⟩ = word := by
  rw [spelling, if_neg (wordKind_ne word (by decide))]

theorem WellFormed.kind_ne_endOfInput {l : Lexeme} (h : l.WellFormed) : l.kind ≠ .endOfInput := by
  cases h with
  | word letter inside => exact wordKind_ne _ (by decide)
  | _ => simp

/-- Only one lexeme announces a function literal. -/
theorem WellFormed.spelling_of_declaration {l : Lexeme} (h : l.WellFormed)
    (declares : l.kind = .functionDeclaration) : l.spelling = "function".toList := by
  cases h with
  | @word c rest letter inside =>
    rw [spelling_word]
    by_cases same : String.ofList (c :: rest) = "function"
    · rw [← same, String.toList_ofList]
    · have apart : (String.ofList (c :: rest) == "function") = false := beq_eq_false_iff_ne.2 same
      simp only [wordKind, if_neg same, keywords, List.lookup_cons, List.lookup_nil, apart]
        at declares
      repeat' split at declares
      all_goals cases declares
  | _ => cases declares

/-- No lexeme is empty, and none begins with a blank. -/
theorem WellFormed.exists_cons {l : Lexeme} (h : l.WellFormed) :
    ∃ c rest, l.spelling = c :: rest ∧ isBlank c = false := by
  cases h with
  | @number digits some inside =>
    obtain ⟨c, rest, rfl⟩ := List.exists_cons_of_ne_nil some
    exact ⟨c, rest, rfl, isBlank_of_isDigit (inside c List.mem_cons_self)⟩
  | @decimal digits fraction some inside _ =>
    obtain ⟨c, rest, rfl⟩ := List.exists_cons_of_ne_nil some
    exact ⟨c, rest ++ '.' :: fraction, rfl, isBlank_of_isDigit (inside c List.mem_cons_self)⟩
  | @word c rest letter _ => exact ⟨c, rest, spelling_word _, isBlank_of_isLetter letter⟩
  | @string text _ => exact ⟨'"', text ++ ['"'], rfl, by decide⟩
  | @comparison c leads =>
    have unblank : ∀ d ∈ comparisonLeaders, isBlank d = false :=
      forall_mem_of_all (by decide)
    exact ⟨c, ['='], rfl, unblank c leads⟩
  | @operator c sign =>
    have unblank : ∀ d ∈ operatorSigns ++ comparisonLeaders, isBlank d = false :=
      forall_mem_of_all (by decide)
    exact ⟨c, [], rfl, unblank c sign⟩
  | @punctuation c sign =>
    have unblank : ∀ d ∈ punctuationSigns, isBlank d = false :=
      forall_mem_of_all (by decide)
    exact ⟨c, [], rfl, unblank c sign⟩
  | semicolon => exact ⟨';', [], rfl, by decide⟩

/-- A number is digits, perhaps with a point and digits behind it. -/
theorem WellFormed.exists_digits {text : List Char} (h : WellFormed ⟨.number, text⟩) :
    ∃ digits, digits ≠ [] ∧ (∀ c ∈ digits, c.isDigit = true) ∧
      (text = digits ∨
        ∃ fraction, (∀ c ∈ fraction, c.isDigit = true) ∧ text = digits ++ '.' :: fraction) := by
  generalize same : (⟨.number, text⟩ : Lexeme) = l at h
  cases h with
  | number some inside => cases same; exact ⟨text, some, inside, Or.inl rfl⟩
  | @decimal digits fraction some inside inside' =>
    cases same
    exact ⟨digits, some, inside, Or.inr ⟨fraction, inside', rfl⟩⟩
  | word letter _ =>
    have apart : TokenKind.number ∉ wordKinds := by decide
    exact absurd (congrArg Lexeme.kind same).symm (wordKind_ne _ apart)
  | _ => cases same

end Lexeme

/-! ### Tokens -/

namespace Token

/-- The lexeme that a token is made of. -/
def lexeme (t : Token) : Lexeme := ⟨t.kind, t.text.toList⟩

@[simp] theorem lexeme_mk (l : Lexeme) (p : Location) :
    lexeme ⟨l.kind, String.ofList l.text, p⟩ = l := by
  rw [lexeme, String.toList_ofList]

/-- A token is shown as its lexeme is spelled. -/
theorem toList_spelling (t : Token) : t.spelling.toList = t.lexeme.spelling := by
  unfold spelling Lexeme.spelling lexeme
  by_cases string : t.kind = .string
  · simp [string]
  · simp [string]

end Token

/-! ### What the scanner finds belongs to a class -/

open Lexeme

theorem forall_isDigit_takeWhile (cs : List Char) :
    ∀ c ∈ cs.takeWhile Char.isDigit, c.isDigit = true :=
  fun _ h => List.mem_takeWhile_imp h

theorem wellFormed_numberText {c : Char} (digit : c.isDigit = true) (rest : List Char) :
    WellFormed ⟨.number, numberText (c :: rest)⟩ := by
  have some : (c :: rest).takeWhile Char.isDigit ≠ [] := by simp [digit]
  unfold numberText
  split
  · exact .decimal some (forall_isDigit_takeWhile _) (forall_isDigit_takeWhile _)
  · rw [List.append_nil]
    exact .number some (forall_isDigit_takeWhile _)

theorem wellFormed_ofLeader {c : Char} (leads : c ∈ comparisonLeaders) (rest : List Char) :
    (ofLeader c rest).WellFormed := by
  unfold ofLeader
  split
  · exact .comparison leads
  · exact .operator (List.mem_append_right _ leads)

theorem wellFormed_of_scan {cs : List Char} {l : Lexeme} (h : Scan.of cs = .lexeme l) :
    l.WellFormed := by
  cases cs with
  | nil => simp [Scan.of] at h
  | cons c rest =>
    simp only [Scan.of] at h
    split at h
    · rename_i digit
      cases h
      exact wellFormed_numberText digit rest
    split at h
    · rename_i letter
      cases h
      rw [ofWord_eq, List.takeWhile_cons_of_pos (isWordChar_of_isLetter letter)]
      exact .word letter fun d hd => List.mem_takeWhile_imp hd
    split at h
    · split at h
      · cases h
        exact .string fun quote => by simpa using List.mem_takeWhile_imp quote
      · cases h
    split at h
    · rename_i sign
      cases h
      exact .operator (List.mem_append_left _ sign)
    split at h
    · rename_i sign
      cases h
      exact .punctuation sign
    split at h
    · rename_i semicolon
      cases h
      rw [semicolon]
      exact .semicolon
    split at h
    · rename_i leads
      cases h
      exact wellFormed_ofLeader leads rest
    · cases h

/-! ### The scanner finds the longest lexeme -/

section Heads

variable {c : Char}

theorem scan_of_digit (digit : c.isDigit = true) (rest : List Char) :
    Scan.of (c :: rest) = .lexeme ⟨.number, numberText (c :: rest)⟩ := by
  simp only [Scan.of, digit, if_true]

theorem scan_of_letter (letter : isLetter c = true) (rest : List Char) :
    Scan.of (c :: rest) = .lexeme (ofWord ((c :: rest).takeWhile isWordChar)) := by
  have digit : c.isDigit = false := by
    refine Bool.eq_false_iff.2 fun digit => ?_
    rw [isLetter_of_isDigit digit] at letter
    cases letter
  simp only [Scan.of, digit, Bool.false_eq_true, letter, if_false, if_true]

theorem scan_of_quote (rest : List Char) :
    Scan.of ('"' :: rest) =
      if '"' ∈ rest then .lexeme ⟨.string, rest.takeWhile (· != '"')⟩ else .unterminated rest := by
  have digit : Char.isDigit '"' = false := by decide
  have letter : isLetter '"' = false := by decide
  simp only [Scan.of, digit, letter, Bool.false_eq_true, if_false, if_true]

theorem scan_of_operatorSign (sign : c ∈ operatorSigns) (rest : List Char) :
    Scan.of (c :: rest) = .lexeme ⟨.operator, [c]⟩ := by
  have apart : ∀ d ∈ operatorSigns, d.isDigit = false ∧ isLetter d = false ∧ d ≠ '"' :=
    forall_mem_of_all (by decide)
  obtain ⟨digit, letter, quote⟩ := apart c sign
  simp only [Scan.of, digit, letter, quote, Bool.false_eq_true, if_false, sign, if_true]

theorem scan_of_punctuationSign (sign : c ∈ punctuationSigns) (rest : List Char) :
    Scan.of (c :: rest) = .lexeme ⟨.punctuation, [c]⟩ := by
  have apart : ∀ d ∈ punctuationSigns,
      d.isDigit = false ∧ isLetter d = false ∧ d ≠ '"' ∧ d ∉ operatorSigns :=
    forall_mem_of_all (by decide)
  obtain ⟨digit, letter, quote, operator⟩ := apart c sign
  simp only [Scan.of, digit, letter, quote, operator, Bool.false_eq_true, if_false, sign, if_true]

theorem scan_of_leader (leads : c ∈ comparisonLeaders) (rest : List Char) :
    Scan.of (c :: rest) = .lexeme (ofLeader c rest) := by
  have apart : ∀ d ∈ comparisonLeaders, d.isDigit = false ∧ isLetter d = false ∧ d ≠ '"' ∧
      d ∉ operatorSigns ∧ d ∉ punctuationSigns ∧ d ≠ ';' := forall_mem_of_all (by decide)
  obtain ⟨digit, letter, quote, operator, sign, semicolon⟩ := apart c leads
  simp only [Scan.of, digit, letter, quote, operator, sign, semicolon, Bool.false_eq_true,
    if_false, leads, if_true]

end Heads

/-- The longest run behind some characters of a class goes on from them. -/
theorem prefix_takeWhile_append {test : Char → Bool} {run : List Char}
    (inside : ∀ c ∈ run, test c = true) (more : List Char) :
    run <+: (run ++ more).takeWhile test := by
  rw [List.takeWhile_append_of_pos inside]
  exact List.prefix_append run _

/-- A run ends where no character of its class comes next. -/
theorem takeWhile_append_of_head? {test : Char → Bool} {run more : List Char}
    (inside : ∀ c ∈ run, test c = true) (other : ∀ c ∈ more.head?, test c = false) :
    (run ++ more).takeWhile test = run := by
  rw [List.takeWhile_append_of_pos inside]
  cases more with
  | nil => simp
  | cons c more => simp [other c rfl]

/-- What is behind the longest run does not go on with it. -/
theorem head?_dropWhile_eq_false (test : Char → Bool) (cs : List Char) :
    ∀ c ∈ (cs.dropWhile test).head?, test c = false := by
  intro c hc
  have found := List.head?_dropWhile_not test cs
  rw [Option.mem_def.1 hc] at found
  simpa using found

theorem dropWhile_append_of_head? {test : Char → Bool} {run more : List Char}
    (inside : ∀ c ∈ run, test c = true) (other : ∀ c ∈ more.head?, test c = false) :
    (run ++ more).dropWhile test = more := by
  rw [List.dropWhile_append_of_pos inside]
  cases more with
  | nil => simp
  | cons c more => simp [other c rfl]

theorem numberText_decimal {digits : List Char} (inside : ∀ c ∈ digits, c.isDigit = true)
    (rest : List Char) :
    numberText (digits ++ '.' :: rest) = digits ++ '.' :: rest.takeWhile Char.isDigit := by
  have point : ∀ c ∈ ('.' :: rest).head?, c.isDigit = false := by
    intro c hc
    cases hc
    decide
  rw [numberText, takeWhile_append_of_head? inside point, dropWhile_append_of_head? inside point]
  rfl

theorem takeWhile_closed {text : List Char} (inside : '"' ∉ text) (more : List Char) :
    (text ++ '"' :: more).takeWhile (· != '"') = text := by
  refine takeWhile_append_of_head? (fun c hc => ?_) fun c hc => ?_
  · rw [bne_iff_ne]
    rintro rfl
    exact inside hc
  · cases hc
    decide

/-- In front of whatever comes behind a lexeme, the scanner finds that lexeme or a longer one. -/
theorem exists_scan_of_prefix {l : Lexeme} (h : l.WellFormed) {cs : List Char}
    (begins : l.spelling <+: cs) : ∃ found, Scan.of cs = .lexeme found ∧
      l.spelling <+: found.spelling := by
  obtain ⟨more, rfl⟩ := begins
  cases h with
  | @number digits some inside =>
    obtain ⟨c, rest, rfl⟩ := List.exists_cons_of_ne_nil some
    refine ⟨_, scan_of_digit (inside c List.mem_cons_self) _, ?_⟩
    show c :: rest <+: numberText (c :: rest ++ more)
    exact (prefix_takeWhile_append inside more).trans (List.prefix_append _ _)
  | @decimal digits fraction some inside inside' =>
    obtain ⟨c, rest, rfl⟩ := List.exists_cons_of_ne_nil some
    refine ⟨_, scan_of_digit (inside c List.mem_cons_self) _, ?_⟩
    show c :: rest ++ '.' :: fraction <+: numberText (c :: rest ++ '.' :: fraction ++ more)
    have whole : c :: rest ++ '.' :: fraction ++ more = c :: rest ++ '.' :: (fraction ++ more) := by
      simp
    rw [whole, numberText_decimal inside]
    exact List.prefix_append_right_inj _ |>.2
      (List.cons_prefix_cons.2 ⟨rfl, prefix_takeWhile_append inside' more⟩)
  | @word c rest letter inside =>
    rw [spelling_word]
    refine ⟨_, scan_of_letter letter _, ?_⟩
    rw [spelling_ofWord]
    refine prefix_takeWhile_append (fun d hd => ?_) more
    rcases List.mem_cons.1 hd with rfl | hd
    · exact isWordChar_of_isLetter letter
    · exact inside d hd
  | @string text inside =>
    have closed : '"' ∈ text ++ '"' :: more := List.mem_append_right _ List.mem_cons_self
    refine ⟨⟨.string, text⟩, ?_, List.prefix_refl _⟩
    have whole : spelling ⟨.string, text⟩ ++ more = '"' :: (text ++ '"' :: more) := by
      simp [spelling]
    rw [whole, scan_of_quote, if_pos closed, takeWhile_closed inside]
  | @comparison c leads =>
    exact ⟨_, scan_of_leader leads _, List.prefix_refl _⟩
  | @operator c sign =>
    rcases List.mem_append.1 sign with sign | leads
    · exact ⟨_, scan_of_operatorSign sign _, List.prefix_refl _⟩
    · refine ⟨_, scan_of_leader leads _, ?_⟩
      show [c] <+: (ofLeader c more).spelling
      unfold ofLeader
      split
      · exact List.prefix_append [c] ['=']
      · exact List.prefix_refl [c]
  | @punctuation c sign => exact ⟨_, scan_of_punctuationSign sign _, List.prefix_refl _⟩
  | semicolon => exact ⟨⟨.endOfLine, [';']⟩, rfl, List.prefix_refl _⟩

/-- What comes next continues no lexeme but a string: neither a word, nor a number, nor a
comparison. -/
def AtBoundary (more : List Char) : Prop :=
  ∀ c ∈ more.head?, isWordChar c = false ∧ c ≠ '.' ∧ c ≠ '='

theorem AtBoundary.isDigit_head? {more : List Char} (h : AtBoundary more) :
    ∀ c ∈ more.head?, c.isDigit = false := by
  intro c hc
  refine Bool.eq_false_iff.2 fun digit => ?_
  have word := isWordChar_of_isDigit digit
  rw [(h c hc).1] at word
  cases word

theorem numberText_append {digits more : List Char} (inside : ∀ c ∈ digits, c.isDigit = true)
    (h : AtBoundary more) : numberText (digits ++ more) = digits := by
  rw [numberText, takeWhile_append_of_head? inside h.isDigit_head?,
    dropWhile_append_of_head? inside h.isDigit_head?]
  cases more with
  | nil => simp
  | cons c more => simp [(h c rfl).2.1]

/-- **A lexeme in front of a boundary is found again.** -/
theorem Scan.of_spelling_append {l : Lexeme} (h : l.WellFormed) {more : List Char}
    (boundary : AtBoundary more) : Scan.of (l.spelling ++ more) = .lexeme l := by
  cases h with
  | @number digits some inside =>
    obtain ⟨c, rest, rfl⟩ := List.exists_cons_of_ne_nil some
    have found := numberText_append inside boundary
    show Scan.of (c :: (rest ++ more)) = _
    rw [scan_of_digit (inside c List.mem_cons_self), ← List.cons_append, found]
  | @decimal digits fraction some inside inside' =>
    obtain ⟨c, rest, rfl⟩ := List.exists_cons_of_ne_nil some
    have found : numberText ((c :: rest) ++ '.' :: (fraction ++ more)) =
        (c :: rest) ++ '.' :: fraction := by
      rw [numberText_decimal inside, takeWhile_append_of_head? inside' boundary.isDigit_head?]
    have whole : spelling ⟨.number, (c :: rest) ++ '.' :: fraction⟩ ++ more =
        c :: (rest ++ '.' :: (fraction ++ more)) := by
      simp [spelling]
    rw [whole, scan_of_digit (inside c List.mem_cons_self), ← List.cons_append, found]
  | @word c rest letter inside =>
    have letters : ∀ d ∈ c :: rest, isWordChar d = true := by
      intro d hd
      rcases List.mem_cons.1 hd with rfl | hd
      · exact isWordChar_of_isLetter letter
      · exact inside d hd
    have found := takeWhile_append_of_head? letters fun d hd => (boundary d hd).1
    rw [spelling_word, List.cons_append, scan_of_letter letter, ← List.cons_append, found,
      ofWord_eq]
  | @string text inside =>
    have closed : '"' ∈ text ++ '"' :: more := List.mem_append_right _ List.mem_cons_self
    have whole : spelling ⟨.string, text⟩ ++ more = '"' :: (text ++ '"' :: more) := by
      simp [spelling]
    rw [whole, scan_of_quote, if_pos closed, takeWhile_closed inside]
  | @comparison c leads => exact scan_of_leader leads _
  | @operator c sign =>
    rcases List.mem_append.1 sign with sign | leads
    · exact scan_of_operatorSign sign _
    · show Scan.of (c :: more) = _
      rw [scan_of_leader leads]
      cases more with
      | nil => rfl
      | cons d more => simp [ofLeader, (boundary d rfl).2.2]
  | @punctuation c sign => exact scan_of_punctuationSign sign _
  | semicolon => rfl

/-- The spelling of a lexeme determines it. -/
theorem Lexeme.WellFormed.eq_of_spelling {l other : Lexeme} (h : l.WellFormed)
    (h' : other.WellFormed) (same : l.spelling = other.spelling) : l = other := by
  have nothing : AtBoundary [] := fun c hc => by cases hc
  have found := Scan.of_spelling_append h nothing
  rw [same, Scan.of_spelling_append h' nothing] at found
  cases found
  rfl

namespace Scan

variable {cs : List Char}

/-- **The scanner finds the longest lexeme** at the head of a text, and there is one if it finds
any. -/
theorem of_eq_lexeme_iff {l : Lexeme} : Scan.of cs = .lexeme l ↔ l.LongestAt cs := by
  constructor
  · intro h
    obtain ⟨more, split⟩ := exists_spelling_append h
    refine ⟨wellFormed_of_scan h, ⟨more, split.symm⟩, fun other formed begins => ?_⟩
    obtain ⟨found, scanned, longer⟩ := exists_scan_of_prefix formed begins
    rw [h] at scanned
    cases scanned
    exact longer.length_le
  · intro h
    obtain ⟨found, scanned, longer⟩ := exists_scan_of_prefix h.wellFormed h.isPrefix
    obtain ⟨more, split⟩ := exists_spelling_append scanned
    have formed := wellFormed_of_scan scanned
    have shorter := h.longest found formed ⟨more, split.symm⟩
    rw [scanned, h.wellFormed.eq_of_spelling formed (longer.eq_of_length_le shorter)]

/-- What the scanner does not recognise stands at the head of the text. -/
theorem head?_of_stray {c : Char} (h : Scan.of cs = .stray c) : cs.head? = some c := by
  cases cs with
  | nil => simp [Scan.of] at h
  | cons d rest =>
    simp only [Scan.of] at h
    repeat' split at h
    all_goals cases h
    rfl

theorem eq_cons_of_unterminated {text : List Char} (h : Scan.of cs = .unterminated text) :
    cs = '"' :: text ∧ '"' ∉ text := by
  cases cs with
  | nil => simp [Scan.of] at h
  | cons d rest =>
    simp only [Scan.of] at h
    repeat' split at h
    all_goals cases h
    rename_i quote opened
    exact ⟨by rw [quote], opened⟩

theorem of_eq_unterminated_iff {text : List Char} :
    Scan.of cs = .unterminated text ↔ cs = '"' :: text ∧ '"' ∉ text := by
  constructor
  · exact eq_cons_of_unterminated
  · rintro ⟨rfl, opened⟩
    rw [scan_of_quote, if_neg opened]

theorem eq_nil_of_nothing (h : Scan.of cs = .nothing) : cs = [] := by
  cases cs with
  | nil => rfl
  | cons c rest =>
    simp only [Scan.of] at h
    repeat' split at h
    all_goals cases h

/-- A quote begins a string. -/
theorem begins_quote : Begins '"' := ⟨⟨.string, []⟩, .string List.not_mem_nil, rfl⟩

/-- Where a lexeme begins, the scanner does not pass over the character as unknown. -/
theorem of_ne_stray_of_begins {c d : Char} (h : Begins c) (rest : List Char) :
    Scan.of (c :: rest) ≠ .stray d := by
  have number (digit : c.isDigit = true) : Scan.of (c :: rest) ≠ .stray d := by
    rw [scan_of_digit digit]
    simp
  obtain ⟨l, formed, head⟩ := h
  cases formed with
  | @number digits some inside =>
    cases digits with
    | nil => exact absurd rfl some
    | cons e digits =>
      cases head
      exact number (inside c List.mem_cons_self)
  | @decimal digits fraction some inside _ =>
    cases digits with
    | nil => exact absurd rfl some
    | cons e digits =>
      cases head
      exact number (inside c List.mem_cons_self)
  | @word e text letter inside =>
    rw [spelling_word] at head
    cases head
    simp [scan_of_letter letter]
  | @string text inside =>
    cases head
    rw [scan_of_quote]
    split <;> simp
  | @comparison e leads => cases head; simp [scan_of_leader leads]
  | @operator e sign =>
    cases head
    rcases List.mem_append.1 sign with sign | leads
    · simp [scan_of_operatorSign sign]
    · simp [scan_of_leader leads]
  | @punctuation e sign => cases head; simp [scan_of_punctuationSign sign]
  | semicolon =>
    cases head
    show Scan.lexeme ⟨.endOfLine, [';']⟩ ≠ .stray d
    simp

/-- **The scanner stops at a character just if no lexeme begins with it.** -/
theorem of_eq_stray_iff {c : Char} :
    Scan.of cs = .stray c ↔ cs.head? = some c ∧ ¬ Begins c := by
  constructor
  · intro h
    have head := head?_of_stray h
    refine ⟨head, fun begins => ?_⟩
    cases cs with
    | nil => cases head
    | cons d rest =>
      cases head
      exact of_ne_stray_of_begins begins rest h
  · rintro ⟨head, other⟩
    cases scanned : Scan.of cs with
    | nothing =>
      rw [eq_nil_of_nothing scanned] at head
      cases head
    | lexeme l =>
      obtain ⟨more, split⟩ := exists_spelling_append scanned
      have formed := wellFormed_of_scan scanned
      obtain ⟨d, rest, spelled, -⟩ := formed.exists_cons
      rw [split, spelled] at head
      cases head
      exact absurd ⟨l, formed, by rw [spelled]; rfl⟩ other
    | unterminated text =>
      rw [(eq_cons_of_unterminated scanned).1] at head
      cases head
      exact absurd begins_quote other
    | stray d =>
      have same := (head?_of_stray scanned).symm.trans head
      cases same
      rfl

/-- A lexeme is no end of the input. -/
theorem kind_ne_endOfInput {l : Lexeme} (h : Scan.of cs = .lexeme l) : l.kind ≠ .endOfInput :=
  (wellFormed_of_scan h).kind_ne_endOfInput

end Scan

end Reckoner
