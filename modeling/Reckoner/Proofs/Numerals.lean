import Reckoner.Number.Reading
import Reckoner.Proofs.Delivery
import Reckoner.Proofs.Lexing.Classes

/-!
# Numbers in a source can be read

The text of a number token is digits and perhaps a point with digits behind it. Nothing that the
general reading of numbers allows besides, neither margins nor underscores nor digits of other
scripts, occurs in it, so it is read as it stands and always writes a number.

* `Number.read?_of_forall` — such a text is read without any change;
* `Number.isSome_read?` — and it writes a number;
* `readable_of_next` — so whatever a reader takes from its source can be read.
-/

namespace Reckoner

open Reckoner.Text

namespace Number

/-- The characters of an unsigned decimal. -/
def isDecimalChar (c : Char) : Bool := c.isDigit || c == '.'

section Characters

variable {c : Char} (h : isDecimalChar c = true)
include h

theorem isMargin_of_isDecimalChar : isMargin c = false := by
  have unblank : isBlank c = false := by
    rcases Bool.or_eq_true_iff.1 h with digit | point
    · exact isBlank_of_isDigit digit
    · rw [beq_iff_eq.1 point]
      decide
  rw [isMargin, unblank, Bool.false_and]

theorem plainDigit_of_isDecimalChar : plainDigit c = c := by
  rcases Bool.or_eq_true_iff.1 h with digit | point
  · obtain ⟨low, high⟩ := toNat_of_isDigit digit
    have ascii : c.toNat < 128 := by omega
    simp only [plainDigit, digitValue?, ascii, digit, if_true]
    rw [show 48 + (c.toNat - 48) = c.toNat by omega, Char.ofNat_toNat]
  · rw [beq_iff_eq.1 point]
    decide

theorem ne_underscore_of_isDecimalChar : c ≠ '_' := by
  rintro rfl
  revert h
  decide

theorem ne_sign_of_isDecimalChar : c ≠ '-' ∧ c ≠ '+' := by
  constructor <;> rintro rfl <;> revert h <;> decide

end Characters

/-! ### Reading without any change -/

theorem dropWhile_isMargin {cs : List Char} (h : ∀ c ∈ cs, isDecimalChar c = true) :
    cs.dropWhile isMargin = cs := by
  cases cs with
  | nil => rfl
  | cons c cs => simp [isMargin_of_isDecimalChar (h c List.mem_cons_self)]

theorem trimMargin_of_forall {cs : List Char} (h : ∀ c ∈ cs, isDecimalChar c = true) :
    trimMargin cs = cs := by
  have reversed : ∀ c ∈ cs.reverse, isDecimalChar c = true :=
    fun c hc => h c (List.mem_reverse.1 hc)
  rw [trimMargin, dropWhile_isMargin h, dropWhile_isMargin reversed, List.reverse_reverse]

theorem map_plainDigit {cs : List Char} (h : ∀ c ∈ cs, isDecimalChar c = true) :
    cs.map plainDigit = cs := by
  rw [List.map_congr_left fun c hc => plainDigit_of_isDecimalChar (h c hc), List.map_id']

/-- Without underscores there is nothing to join. -/
theorem joinDigits_of_forall {cs : List Char} (h : ∀ c ∈ cs, isDecimalChar c = true) :
    joinDigits cs = some cs := by
  have apart : ∀ c ∈ cs, c ≠ '_' := fun c hc => ne_underscore_of_isDecimalChar (h c hc)
  fun_induction joinDigits cs with
  | case1 => rfl
  | case2 rest => exact absurd rfl (apart '_' (by simp))
  | case3 c d rest _ _ => exact absurd rfl (apart '_' (by simp))
  | case4 c d rest _ => exact absurd rfl (apart '_' (by simp))
  | case5 c => exact absurd rfl (apart '_' (by simp))
  | case6 c rest _ _ _ ih =>
    have inside : ∀ d ∈ rest, isDecimalChar d = true := fun d hd => h d (List.mem_cons_of_mem c hd)
    rw [ih inside fun d hd => apart d (List.mem_cons_of_mem c hd)]
    rfl

theorem takeSign_of_forall {cs : List Char} (h : ∀ c ∈ cs, isDecimalChar c = true) :
    takeSign cs = (false, cs) := by
  cases cs with
  | nil => rfl
  | cons c cs =>
    obtain ⟨minus, plus⟩ := ne_sign_of_isDecimalChar (h c List.mem_cons_self)
    simp [takeSign, minus, plus]

/-- **A decimal is read as it stands.** -/
theorem read?_of_forall {cs : List Char} (h : ∀ c ∈ cs, isDecimalChar c = true) :
    read? (String.ofList cs) = unsigned? cs := by
  rw [read?, String.toList_ofList, trimMargin_of_forall h, map_plainDigit h,
    joinDigits_of_forall h]
  simp only [takeSign_of_forall h]
  cases unsigned? cs <;> rfl

/-! ### There is a number -/

theorem isSome_unsigned? {cs : List Char} (h : (decimal? cs).isSome = true) :
    (unsigned? cs).isSome = true := by
  simp only [unsigned?]
  split
  · rfl
  split
  · rfl
  · exact h

theorem isSome_decimal?_of_digits {digits : List Char} (some : digits ≠ [])
    (inside : ∀ c ∈ digits, c.isDigit = true) : (decimal? digits).isSome = true := by
  have nothing : ∀ c ∈ ([] : List Char).head?, c.isDigit = false := fun c hc => by cases hc
  have whole := takeWhile_append_of_head? inside nothing
  have rest := dropWhile_append_of_head? inside nothing
  rw [List.append_nil] at whole rest
  simp [decimal?, whole, rest, some, exponent?]

theorem isSome_decimal?_of_fraction {digits fraction : List Char} (some : digits ≠ [])
    (inside : ∀ c ∈ digits, c.isDigit = true) (inside' : ∀ c ∈ fraction, c.isDigit = true) :
    (decimal? (digits ++ '.' :: fraction)).isSome = true := by
  have nothing : ∀ c ∈ ([] : List Char).head?, c.isDigit = false := fun c hc => by cases hc
  have point : ∀ c ∈ ('.' :: fraction).head?, c.isDigit = false := by
    intro c hc
    cases hc
    decide
  have rest := dropWhile_append_of_head? inside' nothing
  rw [List.append_nil] at rest
  simp [decimal?, takeWhile_append_of_head? inside point, dropWhile_append_of_head? inside point,
    rest, some, exponent?]

/-- **Every text of a number token writes a number.** -/
theorem isSome_read? {text : List Char} (h : Lexeme.WellFormed ⟨.number, text⟩) :
    (read? (String.ofList text)).isSome = true := by
  have digitChar {c : Char} (digit : c.isDigit = true) : isDecimalChar c = true := by
    rw [isDecimalChar, digit, Bool.true_or]
  obtain ⟨digits, some, inside, rfl | ⟨fraction, inside', rfl⟩⟩ := h.exists_digits
  · rw [read?_of_forall fun c hc => digitChar (inside c hc)]
    exact isSome_unsigned? (isSome_decimal?_of_digits some inside)
  · have decimal : ∀ c ∈ digits ++ '.' :: fraction, isDecimalChar c = true := by
      intro c hc
      rcases List.mem_append.1 hc with hc | hc
      · exact digitChar (inside c hc)
      rcases List.mem_cons.1 hc with rfl | hc
      · decide
      · exact digitChar (inside' c hc)
    rw [read?_of_forall decimal]
    exact isSome_unsigned? (isSome_decimal?_of_fraction some inside inside')

end Number

/-! ### Tokens -/

/-- If it is a number, its text writes one. -/
def Token.Readable (t : Token) : Prop :=
  t.kind = .number → (Number.read? t.text).isSome = true

/-- What a reader takes from its source is readable, so that it has other tokens only if they were
pending before. -/
theorem readable_of_next {r q : Reader} {t : Token} (h : Reading.next r = .ok t q)
    (waiting : ∀ u ∈ r.pending, u.Readable) : t.Readable ∧ ∀ u ∈ q.pending, u.Readable := by
  cases Reading.delivery_of_next h with
  | @pending t later pending =>
    rw [pending] at waiting
    exact ⟨waiting t List.mem_cons_self, fun u hu => waiting u (List.mem_cons_of_mem t hu)⟩
  | nothing none scanned =>
    refine ⟨?_, waiting⟩
    intro number
    cases number
  | @lexeme l none scanned =>
    refine ⟨?_, waiting⟩
    intro number
    obtain ⟨kind, text⟩ := l
    cases number
    exact Number.isSome_read? (wellFormed_of_scan scanned)
  | unterminated none scanned collecting =>
    refine ⟨?_, waiting⟩
    intro number
    cases number

theorem Reader.Delivers.readable {r q : Reader} {ts : List Token} (h : r.Delivers ts q)
    (waiting : ∀ u ∈ r.pending, u.Readable) : ∀ t ∈ ts, t.Readable := by
  induction h with
  | done alike => exact fun t ht => absurd ht List.not_mem_nil
  | next first later ih =>
    obtain ⟨here, waiting'⟩ := readable_of_next first waiting
    intro t ht
    rcases List.mem_cons.1 ht with rfl | ht
    · exact here
    · exact ih waiting' t ht

end Reckoner
