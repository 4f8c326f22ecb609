import Reckoner.Proofs.Lexing.Classes

/-!
# How far a scan looks ahead

What stands at the head of a text is told by the characters it takes up and the one behind them.
So the same is found in every text that begins with the same characters and either has the same
one behind them or ends there as well.

* `Abreast` — texts that agree so far, and on what comes next.
* `Abreast.scan_of_eq`
-/

namespace Reckoner

open Reckoner.Text

namespace Scan

/-- How many characters are taken up. -/
def width : Scan → Nat
  | nothing => 0
  | lexeme l => l.spelling.length
  | unterminated text => text.length + 1
  | stray _ => 0

theorem width_le (cs : List Char) : (Scan.of cs).width ≤ cs.length := by
  cases scanned : Scan.of cs with
  | nothing => exact Nat.zero_le _
  | lexeme l =>
    obtain ⟨after, split⟩ := exists_spelling_append scanned
    rw [split, width, List.length_append]
    exact Nat.le_add_right _ _
  | unterminated text =>
    rw [(eq_cons_of_unterminated scanned).1, width, List.length_cons]
  | stray c => exact Nat.zero_le _

end Scan

/-- The texts have the same first `n` characters, and the same one behind them or none. -/
def Abreast (n : Nat) (cs ds : List Char) : Prop := cs.take (n + 1) = ds.take (n + 1)

namespace Abreast

variable {n m : Nat} {c d : Char} {cs ds : List Char}

theorem of_take_eq (before : cs.take n = ds.take n) (there : cs[n]? = ds[n]?) :
    Abreast n cs ds := by
  unfold Abreast
  rw [List.take_add_one, List.take_add_one, before, there]

theorem eq_of_length_le (h : Abreast n cs ds) (short : cs.length ≤ n) : ds = cs := by
  have whole : ds.take (n + 1) = cs := by
    rw [← show cs.take (n + 1) = ds.take (n + 1) from h]
    exact List.take_of_length_le (Nat.le_succ_of_le short)
  have length := congrArg List.length whole
  rw [List.length_take] at length
  rw [← whole]
  exact (List.take_of_length_le (by omega)).symm

theorem head?_eq (h : Abreast n cs ds) : ds.head? = cs.head? := by
  have heads := congrArg List.head? (show cs.take (n + 1) = ds.take (n + 1) from h)
  rw [List.head?_take, List.head?_take] at heads
  exact heads.symm

theorem exists_cons (h : Abreast n (c :: cs) ds) : ∃ rest, ds = c :: rest := by
  have head := h.head?_eq
  cases ds with
  | nil => cases head
  | cons d rest =>
    cases head
    exact ⟨rest, rfl⟩

theorem of_cons (h : Abreast (n + 1) (c :: cs) (d :: ds)) : Abreast n cs ds := by
  unfold Abreast at h ⊢
  rw [List.take_succ_cons, List.take_succ_cons] at h
  exact (List.cons.inj h).2

/-- Behind characters that both texts have they still agree. -/
theorem drop (h : Abreast n cs ds) (m : Nat) (short : (cs.take m).length ≤ n) :
    ds.take m = cs.take m ∧ Abreast (n - (cs.take m).length) (cs.drop m) (ds.drop m) := by
  by_cases ended : cs.length ≤ n
  -- a text that ends within reach is the other one
  · rw [h.eq_of_length_le ended]
    exact ⟨rfl, rfl⟩
  · rw [List.length_take] at short ⊢
    have inside : min m cs.length = m := by omega
    rw [inside] at short ⊢
    unfold Abreast at h ⊢
    have front := congrArg (List.take m) h
    have back := congrArg (List.drop m) h
    rw [List.take_take, List.take_take, Nat.min_eq_left (by omega)] at front
    rw [List.drop_take, List.drop_take] at back
    rw [show n - m + 1 = n + 1 - m by omega]
    exact ⟨front.symm, back⟩

/-- A run that ends within reach ends alike in both texts. -/
theorem run (test : Char → Bool) (h : Abreast n cs ds)
    (short : (cs.takeWhile test).length ≤ n) : ds.takeWhile test = cs.takeWhile test ∧
      Abreast (n - (cs.takeWhile test).length) (cs.dropWhile test) (ds.dropWhile test) := by
  induction cs generalizing n ds with
  | nil =>
    rw [h.eq_of_length_le (Nat.zero_le n)]
    exact ⟨rfl, rfl⟩
  | cons c cs ih =>
    obtain ⟨ds, rfl⟩ := h.exists_cons
    by_cases inside : test c = true
    · rw [List.takeWhile_cons_of_pos inside] at short ⊢
      rw [List.takeWhile_cons_of_pos inside, List.dropWhile_cons_of_pos inside,
        List.dropWhile_cons_of_pos inside]
      rw [List.length_cons] at short ⊢
      obtain ⟨n, rfl⟩ : ∃ k, n = k + 1 := ⟨n - 1, by omega⟩
      obtain ⟨same, behind⟩ := ih h.of_cons (by omega)
      rw [Nat.add_sub_add_right]
      exact ⟨by rw [same], behind⟩
    · rw [List.takeWhile_cons_of_neg inside, List.takeWhile_cons_of_neg inside,
        List.dropWhile_cons_of_neg inside, List.dropWhile_cons_of_neg inside]
      exact ⟨rfl, h⟩

theorem numberText_eq (h : Abreast n cs ds) (short : (Lexeme.numberText cs).length ≤ n) :
    Lexeme.numberText ds = Lexeme.numberText cs := by
  unfold Lexeme.numberText at short ⊢
  rw [List.length_append] at short
  obtain ⟨digits, behind⟩ := h.run Char.isDigit (by omega)
  rw [digits]
  congr 1
  cases left : cs.dropWhile Char.isDigit with
  | nil =>
    rw [left] at behind
    rw [behind.eq_of_length_le (Nat.zero_le _)]
  | cons c more =>
    rw [left] at behind short
    obtain ⟨more', right⟩ := behind.exists_cons
    rw [right] at behind ⊢
    by_cases point : c = '.'
    · subst point
      replace short : (cs.takeWhile Char.isDigit).length +
        ((more.takeWhile Char.isDigit).length + 1) ≤ n := short
      rw [show n - (cs.takeWhile Char.isDigit).length =
        n - (cs.takeWhile Char.isDigit).length - 1 + 1 by omega] at behind
      show '.' :: more'.takeWhile Char.isDigit = '.' :: more.takeWhile Char.isDigit
      rw [(behind.of_cons.run Char.isDigit (by omega)).1]
    · simp [point]

theorem ofLeader_eq (h : Abreast n cs ds) (c : Char) :
    Lexeme.ofLeader c ds = Lexeme.ofLeader c cs := by
  cases cs with
  | nil => rw [h.eq_of_length_le (Nat.zero_le n)]
  | cons d cs =>
    obtain ⟨ds, rfl⟩ := h.exists_cons
    by_cases equals : d = '=' <;> simp [Lexeme.ofLeader, equals]

/-- A character that one text has within reach, the other has as well. -/
theorem mem_of_mem (h : Abreast n cs ds) (inside : c ∈ cs)
    (short : (cs.takeWhile (· != c)).length ≤ n) : c ∈ ds := by
  obtain ⟨after, split⟩ := Lexeme.exists_closing inside
  have there : c ∈ cs.take (n + 1) := by
    rw [split, List.take_append, List.mem_append]
    refine Or.inr ?_
    rw [show n + 1 - (cs.takeWhile (· != c)).length =
      n - (cs.takeWhile (· != c)).length + 1 by omega, List.take_succ_cons]
    exact List.mem_cons_self
  rw [show cs.take (n + 1) = ds.take (n + 1) from h] at there
  exact List.mem_of_mem_take there

/-- A string is closed in both texts, or it takes up both. -/
theorem string_eq (h : Abreast n ('"' :: cs) ('"' :: ds))
    (short : (if '"' ∈ cs then .lexeme ⟨.string, cs.takeWhile (· != '"')⟩
      else .unterminated cs : Scan).width ≤ n) :
    (if '"' ∈ ds then .lexeme ⟨.string, ds.takeWhile (· != '"')⟩ else .unterminated ds : Scan) =
      if '"' ∈ cs then .lexeme ⟨.string, cs.takeWhile (· != '"')⟩ else .unterminated cs := by
  by_cases closed : '"' ∈ cs
  · rw [if_pos closed] at short ⊢
    simp only [Scan.width, Lexeme.spelling, if_true, List.length_cons, List.length_append,
      List.length_nil] at short
    obtain ⟨n, rfl⟩ : ∃ k, n = k + 1 := ⟨n - 1, by omega⟩
    have inside := h.of_cons
    rw [if_pos (inside.mem_of_mem closed (by omega)), (inside.run _ (by omega)).1]
  · rw [if_neg closed] at short
    rw [Scan.width] at short
    have whole := h.eq_of_length_le (by rw [List.length_cons]; exact short)
    rw [(List.cons.inj whole).2]

end Abreast

/-- **What a scan depends on.** The same stands at the heads of texts that agree on all that is
taken up, and on what comes next. -/
theorem Abreast.scan_of_eq {n : Nat} {cs ds : List Char} (h : Abreast n cs ds)
    (short : (Scan.of cs).width ≤ n) : Scan.of ds = Scan.of cs := by
  cases cs with
  | nil => rw [h.eq_of_length_le (Nat.zero_le n)]
  | cons c cs =>
    obtain ⟨ds, rfl⟩ := h.exists_cons
    by_cases digit : c.isDigit = true
    · rw [scan_of_digit digit] at short ⊢
      rw [scan_of_digit digit, h.numberText_eq short]
    by_cases letter : isLetter c = true
    · rw [scan_of_letter letter] at short ⊢
      rw [Scan.width, Lexeme.spelling_ofWord] at short
      rw [scan_of_letter letter, (h.run isWordChar short).1]
    by_cases quote : c = '"'
    · subst quote
      rw [scan_of_quote] at short ⊢
      rw [scan_of_quote]
      exact h.string_eq short
    by_cases leads : c ∈ comparisonLeaders
    · obtain ⟨n, rfl⟩ : ∃ k, n = k + 1 := by
        rw [scan_of_leader leads] at short
        have some := List.length_pos_iff.2 (Lexeme.spelling_ofLeader_ne_nil c cs)
        exact ⟨n - 1, by rw [Scan.width] at short; omega⟩
      rw [scan_of_leader leads, scan_of_leader leads, h.of_cons.ofLeader_eq]
    · simp only [Scan.of, digit, letter, quote, leads, Bool.false_eq_true, if_false]

end Reckoner
