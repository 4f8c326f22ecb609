import Reckoner.Proofs.Lexing.Classes
import Reckoner.Proofs.Scanning

/-!
# What a scan takes from the text

A scan passes blanks and then takes up one of three things: nothing, where the text ends; a lexeme;
or a string without its end, together with all that is left. In each case the token bears the
location at which the scan has ended.

* `Reading.Takes`, `Reading.takes_of_scan`
-/

namespace Reckoner

open Reckoner.Text

namespace Reading

/-- What the scan from `r` that ends in `q` has taken up. -/
inductive Takes (r : Reader) : Token → Reader → Prop
  | nothing {q : Reader} : q.cursor.rest = [] → Takes r ⟨.endOfInput, "", q.here⟩ q
  | lexeme {l : Lexeme} {blanks : List Char} {q : Reader} : l.WellFormed →
      r.cursor.rest = blanks ++ l.spelling ++ q.cursor.rest →
      Takes r ⟨l.kind, String.ofList l.text, q.here⟩ q
  | unterminated {text blanks : List Char} {q : Reader} : '"' ∉ text →
      r.cursor.rest = blanks ++ '"' :: text → q.cursor.rest = [] →
      Takes r ⟨.string, String.ofList text, q.here⟩ q

variable {r q : Reader} {t : Token}

/-- The blanks that come next, and what is behind them. -/
theorem rest_eq_blanks_append (r : Reader) :
    r.cursor.rest = r.cursor.rest.takeWhile isBlank ++ r.pastBlanks.cursor.rest := by
  rw [Reader.rest_pastBlanks, List.takeWhile_append_dropWhile]

theorem takes_of_scan (h : scan r = .ok t q) : Takes r t q := by
  have split := rest_eq_blanks_append r
  rw [scan_eq] at h
  cases scanned : Scan.of r.pastBlanks.cursor.rest with
  | nothing =>
    rw [scanned] at h
    cases h
    exact .nothing (Scan.eq_nil_of_nothing scanned)
  | lexeme l =>
    rw [scanned] at h
    cases h
    obtain ⟨more, whole⟩ := Scan.exists_spelling_append scanned
    have behind : (r.pastBlanks.advance l.spelling.length).cursor.rest = more := by
      rw [Reader.rest_advance, whole, List.drop_left]
    have taken : r.cursor.rest = r.cursor.rest.takeWhile isBlank ++ l.spelling ++
        (r.pastBlanks.advance l.spelling.length).cursor.rest := by
      rw [behind, List.append_assoc, ← whole]
      exact split
    exact .lexeme (wellFormed_of_scan scanned) taken
  | unterminated text =>
    rw [scanned] at h
    obtain ⟨whole, opened⟩ := Scan.eq_cons_of_unterminated scanned
    rw [whole] at split
    have behind : (r.pastBlanks.advance (text.length + 1)).cursor.rest = [] := by
      rw [Reader.rest_advance, whole]
      exact List.drop_length
    replace h : openString text (r.pastBlanks.advance (text.length + 1)) = .ok t q := h
    obtain ⟨_, q', reported, returned⟩ := bind_eq_ok.1 h
    rw [reportHere_eq_ok reported] at returned
    cases returned
    exact .unterminated opened split behind
  | stray c =>
    rw [scanned] at h
    cases h

/-- An end of the input is scanned only where nothing is left. -/
theorem Takes.rest_eq_nil (h : Takes r t q) (last : t.kind = .endOfInput) :
    q.cursor.rest = [] := by
  cases h with
  | nothing none => exact none
  | lexeme formed split => exact absurd last formed.kind_ne_endOfInput
  | unterminated opened split none => exact none

/-- Every other token that is scanned is made of a lexeme, a string without its end included. -/
theorem Takes.wellFormed (h : Takes r t q) (some : t.kind ≠ .endOfInput) :
    t.lexeme.WellFormed := by
  cases h with
  | nothing none => exact absurd rfl some
  | @lexeme l _ _ formed split =>
    rw [Token.lexeme_mk]
    exact formed
  | @unterminated text _ _ opened split none =>
    have formed : Lexeme.WellFormed ⟨.string, text⟩ := .string opened
    rw [← Token.lexeme_mk ⟨.string, text⟩ q.here] at formed
    exact formed

/-- The word `function` has been taken where a function literal is announced. -/
theorem Takes.split_of_declaration (h : Takes r t q) (declares : t.kind = .functionDeclaration) :
    ∃ blanks, r.cursor.rest = blanks ++ "function".toList ++ q.cursor.rest := by
  cases h with
  | nothing none => cases declares
  | @lexeme l blanks _ formed split =>
    rw [formed.spelling_of_declaration declares] at split
    exact ⟨blanks, split⟩
  | unterminated opened split none => cases declares

end Reading

end Reckoner
