import Mathlib.Data.List.TakeWhile
import TopDown.Lexicon.Scan

/-!
# Kinds of scanned tokens

A lexeme is at least one character long and starts with no blank, so that something is left of it
when it is trimmed. No token that is scanned from a text is therefore of the kind of end-of-input.
-/

namespace TopDown

theorem Lexeme.length_pos (text : List Char) : 0 < Lexeme.length text := by
  unfold Lexeme.length
  split
  · omega
  · split
    · omega
    · split
      · omega
      · exact Nat.one_pos

/-- A lexeme starts with a character that is not blank. -/
theorem mem_lexemes {column skip place : Nat} {text lexeme : List Char}
    (h : (place, lexeme) ∈ lexemes column skip text) :
    ∃ c rest, lexeme = c :: rest ∧ Text.isBlank c = false := by
  fun_induction lexemes column skip text with
  | case1 => cases h
  | case2 column skip c rest ih => exact ih h
  | case3 column c rest hblank ih => exact ih h
  | case4 column c rest hblank length ih =>
    rcases List.mem_cons.mp h with hfirst | hlater
    · obtain ⟨_, rfl⟩ := Prod.mk.inj hfirst
      obtain ⟨n, hn⟩ := Nat.exists_eq_succ_of_ne_zero (Nat.ne_of_gt (Lexeme.length_pos (c :: rest)))
      refine ⟨c, rest.take n, ?_, by simpa using hblank⟩
      show List.take (Lexeme.length (c :: rest)) (c :: rest) = _
      rw [hn, List.take_succ_cons]
    · exact ih hlater

/-- Trimming leaves the first character that is not blank. -/
theorem Text.trim_cons_ne_nil {c : Char} {rest : List Char} (hc : Text.isBlank c = false) :
    Text.trim (c :: rest) ≠ [] := by
  have hfront : (c :: rest).dropWhile Text.isBlank = c :: rest := by
    simp [hc]
  intro htrim
  rw [Text.trim, hfront, List.reverse_eq_nil_iff, List.dropWhile_eq_nil_iff] at htrim
  simpa [hc] using htrim c (by simp)

/-- No kind without a spelling is reserved. -/
theorem Kind.ne_endOfInput_of_reserved? {lexeme : String} {kind : Kind}
    (h : Kind.reserved? lexeme = some kind) : kind ≠ .endOfInput := by
  rintro rfl
  simpa [Kind.spelling] using List.find?_some h

theorem Kind.ofLexeme_ne_endOfInput {c : Char} {rest : List Char}
    (hc : Text.isBlank c = false) : Kind.ofLexeme (String.ofList (c :: rest)) ≠ .endOfInput := by
  have htrim : (Text.trim (c :: rest)).isEmpty = false := by
    simpa using Text.trim_cons_ne_nil hc
  simp only [Kind.ofLexeme, String.toList_ofList, htrim, Bool.false_eq_true, if_false]
  split
  · decide
  · split
    · next kind hreserved => exact Kind.ne_endOfInput_of_reserved? hreserved
    · split <;> decide

/-- A program text has no token of the kind of end-of-input. -/
theorem Token.kind_ne_endOfInput_of_mem_scan {text : String} {t : Token}
    (h : t ∈ Token.scan text) : t.kind ≠ .endOfInput := by
  obtain ⟨⟨number, line⟩, _, hline⟩ := List.mem_flatMap.mp h
  obtain ⟨⟨column, lexeme⟩, hlexeme, rfl⟩ := List.mem_map.mp hline
  obtain ⟨c, rest, rfl, hc⟩ := mem_lexemes hlexeme
  exact Kind.ofLexeme_ne_endOfInput hc

theorem Token.endOfInput_not_mem_scan (text : String) :
    .endOfInput ∉ (scan text).map kind := by
  intro hmem
  obtain ⟨t, ht, hkind⟩ := List.mem_map.mp hmem
  exact kind_ne_endOfInput_of_mem_scan ht hkind

end TopDown
