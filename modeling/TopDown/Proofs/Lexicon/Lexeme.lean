import Mathlib.Data.List.TakeWhile
import TopDown.Lexicon.Lexeme

/-!
# The extent of lexemes

The lexeme at the head of a text holds no blank, and what comes after a blank does not change it. A
text that the classification recognises is one lexeme: the lexeme at its head is all of it.
-/

namespace TopDown

namespace Text

theorem isBlank_eq_false_of_printable {c : Char} (hlow : 0x20 < c.toNat) (hhigh : c.toNat < 0x7F) :
    isBlank c = false := by
  simp only [isBlank, within, blankRanges, List.any_cons, List.any_nil, Bool.or_eq_false_iff,
    Bool.and_eq_false_iff, decide_eq_false_iff_not, and_true]
  omega

/-- A run of characters that are not blank ends before a blank. -/
theorem takeWhile_append_of_blank {p : Char → Bool} (hp : ∀ c, p c = true → isBlank c = false)
    {word rest : List Char} (hrest : ∀ c ∈ rest.head?, isBlank c = true) :
    (word ++ rest).takeWhile p = word.takeWhile p := by
  have hstop : rest.takeWhile p = [] := by
    cases rest with
    | nil => rfl
    | cons c rest =>
      have hc : p c = false := by
        by_contra hpc
        simp [hp c (by simpa using hpc)] at hrest
      simp [hc]
  induction word with
  | nil => simpa using hstop
  | cons c word ih => simp [List.takeWhile_cons, ih]

/-- A trimmed text starts with no blank. -/
theorem head?_of_trim {text : List Char} (h : trim text = text) :
    ∀ c ∈ text.head?, isBlank c = false := by
  intro c hc
  obtain ⟨rest, rfl⟩ := List.head?_eq_some_iff.mp hc
  by_contra hblank
  have hdrop : (c :: rest).dropWhile isBlank = rest.dropWhile isBlank :=
    List.dropWhile_cons_of_pos (by simpa using hblank)
  have hfront : (rest.dropWhile isBlank).length ≤ rest.length :=
    (List.dropWhile_sublist _).length_le
  have hback : ((rest.dropWhile isBlank).reverse.dropWhile isBlank).length ≤
      (rest.dropWhile isBlank).reverse.length :=
    (List.dropWhile_sublist _).length_le
  have hlength := congrArg List.length h
  rw [trim, hdrop, List.length_reverse, List.length_cons] at hlength
  rw [List.length_reverse] at hback
  omega

end Text

open TopDown.Text

namespace Lexeme

/-! ## Characters -/

theorem isAlpha_iff {c : Char} :
    c.isAlpha = true ↔ (65 ≤ c.toNat ∧ c.toNat ≤ 90) ∨ (97 ≤ c.toNat ∧ c.toNat ≤ 122) := by
  change (decide (65 ≤ c.toNat ∧ c.toNat ≤ 90) ||
    (decide (97 ≤ c.toNat) && decide (c.toNat ≤ 122))) = true ↔ _
  simp only [Bool.or_eq_true, Bool.and_eq_true, decide_eq_true_eq]

theorem isDigit_iff {c : Char} : c.isDigit = true ↔ 48 ≤ c.toNat ∧ c.toNat ≤ 57 := by
  change (decide (48 ≤ c.toNat) && decide (c.toNat ≤ 57)) = true ↔ _
  simp only [Bool.and_eq_true, decide_eq_true_eq]

theorem isBlank_eq_false_of_isIdentifierRest {c : Char} (h : isIdentifierRest c = true) :
    isBlank c = false := by
  simp only [isIdentifierRest, Char.isAlphanum, Bool.or_eq_true, isAlpha_iff, isDigit_iff,
    decide_eq_true_eq] at h
  rcases h with hplain | rfl
  · exact isBlank_eq_false_of_printable (by omega) (by omega)
  · decide

theorem isBlank_eq_false_of_isDigit {c : Char} (h : c.isDigit = true) : isBlank c = false :=
  isBlank_eq_false_of_isIdentifierRest (by simp [isIdentifierRest, Char.isAlphanum, h])

theorem isBlank_eq_false_of_isAlpha {c : Char} (h : c.isAlpha = true) : isBlank c = false :=
  isBlank_eq_false_of_isIdentifierRest (by simp [isIdentifierRest, Char.isAlphanum, h])

theorem isBlank_eq_false_of_mem_operators {c d : Char} (h : (c, d) ∈ operators) :
    isBlank c = false ∧ isBlank d = false := by
  have hcheck : ∀ p ∈ operators, isBlank p.1 = false ∧ isBlank p.2 = false := by
    decide
  exact hcheck (c, d) h

/-! ## Before a blank -/

section Append

variable {word rest : List Char}

theorem numberLength_append (hrest : ∀ c ∈ rest.head?, isBlank c = true) :
    numberLength (word ++ rest) = numberLength word := by
  have hrun (front : List Char) : (front ++ rest).takeWhile Char.isDigit =
      front.takeWhile Char.isDigit :=
    takeWhile_append_of_blank (fun _ => isBlank_eq_false_of_isDigit) hrest
  have hle : (word.takeWhile Char.isDigit).length ≤ word.length :=
    (List.takeWhile_prefix _).length_le
  simp only [numberLength, hrun, List.drop_append_of_le_length hle]
  cases word.drop (word.takeWhile Char.isDigit).length with
  | nil =>
    cases rest with
    | nil => rfl
    | cons c rest =>
      have hc : c ≠ '.' := by
        rintro rfl
        exact absurd (hrest '.' rfl) (by decide)
      simp [hc]
  | cons c front =>
    by_cases hc : c = '.'
    · simp [hc, hrun]
    · simp [hc]

theorem identifierLength_append (hrest : ∀ c ∈ rest.head?, isBlank c = true) :
    identifierLength (word ++ rest) = identifierLength word := by
  cases word with
  | nil =>
    cases rest with
    | nil => rfl
    | cons c rest =>
      have hc : c.isAlpha = false := by
        by_contra halpha
        simp [isBlank_eq_false_of_isAlpha (by simpa using halpha)] at hrest
      simp [identifierLength, hc]
  | cons c word =>
    have hrun : (word ++ rest).takeWhile isIdentifierRest = word.takeWhile isIdentifierRest :=
      takeWhile_append_of_blank (fun _ => isBlank_eq_false_of_isIdentifierRest) hrest
    simp [identifierLength, hrun]

theorem operatorLength_append (hrest : ∀ c ∈ rest.head?, isBlank c = true) :
    operatorLength (word ++ rest) = operatorLength word := by
  have hblank (c d : Char) (h : isBlank c = true ∨ isBlank d = true) : (c, d) ∉ operators := by
    intro hmem
    obtain ⟨hc, hd⟩ := isBlank_eq_false_of_mem_operators hmem
    simp [hc, hd] at h
  match word, rest with
  | [], [] | [], [c] | [c], [] | c :: d :: word, rest => rfl
  | [], c :: d :: rest => simp [operatorLength, hblank c d (Or.inl (hrest c rfl))]
  | [c], d :: rest => simp [operatorLength, hblank c d (Or.inr (hrest d rfl))]

/-- What comes after a blank does not change the lexeme at the head. -/
theorem length_append (hrest : ∀ c ∈ rest.head?, isBlank c = true) :
    length (word ++ rest) = length word := by
  rw [length, numberLength_append hrest, identifierLength_append hrest,
    operatorLength_append hrest, length]

end Append

/-! ## Characters of a lexeme -/

theorem take_length_takeWhile (p : Char → Bool) (text : List Char) :
    text.take (text.takeWhile p).length = text.takeWhile p :=
  (List.prefix_iff_eq_take.mp (List.takeWhile_prefix p)).symm

theorem isDigit_or_eq_of_mem_number {text : List Char} {c : Char}
    (h : c ∈ text.take (numberLength text)) : c.isDigit = true ∨ c = '.' := by
  have hwhole : c ∈ text.take (text.takeWhile Char.isDigit).length → c.isDigit = true := by
    rw [take_length_takeWhile]
    exact List.mem_takeWhile_imp
  simp only [numberLength] at h
  split at h
  · simp at h
  · split at h
    · next rest hdrop =>
      split at h
      · exact Or.inl (hwhole h)
      · rw [Nat.add_assoc, List.take_add, List.mem_append, hdrop, Nat.add_comm, List.take_succ_cons,
          take_length_takeWhile _ rest, List.mem_cons] at h
        rcases h with hfront | hpoint | hback
        · exact Or.inl (hwhole hfront)
        · exact Or.inr hpoint
        · exact Or.inl (List.mem_takeWhile_imp hback)
    · exact Or.inl (hwhole h)

theorem isIdentifierRest_of_mem_identifier {text : List Char} {c : Char}
    (h : c ∈ text.take (identifierLength text)) : isIdentifierRest c = true := by
  cases text with
  | nil => simp at h
  | cons d rest =>
    simp only [identifierLength] at h
    split at h
    · next hd =>
      rw [Nat.add_comm, List.take_succ_cons, take_length_takeWhile, List.mem_cons] at h
      rcases h with rfl | hrest
      · simp [isIdentifierRest, Char.isAlphanum, hd]
      · exact List.mem_takeWhile_imp hrest
    · simp at h

theorem mem_operators_of_operatorLength {text : List Char} (h : operatorLength text ≠ 0) :
    ∃ c d rest, text = c :: d :: rest ∧ (c, d) ∈ operators ∧ operatorLength text = 2 := by
  match text with
  | [] | [c] => simp [operatorLength] at h
  | c :: d :: rest =>
    by_cases hmem : (c, d) ∈ operators
    · exact ⟨c, d, rest, rfl, hmem, by simp [operatorLength, hmem]⟩
    · simp [operatorLength, hmem] at h

/-- The lexeme at the head of a text that starts with no blank holds none. -/
theorem isBlank_eq_false_of_mem_take {text : List Char}
    (htext : ∀ c ∈ text.head?, isBlank c = false) {c : Char} (h : c ∈ text.take (length text)) :
    isBlank c = false := by
  unfold length at h
  split at h
  · rcases isDigit_or_eq_of_mem_number h with hdigit | rfl
    · exact isBlank_eq_false_of_isDigit hdigit
    · decide
  · split at h
    · exact isBlank_eq_false_of_isIdentifierRest (isIdentifierRest_of_mem_identifier h)
    · split at h
      · next hoperator =>
        obtain ⟨d, e, rest, rfl, hmem, htwo⟩ := mem_operators_of_operatorLength hoperator
        obtain ⟨hd, he⟩ := isBlank_eq_false_of_mem_operators hmem
        rw [htwo] at h
        rcases (by simpa using h : c = d ∨ c = e) with rfl | rfl
        · exact hd
        · exact he
      · cases text with
        | nil => simp at h
        | cons d rest =>
          obtain rfl : c = d := by simpa using h
          exact htext c rfl

/-! ## Recognised texts -/

theorem length_of_numberLength {text : List Char} (h : numberLength text = text.length)
    (hne : text ≠ []) : length text = text.length := by
  have hpos := List.length_pos_iff.mpr hne
  rw [length, if_pos (by omega), h]

theorem isAlpha_of_identifierLength {c : Char} {rest : List Char}
    (h : identifierLength (c :: rest) ≠ 0) : c.isAlpha = true := by
  by_contra halpha
  simp [identifierLength, halpha] at h

theorem isDigit_eq_false_of_isAlpha {c : Char} (h : c.isAlpha = true) : c.isDigit = false := by
  rw [isAlpha_iff] at h
  rw [Bool.eq_false_iff, ne_eq, isDigit_iff]
  omega

theorem numberLength_eq_zero_of_head {c : Char} (hc : c.isDigit = false) (rest : List Char) :
    numberLength (c :: rest) = 0 := by
  simp [numberLength, hc]

theorem length_of_identifierLength {text : List Char} (h : identifierLength text = text.length)
    (hne : text ≠ []) : length text = text.length := by
  obtain ⟨c, rest, rfl⟩ := List.exists_cons_of_ne_nil hne
  have hpos : identifierLength (c :: rest) ≠ 0 := by simp [h]
  have hdigit := isDigit_eq_false_of_isAlpha (isAlpha_of_identifierLength hpos)
  have hnumber := numberLength_eq_zero_of_head hdigit rest
  rw [length, if_neg (by simp [hnumber]), if_pos hpos, h]

end Lexeme

namespace Kind

/-- A trimmed text of a known kind is a number, reserved, or an identifier. -/
theorem shape_of_ofLexeme {text : List Char} (htrim : trim text = text)
    (hend : ofLexeme (String.ofList text) ≠ .endOfInput)
    (hknown : ofLexeme (String.ofList text) ≠ .unrecognized) :
    text ≠ [] ∧ (Lexeme.numberLength text = text.length ∨
      (∃ kind, reserved? (String.ofList text) = some kind) ∨
      Lexeme.identifierLength text = text.length) := by
  simp only [ofLexeme, String.toList_ofList, htrim] at hend hknown
  split at hend
  · exact absurd rfl hend
  · next hne =>
    refine ⟨by simpa using hne, ?_⟩
    rw [if_neg hne] at hknown
    split at hknown
    · next hnumber => exact Or.inl hnumber
    · split at hknown
      · next kind hreserved => exact Or.inr (Or.inl ⟨kind, hreserved⟩)
      · split at hknown
        · next hidentifier => exact Or.inr (Or.inr hidentifier)
        · exact absurd rfl hknown

theorem spelling_of_reserved? {lexeme : String} {kind : Kind} (h : reserved? lexeme = some kind) :
    kind.spelling = some lexeme := by
  simpa using List.find?_some h

theorem length_of_spelling {lexeme : String} {kind : Kind} (h : kind.spelling = some lexeme) :
    Lexeme.length lexeme.toList = lexeme.toList.length := by
  have hcheck : ∀ kind ∈ all, ∀ lexeme ∈ kind.spelling,
      Lexeme.length lexeme.toList = lexeme.toList.length := by
    decide +kernel
  exact hcheck kind kind.mem_all lexeme h

/-- A trimmed text of a known kind is one lexeme. -/
theorem length_of_ofLexeme {text : List Char} (htrim : trim text = text)
    (hend : ofLexeme (String.ofList text) ≠ .endOfInput)
    (hknown : ofLexeme (String.ofList text) ≠ .unrecognized) :
    Lexeme.length text = text.length := by
  obtain ⟨hne, hshape⟩ := shape_of_ofLexeme htrim hend hknown
  rcases hshape with hnumber | ⟨kind, hreserved⟩ | hidentifier
  · exact Lexeme.length_of_numberLength hnumber hne
  · simpa using length_of_spelling (spelling_of_reserved? hreserved)
  · exact Lexeme.length_of_identifierLength hidentifier hne

/-- A trimmed text of a known kind holds no blank. -/
theorem isBlank_eq_false_of_ofLexeme {text : List Char} (htrim : trim text = text)
    (hend : ofLexeme (String.ofList text) ≠ .endOfInput)
    (hknown : ofLexeme (String.ofList text) ≠ .unrecognized) :
    ∀ c ∈ text, isBlank c = false := by
  intro c hc
  have hlength := length_of_ofLexeme htrim hend hknown
  apply Lexeme.isBlank_eq_false_of_mem_take (head?_of_trim htrim)
  rwa [hlength, List.take_length]

end Kind

end TopDown
