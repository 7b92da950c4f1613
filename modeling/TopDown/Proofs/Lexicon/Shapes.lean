import Mathlib.Data.List.TakeWhile
import TopDown.Proofs.Lexicon.Lexeme

/-!
# Shapes of lexemes

The lexeme at the head of a text does not need the text: taken by itself it is a number, an
identifier, a two-character operator or a single character as before, and one lexeme. So lexemes can
be set apart without being cut into smaller ones.
-/

namespace TopDown

namespace Lexeme

/-- Digits, or digits with a point and more digits after them. -/
inductive IsNumber : List Char → Prop
  | whole {digits : List Char} (hne : digits ≠ []) (hdigits : ∀ c ∈ digits, c.isDigit = true) :
      IsNumber digits
  | fraction {digits more : List Char} (hne : digits ≠ [])
      (hdigits : ∀ c ∈ digits, c.isDigit = true) (hne' : more ≠ [])
      (hmore : ∀ c ∈ more, c.isDigit = true) : IsNumber (digits ++ '.' :: more)

/-- A letter, and after it letters, digits and underscores. -/
inductive IsIdentifier : List Char → Prop
  | cons {c : Char} {rest : List Char} (hc : c.isAlpha = true)
      (hrest : ∀ d ∈ rest, isIdentifierRest d = true) : IsIdentifier (c :: rest)

/-- A run that something else ends is all that is taken. -/
theorem takeWhile_append_of_head {p : Char → Bool} {run rest : List Char}
    (hrun : ∀ c ∈ run, p c = true) (hrest : ∀ c ∈ rest.head?, p c = false) :
    (run ++ rest).takeWhile p = run := by
  rw [List.takeWhile_append_of_pos hrun]
  cases rest with
  | nil => simp
  | cons c rest => simp [hrest c rfl]

variable {text : List Char}

/-! ## Numbers -/

theorem IsNumber.numberLength_eq (h : IsNumber text) : numberLength text = text.length := by
  cases h with
  | whole hne hdigits =>
    have hrun : text.takeWhile Char.isDigit = text := List.takeWhile_eq_self_iff.mpr hdigits
    simp [numberLength, hrun, hne]
  | @fraction digits more hne hdigits hne' hmore =>
    have hrun : (digits ++ '.' :: more).takeWhile Char.isDigit = digits :=
      takeWhile_append_of_head hdigits (by simp)
    have hmore' : more.takeWhile Char.isDigit = more := List.takeWhile_eq_self_iff.mpr hmore
    have hpos := List.length_pos_iff.mpr hne
    have hpos' := List.length_pos_iff.mpr hne'
    simp only [numberLength, hrun, List.drop_left, hmore']
    rw [if_neg (by omega), if_neg (by omega), List.length_append, List.length_cons]
    omega

/-- The number at the head of a text is one, and lies in the text. -/
theorem isNumber_take (h : numberLength text ≠ 0) :
    IsNumber (text.take (numberLength text)) ∧ numberLength text ≤ text.length := by
  have hdigits : ∀ c ∈ text.takeWhile Char.isDigit, c.isDigit = true :=
    fun _ => List.mem_takeWhile_imp
  have hle : (text.takeWhile Char.isDigit).length ≤ text.length :=
    (List.takeWhile_prefix _).length_le
  have hne : text.takeWhile Char.isDigit ≠ [] := by
    intro hnil
    simp [numberLength, hnil] at h
  have hwhole : IsNumber (text.take (text.takeWhile Char.isDigit).length) := by
    rw [take_length_takeWhile]
    exact .whole hne hdigits
  simp only [numberLength] at h ⊢
  rw [if_neg (fun hzero => hne (List.length_eq_zero_iff.mp hzero))]
  split
  · next rest hdrop =>
    split
    · exact ⟨hwhole, hle⟩
    · next hfraction =>
      have hne' : rest.takeWhile Char.isDigit ≠ [] := by simpa using hfraction
      have hsplit : text = text.takeWhile Char.isDigit ++ '.' :: rest := by
        rw [← hdrop, ← take_length_takeWhile, List.length_take, Nat.min_eq_left hle,
          List.take_append_drop]
      have hrest : (rest.takeWhile Char.isDigit).length ≤ rest.length :=
        (List.takeWhile_prefix _).length_le
      have hlength := congrArg List.length hsplit
      rw [List.length_append, List.length_cons] at hlength
      refine ⟨?_, by omega⟩
      rw [Nat.add_assoc, List.take_add, hdrop, take_length_takeWhile, Nat.add_comm,
        List.take_succ_cons, take_length_takeWhile]
      exact .fraction hne hdigits hne' fun _ => List.mem_takeWhile_imp
  · exact ⟨hwhole, hle⟩

theorem numberLength_ne_zero_of_isDigit {c : Char} (hc : c.isDigit = true) (rest : List Char) :
    numberLength (c :: rest) ≠ 0 := by
  simp only [numberLength, List.takeWhile_cons_of_pos hc, List.length_cons]
  rw [if_neg (Nat.succ_ne_zero _)]
  split
  · split <;> omega
  · omega

/-! ## Identifiers -/

theorem IsIdentifier.identifierLength_eq (h : IsIdentifier text) :
    identifierLength text = text.length := by
  cases h with
  | @cons c rest hc hrest =>
    have hrun : rest.takeWhile isIdentifierRest = rest := List.takeWhile_eq_self_iff.mpr hrest
    rw [identifierLength, if_pos hc, hrun, List.length_cons, Nat.add_comm]

/-- The identifier at the head of a text is one, and lies in the text. -/
theorem isIdentifier_take (h : identifierLength text ≠ 0) :
    IsIdentifier (text.take (identifierLength text)) ∧ identifierLength text ≤ text.length := by
  cases text with
  | nil => exact absurd rfl h
  | cons c rest =>
    have hc := isAlpha_of_identifierLength h
    have hle : (rest.takeWhile isIdentifierRest).length ≤ rest.length :=
      (List.takeWhile_prefix _).length_le
    rw [identifierLength, if_pos hc, Nat.add_comm, List.take_succ_cons, take_length_takeWhile,
      List.length_cons]
    exact ⟨.cons hc fun _ => List.mem_takeWhile_imp, by omega⟩

/-! ## Lexemes by themselves -/

theorem length_of_mem_operators {c d : Char} (h : (c, d) ∈ operators) : length [c, d] = 2 := by
  have hcheck : ∀ p ∈ operators, length [p.1, p.2] = 2 := by
    decide
  exact hcheck (c, d) h

theorem length_singleton {c : Char} {rest : List Char} (hnumber : numberLength (c :: rest) = 0)
    (hidentifier : identifierLength (c :: rest) = 0) : length [c] = 1 := by
  have hdigit : c.isDigit = false := by
    by_contra hc
    exact numberLength_ne_zero_of_isDigit (by simpa using hc) rest hnumber
  have halpha : c.isAlpha = false := by
    by_contra hc
    simp [identifierLength, hc] at hidentifier
  simp [length, numberLength, identifierLength, operatorLength, hdigit, halpha]

/-- The lexeme at the head of a text lies in the text, and is one lexeme by itself. -/
theorem length_take (hne : text ≠ []) :
    length (text.take (length text)) = length text ∧ length text ≤ text.length := by
  have hself {n : Nat} (hle : n ≤ text.length) (h : length (text.take n) = (text.take n).length) :
      length (text.take n) = n ∧ n ≤ text.length := by
    rw [h, List.length_take, Nat.min_eq_left hle]
    exact ⟨rfl, hle⟩
  have htake {n : Nat} (hn : n ≠ 0) : text.take n ≠ [] := by
    rw [ne_eq, List.take_eq_nil_iff, not_or]
    exact ⟨hn, hne⟩
  generalize hlength : length text = n
  rw [length] at hlength
  split at hlength
  · next hnumber =>
    subst hlength
    obtain ⟨hshape, hle⟩ := isNumber_take hnumber
    exact hself hle (length_of_numberLength hshape.numberLength_eq (htake hnumber))
  · next hnumber =>
    rw [ne_eq, not_not] at hnumber
    split at hlength
    · next hidentifier =>
      subst hlength
      obtain ⟨hshape, hle⟩ := isIdentifier_take hidentifier
      exact hself hle (length_of_identifierLength hshape.identifierLength_eq (htake hidentifier))
    · next hidentifier =>
      rw [ne_eq, not_not] at hidentifier
      split at hlength
      · next hoperator =>
        obtain ⟨c, d, rest, rfl, hmem, htwo⟩ := mem_operators_of_operatorLength hoperator
        rw [← hlength, htwo]
        exact ⟨length_of_mem_operators hmem, by simp⟩
      · obtain ⟨c, rest, rfl⟩ := List.exists_cons_of_ne_nil hne
        subst hlength
        exact ⟨length_singleton hnumber hidentifier, by simp⟩

end Lexeme

end TopDown
