import TopDown.Proofs.Lexicon.Layout
import TopDown.Proofs.Lexicon.Shapes

/-!
# The longest lexeme

The shapes of lexemes are tried in a fixed order, and the first that fits is taken. Yet what is
taken is the longest lexeme there is: a shape that is tried later starts with another character, or
is no longer than what is taken. Its kind follows from its first character, unless it is reserved.
-/

namespace TopDown

open TopDown.Text

namespace Lexeme

/-- The shapes of lexemes, in no order. -/
inductive IsLexeme : List Char → Prop
  | number {word : List Char} (h : IsNumber word) : IsLexeme word
  | identifier {word : List Char} (h : IsIdentifier word) : IsLexeme word
  | operator {c d : Char} (h : (c, d) ∈ operators) : IsLexeme [c, d]
  | single {c : Char} (hc : isBlank c = false) : IsLexeme [c]

/-- Whether no lexeme at the head of the text is longer than this one. -/
structure Longest (lexeme text : List Char) : Prop where
  at_head : lexeme <+: text
  shape : IsLexeme lexeme
  le : ∀ word, word <+: text → IsLexeme word → word.length ≤ lexeme.length

variable {text word : List Char}

/-! ## What is taken -/

theorem not_alphanum_of_mem_operators {c d : Char} (h : (c, d) ∈ operators) :
    c.isDigit = false ∧ c.isAlpha = false := by
  have hcheck : ∀ p ∈ operators, p.1.isDigit = false ∧ p.1.isAlpha = false := by
    decide
  exact hcheck (c, d) h

theorem numberLength_le_length (text : List Char) : numberLength text ≤ length text := by
  by_cases hnumber : numberLength text = 0
  · omega
  · rw [length, if_pos hnumber]

theorem identifierLength_le_length (text : List Char) : identifierLength text ≤ length text := by
  by_cases hidentifier : identifierLength text = 0
  · omega
  · obtain _ | ⟨c, rest⟩ := text
    · exact absurd rfl hidentifier
    · have hdigit := isDigit_eq_false_of_isAlpha (isAlpha_of_identifierLength hidentifier)
      rw [length, if_neg (by simp [numberLength_eq_zero_of_head hdigit]), if_pos hidentifier]

theorem operatorLength_le_length (text : List Char) : operatorLength text ≤ length text := by
  by_cases hoperator : operatorLength text = 0
  · omega
  · obtain ⟨c, d, rest, rfl, hmem, _⟩ := mem_operators_of_operatorLength hoperator
    obtain ⟨hdigit, halpha⟩ := not_alphanum_of_mem_operators hmem
    rw [length, if_neg (by simp [numberLength_eq_zero_of_head hdigit]),
      if_neg (by simp [identifierLength, halpha]), if_pos hoperator]

/-- What is taken off a text that starts with no blank is a lexeme. -/
theorem isLexeme_take {c : Char} (hc : isBlank c = false) (rest : List Char) :
    IsLexeme ((c :: rest).take (length (c :: rest))) := by
  unfold length
  split
  · next hnumber => exact .number (isNumber_take hnumber).1
  · split
    · next hidentifier => exact .identifier (isIdentifier_take hidentifier).1
    · split
      · next hoperator =>
        obtain ⟨d, e, tail, htext, hmem, htwo⟩ := mem_operators_of_operatorLength hoperator
        rw [htwo, htext]
        exact .operator hmem
      · exact .single hc

/-! ## What could be taken -/

theorem length_le_takeWhile {p : Char → Bool} (hword : ∀ c ∈ word, p c = true)
    (hhead : word <+: text) : word.length ≤ (text.takeWhile p).length := by
  obtain ⟨rest, rfl⟩ := hhead
  rw [List.takeWhile_append_of_pos hword, List.length_append]
  exact Nat.le_add_right _ _

theorem takeWhile_le_numberLength (text : List Char) :
    (text.takeWhile Char.isDigit).length ≤ numberLength text := by
  simp only [numberLength]
  split
  · omega
  · split
    · split <;> omega
    · exact Nat.le_refl _

theorem IsNumber.le_numberLength (h : IsNumber word) (hhead : word <+: text) :
    word.length ≤ numberLength text := by
  cases h with
  | whole hne hdigits =>
    exact Nat.le_trans (length_le_takeWhile hdigits hhead) (takeWhile_le_numberLength text)
  | @fraction digits more hne hdigits hne' hmore =>
    obtain ⟨rest, rfl⟩ := hhead
    -- The point ends the whole part, also in a longer text.
    have hrun : (digits ++ '.' :: (more ++ rest)).takeWhile Char.isDigit = digits :=
      takeWhile_append_of_head hdigits (by simp)
    have hle := length_le_takeWhile hmore (List.prefix_append more rest)
    have hpos := List.length_pos_iff.mpr hne
    have hpos' := List.length_pos_iff.mpr hne'
    rw [List.append_assoc, List.cons_append]
    simp only [numberLength, hrun, List.drop_left]
    rw [if_neg (by omega), if_neg (by omega), List.length_append, List.length_cons]
    omega

theorem IsIdentifier.le_identifierLength (h : IsIdentifier word) (hhead : word <+: text) :
    word.length ≤ identifierLength text := by
  cases h with
  | @cons c front hc hfront =>
    obtain ⟨rest, rfl⟩ := hhead
    have hle := length_le_takeWhile hfront (List.prefix_append front rest)
    rw [List.cons_append, identifierLength, if_pos hc, List.length_cons]
    omega

/-- No lexeme at the head of a text is longer than what is taken. -/
theorem IsLexeme.le_length (h : IsLexeme word) (hhead : word <+: text) :
    word.length ≤ length text := by
  cases h with
  | number h => exact Nat.le_trans (h.le_numberLength hhead) (numberLength_le_length text)
  | identifier h =>
    exact Nat.le_trans (h.le_identifierLength hhead) (identifierLength_le_length text)
  | @operator c d h =>
    obtain ⟨rest, rfl⟩ := hhead
    have htwo : operatorLength ([c, d] ++ rest) = 2 := by simp [operatorLength, h]
    have hle := operatorLength_le_length ([c, d] ++ rest)
    rwa [htwo] at hle
  | single hc => exact length_pos text

theorem longest_take {c : Char} (hc : isBlank c = false) (rest : List Char) :
    Longest ((c :: rest).take (length (c :: rest))) (c :: rest) where
  at_head := List.take_prefix _ _
  shape := isLexeme_take hc rest
  le word hhead hword := by
    rw [List.length_take, Nat.min_eq_left (length_take (List.cons_ne_nil c rest)).2]
    exact hword.le_length hhead

/-! ## By the first character -/

namespace IsLexeme

theorem not_blank (h : IsLexeme word) : ∀ c ∈ word, isBlank c = false := by
  cases h with
  | number h =>
    intro c hc
    rw [← List.take_length (l := word), ← h.numberLength_eq] at hc
    rcases isDigit_or_eq_of_mem_number hc with hdigit | rfl
    · exact isBlank_eq_false_of_isDigit hdigit
    · decide
  | identifier h =>
    intro c hc
    rw [← List.take_length (l := word), ← h.identifierLength_eq] at hc
    exact isBlank_eq_false_of_isIdentifierRest (isIdentifierRest_of_mem_identifier hc)
  | operator h => simpa using isBlank_eq_false_of_mem_operators h
  | single hc => simpa using hc

theorem ne_nil (h : IsLexeme word) : word ≠ [] := by
  cases h with
  | number h => cases h with
    | whole hne _ => exact hne
    | fraction => simp
  | identifier h => cases h with
    | cons => exact List.cons_ne_nil _ _
  | operator => exact List.cons_ne_nil _ _
  | single => exact List.cons_ne_nil _ _

variable {c : Char} {rest : List Char}

theorem isNumber (h : IsLexeme (c :: rest)) (hc : c.isDigit = true) : IsNumber (c :: rest) := by
  cases h with
  | number h => exact h
  | identifier h => cases h with
    | cons halpha => simp [isDigit_eq_false_of_isAlpha halpha] at hc
  | operator h => simp [(not_alphanum_of_mem_operators h).1] at hc
  | single => exact .whole (List.cons_ne_nil _ _) (by simpa using hc)

theorem isIdentifier (h : IsLexeme (c :: rest)) (hc : c.isAlpha = true) :
    IsIdentifier (c :: rest) := by
  cases h with
  | number h =>
    have hzero : numberLength (c :: rest) = 0 :=
      numberLength_eq_zero_of_head (isDigit_eq_false_of_isAlpha hc) rest
    simp [h.numberLength_eq] at hzero
  | identifier h => exact h
  | operator h => simp [(not_alphanum_of_mem_operators h).2] at hc
  | single => exact .cons hc (by simp)

end IsLexeme

end Lexeme

/-! ## Kinds -/

theorem Text.trim_of_not_blank {text : List Char} (h : ∀ c ∈ text, isBlank c = false) :
    trim text = text := by
  have hdrop {text : List Char} (h : ∀ c ∈ text, isBlank c = false) :
      text.dropWhile isBlank = text := by
    cases text with
    | nil => rfl
    | cons c rest => exact List.dropWhile_cons_of_neg (by simp [h c (by simp)])
  rw [trim, hdrop h, hdrop (by simpa using h), List.reverse_reverse]

namespace Kind

/-- A kind is the one of a lexeme by the reserved lexemes and by its first character. -/
structure Fits (kind : Kind) (lexeme : String) : Prop where
  number : ∀ c ∈ lexeme.toList.head?, c.isDigit = true → kind = .number
  reserved : ∀ k : Kind, k.spelling = some lexeme → kind = k
  identifier : ∀ c ∈ lexeme.toList.head?, c.isAlpha = true →
    (∀ k : Kind, k.spelling ≠ some lexeme) → kind = .identifier
  unrecognized : ∀ c ∈ lexeme.toList.head?, c.isDigit = false → c.isAlpha = false →
    (∀ k : Kind, k.spelling ≠ some lexeme) → kind = .unrecognized

/-- A reserved lexeme is no number and reserved for one kind only. -/
theorem of_spelling {kind : Kind} {lexeme : String} (h : kind.spelling = some lexeme) :
    reserved? lexeme = some kind ∧
      Lexeme.numberLength lexeme.toList ≠ lexeme.toList.length := by
  have hcheck : ∀ kind ∈ all, ∀ lexeme ∈ kind.spelling, reserved? lexeme = some kind ∧
      Lexeme.numberLength lexeme.toList ≠ lexeme.toList.length := by
    decide +kernel
  exact hcheck kind kind.mem_all lexeme h

theorem reserved?_eq_none {lexeme : String} (h : ∀ k : Kind, k.spelling ≠ some lexeme) :
    reserved? lexeme = none := by
  rw [Option.eq_none_iff_forall_ne_some]
  exact fun kind hreserved => h kind (spelling_of_reserved? hreserved)

theorem ofLexeme_of_not_blank {word : List Char} (hne : word ≠ [])
    (h : ∀ c ∈ word, isBlank c = false) : ofLexeme (String.ofList word) =
      if Lexeme.numberLength word = word.length then .number
      else (reserved? (String.ofList word)).getD
        (if Lexeme.identifierLength word = word.length then .identifier else .unrecognized) := by
  simp only [ofLexeme, String.toList_ofList, trim_of_not_blank h]
  rw [if_neg (by simpa using hne)]
  cases reserved? (String.ofList word) <;> rfl

/-- A lexeme is read as of the kind that fits it. -/
theorem fits_ofLexeme {word : List Char} (h : Lexeme.IsLexeme word) :
    (ofLexeme (String.ofList word)).Fits (String.ofList word) := by
  obtain ⟨c, rest, rfl⟩ := List.exists_cons_of_ne_nil h.ne_nil
  have hnumber (hc : c.isDigit = false) :
      Lexeme.numberLength (c :: rest) ≠ (c :: rest).length := by
    simp [Lexeme.numberLength_eq_zero_of_head hc]
  have hhead {d : Char} (hd : d ∈ (String.ofList (c :: rest)).toList.head?) : c = d := by
    simpa using hd
  rw [ofLexeme_of_not_blank h.ne_nil h.not_blank]
  constructor
  · intro d hd hdigit
    obtain rfl := hhead hd
    rw [if_pos (h.isNumber hdigit).numberLength_eq]
  · intro kind hspelling
    obtain ⟨hreserved, hno⟩ := of_spelling hspelling
    rw [String.toList_ofList] at hno
    rw [if_neg hno, hreserved, Option.getD_some]
  · intro d hd halpha hfree
    obtain rfl := hhead hd
    rw [if_neg (hnumber (Lexeme.isDigit_eq_false_of_isAlpha halpha)), reserved?_eq_none hfree]
    exact if_pos (h.isIdentifier halpha).identifierLength_eq
  · intro d hd hdigit halpha hfree
    obtain rfl := hhead hd
    rw [if_neg (hnumber hdigit), reserved?_eq_none hfree]
    exact if_neg (by simp [Lexeme.identifierLength, halpha])

end Kind

/-! ## Tokens -/

/-- A lexeme of a line is the longest one at its place. -/
theorem longest_of_mem_lexemes {column skip place : Nat} {text lexeme : List Char}
    (h : (place, lexeme) ∈ lexemes column skip text) :
    ∃ i, place = column + i ∧ Lexeme.Longest lexeme (text.drop i) := by
  fun_induction lexemes column skip text with
  | case1 => cases h
  | case2 column skip c rest ih =>
    obtain ⟨i, rfl, hlongest⟩ := ih h
    exact ⟨i + 1, by omega, hlongest⟩
  | case3 column c rest hblank ih =>
    obtain ⟨i, rfl, hlongest⟩ := ih h
    exact ⟨i + 1, by omega, hlongest⟩
  | case4 column c rest hblank length ih =>
    rcases List.mem_cons.mp h with hfirst | hlater
    · obtain ⟨rfl, rfl⟩ := Prod.mk.inj hfirst
      exact ⟨0, rfl, Lexeme.longest_take (by simpa using hblank) rest⟩
    · obtain ⟨i, rfl, hlongest⟩ := ih hlater
      exact ⟨i + 1, by omega, hlongest⟩

namespace Token

/-- A token is the longest lexeme of its line at its column, of the kind that such a lexeme has. -/
theorem scan_takes_longest {text : String} {t : Token} (ht : t ∈ scan text) :
    (∃ (number column : Nat) (line : List Char), t.line = number + 1 ∧ t.column = column + 1 ∧
      (lines text.toList)[number]? = some line ∧
      Lexeme.Longest t.lexeme.toList (line.drop column)) ∧
    t.kind.Fits t.lexeme ∧ t.kind ≠ .endOfInput := by
  obtain ⟨number, line, hline, _, ⟨place, lexeme⟩, hspan, rfl⟩ := mem_scan_iff.mp ht
  obtain ⟨column, rfl, hlongest⟩ := longest_of_mem_lexemes hspan
  refine ⟨⟨number, column, line, by simp [placed], ?_, hline, by simpa [placed] using hlongest⟩,
    Kind.fits_ofLexeme hlongest.shape, kind_ne_endOfInput_of_mem_scan ht⟩
  show ((1 + column : Nat) : Int) = column + 1
  omega

theorem scan_takes_longest_of_arrow :
    (⟨.arrow, "<-", 1, 1⟩ : Token) ∈ scan "<->" ∧ Lexeme.Longest ['<', '-'] ['<', '-', '>'] := by
  have hmem : (⟨.arrow, "<-", 1, 1⟩ : Token) ∈ scan "<->" := by
    decide
  obtain ⟨⟨number, column, line, hnumber, hcolumn, hline, hlongest⟩, _⟩ := scan_takes_longest hmem
  simp only at hnumber hcolumn
  obtain rfl : number = 0 := by omega
  obtain rfl : column = 0 := by omega
  obtain rfl : ['<', '-', '>'] = line := Option.some.inj hline
  exact ⟨hmem, hlongest⟩

end Token

end TopDown
