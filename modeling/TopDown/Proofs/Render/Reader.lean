import Mathlib.Data.Nat.Digits.Lemmas
import TopDown.Render.Document

/-!
# Reading JSON

A JSON text is read word by word: brackets, commas and colons, and the scalars with their escapes.
An escape names a UTF-16 code unit, and the units of a text are paired again into characters, where
half a pair is no text. The words are then put together on a stack of open brackets. A document has
no numbers but natural ones, so that a sign, a fraction or an exponent is not read.
-/

namespace TopDown

namespace Document

/-! ## Texts -/

/-- The value of a hexadecimal digit of either case. -/
def hexDigit? (c : Char) : Option Nat :=
  "0123456789abcdef".toList.idxOf? c.toLower

def hexValue? (digits : List Char) : Option Nat :=
  digits.foldlM (fun value c => (hexDigit? c).map (16 * value + ·)) 0

/-- The character that a letter after a backslash stands for. -/
def letter? (c : Char) : Option Char :=
  [('"', '"'), ('\\', '\\'), ('/', '/'), ('b', '\x08'), ('f', '\x0c'), ('n', '\n'), ('r', '\r'),
    ('t', '\t')].lookup c

/-- The code units up to the closing quote, and what follows the quote. -/
def unitsFrom : List Char → Option (List Nat × List Char)
  | [] => none
  | '"' :: rest => some ([], rest)
  | '\\' :: 'u' :: a :: b :: c :: d :: rest => do
    let unit ← hexValue? [a, b, c, d]
    let (later, after) ← unitsFrom rest
    return (unit :: later, after)
  | '\\' :: c :: rest => do
    let char ← letter? c
    let (later, after) ← unitsFrom rest
    return (units char ++ later, after)
  | c :: rest => do
    if c.toNat < 0x20 then none
    let (later, after) ← unitsFrom rest
    return (units c ++ later, after)

def isHigh (unit : Nat) : Bool :=
  0xD800 ≤ unit && unit < 0xDC00

def isLow (unit : Nat) : Bool :=
  0xDC00 ≤ unit && unit < 0xE000

/-- The characters of UTF-16 code units behind a half pair, if there is one; none if a half stands
alone. -/
def charsFrom : (high : Option Nat) → List Nat → Option (List Char)
  | none, [] => some []
  | some _, [] => none
  | none, unit :: rest =>
    if isLow unit then none
    else if isHigh unit then charsFrom (some unit) rest
    else (charsFrom none rest).map (Char.ofNat unit :: ·)
  | some high, unit :: rest =>
    if isLow unit then
      let code := 0x10000 + (high - 0xD800) * 0x400 + (unit - 0xDC00)
      (charsFrom none rest).map (Char.ofNat code :: ·)
    else none

/-! ## Words -/

inductive Word where
  | openList | closeList | openRecord | closeRecord | comma | colon
  | scalar (value : Document)

namespace Word

/-- The word of one spelling at the head of a text, and what follows it. -/
def fixed? : List Char → Option (Word × List Char)
  | '[' :: rest => some (openList, rest)
  | ']' :: rest => some (closeList, rest)
  | '\x7b' :: rest => some (openRecord, rest)
  | '\x7d' :: rest => some (closeRecord, rest)
  | ',' :: rest => some (comma, rest)
  | ':' :: rest => some (colon, rest)
  | 'n' :: 'u' :: 'l' :: 'l' :: rest => some (scalar .null, rest)
  | 't' :: 'r' :: 'u' :: 'e' :: rest => some (scalar (.bool true), rest)
  | 'f' :: 'a' :: 'l' :: 's' :: 'e' :: rest => some (scalar (.bool false), rest)
  | _ => none

/-- The text behind an opening quote, and what follows it. -/
def text? (chars : List Char) : Option (Word × List Char) := do
  let (units, after) ← unitsFrom chars
  let text ← charsFrom none units
  return (scalar (.text (String.ofList text)), after)

/-- The numeral at the head of `chars`; zero alone begins with a zero. -/
def number? (chars : List Char) : Option (Word × List Char) :=
  let digits := chars.takeWhile Char.isDigit
  if digits.head? = some '0' ∧ digits ≠ ['0'] then none
  else some (scalar (.number (Nat.ofDigitChars 10 digits 0)), chars.dropWhile Char.isDigit)

/-- The word at the head of `chars`, and what follows it. -/
def first? : List Char → Option (Word × List Char)
  | [] => none
  | c :: rest =>
    if c = '"' then text? rest
    else if c.isDigit then number? (c :: rest)
    else fixed? (c :: rest)

end Word

def isSpace (c : Char) : Bool :=
  c = ' ' || c = '\n' || c = '\r' || c = '\t'

/-- The words of a text; the first `skip` characters belong to the word before. -/
def words : (skip : Nat) → List Char → Option (List Word)
  | _, [] => some []
  | skip + 1, _ :: rest => words skip rest
  | 0, c :: rest =>
    if isSpace c then words 0 rest
    else do
      let (word, after) ← Word.first? (c :: rest)
      let later ← words (rest.length - after.length) rest
      return word :: later

/-! ## Documents -/

/-- An open bracket with what stands behind it, the last first. A value is awaited after a key. -/
inductive Frame where
  | list (items : List Document)
  | record (fields : List (String × Document))
  | field (fields : List (String × Document)) (key : String)

/-- The open brackets, the innermost first, and the value that was read last, if no comma or colon
came after it. -/
abbrev Reading := List Frame × Option Document

def Reading.step : Reading → Word → Option Reading
  | (stack, none), .scalar value => some (stack, some value)
  | (stack, none), .openList => some (.list [] :: stack, none)
  | (stack, none), .openRecord => some (.record [] :: stack, none)
  | (.list [] :: stack, none), .closeList => some (stack, some (.list []))
  | (.record [] :: stack, none), .closeRecord => some (stack, some (.record []))
  | (.list items :: stack, some value), .comma => some (.list (value :: items) :: stack, none)
  | (.list items :: stack, some value), .closeList =>
    some (stack, some (.list (value :: items).reverse))
  | (.record fields :: stack, some (.text key)), .colon => some (.field fields key :: stack, none)
  | (.field fields key :: stack, some value), .comma =>
    some (.record ((key, value) :: fields) :: stack, none)
  | (.field fields key :: stack, some value), .closeRecord =>
    some (stack, some (.record ((key, value) :: fields).reverse))
  | _, _ => none

/-- The document that a text is the JSON of. -/
def read? (text : String) : Option Document := do
  let words ← words 0 text.toList
  match ← words.foldlM Reading.step ([], none) with
  | ([], some value) => some value
  | _ => none

/-! ## Texts are read back -/

theorem hexDigit?_digitChar : ∀ n < 16, hexDigit? (Nat.digitChar n) = some n := by
  decide

theorem hexValue?_append (digits : List Char) (c : Char) :
    hexValue? (digits ++ [c]) =
      (hexValue? digits).bind fun value => (hexDigit? c).map (16 * value + ·) := by
  simp [hexValue?]

theorem hexValue?_hex (width n : Nat) : hexValue? (Text.hex width n) = some (n % 16 ^ width) := by
  induction width generalizing n with
  | zero => simp [Text.hex, hexValue?, Nat.mod_one]
  | succ width ih =>
    have hdigit := hexDigit?_digitChar (n % 16) (Nat.mod_lt _ (by decide))
    rw [Text.hex, hexValue?_append, ih, hdigit, Nat.pow_succ', Nat.mod_mul, Nat.add_comm]
    rfl

theorem units_lt (c : Char) : ∀ unit ∈ units c, unit < 0x10000 := by
  have hvalid : c.toNat < 0xD800 ∨ (0xDFFF < c.toNat ∧ c.toNat < 0x110000) := c.valid
  unfold units
  split <;> simp <;> omega

theorem unitsFrom_letter {letter char : Char} (h : letter? letter = some char)
    (rest : List Char) :
    unitsFrom ('\\' :: letter :: rest) = (unitsFrom rest).map (Prod.map (units char ++ ·) id) := by
  have hletter : letter ≠ 'u' := by
    rintro rfl
    cases h
  rw [unitsFrom, h]
  · cases unitsFrom rest <;> rfl
  · simp [hletter]

/-- The escapes of code units are read back. -/
theorem unitsFrom_hex {list : List Nat} (hlist : ∀ unit ∈ list, unit < 0x10000)
    (rest : List Char) :
    unitsFrom (list.flatMap (fun unit => '\\' :: 'u' :: Text.hex 4 unit) ++ rest) =
      (unitsFrom rest).map (Prod.map (list ++ ·) id) := by
  induction list with
  | nil =>
    change unitsFrom rest = _
    cases unitsFrom rest <;> rfl
  | cons unit list ih =>
    have hvalue : hexValue? (Text.hex 4 unit) = some unit := by
      have hlt : unit < 16 ^ 4 := hlist unit (by simp)
      rw [hexValue?_hex, Nat.mod_eq_of_lt hlt]
    have hlater := ih fun unit hunit => hlist unit (by simp [hunit])
    obtain ⟨a, b, c, d, hdigits⟩ : ∃ a b c d, Text.hex 4 unit = [a, b, c, d] :=
      ⟨_, _, _, _, rfl⟩
    rw [hdigits] at hvalue
    rw [List.flatMap_cons, hdigits, List.append_assoc]
    simp only [List.cons_append, List.nil_append, unitsFrom, hvalue, hlater]
    cases unitsFrom rest <;> rfl

/-- An escaped character is read back as its code units. -/
theorem unitsFrom_escape (c : Char) (rest : List Char) :
    unitsFrom (escape c ++ rest) = (unitsFrom rest).map (Prod.map (units c ++ ·) id) := by
  unfold escape
  split
  · next hmark => rcases hmark with rfl | rfl <;> exact unitsFrom_letter rfl rest
  next hmark =>
  obtain ⟨hquote, hbackslash⟩ := not_or.mp hmark
  split
  · next h => exact unitsFrom_letter (by rw [h]; rfl) rest
  split
  · next h => exact unitsFrom_letter (by rw [h]; rfl) rest
  split
  · next h => exact unitsFrom_letter (by rw [h]; rfl) rest
  split
  · next h => exact unitsFrom_letter (by rw [h]; rfl) rest
  split
  · next h => exact unitsFrom_letter (by rw [h]; rfl) rest
  split
  · next hplain =>
    rw [List.singleton_append, unitsFrom, if_neg (Nat.not_lt.mpr hplain.1)]
    · cases unitsFrom rest <;> rfl
    · exact hquote
    · exact fun _ _ _ _ _ h _ => hbackslash h
    · exact fun _ _ h _ => hbackslash h
  · exact unitsFrom_hex (units_lt c) rest

theorem unitsFrom_flatMap_escape (text rest : List Char) :
    unitsFrom (text.flatMap escape ++ '"' :: rest) = some (text.flatMap units, rest) := by
  induction text with
  | nil => rfl
  | cons c text ih =>
    rw [List.flatMap_cons, List.append_assoc, unitsFrom_escape, ih]
    rfl

/-- The units of a character are paired again. -/
theorem charsFrom_units (c : Char) (rest : List Nat) :
    charsFrom none (units c ++ rest) = (charsFrom none rest).map (c :: ·) := by
  have hvalid : c.toNat < 0xD800 ∨ (0xDFFF < c.toNat ∧ c.toNat < 0x110000) := c.valid
  unfold units
  split
  · have hlow : isLow c.toNat = false := by simp [isLow]; omega
    have hhigh : isHigh c.toNat = false := by simp [isHigh]; omega
    simp [charsFrom, hlow, hhigh]
  · generalize hhigh : 0xD800 + (c.toNat - 0x10000) / 0x400 = high
    generalize hlow : 0xDC00 + (c.toNat - 0x10000) % 0x400 = low
    have hsides : isLow high = false ∧ isHigh high = true ∧ isLow low = true := by
      simp [isLow, isHigh]
      omega
    have hcode : 0x10000 + (high - 0xD800) * 0x400 + (low - 0xDC00) = c.toNat := by
      omega
    obtain ⟨hnotlow, hishigh, hislow⟩ := hsides
    simp [charsFrom, hnotlow, hishigh, hislow, hcode]

theorem charsFrom_flatMap_units (text : List Char) :
    charsFrom none (text.flatMap units) = some text := by
  induction text with
  | nil => rfl
  | cons c text ih => rw [List.flatMap_cons, charsFrom_units, ih, Option.map_some]

/-- A quoted text ends at its own closing quote and is read back. -/
theorem Word.text?_quote (text : String) (rest : List Char) :
    Word.text? (text.toList.flatMap escape ++ '"' :: rest) = some (.scalar (.text text), rest) := by
  simp [Word.text?, unitsFrom_flatMap_escape, charsFrom_flatMap_units]

/-! ## Numbers are read back -/

theorem head?_toDigits {n : Nat} (h : 0 < n) : (Nat.toDigits 10 n).head? ≠ some '0' := by
  induction n using Nat.strongRecOn with
  | ind n ih =>
    rcases Nat.lt_or_ge n 10 with hsmall | hlarge
    · rw [Nat.toDigits_of_lt_base hsmall]
      interval_cases n <;> decide
    · have hfront := ih (n / 10) (by omega) (by omega)
      rw [Nat.toDigits_of_base_le (by decide) hlarge, List.head?_append_of_ne_nil]
      · exact hfront
      · exact Nat.toDigits_ne_nil

theorem Word.number?_toDigits (n : Nat) {rest : List Char}
    (hrest : ∀ c ∈ rest.head?, c.isDigit = false) :
    Word.number? (Nat.toDigits 10 n ++ rest) = some (.scalar (.number n), rest) := by
  have hdigits : ∀ c ∈ Nat.toDigits 10 n, c.isDigit = true := fun c hc =>
    Nat.isDigit_of_mem_toDigits (by decide) (by decide) hc
  have htake : (Nat.toDigits 10 n ++ rest).takeWhile Char.isDigit = Nat.toDigits 10 n := by
    rw [List.takeWhile_append_of_pos hdigits]
    cases rest <;> simp_all
  have hdrop : (Nat.toDigits 10 n ++ rest).dropWhile Char.isDigit = rest := by
    rw [List.dropWhile_append_of_pos hdigits]
    cases rest <;> simp_all
  have hzero : ¬((Nat.toDigits 10 n).head? = some '0' ∧ Nat.toDigits 10 n ≠ ['0']) := by
    rintro ⟨hhead, hne⟩
    rcases Nat.eq_zero_or_pos n with rfl | hpos
    · exact hne rfl
    · exact head?_toDigits hpos hhead
  simp only [Word.number?, htake, hdrop, if_neg hzero, Nat.ofDigitChars_ten_toDigits]

end Document

end TopDown
