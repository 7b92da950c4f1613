import TopDown.Lexicon.Kind
import TopDown.Text.Blank

/-!
# Lexemes

A lexeme is a number, an identifier, a two-character operator or else any single character that is
not blank, tried in this order. Letters and digits are those of ASCII. Each shape is given by the
length of the lexeme of that shape at the head of a text, zero if there is none.
-/

namespace TopDown

namespace Lexeme

/-- Digits, and after them a point and more digits if both are there. -/
def numberLength (text : List Char) : Nat :=
  let whole := (text.takeWhile Char.isDigit).length
  if whole = 0 then 0
  else
    match text.drop whole with
    | '.' :: rest =>
      let fraction := (rest.takeWhile Char.isDigit).length
      if fraction = 0 then whole else whole + 1 + fraction
    | _ => whole

def isIdentifierRest (c : Char) : Bool :=
  c.isAlphanum || c = '_'

/-- A letter, and after it letters, digits and underscores. -/
def identifierLength : List Char → Nat
  | [] => 0
  | c :: rest => if c.isAlpha then 1 + (rest.takeWhile isIdentifierRest).length else 0

def operators : List (Char × Char) :=
  [('<', '-'), ('-', '>'), ('<', '='), ('=', '>'), ('>', '='), ('=', '<'), ('<', '>'), (':', '='),
    ('=', '='), ('!', '='), ('&', '&'), ('|', '|')]

def operatorLength : List Char → Nat
  | c :: d :: _ => if operators.contains (c, d) then 2 else 0
  | _ => 0

/-- The length of the lexeme at the head of a text that starts with no blank. -/
def length (text : List Char) : Nat :=
  if numberLength text ≠ 0 then numberLength text
  else if identifierLength text ≠ 0 then identifierLength text
  else if operatorLength text ≠ 0 then operatorLength text
  else 1

end Lexeme

/-- The kind of a lexeme that may have blanks around it. -/
def Kind.ofLexeme (lexeme : String) : Kind :=
  let text := Text.trim lexeme.toList
  if text.isEmpty then .endOfInput
  else if Lexeme.numberLength text = text.length then .number
  else
    match Kind.reserved? (String.ofList text) with
    | some kind => kind
    | none => if Lexeme.identifierLength text = text.length then .identifier else .unrecognized

end TopDown
