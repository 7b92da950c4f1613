import TopDown.Lexicon.Lexeme
import TopDown.Lexicon.Token
import TopDown.Text.Lines

/-!
# Scanning

A program text is scanned line by line. A line whose first character that is not blank is `#` is a
comment and has no tokens. Scanning never fails: text that fits no other shape becomes unrecognized
tokens of one character each.
-/

namespace TopDown

def commentMark : Char := '#'

def isComment (line : List Char) : Bool :=
  (line.dropWhile Text.isBlank).head? = some commentMark

/-- The lines of a text that are not comments, numbered from one. -/
def programLines (text : String) : List (Nat × List Char) :=
  (Text.lines text.toList).zipIdx 1 |>.filterMap fun (line, number) =>
    if isComment line then none else some (number, line)

/-- The lexemes of the text from `column` on, each with its column; the first `skip` characters
belong to the lexeme before. -/
def lexemes (column : Nat) : (skip : Nat) → (text : List Char) → List (Nat × List Char)
  | _, [] => []
  | skip + 1, _ :: rest => lexemes (column + 1) skip rest
  | 0, c :: rest =>
    if Text.isBlank c then lexemes (column + 1) 0 rest
    else
      let length := Lexeme.length (c :: rest)
      (column, (c :: rest).take length) :: lexemes (column + 1) (length - 1) rest

namespace Token

/-- The tokens of one line. -/
def scanLine (number : Nat) (line : List Char) : List Token :=
  (lexemes 1 0 line).map fun (column, text) =>
    let lexeme := String.ofList text
    ⟨Kind.ofLexeme lexeme, lexeme, number, column⟩

/-- The tokens of a program text, in order. -/
def scan (text : String) : List Token :=
  (programLines text).flatMap fun (number, line) => scanLine number line

end Token

end TopDown
