import TopDown.Text.Blank

/-!
# Lines

A text is cut into lines at every Unicode line end; a carriage return and the line feed after it
are one end. The last line needs no end, and an end opens no empty line after it. Text that is read
from a file has its carriage returns unified first, which changes no line.
-/

namespace TopDown.Text

def lineEndRanges : List (Nat × Nat) :=
  [(0x0A, 0x0D), (0x1C, 0x1E), (0x85, 0x85), (0x2028, 0x2029)]

def isLineEnd (c : Char) : Bool :=
  within lineEndRanges c.toNat

/-- The lines of a text whose first line has `line` behind it, last character first. -/
def linesFrom (line : List Char) : List Char → List (List Char)
  | [] => if line.isEmpty then [] else [line.reverse]
  | '\r' :: '\n' :: rest => line.reverse :: linesFrom [] rest
  | c :: rest =>
    if isLineEnd c then line.reverse :: linesFrom [] rest else linesFrom (c :: line) rest

/-- The lines of a text, without their ends. -/
def lines (text : List Char) : List (List Char) :=
  linesFrom [] text

/-- Turns each carriage return, with the line feed after it if there is one, into a line feed;
`done` is what is already unified, last character first. -/
def unifyFrom (done : List Char) : List Char → List Char
  | [] => done.reverse
  | '\r' :: '\n' :: rest => unifyFrom ('\n' :: done) rest
  | c :: rest => unifyFrom ((if c = '\r' then '\n' else c) :: done) rest

/-- The text with every line end of the two carriage-return conventions written as a line feed. -/
def unifyLineEnds (text : List Char) : List Char :=
  unifyFrom [] text

end TopDown.Text
