import TopDown.Text.Hex
import TopDown.Text.Printable

/-!
# Quoted text

A text that is named in a description is quoted: single quotes stand around it, or double quotes if
it holds a single quote and no double one. A backslash guards the quote and itself, line feed,
carriage return and tab have their letters, and any other unprintable character is written as a
hexadecimal escape of the least width that fits.
-/

namespace TopDown.Text

/-- How `c` is written between two marks `quote`. -/
def escape (quote c : Char) : List Char :=
  if c = quote ∨ c = '\\' then ['\\', c]
  else if c = '\n' then ['\\', 'n']
  else if c = '\r' then ['\\', 'r']
  else if c = '\t' then ['\\', 't']
  else if isPrintable c then [c]
  else if c.toNat < 0x100 then '\\' :: 'x' :: hex 2 c.toNat
  else if c.toNat < 0x10000 then '\\' :: 'u' :: hex 4 c.toNat
  else '\\' :: 'U' :: hex 8 c.toNat

/-- The mark that needs fewer escapes, single if there is a choice. -/
def quoteFor (text : List Char) : Char :=
  if text.contains '\'' && !text.contains '"' then '"' else '\''

/-- The text between quotes. -/
def quoted (text : String) : String :=
  let quote := quoteFor text.toList
  String.ofList (quote :: text.toList.flatMap (escape quote) ++ [quote])

/-- A list of texts, quoted and in brackets. -/
def quotedList (texts : List String) : String :=
  "[" ++ ", ".intercalate (texts.map quoted) ++ "]"

end TopDown.Text
