import TopDown.Text.Hex

/-!
# Percent encoding

A text inside a link is its UTF-8 bytes. The unreserved characters, which are the ASCII letters and
digits and four marks, stand for themselves; any other byte is a percent sign and two upper-case
hexadecimal digits.
-/

namespace TopDown.Text

def isUnreserved (c : Char) : Bool :=
  c.isAlphanum || "_.-~".toList.contains c

/-- How a byte is written. -/
def percentByte (b : UInt8) : List Char :=
  let c := Char.ofNat b.toNat
  if isUnreserved c then [c] else '%' :: (hex 2 b.toNat).map Char.toUpper

def percentEncode (text : String) : List Char :=
  text.toUTF8.data.toList.flatMap percentByte

end TopDown.Text
