import TopDown.Lexicon.Kind
import TopDown.Text.Quoted

/-!
# Tokens

A token is a lexeme with its kind and the place where it starts. In a text, lines and columns count
from one. A token that is made without a text has both zero, unless its maker numbers them in some
way of its own: any integers will do, since nothing but a message depends on them.
-/

namespace TopDown

structure Token where
  kind : Kind
  lexeme : String
  line : Int := 0
  column : Int := 0
  deriving DecidableEq, Inhabited

namespace Token

def location (t : Token) : String :=
  s!"line {t.line}, col {t.column}"

def describe (t : Token) : String :=
  s!"Token({t.kind.code}, {Text.quoted t.lexeme})"

end Token

end TopDown
