import TopDown.Lexicon.Token

/-!
# Cursors

A cursor stands on the first token that is not yet consumed and shows that one token only. When the
tokens are exhausted it shows the kind and the name of end-of-input.
-/

namespace TopDown

structure Cursor where
  rest : List Token
  consumed : Nat := 0
  deriving DecidableEq, Inhabited

namespace Cursor

def current (c : Cursor) : Option Token :=
  c.rest.head?

/-- The kind of the current token. -/
def kind (c : Cursor) : Kind :=
  match c.rest with
  | [] => .endOfInput
  | t :: _ => t.kind

/-- The text of the current token. -/
def lexeme (c : Cursor) : String :=
  match c.rest with
  | [] => Kind.endOfInput.name
  | t :: _ => t.lexeme

/-- Consumes the current token, if there is one. -/
def advance (c : Cursor) : Cursor :=
  match c.rest with
  | [] => c
  | _ :: rest => ⟨rest, c.consumed + 1⟩

def atEnd (c : Cursor) : Bool :=
  c.rest.isEmpty

end Cursor

end TopDown
