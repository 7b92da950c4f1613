import TopDown.Scope
import TopDown.Tree.Node
import TopDown.Tree.Rose

/-!
# Derivations

A derivation is what a grammar makes of some tokens: productions over matched terminals and empty
alternatives. A derivation that was cut short ends in an error, which says what fault stopped it.
-/

namespace TopDown

/-- Why a derivation cannot go on. A fault that is about a missing token has none. -/
inductive Fault where
  /-- Another kind is due at this place. -/
  | unexpected (expected : Kind) (found : Option Token)
  /-- No alternative starts with the token. -/
  | noAlternative (expected : List Kind) (found : Option Token)
  /-- The name is declared already. -/
  | redeclared (redeclaration : Redeclaration)
  deriving DecidableEq

namespace Fault

/-- The lexeme and the kind of a token, or of end-of-input. -/
def describeFound : Option Token → String
  | some t => s!"{t.lexeme} ({t.kind.name})"
  | none => s!"{Kind.endOfInput.name} ({Kind.endOfInput.name})"

def message : Fault → String
  | unexpected expected found =>
    s!"expected {expected.name} but found {describeFound found}"
  | noAlternative expected found =>
    let names := ", ".intercalate (expected.map Kind.name)
    s!"expected one of {names} but found {describeFound found}"
  | redeclared r => s!"semantic error: {r.message}"

/-- The token that the fault is about. -/
def token : Fault → Option Token
  | unexpected _ found => found
  | noAlternative _ found => found
  | redeclared r => some r.again

/-- The kinds that would have fitted. -/
def expected : Fault → List Kind
  | unexpected kind _ => [kind]
  | noAlternative kinds _ => kinds
  | redeclared _ => []

end Fault

inductive Derivation (N : Type) where
  | production (name : N) (children : List (Derivation N))
  | terminal (kind : Kind) (lexeme : String)
  | empty
  | error (fault : Fault)

namespace Derivation

variable {N : Type}

mutual
/-- The nodes that show the derivation. -/
def toRose (name : N → String) : Derivation N → Rose Node
  | .production n children => .node (Node.nonterminal (name n)) (forest name children)
  | .terminal kind lexeme => .node (Node.wrapper kind) [.node (Node.terminal lexeme) []]
  | .empty => .node Node.empty []
  | .error fault => .node (Node.error fault.message) []
def forest (name : N → String) : List (Derivation N) → Forest Node
  | [] => []
  | d :: rest => d.toRose name :: forest name rest
end

end Derivation

end TopDown
