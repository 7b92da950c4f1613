import TopDown.Derivation.Outcome
import TopDown.Tree.Basic

/-!
# Sessions

A session derives parts of a program into one parse tree. Its cursor, scope and tree stay as a step
left them, also if the step failed.
-/

namespace TopDown

structure Session where
  state : State
  tree : Tree := {}
  deriving DecidableEq

/-- The failure of a fault that was noticed at `node`. -/
def Fault.toFailure (fault : Fault) (node : Nat) : Failure :=
  let cause :=
    match fault with
    | redeclared _ => .redeclaration
    | _ => .mismatch
  ⟨cause, fault.message, node, fault.token⟩

namespace Session

def start (tokens : List Token) : Session :=
  ⟨.start tokens, {}⟩

/-- Stops at the current token with an error below `node`. -/
def stop (s : Session) (node : Nat) (fault : Fault) : Session × Failure :=
  let failure := fault.toFailure node
  ({ s with tree := s.tree.fail failure }, failure)

/-- Adds a node below `parent`. -/
def attach (s : Session) (parent : Nat) (node : Node) : Session :=
  { s with tree := s.tree.attach parent node }

/-- Matches a terminal below `parent`; the answer is the consumed token. -/
def expect (s : Session) (parent : Nat) (kind : Kind) : Session × Except Failure (Option Token) :=
  let found := s.state.cursor.current
  if s.state.kind = kind then
    let tree := s.tree.attachMatch parent kind s.state.cursor.lexeme
    (⟨s.state.advance, tree⟩, .ok found)
  else
    let (s, failure) := s.stop parent (.unexpected kind found)
    (s, .error failure)

/-- Stops because none of the kinds is at hand. -/
def refuse (s : Session) (node : Nat) (kinds : List Kind) : Session × Failure :=
  s.stop node (.noAlternative (Kind.all.filter kinds.contains) s.state.cursor.current)

/-- Declares the name of a token that was matched below `node`. -/
def declare (s : Session) (node : Nat) (token : Token) : Session × Except Failure Unit :=
  match s.state.scope.declare token with
  | .ok scope => ({ s with state := { s.state with scope } }, .ok ())
  | .error r =>
    let (s, failure) := s.stop node (.redeclared r)
    (s, .error failure)

end Session

end TopDown
