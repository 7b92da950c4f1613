import TopDown.Tree.Basic

/-!
# Stored trees

A parse tree as it lies in memory: the nodes, each with its id, its role and label, and its children
so far; the list of the nodes in the order in which they were made; and the trace of the edges. A
handle is the place of a node in memory. A step makes a node and then updates the list, the children
of the parent and the trace, one after the other.
-/

namespace TopDown

/-- The place of a node in memory. -/
abbrev Handle := Nat

/-- What is kept of a node. -/
structure Cell where
  id : Nat
  node : Node
  children : List Handle := []
  deriving DecidableEq, Inhabited

structure Edge where
  parent : Handle
  child : Handle
  role : Role
  deriving DecidableEq, Inhabited

structure Store where
  cells : List Cell := []
  nodes : List Handle := []
  edges : List Edge := []
  failure : Option Failure := none
  deriving DecidableEq, Inhabited

namespace Store

/-- Makes a node; its id is the number of nodes that there are. -/
def make (s : Store) (node : Node) : Handle × Store :=
  let handle := s.cells.length
  let cell : Cell := ⟨s.nodes.length, node, []⟩
  (handle, { s with cells := s.cells ++ [cell], nodes := s.nodes ++ [handle] })

/-- A tree with its root, and the handle of the root. -/
def start : Handle × Store :=
  make {} Node.root

/-- The tree before the first step. -/
def new : Store :=
  start.2

def root : Handle :=
  start.1

/-- Makes a node below `parent`. -/
def attach (s : Store) (parent : Handle) (node : Node) : Handle × Store :=
  let (child, s) := s.make node
  let cells := s.cells.modify parent fun cell => { cell with children := cell.children ++ [child] }
  (child, { s with cells, edges := s.edges ++ [⟨parent, child, node.role⟩] })

def openNonterminal (s : Store) (parent : Handle) (name : String) : Handle × Store :=
  s.attach parent (Node.nonterminal name)

def openNamed (s : Store) (parent : Handle) (label : String) : Handle × Store :=
  s.attach parent ⟨.nonterminal, label⟩

/-- Attaches a terminal: its wrapper below `parent`, and the lexeme below the wrapper. -/
def attachTerminal (s : Store) (parent : Handle) (kind : Kind) (lexeme : String) :
    Handle × Store :=
  let (wrapper, s) := s.openNamed parent ("<" ++ kind.name ++ ">")
  s.attach wrapper (Node.terminal lexeme)

def attachEmpty (s : Store) (parent : Handle) : Handle × Store :=
  s.attach parent Node.empty

/-- Attaches the error of a failure and remembers the failure. -/
def fail (s : Store) (failure : Failure) : Store :=
  let (_, s) := s.attach failure.node (Node.error failure.message)
  { s with failure := some failure }

/-- The handles of the children of a node, from left to right. -/
def children (s : Store) (handle : Handle) : List Handle :=
  (s.cells[handle]?).elim [] (·.children)

def id? (s : Store) (handle : Handle) : Option Nat :=
  (s.cells[handle]?).map (·.id)

def role? (s : Store) (handle : Handle) : Option Role :=
  (s.cells[handle]?).map (·.node.role)

/-- The number of nodes with the role. -/
def count (s : Store) (role : Role) : Nat :=
  s.nodes.countP (s.role? · = some role)

end Store

end TopDown
