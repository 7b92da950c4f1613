import TopDown.Lexicon.Token
import TopDown.Tree.Node
import TopDown.Tree.Rose

/-!
# Parse trees

A parse tree grows from its root by attachments and never loses a node. It is kept as the trace of
its attachments: the node that the trace adds in place `i` has the id `i + 1`, and the root has the
id zero. A failure attaches an error node and is remembered with the tree.
-/

namespace TopDown

/-- A new node, below the node with the id `parent`. -/
structure Attachment where
  parent : Nat
  node : Node
  deriving DecidableEq, Inhabited

/-- What a failure is about: a token that does not fit the grammar, or a second declaration. -/
inductive Cause where
  | mismatch | redeclaration
  deriving DecidableEq, Inhabited

/-- A failure that was noticed at the node with the id `node`, on the given token if there is one. -/
structure Failure where
  cause : Cause
  message : String
  node : Nat
  token : Option Token
  deriving DecidableEq, Inhabited

structure Tree where
  attachments : Array Attachment := #[]
  failure : Option Failure := none
  deriving DecidableEq, Inhabited

namespace Tree

/-- The number of nodes, which is the id of the next one. -/
def size (t : Tree) : Nat :=
  t.attachments.size + 1

def node? (t : Tree) : Nat → Option Node
  | 0 => some Node.root
  | i + 1 => t.attachments[i]?.map (·.node)

def nodes (t : Tree) : List Node :=
  Node.root :: t.attachments.toList.map (·.node)

def label (t : Tree) (id : Nat) : String :=
  (t.node? id).elim "" (·.label)

/-- Whether no failure is remembered and something hangs on the root. -/
def accepted (t : Tree) : Bool :=
  t.failure.isNone && t.attachments.any (·.parent = 0)

def count (t : Tree) (role : Role) : Nat :=
  t.nodes.countP (·.role = role)

/-- Adds a node below `parent`; its id is the old size. -/
def attach (t : Tree) (parent : Nat) (node : Node) : Tree :=
  { t with attachments := t.attachments.push ⟨parent, node⟩ }

/-- Adds a terminal: the wrapper below `parent`, and the lexeme below the wrapper. -/
def attachMatch (t : Tree) (parent : Nat) (kind : Kind) (lexeme : String) : Tree :=
  let wrapper := t.size
  (t.attach parent (Node.wrapper kind)).attach wrapper (Node.terminal lexeme)

/-- Adds the error node of a failure and remembers the failure. -/
def fail (t : Tree) (failure : Failure) : Tree :=
  { t.attach failure.node (Node.error failure.message) with failure := some failure }

mutual
/-- Adds a whole tree below `parent`, in pre-order. -/
def graft (t : Tree) (parent : Nat) : Rose Node → Tree
  | .node node forest =>
    let id := t.size
    graftForest (t.attach parent node) id forest
def graftForest (t : Tree) (parent : Nat) : Forest Node → Tree
  | [] => t
  | tree :: forest => graftForest (t.graft parent tree) parent forest
end

end Tree

end TopDown
