import TopDown.Tree.Basic

/-!
# Views of a parse tree

What hangs below a node of a parse tree, as a tree of ids, in pre-order, as a shape without ids, and
as records. The shape of a node is the pre-order of labels, each with its depth below the node.
-/

namespace TopDown

namespace Tree

/-- The ids of the children of each node, by the id of the parent. -/
def childTable (t : Tree) : Array (List Nat) :=
  (t.attachments.toList.zipIdx 1).foldr
    (fun (a, id) table => table.modify a.parent (id :: ·)) (Array.replicate t.size [])

/-- The ids of the children of a node, from left to right. -/
def children (t : Tree) (id : Nat) : List Nat :=
  (t.childTable[id]?).getD []

/-- The tree of ids below a node, cut off `height` levels down. -/
def growFrom (table : Array (List Nat)) : (height : Nat) → (id : Nat) → Rose Nat
  | 0, id => .node id []
  | height + 1, id => .node id ((table[id]?.getD []).map (growFrom table height))

/-- The tree of ids below a node; no branch is longer than the tree is large. -/
def below (t : Tree) (id : Nat) : Rose Nat :=
  growFrom t.childTable t.size id

/-- The ids of a node and of all below it, in pre-order. -/
def preorder (t : Tree) (id : Nat) : List Nat :=
  (t.below id).preorder

/-- The labels of a node and of all below it, in pre-order, each with its depth. -/
def shape (t : Tree) (id : Nat) : List (Nat × String) :=
  (t.below id).levels.map fun (depth, id) => (depth, t.label id)

/-- A node with the ids of its children. -/
structure Record where
  id : Nat
  node : Node
  children : List Nat
  deriving DecidableEq, Inhabited

/-- The record of each node, in the order of ids. -/
def records (t : Tree) : List Record :=
  let table := t.childTable
  t.nodes.zipIdx.map fun (node, id) => ⟨id, node, table[id]?.getD []⟩

def record (t : Tree) (id : Nat) : Record :=
  ⟨id, (t.node? id).getD default, t.children id⟩

/-- The label and the id, which name a node uniquely. -/
def title (t : Tree) (id : Nat) : String :=
  s!"{t.label id}-{id}"

/-- The node with the labels of its first children. -/
def describeNode (t : Tree) (id : Nat) : String :=
  let labels := (t.children id).map t.label
  let shown := (labels.take 3).map Text.quoted ++ if labels.length > 3 then ["..."] else []
  let listed := ", ".intercalate shown
  let children := if labels.isEmpty then [] else [s!"children=[{listed}]"]
  let parts := ", ".intercalate ([toString id, Text.quoted (t.label id)] ++ children)
  s!"TreeNode({parts})"

end Tree

/-- The name of the cause, as descriptions show it. -/
def Cause.name : Cause → String
  | mismatch => "ParseError"
  | redeclaration => "DeclarationError"

namespace Failure

def describe (f : Failure) : String :=
  s!"{f.cause.name}({Text.quoted f.message})"

end Failure

namespace Tree

/-- The size and the failure of the tree. -/
def describe (t : Tree) : String :=
  let failure := t.failure.elim "None" Failure.describe
  s!"ParseTree(nodes={t.size}, error={failure})"

end Tree

end TopDown
