import TopDown.Proofs.Derivation.Word
import TopDown.Proofs.Tree.Rose
import TopDown.Tree.Node

/-!
# Terminals of a tree

The terminals of a tree in pre-order, each with the node above it or by their labels alone. Those of
a derivation are its leaves, each below the wrapper of its kind.
-/

namespace TopDown

namespace Rose

mutual
/-- The lexemes of the terminals in pre-order, each with the node above it; the tree itself is below
`above`. -/
def terminals (above : Node) : Rose Node → List (Node × String)
  | .node a forest =>
    (if a.role = .terminal then [(above, a.label)] else []) ++ terminalsOf a forest
def terminalsOf (above : Node) : Forest Node → List (Node × String)
  | [] => []
  | tree :: forest => tree.terminals above ++ terminalsOf above forest
end

end Rose

/-- The labels of the terminals among the nodes. -/
def Node.terminalLabels (nodes : List Node) : List String :=
  (nodes.filter (·.role = .terminal)).map (·.label)

theorem Node.terminalLabels_append (nodes nodes' : List Node) :
    terminalLabels (nodes ++ nodes') = terminalLabels nodes ++ terminalLabels nodes' := by
  rw [terminalLabels, List.filter_append, List.map_append]
  rfl

namespace Derivation

variable {N : Type} (name : N → String)

/-- A leaf below the wrapper of its kind. -/
def wrapLeaf (leaf : Kind × String) : Node × String :=
  (Node.wrapper leaf.1, leaf.2)

mutual
theorem terminals_toRose (above : Node) : ∀ d : Derivation N,
    (d.toRose name).terminals above = d.leaves.map wrapLeaf
  | .production n children => by
    rw [toRose, Rose.terminals, terminalsOf_forest _ children, leaves]
    rfl
  | .terminal kind lexeme => rfl
  | .empty => rfl
  | .error fault => rfl
theorem terminalsOf_forest (above : Node) : ∀ ds : List (Derivation N),
    Rose.terminalsOf above (forest name ds) = (leavesOf ds).map wrapLeaf
  | [] => rfl
  | d :: ds => by
    rw [forest, Rose.terminalsOf, terminals_toRose above d, terminalsOf_forest above ds, leavesOf,
      List.map_append]
end

mutual
theorem terminalLabels_toRose : ∀ d : Derivation N,
    Node.terminalLabels (d.toRose name).preorder = d.leaves.map Prod.snd
  | .production n children => by
    rw [toRose, Rose.preorder_node, leaves, ← terminalLabels_forest children]
    rfl
  | .terminal kind lexeme => rfl
  | .empty => rfl
  | .error fault => rfl
theorem terminalLabels_forest : ∀ ds : List (Derivation N),
    Node.terminalLabels (Rose.forestOnto [] (forest name ds)) = (leavesOf ds).map Prod.snd
  | [] => rfl
  | d :: ds => by
    rw [forest, Rose.forestOnto_cons, Node.terminalLabels_append, terminalLabels_toRose d,
      terminalLabels_forest ds, leavesOf, List.map_append]
end

end Derivation

end TopDown
