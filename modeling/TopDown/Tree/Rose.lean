/-!
# Rose trees

Ordered trees with any number of children at a node. A tree is listed in pre-order: a node before
its children, and the children from left to right. The depths of that listing determine the tree.
-/

namespace TopDown

inductive Rose (α : Type) where
  | node (value : α) (children : List (Rose α))

abbrev Forest (α : Type) := List (Rose α)

variable {α β : Type}

namespace Rose

def value : Rose α → α
  | .node a _ => a

def children : Rose α → Forest α
  | .node _ forest => forest

mutual
/-- The values in pre-order, before `rest`. -/
def preorderOnto (rest : List α) : Rose α → List α
  | .node a forest => a :: forestOnto rest forest
def forestOnto (rest : List α) : Forest α → List α
  | [] => rest
  | tree :: forest => tree.preorderOnto (forestOnto rest forest)
end

def preorder (tree : Rose α) : List α :=
  tree.preorderOnto []

mutual
/-- Each value with its depth, where the root of the tree has depth `depth`. -/
def leveled (depth : Nat) : Rose α → Rose (Nat × α)
  | .node a forest => .node (depth, a) (leveledForest (depth + 1) forest)
def leveledForest (depth : Nat) : Forest α → Forest (Nat × α)
  | [] => []
  | tree :: forest => tree.leveled depth :: leveledForest depth forest
end

/-- The values in pre-order, each with its depth below the root. -/
def levels (tree : Rose α) : List (Nat × α) :=
  (tree.leveled 0).preorder

mutual
/-- Combines each value with the results of its children. -/
def fold (combine : α → List β → β) : Rose α → β
  | .node a forest => combine a (foldForest combine forest)
def foldForest (combine : α → List β → β) : Forest α → List β
  | [] => []
  | tree :: forest => tree.fold combine :: foldForest combine forest
end

end Rose

end TopDown
