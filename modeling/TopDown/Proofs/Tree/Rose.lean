import Mathlib.Data.List.Basic
import TopDown.Tree.Rose

/-!
# Rose trees and their subtrees

Folds and pre-orders of a tree in terms of those of its children, the number of its nodes, and its
subtrees in pre-order.
-/

namespace TopDown

namespace Rose

variable {α β : Type}

theorem foldForest_eq_map (combine : α → List β → β) (forest : Forest α) :
    foldForest combine forest = forest.map (fold combine) := by
  induction forest with
  | nil => rfl
  | cons tree forest ih => rw [foldForest, ih, List.map_cons]

theorem fold_node (combine : α → List β → β) (a : α) (forest : Forest α) :
    (node a forest).fold combine = combine a (forest.map (fold combine)) := by
  rw [fold, foldForest_eq_map]

mutual
/-- The number of nodes. -/
def size : Rose α → Nat
  | .node _ forest => sizeOfForest forest + 1
def sizeOfForest : Forest α → Nat
  | [] => 0
  | tree :: forest => tree.size + sizeOfForest forest
end

theorem sizeOfForest_append (first rest : Forest α) :
    sizeOfForest (first ++ rest) = sizeOfForest first + sizeOfForest rest := by
  induction first with
  | nil => exact (Nat.zero_add _).symm
  | cons tree first ih => rw [List.cons_append, sizeOfForest, sizeOfForest, ih, Nat.add_assoc]

mutual
theorem preorderOnto_eq (rest : List α) : ∀ tree : Rose α,
    tree.preorderOnto rest = tree.preorderOnto [] ++ rest
  | .node a forest => by
    rw [preorderOnto, preorderOnto, forestOnto_eq rest forest, List.cons_append]
theorem forestOnto_eq (rest : List α) : ∀ forest : Forest α,
    forestOnto rest forest = forestOnto [] forest ++ rest
  | [] => rfl
  | tree :: forest => by
    rw [forestOnto, forestOnto, preorderOnto_eq _ tree, preorderOnto_eq (forestOnto [] forest) tree,
      forestOnto_eq rest forest, List.append_assoc]
end

theorem forestOnto_cons (tree : Rose α) (forest : Forest α) :
    forestOnto [] (tree :: forest) = tree.preorder ++ forestOnto [] forest := by
  rw [forestOnto, preorderOnto_eq]
  rfl

theorem forestOnto_eq_flatMap (forest : Forest α) :
    forestOnto [] forest = forest.flatMap preorder := by
  induction forest with
  | nil => rfl
  | cons tree forest ih => rw [forestOnto_cons, ih, List.flatMap_cons]

theorem preorder_node (a : α) (forest : Forest α) :
    (node a forest).preorder = a :: forestOnto [] forest :=
  rfl

mutual
/-- The tree itself and all below it, in pre-order. -/
def subtrees : Rose α → List (Rose α)
  | .node a forest => .node a forest :: subtreesOf forest
def subtreesOf : Forest α → List (Rose α)
  | [] => []
  | tree :: forest => tree.subtrees ++ subtreesOf forest
end

end Rose

end TopDown
