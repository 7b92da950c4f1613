import TopDown.Proofs.Tree.Graft

/-!
# Levels

The levels of a tree are its pre-order with the depth of each value. To change the values of a tree
changes its levels value by value, so that the shape of a parse tree is that of its view.
-/

namespace TopDown

namespace Rose

variable {α β : Type}

mutual
theorem map_snd_preorder_leveled (depth : Nat) : ∀ tree : Rose α,
    (tree.leveled depth).preorder.map Prod.snd = tree.preorder
  | .node a forest => by
    rw [leveled, preorder_node, preorder_node, List.map_cons,
      map_snd_forestOnto_leveled (depth + 1) forest]
theorem map_snd_forestOnto_leveled (depth : Nat) : ∀ forest : Forest α,
    (forestOnto [] (leveledForest depth forest)).map Prod.snd = forestOnto [] forest
  | [] => rfl
  | tree :: forest => by
    rw [leveledForest, forestOnto_cons, forestOnto_cons, List.map_append,
      map_snd_preorder_leveled depth tree, map_snd_forestOnto_leveled depth forest]
end

/-- The values of the levels are the pre-order. -/
theorem map_snd_levels (tree : Rose α) : tree.levels.map Prod.snd = tree.preorder :=
  map_snd_preorder_leveled 0 tree

theorem levels_ne_nil : ∀ tree : Rose α, tree.levels ≠ []
  | .node _ _ => List.cons_ne_nil _ _

/-- The tree with another value at each node. -/
def relabel (f : α → β) : Rose α → Rose β :=
  fold fun a forest => .node (f a) forest

theorem relabel_node (f : α → β) (a : α) (forest : Forest α) :
    (node a forest).relabel f = node (f a) (forest.map (relabel f)) :=
  fold_node _ a forest

mutual
theorem preorder_leveled_relabel (f : α → β) (depth : Nat) : ∀ tree : Rose α,
    ((tree.relabel f).leveled depth).preorder =
      (tree.leveled depth).preorder.map (Prod.map id f)
  | .node a forest => by
    rw [relabel_node, leveled, leveled, preorder_node, preorder_node, List.map_cons,
      forestOnto_leveled_relabel f (depth + 1) forest]
    rfl
theorem forestOnto_leveled_relabel (f : α → β) (depth : Nat) : ∀ forest : Forest α,
    forestOnto [] (leveledForest depth (forest.map (relabel f))) =
      (forestOnto [] (leveledForest depth forest)).map (Prod.map id f)
  | [] => rfl
  | tree :: forest => by
    rw [List.map_cons, leveledForest, leveledForest, forestOnto_cons, forestOnto_cons,
      List.map_append, preorder_leveled_relabel f depth tree,
      forestOnto_leveled_relabel f depth forest]
end

theorem levels_relabel (f : α → β) (tree : Rose α) :
    (tree.relabel f).levels = tree.levels.map (Prod.map id f) :=
  preorder_leveled_relabel f 0 tree

end Rose

/-- The labels of a tree in pre-order, each with its depth. -/
def Rose.shape (tree : Rose Node) : List (Nat × String) :=
  tree.levels.map (Prod.map id Node.label)

namespace Tree

theorem label_eq (t : Tree) (id : Nat) : t.label id = ((t.node? id).getD default).label := by
  unfold label
  cases t.node? id with
  | none => rfl
  | some node => rfl

theorem view_eq_relabel (t : Tree) (id : Nat) :
    t.view id = (t.below id).relabel fun i => (t.node? i).getD default :=
  rfl

/-- The shape of a node is that of its view. -/
theorem shape_eq (t : Tree) (id : Nat) : t.shape id = (t.view id).shape := by
  rw [Rose.shape, view_eq_relabel, Rose.levels_relabel, List.map_map, shape]
  refine List.map_congr_left fun p _ => ?_
  exact congrArg (Prod.mk p.1) (label_eq t p.2)

end Tree

end TopDown
