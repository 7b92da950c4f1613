import TopDown.Proofs.Tree.Graft

/-!
# Numbers in pre-order

Nodes are numbered in the order of the trace. A tree that is grafted is numbered in pre-order, so
that to list the nodes below the root of a tree that is grafted into an empty one is to count.
-/

namespace TopDown

namespace Tree

variable {t t' : Tree}

theorem preorder_congr (h : t'.attachments = t.attachments) (id : Nat) :
    t'.preorder id = t.preorder id := by
  obtain ⟨attachments, failure⟩ := t
  obtain ⟨attachments', failure'⟩ := t'
  obtain rfl : attachments' = attachments := h
  rfl

mutual
/-- The ids below the first node of a held tree count on from it. -/
theorem preorder_growFrom_of_holds {height id : Nat} : ∀ {tree : Rose Node}, t.Holds id tree →
    tree.size ≤ height →
    (growFrom t.childTable height id).preorder = List.range' id tree.size
  | .node node forest, h, hheight => by
    rw [Rose.size] at hheight
    obtain ⟨height, rfl⟩ := Nat.exists_eq_succ_of_ne_zero (by omega : height ≠ 0)
    obtain ⟨_, hchildren, hforest⟩ := h
    have hids : (t.childTable[id]?).getD [] = rootIds (id + 1) forest := hchildren
    rw [growFrom, Rose.preorder_node, hids, Rose.size, List.range'_succ,
      forestOnto_growFrom_of_holdsForest hforest (by omega)]
theorem forestOnto_growFrom_of_holdsForest {height next : Nat} : ∀ {forest : Forest Node},
    t.HoldsForest next forest → Rose.sizeOfForest forest ≤ height →
    Rose.forestOnto [] ((rootIds next forest).map (growFrom t.childTable height)) =
      List.range' next (Rose.sizeOfForest forest)
  | [], _, _ => rfl
  | tree :: forest, h, hheight => by
    rw [Rose.sizeOfForest] at hheight
    rw [rootIds, List.map_cons, Rose.forestOnto_cons,
      preorder_growFrom_of_holds h.1 (by omega),
      forestOnto_growFrom_of_holdsForest h.2 (by omega), Rose.sizeOfForest]
    exact List.range'_append_1
end

/-- In a tree that is grafted below the root of an empty one the pre-order counts the nodes. -/
theorem preorder_graft_empty (tree : Rose Node) :
    (Tree.graft {} 0 tree).preorder 0 = List.range (Tree.graft {} 0 tree).size := by
  rw [List.range_eq_range', size_graft_empty]
  exact preorder_growFrom_of_holds (holds_graft_empty tree)
    (Nat.le_of_eq (size_graft_empty tree).symm)

/-! ## The trace and the records -/

/-- The node that an attachment adds is a child of the parent. -/
theorem mem_children_of_getElem? (ht : t.Closed) {i : Nat} {a : Attachment}
    (ha : t.attachments[i]? = some a) : i + 1 ∈ t.children a.parent := by
  rw [children_of_lt (ht a (Array.mem_of_getElem? ha)), idsBelow, List.mem_filterMap]
  refine ⟨(a, 1 + i), List.mk_add_mem_zipIdx_iff_getElem?.mpr (by simpa using ha), ?_⟩
  simp [Nat.add_comm]

theorem getElem?_nodes (t : Tree) (id : Nat) : t.nodes[id]? = t.node? id := by
  cases id with
  | zero => rfl
  | succ i => simp [nodes, node?]

/-- The record of each node stands in the place of its id. -/
theorem getElem?_records {id : Nat} {node : Node} (h : t.node? id = some node) :
    t.records[id]? = some (t.record id) := by
  have hnode : t.nodes[id]? = some node := (getElem?_nodes t id).trans h
  simp [records, record, children, hnode, h]

end Tree

end TopDown
