import TopDown.Proofs.Tree.Children
import TopDown.Proofs.Tree.Rose

/-!
# Views of grafted trees

The view of a node is the tree of nodes below it. What is grafted into a closed tree is seen again
from its first node, which is the last child of the parent, and all that was there before stays as
it was.
-/

namespace TopDown

namespace Tree

/-- The tree of nodes below a node. -/
def view (t : Tree) (id : Nat) : Rose Node :=
  (t.below id).fold fun i forest => .node ((t.node? i).getD default) forest

theorem view_congr {t t' : Tree} (h : t'.attachments = t.attachments) (id : Nat) :
    t'.view id = t.view id := by
  obtain ⟨attachments, failure⟩ := t
  obtain ⟨attachments', failure'⟩ := t'
  obtain rfl : attachments' = attachments := h
  rfl

theorem nodes_congr {t t' : Tree} (h : t'.attachments = t.attachments) : t'.nodes = t.nodes := by
  rw [nodes, nodes, h]

theorem size_congr {t t' : Tree} (h : t'.attachments = t.attachments) : t'.size = t.size := by
  rw [size, size, h]

theorem node?_congr {t t' : Tree} (h : t'.attachments = t.attachments) (id : Nat) :
    t'.node? id = t.node? id := by
  cases id with
  | zero => rfl
  | succ i => rw [node?, node?, h]

theorem closed_congr {t t' : Tree} (h : t'.attachments = t.attachments) (ht : t.Closed) :
    t'.Closed := by
  unfold Closed at ht ⊢
  rw [size_congr h, h]
  exact ht

theorem children_congr {t t' : Tree} (h : t'.attachments = t.attachments) (id : Nat) :
    t'.children id = t.children id := by
  obtain ⟨attachments, failure⟩ := t
  obtain ⟨attachments', failure'⟩ := t'
  obtain rfl : attachments' = attachments := h
  rfl

/-! ## Growth -/

/-- The tree has grown by nodes below `parent` and below them; the children that `parent` has got
are given by their ids. -/
structure Grows (t t' : Tree) (parent : Nat) (ids : List Nat) : Prop where
  closed : t'.Closed
  size_le : t.size ≤ t'.size
  node?_eq : ∀ id < t.size, t'.node? id = t.node? id
  children_eq : ∀ id < t.size, t'.children id = t.children id ++ if parent = id then ids else []

variable {t t₁ t' : Tree} {parent : Nat} {node : Node} {ids ids' : List Nat}

theorem Grows.refl (ht : t.Closed) (parent : Nat) : Grows t t parent [] where
  closed := ht
  size_le := Nat.le_refl _
  node?_eq := fun _ _ => rfl
  children_eq := fun _ _ => by simp

theorem grows_attach (ht : t.Closed) (hparent : parent < t.size) (node : Node) :
    Grows t (t.attach parent node) parent [t.size] where
  closed := closed_attach ht hparent
  size_le := by simp
  node?_eq := fun _ hid => node?_attach_of_lt hid
  children_eq := fun id _ => children_attach ht hparent id

theorem Grows.trans (h : Grows t t₁ parent ids) (h' : Grows t₁ t' parent ids') :
    Grows t t' parent (ids ++ ids') where
  closed := h'.closed
  size_le := Nat.le_trans h.size_le h'.size_le
  node?_eq := fun id hid => by
    rw [h'.node?_eq id (Nat.lt_of_lt_of_le hid h.size_le), h.node?_eq id hid]
  children_eq := fun id hid => by
    rw [h'.children_eq id (Nat.lt_of_lt_of_le hid h.size_le), h.children_eq id hid,
      List.append_assoc]
    split <;> simp

theorem Grows.congr (h : Grows t t₁ parent ids) (hsame : t'.attachments = t₁.attachments) :
    Grows t t' parent ids where
  closed := closed_congr hsame h.closed
  size_le := size_congr hsame ▸ h.size_le
  node?_eq := fun id hid => (node?_congr hsame id).trans (h.node?_eq id hid)
  children_eq := fun id hid => (children_congr hsame id).trans (h.children_eq id hid)

/-- What grows below a new node leaves the children of its parent as they are. -/
theorem Grows.below (h : Grows t t₁ parent ids) {new : Nat} (hnew : t.size ≤ new)
    (h' : Grows t₁ t' new ids') : Grows t t' parent ids where
  closed := h'.closed
  size_le := Nat.le_trans h.size_le h'.size_le
  node?_eq := fun id hid => by
    rw [h'.node?_eq id (Nat.lt_of_lt_of_le hid h.size_le), h.node?_eq id hid]
  children_eq := fun id hid => by
    have hne : new ≠ id := by omega
    rw [h'.children_eq id (Nat.lt_of_lt_of_le hid h.size_le), h.children_eq id hid, if_neg hne,
      List.append_nil]

/-! ## Nodes that hold a tree -/

/-- The ids of the roots of a forest that is numbered in pre-order from `next` on. -/
def rootIds (next : Nat) : Forest Node → List Nat
  | [] => []
  | tree :: forest => next :: rootIds (next + tree.size) forest

mutual
/-- The nodes from `id` on are those of the tree in pre-order. -/
def Holds (t : Tree) (id : Nat) : Rose Node → Prop
  | .node node forest =>
    t.node? id = some node ∧ t.children id = rootIds (id + 1) forest ∧ HoldsForest t (id + 1) forest
def HoldsForest (t : Tree) (next : Nat) : Forest Node → Prop
  | [] => True
  | tree :: forest => Holds t next tree ∧ HoldsForest t (next + tree.size) forest
end

/-- The children and the node at each of the ids are the same. -/
def Agree (t t' : Tree) (low high : Nat) : Prop :=
  ∀ id, low ≤ id → id < high → t'.node? id = t.node? id ∧ t'.children id = t.children id

theorem Agree.mono {low low' high high' : Nat} (h : Agree t t' low high) (hlow : low ≤ low')
    (hhigh : high' ≤ high) : Agree t t' low' high' :=
  fun id hge hlt => h id (Nat.le_trans hlow hge) (Nat.lt_of_lt_of_le hlt hhigh)

theorem Grows.agree (h : Grows t t' parent ids) {low high : Nat} (hlow : parent < low)
    (hhigh : high ≤ t.size) : Agree t t' low high := by
  intro id hge hlt
  refine ⟨h.node?_eq id (by omega), ?_⟩
  rw [h.children_eq id (by omega), if_neg (by omega), List.append_nil]

mutual
theorem Holds.of_agree {id : Nat} : ∀ {tree : Rose Node}, Agree t t' id (id + tree.size) →
    t.Holds id tree → t'.Holds id tree
  | .node node forest, hagree, h => by
    rw [Rose.size] at hagree
    obtain ⟨hnode, hchildren, hforest⟩ := h
    obtain ⟨hnode', hchildren'⟩ := hagree id (Nat.le_refl id) (by omega)
    have hbelow : Agree t t' (id + 1) (id + 1 + Rose.sizeOfForest forest) :=
      hagree.mono (by omega) (by omega)
    exact ⟨hnode'.trans hnode, hchildren'.trans hchildren, HoldsForest.of_agree hbelow hforest⟩
theorem HoldsForest.of_agree {next : Nat} : ∀ {forest : Forest Node},
    Agree t t' next (next + Rose.sizeOfForest forest) →
    t.HoldsForest next forest → t'.HoldsForest next forest
  | [], _, _ => trivial
  | tree :: forest, hagree, h => by
    rw [Rose.sizeOfForest] at hagree
    obtain ⟨htree, hforest⟩ := h
    have hfirst : Agree t t' next (next + tree.size) := hagree.mono (Nat.le_refl _) (by omega)
    have hrest : Agree t t' (next + tree.size) (next + tree.size + Rose.sizeOfForest forest) :=
      hagree.mono (by omega) (by omega)
    exact ⟨Holds.of_agree hfirst htree, HoldsForest.of_agree hrest hforest⟩
end

mutual
/-- A held tree is what is seen from its first node. -/
theorem fold_growFrom_of_holds {height id : Nat} : ∀ {tree : Rose Node}, t.Holds id tree →
    tree.size ≤ height →
    (growFrom t.childTable height id).fold
      (fun i forest => .node ((t.node? i).getD default) forest) = tree
  | .node node forest, h, hheight => by
    rw [Rose.size] at hheight
    obtain ⟨height, rfl⟩ := Nat.exists_eq_succ_of_ne_zero (by omega : height ≠ 0)
    obtain ⟨hnode, hchildren, hforest⟩ := h
    have hids : (t.childTable[id]?).getD [] = rootIds (id + 1) forest := hchildren
    rw [growFrom, Rose.fold_node, hids, hnode, List.map_map]
    exact congrArg (Rose.node node) (map_growFrom_of_holdsForest hforest (by omega))
theorem map_growFrom_of_holdsForest {height next : Nat} : ∀ {forest : Forest Node},
    t.HoldsForest next forest → Rose.sizeOfForest forest ≤ height →
    (rootIds next forest).map ((Rose.fold fun i forest => .node ((t.node? i).getD default) forest) ∘
      growFrom t.childTable height) = forest
  | [], _, _ => rfl
  | tree :: forest, h, hheight => by
    rw [Rose.sizeOfForest] at hheight
    rw [rootIds, List.map_cons, map_growFrom_of_holdsForest h.2 (by omega)]
    exact congrArg (· :: forest) (fold_growFrom_of_holds h.1 (by omega))
end

/-! ## Grafting -/

mutual
theorem size_graft (t : Tree) (parent : Nat) : ∀ tree : Rose Node,
    (t.graft parent tree).size = t.size + tree.size
  | .node node forest => by
    rw [graft, size_graftForest, size_attach, Rose.size]
    omega
theorem size_graftForest (t : Tree) (parent : Nat) : ∀ forest : Forest Node,
    (t.graftForest parent forest).size = t.size + Rose.sizeOfForest forest
  | [] => rfl
  | tree :: forest => by
    rw [graftForest, size_graftForest, size_graft, Rose.sizeOfForest]
    omega
end

theorem graftForest_append (t : Tree) (parent : Nat) (first rest : Forest Node) :
    t.graftForest parent (first ++ rest) =
      (t.graftForest parent first).graftForest parent rest := by
  induction first generalizing t with
  | nil => rfl
  | cons tree first ih => exact ih (t.graft parent tree)

mutual
theorem nodes_graft (t : Tree) (parent : Nat) : ∀ tree : Rose Node,
    (t.graft parent tree).nodes = t.nodes ++ tree.preorder
  | .node node forest => by
    rw [graft, nodes_graftForest, Rose.preorder_node]
    simp [nodes, attach]
theorem nodes_graftForest (t : Tree) (parent : Nat) : ∀ forest : Forest Node,
    (t.graftForest parent forest).nodes = t.nodes ++ Rose.forestOnto [] forest
  | [] => by simp [graftForest, Rose.forestOnto]
  | tree :: forest => by
    rw [graftForest, nodes_graftForest, nodes_graft, Rose.forestOnto_cons, List.append_assoc]
end

mutual
theorem failure_graft (t : Tree) (parent : Nat) : ∀ tree : Rose Node,
    (t.graft parent tree).failure = t.failure
  | .node node forest => by
    rw [graft, failure_graftForest]
    rfl
theorem failure_graftForest (t : Tree) (parent : Nat) : ∀ forest : Forest Node,
    (t.graftForest parent forest).failure = t.failure
  | [] => rfl
  | tree :: forest => by rw [graftForest, failure_graftForest, failure_graft]
end

mutual
/-- A graft adds one child to its parent, and the nodes from this child on are the grafted tree. -/
theorem grows_graft {t : Tree} {parent : Nat} (ht : t.Closed) (hparent : parent < t.size) :
    ∀ tree : Rose Node,
    Grows t (t.graft parent tree) parent [t.size] ∧ (t.graft parent tree).Holds t.size tree
  | .node node forest => by
    have hattach := grows_attach ht hparent node
    have hnew : t.size < (t.attach parent node).size := by simp
    obtain ⟨hgrows, hholds⟩ := grows_graftForest hattach.closed hnew forest
    rw [size_attach] at hholds
    refine ⟨hattach.below (Nat.le_refl _) hgrows, ?_, ?_, hholds⟩
    · rw [graft, hgrows.node?_eq _ hnew, node?_attach_size]
    · -- The new node has no children of its own before its forest is grafted.
      rw [graft, hgrows.children_eq _ hnew, children_attach ht hparent, if_pos rfl,
        if_neg (by omega), children_of_le (Nat.le_refl _), size_attach]
      rfl
theorem grows_graftForest {t : Tree} {parent : Nat} (ht : t.Closed) (hparent : parent < t.size) :
    ∀ forest : Forest Node,
    Grows t (t.graftForest parent forest) parent (rootIds t.size forest) ∧
      (t.graftForest parent forest).HoldsForest t.size forest
  | [] => ⟨Grows.refl ht parent, trivial⟩
  | tree :: forest => by
    obtain ⟨hfirst, hheld⟩ := grows_graft ht hparent tree
    obtain ⟨hrest, hholds⟩ :=
      grows_graftForest hfirst.closed (Nat.lt_of_lt_of_le hparent hfirst.size_le) forest
    rw [size_graft] at hrest hholds
    refine ⟨hfirst.trans hrest, ?_, hholds⟩
    exact hheld.of_agree (hrest.agree hparent (Nat.le_of_eq (size_graft t parent tree).symm))
end

theorem closed_graft (ht : t.Closed) (hparent : parent < t.size) (tree : Rose Node) :
    (t.graft parent tree).Closed :=
  (grows_graft ht hparent tree).1.closed

/-- What is grafted is seen again. -/
theorem view_graft (ht : t.Closed) (hparent : parent < t.size) (tree : Rose Node) :
    (t.graft parent tree).view t.size = tree := by
  apply fold_growFrom_of_holds (grows_graft ht hparent tree).2
  rw [size_graft]
  omega

/-- A tree that is grafted below the root of an empty tree is all there is. -/
theorem holds_graft_empty (tree : Rose Node) :
    (Tree.graft {} 0 tree).Holds 0 (.node Node.root [tree]) := by
  obtain ⟨hgrows, hholds⟩ := grows_graft closed_empty Nat.one_pos tree
  exact ⟨rfl, hgrows.children_eq 0 Nat.one_pos, hholds, trivial⟩

theorem size_graft_empty (tree : Rose Node) :
    (Tree.graft {} 0 tree).size = (Rose.node Node.root [tree]).size := by
  have hempty : ({} : Tree).size = 1 := rfl
  rw [size_graft, hempty, Rose.size, Rose.sizeOfForest, Rose.sizeOfForest]
  omega

theorem view_graft_empty (tree : Rose Node) :
    (Tree.graft {} 0 tree).view 0 = .node Node.root [tree] :=
  fold_growFrom_of_holds (holds_graft_empty tree) (Nat.le_of_eq (size_graft_empty tree).symm)

end Tree

end TopDown
