import TopDown.Proofs.Tree.Levels
import TopDown.Proofs.Tree.Walk

/-!
# Shapes

The shape of a node pairs what a walk from it passes with the depths of the nodes. The depths alone
tell where a subtree ends, so that the labels below a node, as a tree, are read off its shape again:
nodes have one shape exactly if the labelled trees below them are the same.
-/

namespace TopDown

namespace Rose

variable {α : Type}

/-! ## Trees from their levels -/

theorem preorder_leveled_node (depth : Nat) (a : α) (forest : Forest α) :
    ((node a forest).leveled depth).preorder =
      (depth, a) :: forest.flatMap fun tree => (tree.leveled (depth + 1)).preorder := by
  rw [leveled, preorder_node]
  congr 1
  induction forest with
  | nil => rfl
  | cons tree forest ih => rw [leveledForest, forestOnto_cons, ih, List.flatMap_cons]

theorem head?_leveled (depth : Nat) (rest : List (Nat × α)) (tree : Rose α) :
    ((tree.leveled depth).preorder ++ rest).head? = some (depth, tree.value) := by
  cases tree with
  | node a forest => rfl

/-- What comes after a tree of the given depth is no deeper than the tree. -/
def Resumes (depth : Nat) (rest : List (Nat × α)) : Prop :=
  ∀ p ∈ rest.head?, p.1 ≤ depth

theorem resumes_forest {depth : Nat} {rest : List (Nat × α)} (hrest : Resumes depth rest)
    (forest : Forest α) : Resumes depth (forestOnto [] (leveledForest depth forest) ++ rest) := by
  cases forest with
  | nil => exact hrest
  | cons tree forest =>
    intro p hp
    rw [leveledForest, forestOnto_cons, List.append_assoc, head?_leveled] at hp
    exact Nat.le_of_eq (congrArg Prod.fst (Option.some.inj hp)).symm

/-- No deeper tree comes after a tree. -/
theorem Resumes.ne_leveled {depth : Nat} {rest : List (Nat × α)} (hrest : Resumes depth rest)
    (tree : Rose α) (list : List (Nat × α)) :
    rest ≠ (tree.leveled (depth + 1)).preorder ++ list := by
  rintro rfl
  have hle := hrest _ (head?_leveled (depth + 1) list tree)
  exact Nat.not_succ_le_self depth hle

mutual
theorem leveled_inj {depth : Nat} {rest rest' : List (Nat × α)} (hrest : Resumes depth rest)
    (hrest' : Resumes depth rest') : ∀ {tree tree' : Rose α},
    (tree.leveled depth).preorder ++ rest = (tree'.leveled depth).preorder ++ rest' →
      tree = tree' ∧ rest = rest'
  | .node a forest, .node a' forest', h => by
    obtain ⟨hvalue, hbelow⟩ := List.cons.inj h
    obtain ⟨rfl, hsame⟩ := leveledForest_inj hrest hrest' hbelow
    rw [(Prod.mk.inj hvalue).2]
    exact ⟨rfl, hsame⟩
/-- A forest ends where the list goes on higher up. -/
theorem leveledForest_inj {depth : Nat} {rest rest' : List (Nat × α)} (hrest : Resumes depth rest)
    (hrest' : Resumes depth rest') : ∀ {forest forest' : Forest α},
    forestOnto [] (leveledForest (depth + 1) forest) ++ rest =
      forestOnto [] (leveledForest (depth + 1) forest') ++ rest' →
      forest = forest' ∧ rest = rest'
  | [], [], h => ⟨rfl, h⟩
  | [], tree :: forest, h => by
    rw [leveledForest, leveledForest, forestOnto_cons, List.append_assoc] at h
    exact absurd h (hrest.ne_leveled tree _)
  | tree :: forest, [], h => by
    rw [leveledForest, leveledForest, forestOnto_cons, List.append_assoc] at h
    exact absurd h.symm (hrest'.ne_leveled tree _)
  | tree :: forest, tree' :: forest', h => by
    have hdeeper {rest : List (Nat × α)} (hrest : Resumes depth rest) :
        Resumes (depth + 1) rest := fun p hp => Nat.le_succ_of_le (hrest p hp)
    rw [leveledForest, leveledForest, forestOnto_cons, forestOnto_cons, List.append_assoc,
      List.append_assoc] at h
    obtain ⟨rfl, hsame⟩ := leveled_inj (resumes_forest (hdeeper hrest) forest)
      (resumes_forest (hdeeper hrest') forest') h
    obtain ⟨rfl, hrests⟩ := leveledForest_inj hrest hrest' hsame
    exact ⟨rfl, hrests⟩
end

/-- A tree is determined by its levels. -/
theorem levels_injective {tree tree' : Rose α} (h : tree.levels = tree'.levels) : tree = tree' := by
  have hnil : Resumes 0 ([] : List (Nat × α)) := nofun
  refine (leveled_inj hnil hnil ?_).1
  rw [List.append_nil, List.append_nil]
  exact h

end Rose

namespace Tree

variable {t : Tree} {id child : Nat}

/-! ## Labelled trees -/

/-- The labels below a node, as a tree. -/
def labelled (t : Tree) (id : Nat) : Rose String :=
  (t.below id).relabel t.label

theorem Ordered.labelled_eq (ht : t.Ordered) (id : Nat) :
    t.labelled id = .node (t.label id) ((t.children id).map t.labelled) := by
  rw [labelled, ht.below_eq, Rose.relabel_node, List.map_map]
  rfl

theorem levels_labelled (t : Tree) (id : Nat) : (t.labelled id).levels = t.shape id :=
  Rose.levels_relabel t.label (t.below id)

/-- Nodes have one shape exactly if the labels below them are the same trees. -/
theorem shape_eq_shape_iff {t t' : Tree} {id id' : Nat} :
    t.shape id = t'.shape id' ↔ t.labelled id = t'.labelled id' := by
  rw [← levels_labelled, ← levels_labelled]
  exact ⟨Rose.levels_injective, congrArg Rose.levels⟩

/-! ## Depths -/

/-- A node lies so many levels below `id`. -/
inductive Descends (t : Tree) (id : Nat) : (depth : Nat) → (node : Nat) → Prop
  | self : Descends t id 0 id
  | child {depth node child : Nat} (h : Descends t id depth node)
      (hchild : child ∈ t.children node) : Descends t id (depth + 1) child

theorem Ordered.le_of_descends (ht : t.Ordered) {depth node : Nat}
    (h : t.Descends id depth node) : id ≤ node := by
  induction h with
  | self => exact Nat.le_refl id
  | child _ hchild ih =>
    have hlt := (ht.lt_of_mem_children hchild).1
    omega

theorem Ordered.parent_unique (ht : t.Ordered) {parent parent' : Nat}
    (h : child ∈ t.children parent) (h' : child ∈ t.children parent') : parent = parent' := by
  obtain ⟨i, a, ha, rfl, rfl⟩ := (mem_children_iff ht.closed).mp h
  obtain ⟨j, b, hb, rfl, hj⟩ := (mem_children_iff ht.closed).mp h'
  obtain rfl := Nat.succ.inj hj
  rw [Option.some.inj (ha.symm.trans hb)]

/-- There is one way down to a node. -/
theorem Ordered.depth_unique (ht : t.Ordered) {depth depth' node : Nat}
    (h : t.Descends id depth node) (h' : t.Descends id depth' node) : depth = depth' := by
  -- A node with a parent below `id` is not `id` itself.
  have hnot {depth node : Nat} (h : t.Descends id depth node) : id ∉ t.children node := by
    intro hchild
    have hle := ht.le_of_descends h
    have hlt := (ht.lt_of_mem_children hchild).1
    omega
  induction h generalizing depth' with
  | self =>
    cases h' with
    | self => rfl
    | child h' hchild' => exact absurd hchild' (hnot h')
  | child h hchild ih =>
    cases h' with
    | self => exact absurd hchild (hnot h)
    | child h' hchild' =>
      obtain rfl := ht.parent_unique hchild hchild'
      rw [ih h']

theorem descends_of_mem_growFrom {height depth node : Nat} (h : t.Descends id depth node)
    {p : Nat × Nat} (hp : p ∈ ((growFrom t.childTable height node).leveled depth).preorder) :
    t.Descends id p.1 p.2 := by
  induction height generalizing depth node with
  | zero =>
    obtain rfl : p = (depth, node) := List.mem_singleton.mp hp
    exact h
  | succ height ih =>
    rw [growFrom, Rose.preorder_leveled_node, List.flatMap_map, List.mem_cons, List.mem_flatMap]
      at hp
    rcases hp with rfl | ⟨child, hchild, hbelow⟩
    · exact h
    · exact ih (h.child hchild) hbelow

/-- The shape of a node lists the depths and the labels of what a walk from the node passes. -/
theorem Ordered.shape_preorder (ht : t.Ordered) (id : Nat) :
    List.Forall₂ (fun node p => (∀ depth, t.Descends id depth node ↔ depth = p.1) ∧
      p.2 = t.label node) (t.preorder id) (t.shape id) := by
  rw [preorder, ← Rose.map_snd_levels, shape, List.forall₂_map_left_iff,
    List.forall₂_map_right_iff, List.forall₂_same]
  intro p hp
  have hdescends : t.Descends id p.1 p.2 := descends_of_mem_growFrom .self hp
  refine ⟨fun depth => ⟨fun h => ht.depth_unique h hdescends, ?_⟩, rfl⟩
  rintro rfl
  exact hdescends

end Tree

end TopDown
