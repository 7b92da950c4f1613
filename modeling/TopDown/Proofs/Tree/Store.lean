import TopDown.Proofs.Tree.Traversal
import TopDown.Tree.Store

/-!
# What stored trees keep

The list of the nodes, their children and the trace of the edges are updated one after the other,
and stay in step over every order of operations. The argument is a refinement: a tree that is kept
as the trace of its attachments has one stored form, and each operation on the stored form gives the
stored form of the tree after the operation. What is known of the trace is read off the stored form.
-/

namespace TopDown

open StateTransition

namespace Store

/-- One operation; the handle of what it makes is given up. -/
def apply (s : Store) : Tree.Op → Store
  | .openNonterminal parent name => (s.openNonterminal parent name).2
  | .openNamed parent label => (s.openNamed parent label).2
  | .attachTerminal parent kind lexeme => (s.attachTerminal parent kind lexeme).2
  | .attachEmpty parent => (s.attachEmpty parent).2
  | .fail failure => s.fail failure

/-- The stored trees that operations lead to, each at a node that is there. -/
inductive Built : Store → Prop
  | new : Built new
  | step {s : Store} (op : Tree.Op) (hs : Built s) (hparent : op.parent ∈ s.nodes) :
      Built (s.apply op)

end Store

/-! ## The stored form of a tree -/

namespace Tree

variable {t : Tree} {parent : Nat} {node : Node}

def stored (t : Tree) : Store where
  cells := t.records.map fun r => ⟨r.id, r.node, r.children⟩
  nodes := List.range t.size
  edges := t.edges.map fun (parent, child, role) => ⟨parent, child, role⟩
  failure := t.failure

theorem getElem?_cells_stored (t : Tree) (id : Nat) :
    t.stored.cells[id]? = (t.node? id).map fun node => ⟨id, node, t.children id⟩ := by
  rw [stored, List.getElem?_map]
  cases hnode : t.node? id with
  | some node =>
    rw [getElem?_records hnode, record, hnode]
    rfl
  | none =>
    have hlength : t.nodes.length ≤ id := by
      rwa [← getElem?_nodes, List.getElem?_eq_none_iff] at hnode
    rw [List.getElem?_eq_none (by simpa [records] using hlength)]
    rfl

theorem length_cells_stored (t : Tree) : t.stored.cells.length = t.size := by
  simp [stored, records, length_nodes]

theorem length_nodes_stored (t : Tree) : t.stored.nodes.length = t.size :=
  List.length_range

theorem node?_of_le {id : Nat} (hid : t.size ≤ id) : t.node? id = none := by
  rw [← getElem?_nodes]
  exact List.getElem?_eq_none (by rwa [length_nodes])

/-- The new cell comes last, and the cell of the parent gets a child. -/
theorem cells_stored_attach (ht : t.Closed) (hparent : parent < t.size) (node : Node) :
    (t.stored.cells ++ [(⟨t.size, node, []⟩ : Cell)]).modify parent
        (fun cell => { cell with children := cell.children ++ [t.size] }) =
      (t.attach parent node).stored.cells := by
  apply List.ext_getElem?
  intro id
  rw [List.getElem?_modify, List.getElem?_append, length_cells_stored, getElem?_cells_stored,
    getElem?_cells_stored, children_attach ht hparent, Option.map_eq_map]
  rcases Nat.lt_trichotomy id t.size with hlt | rfl | hgt
  · rw [if_pos hlt, node?_attach_of_lt hlt, Option.map_map]
    by_cases hid : parent = id <;> simp [hid, Function.comp_def]
  · rw [if_neg (Nat.lt_irrefl _), node?_attach_size, children_of_le (Nat.le_refl _), Nat.sub_self]
    simp [Nat.ne_of_lt hparent]
  · rw [if_neg (by omega), node?_of_le (by rw [size_attach]; omega),
      List.getElem?_eq_none (by simp; omega)]
    rfl

/-- A step on the stored form of a tree gives the stored form of the next one, and the handle of the
new node is its id. -/
theorem stored_attach (ht : t.Closed) (hparent : parent < t.size) (node : Node) :
    t.stored.attach parent node = (t.size, (t.attach parent node).stored) := by
  have hcells := cells_stored_attach ht hparent node
  have hnodes : t.stored.nodes ++ [t.size] = (t.attach parent node).stored.nodes := by
    rw [stored, stored, size_attach, List.range_succ]
  have hedges : t.stored.edges ++ [(⟨parent, t.size, node.role⟩ : Edge)] =
      (t.attach parent node).stored.edges := by
    simp [stored, edges_attach]
  rw [Store.attach, Store.make]
  simp only [length_cells_stored, length_nodes_stored, hcells, hnodes, hedges]
  rfl

/-- Each operation on the stored form of a tree is that operation on the tree. -/
theorem stored_apply (ht : t.Closed) {op : Op} (hparent : op.parent < t.size) :
    t.stored.apply op = (t.apply op).stored := by
  cases op with
  | openNonterminal parent name => exact congrArg Prod.snd (stored_attach ht hparent _)
  | openNamed parent label => exact congrArg Prod.snd (stored_attach ht hparent _)
  | attachTerminal parent kind lexeme =>
    have hwrapper : t.stored.openNamed parent ("<" ++ kind.name ++ ">") =
        (t.size, (t.attach parent (Node.wrapper kind)).stored) := stored_attach ht hparent _
    have hclosed := (grows_attach ht hparent (Node.wrapper kind)).closed
    rw [Store.apply, Store.attachTerminal, hwrapper]
    exact congrArg Prod.snd (stored_attach hclosed (by simp) _)
  | attachEmpty parent => exact congrArg Prod.snd (stored_attach ht hparent _)
  | fail failure =>
    have herror := stored_attach ht hparent (Node.error failure.message)
    rw [Store.apply, Store.fail, show failure.node = (Op.fail failure).parent from rfl, herror]
    rfl

theorem children_stored (t : Tree) (id : Nat) : t.stored.children id = t.children id := by
  rw [Store.children, getElem?_cells_stored]
  rcases Nat.lt_or_ge id t.size with hlt | hle
  · obtain ⟨node, hnode⟩ := exists_node?_of_lt_size hlt
    rw [hnode]
    rfl
  · rw [node?_of_le hle, children_of_le hle]
    rfl

end Tree

namespace Store

theorem new_eq_stored : new = Tree.stored {} :=
  rfl

/-- Operations on stored trees keep to the stored forms of trees that they build. -/
theorem Built.exists_tree {s : Store} (h : s.Built) : ∃ t : Tree, t.Built ∧ s = t.stored := by
  induction h with
  | new => exact ⟨{}, .new, new_eq_stored⟩
  | step op _ hparent ih =>
    obtain ⟨t, ht, rfl⟩ := ih
    have hlt : op.parent < t.size := List.mem_range.mp hparent
    exact ⟨t.apply op, ht.step op hlt, Tree.stored_apply ht.sound.ordered.closed hlt⟩

/-! ## One tree, stored three times -/

/-- What a walk in a loop passes from a node on. -/
def walk (s : Store) (handle : Handle) : Part (List Handle) :=
  (eval (Traversal.step s.children) ⟨s.children handle, [handle]⟩).map Traversal.visited

/-- The list of the nodes, their children and the trace of the edges show one tree, and a walk down
from its root passes each node once. -/
structure Represents (s : Store) : Prop where
  id_eq : ∀ i handle, s.nodes[i]? = some handle → s.id? handle = some i
  length_edges : s.edges.length = s.nodes.length - 1
  edge_eq : ∀ i child, s.nodes[i + 1]? = some child → ∃ parent ∈ s.nodes, ∃ role,
    s.edges[i]? = some ⟨parent, child, role⟩ ∧ s.role? child = some role ∧
      child ∈ s.children parent
  one_parent : ∀ i child, s.nodes[i + 1]? = some child → ∃ parent ∈ s.nodes, ∃ j < i + 1,
    s.id? parent = some j ∧ ∀ host, (s.children host).count child = if host = parent then 1 else 0
  children_mem : ∀ host, ∀ child ∈ s.children host, child ∈ s.nodes.tail
  children_sorted : ∀ host, (s.children host).Pairwise fun a b =>
    ∃ i j, s.id? a = some i ∧ s.id? b = some j ∧ i < j
  root_iff : ∀ i handle, s.nodes[i]? = some handle → (s.role? handle = some .root ↔ i = 0)
  nodup : s.nodes.Nodup
  walk_perm : ∃ visited, s.walk root = Part.some visited ∧ visited.Perm s.nodes
  sum_count : s.count .root + s.count .nonterminal + s.count .terminal + s.count .empty +
    s.count .error = s.nodes.length

/-- A step makes a node and gives it to its parent as the last child. The list and the trace go on,
and nothing else changes of the nodes that are there. -/
structure Extends (s s' : Store) (parent child : Handle) : Prop where
  nodes_prefix : s.nodes ++ [child] <+: s'.nodes
  edges_prefix : s.edges <+: s'.edges
  cell_eq : ∀ (handle : Handle) (cell : Cell), s.cells[handle]? = some cell →
    s'.cells[handle]? =
      some { cell with children := cell.children ++ if parent = handle then [child] else [] }

end Store

namespace Tree

variable {t : Tree} {id i : Nat} {node : Node}

theorem id?_stored (hid : id < t.size) : t.stored.id? id = some id := by
  obtain ⟨node, hnode⟩ := exists_node?_of_lt_size hid
  rw [Store.id?, getElem?_cells_stored, hnode]
  rfl

theorem role?_stored (t : Tree) (id : Nat) :
    t.stored.role? id = (t.node? id).map (·.role) := by
  rw [Store.role?, getElem?_cells_stored, Option.map_map]
  rfl

/-- In a stored form the handles count the nodes. -/
theorem of_getElem?_nodes_stored {handle : Nat} (h : t.stored.nodes[i]? = some handle) :
    handle = i ∧ i < t.size := by
  obtain ⟨hi, hhandle⟩ := List.getElem?_eq_some_iff.mp h
  rw [length_nodes_stored] at hi
  exact ⟨by simpa [stored] using hhandle.symm, hi⟩

theorem mem_nodes_stored : id ∈ t.stored.nodes ↔ id < t.size :=
  List.mem_range

theorem mem_tail_nodes_stored : id ∈ t.stored.nodes.tail ↔ 0 < id ∧ id < t.size := by
  show id ∈ (List.range t.size).tail ↔ _
  rw [List.range_eq_range', List.tail_range', List.mem_range'_1]
  have hpos : 0 < t.size := Nat.succ_pos _
  omega

/-- The stored form of a tree that operations have built is built by the same operations. -/
theorem Built.stored (h : t.Built) : t.stored.Built := by
  induction h with
  | new => exact .new
  | step op ht hparent ih =>
    rw [← stored_apply ht.sound.ordered.closed hparent]
    exact ih.step op (mem_nodes_stored.mpr hparent)

theorem count_stored (t : Tree) (role : Role) : t.stored.count role = t.count role := by
  have hnodes : (List.range t.size).map t.node? = t.nodes.map some := by
    apply List.ext_getElem?
    intro id
    rw [List.getElem?_map, List.getElem?_map, getElem?_nodes]
    rcases Nat.lt_or_ge id t.size with hlt | hle
    · obtain ⟨node, hnode⟩ := exists_node?_of_lt_size hlt
      rw [List.getElem?_range hlt, hnode, Option.map_some, hnode]
      rfl
    · rw [node?_of_le hle, List.getElem?_eq_none (by simpa using hle)]
      rfl
  have hroles : t.stored.role? = (fun node? : Option Node => node?.map (·.role)) ∘ t.node? :=
    funext (role?_stored t)
  calc t.stored.count role
      = ((List.range t.size).map t.node?).countP (fun node? => node?.map (·.role) = some role) := by
        rw [Store.count, hroles, List.countP_map]
        rfl
    _ = t.count role := by
        rw [hnodes, List.countP_map, count]
        simp [Function.comp_def]

theorem walk_stored (t : Tree) (id : Nat) : t.stored.walk id = t.walkLoop id := by
  rw [Store.walk, walkLoop, funext (children_stored t)]

/-- The stored form of a sound tree shows it three times. -/
theorem Sound.represents (ht : t.Sound) : t.stored.Represents where
  id_eq := fun i handle h => by
    obtain ⟨rfl, hi⟩ := of_getElem?_nodes_stored h
    exact id?_stored hi
  length_edges := by
    rw [length_nodes_stored]
    simp [stored, edges, size]
  edge_eq := fun i child h => by
    obtain ⟨rfl, hi⟩ := of_getElem?_nodes_stored h
    obtain ⟨node, hnode⟩ := exists_node?_of_lt_size hi
    obtain ⟨a, ha, rfl⟩ := Option.map_eq_some_iff.mp hnode
    have hparent := ht.ordered.closed a (Array.mem_of_getElem? ha)
    refine ⟨a.parent, mem_nodes_stored.mpr hparent, a.node.role, ?_, ?_, ?_⟩
    · simp [stored, edges, ha, Nat.add_comm]
    · rw [role?_stored, hnode]
      rfl
    · rw [children_stored]
      exact mem_children_of_getElem? ht.ordered.closed ha
  one_parent := fun i child h => by
    obtain ⟨rfl, hi⟩ := of_getElem?_nodes_stored h
    obtain ⟨parent, hlt, hcount⟩ := ht.ordered.exists_parent (Nat.succ_pos i) hi
    have hparent : parent < t.size := Nat.lt_trans hlt hi
    refine ⟨parent, mem_nodes_stored.mpr hparent, parent, hlt, id?_stored hparent, fun host => ?_⟩
    rw [children_stored]
    exact hcount host
  children_mem := fun host child h => by
    rw [children_stored] at h
    obtain ⟨hlt, hchild⟩ := ht.ordered.lt_of_mem_children h
    exact mem_tail_nodes_stored.mpr ⟨by omega, hchild⟩
  children_sorted := fun host => by
    rw [children_stored]
    refine (pairwise_children t host).imp_of_mem fun ha hb hlt => ?_
    have ha' := (ht.ordered.lt_of_mem_children ha).2
    have hb' := (ht.ordered.lt_of_mem_children hb).2
    exact ⟨_, _, id?_stored ha', id?_stored hb', hlt⟩
  root_iff := fun i handle h => by
    obtain ⟨rfl, hi⟩ := of_getElem?_nodes_stored h
    obtain ⟨node, hnode⟩ := exists_node?_of_lt_size hi
    rw [role?_stored, hnode, Option.map_some, Option.some_inj]
    exact ht.root_iff ((getElem?_nodes t _).trans hnode)
  nodup := List.nodup_range
  walk_perm := ⟨_, (walk_stored t 0).trans (ht.ordered.walkLoop_eq 0), ht.ordered.preorder_perm⟩
  sum_count := by
    simp only [count_stored, length_nodes_stored]
    exact (sum_countP_role t.nodes).trans (length_nodes t)

/-- Each edge of the trace leads to the node of the next place, a child of its parent. -/
theorem child_of_edges_stored (ht : t.Closed) {edge : Edge}
    (hedge : t.stored.edges[i]? = some edge) :
    edge.child = i + 1 ∧ edge.child ∈ t.stored.children edge.parent := by
  rw [stored, edges, List.map_map, List.getElem?_map, List.getElem?_zipIdx] at hedge
  obtain ⟨⟨a, id⟩, hentry, rfl⟩ := Option.map_eq_some_iff.mp hedge
  obtain ⟨a', ha, hpair⟩ := Option.map_eq_some_iff.mp hentry
  obtain ⟨rfl, rfl⟩ := Prod.mk.inj hpair
  rw [children_stored]
  refine ⟨Nat.add_comm 1 i, ?_⟩
  rw [show 1 + i = i + 1 from Nat.add_comm 1 i]
  exact mem_children_of_getElem? ht (by simpa using ha)

/-- What a tree stores after an operation extends what it has stored. -/
theorem extends_stored (ht : t.Closed) {op : Op} (hparent : op.parent < t.size) :
    t.stored.Extends (t.apply op).stored op.parent t.size where
  nodes_prefix := by
    obtain ⟨more, hmore⟩ := Nat.exists_eq_add_of_lt (size_lt_apply t op)
    rw [stored, stored, hmore, ← List.range_succ, Nat.add_right_comm, List.range_add]
    exact List.prefix_append _ _
  edges_prefix := (edges_prefix_apply t op).map _
  cell_eq := fun id cell hcell => by
    have hgrows := grows_apply ht hparent
    rw [getElem?_cells_stored] at hcell
    obtain ⟨node, hnode, rfl⟩ := Option.map_eq_some_iff.mp hcell
    have hid := lt_size_of_node?_eq_some hnode
    rw [getElem?_cells_stored, hgrows.node?_eq id hid, hnode, hgrows.children_eq id hid]
    rfl

end Tree

namespace Store

/-- However a tree is built, it is the stored form of a trace that the same operations lead to, and
the list of its nodes, their children and the trace of its edges show one tree; the next operation
gives its node one more child and keeps everything else. -/
theorem built_represents {s : Store} (h : s.Built) :
    (∃ t : Tree, t.Built ∧ s = t.stored) ∧ s.Represents ∧
      ∀ op : Tree.Op, op.parent ∈ s.nodes →
        ∃ child, s.Extends (s.apply op) op.parent child := by
  obtain ⟨t, ht, rfl⟩ := h.exists_tree
  have hclosed := ht.sound.ordered.closed
  refine ⟨⟨t, ht, rfl⟩, ht.sound.represents, fun op hparent => ?_⟩
  have hlt : op.parent < t.size := Tree.mem_nodes_stored.mp hparent
  rw [Tree.stored_apply hclosed hlt]
  exact ⟨t.size, Tree.extends_stored hclosed hlt⟩

/-- After a failure a terminal is attached below a node that is not the last one, and an empty
alternative below another one. -/
theorem built_represents_after_failure :
    ∃ s : Store, s.Built ∧ s.failure.isSome = true ∧ s.nodes = [0, 1, 2, 3, 4, 5] ∧
      s.children 0 = [1, 2] ∧ s.children 1 = [3, 4] ∧ s.children 4 = [5] ∧ s.Represents ∧
      ∃ child, s.Extends (s.apply (.attachEmpty 2)) 2 child := by
  have hfirst := Built.new.step (.openNonterminal 0 "A") (by decide)
  have hsecond := hfirst.step (.openNonterminal 0 "B") (by decide)
  have hfailed := hsecond.step (.fail ⟨.mismatch, "unexpected", 1, none⟩) (by decide)
  have hbuilt := hfailed.step (.attachTerminal 1 .number "7") (by decide)
  obtain ⟨_, hrepresents, hstep⟩ := built_represents hbuilt
  exact ⟨_, hbuilt, rfl, rfl, rfl, rfl, rfl, hrepresents, hstep (.attachEmpty 2) (by decide)⟩

end Store

end TopDown
