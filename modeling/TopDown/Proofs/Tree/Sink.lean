import TopDown.Proofs.Tree.Walk

/-!
# Trees that are built step by step

A tree is built from an empty one by operations, each at a node that is there: a non-terminal is
opened, a terminal or an empty alternative is attached, a failure is reported. A failure ends
nothing, and the next operation may be at any node. At every step nodes come after their parents,
and a step only adds to the tree.
-/

namespace TopDown

namespace Tree

/-- One operation on a tree. -/
inductive Op where
  | openNonterminal (parent : Nat) (name : String)
  | openNamed (parent : Nat) (label : String)
  | attachTerminal (parent : Nat) (kind : Kind) (lexeme : String)
  | attachEmpty (parent : Nat)
  | fail (failure : Failure)

/-- The node at which the operation is. -/
def Op.parent : Op → Nat
  | openNonterminal parent _ => parent
  | openNamed parent _ => parent
  | attachTerminal parent _ _ => parent
  | attachEmpty parent => parent
  | fail failure => failure.node

def apply (t : Tree) : Op → Tree
  | .openNonterminal parent name => t.attach parent (.nonterminal name)
  | .openNamed parent label => t.attach parent ⟨.nonterminal, label⟩
  | .attachTerminal parent kind lexeme => t.attachMatch parent kind lexeme
  | .attachEmpty parent => t.attach parent .empty
  | .fail failure => t.fail failure

/-- The trees that operations lead to. -/
inductive Built : Tree → Prop
  | new : Built {}
  | step {t : Tree} (op : Op) (ht : Built t) (hparent : op.parent < t.size) : Built (t.apply op)

/-- The edges in the order of the trace: the ids of the parent and of the child, and its role. -/
def edges (t : Tree) : List (Nat × Nat × Role) :=
  (t.attachments.toList.zipIdx 1).map fun (a, id) => (a.parent, id, a.node.role)

variable {t : Tree} {parent : Nat}

/-! ## What operations keep -/

/-- Nodes come after their parents, and only the root has its role. -/
structure Sound (t : Tree) : Prop where
  ordered : t.Ordered
  role_ne : ∀ a ∈ t.attachments, a.node.role ≠ .root

theorem sound_empty : Sound {} :=
  ⟨ordered_empty, by simp⟩

theorem Sound.attach (ht : t.Sound) (hparent : parent < t.size) (node : Node)
    (hrole : node.role ≠ .root) : (t.attach parent node).Sound where
  ordered := ht.ordered.attach hparent node
  role_ne := fun a ha => by
    rcases Array.mem_push.mp ha with hold | rfl
    · exact ht.role_ne a hold
    · exact hrole

theorem Sound.attachMatch (ht : t.Sound) (hparent : parent < t.size) (kind : Kind)
    (lexeme : String) : (t.attachMatch parent kind lexeme).Sound := by
  have hwrapper := ht.attach hparent (Node.wrapper kind) nofun
  exact hwrapper.attach (by simp) (Node.terminal lexeme) nofun

theorem Sound.apply (ht : t.Sound) {op : Op} (hparent : op.parent < t.size) :
    (t.apply op).Sound := by
  cases op with
  | openNonterminal => exact ht.attach hparent _ nofun
  | openNamed => exact ht.attach hparent _ nofun
  | attachTerminal => exact ht.attachMatch hparent _ _
  | attachEmpty => exact ht.attach hparent _ nofun
  | fail failure =>
    obtain ⟨hordered, hrole⟩ := ht.attach hparent (Node.error failure.message) nofun
    exact ⟨hordered, hrole⟩

theorem Built.sound (h : t.Built) : t.Sound := by
  induction h with
  | new => exact sound_empty
  | step op _ hparent ih => exact ih.apply hparent

/-- An operation gives its node one child, the first new node, and changes no other node. -/
theorem grows_apply (ht : t.Closed) {op : Op} (hparent : op.parent < t.size) :
    Grows t (t.apply op) op.parent [t.size] := by
  cases op with
  | openNonterminal parent name => exact grows_attach ht hparent _
  | openNamed parent label => exact grows_attach ht hparent _
  | attachTerminal parent kind lexeme =>
    have hwrapper := grows_attach ht hparent (Node.wrapper kind)
    exact hwrapper.below (Nat.le_refl _) (grows_attach hwrapper.closed (by simp) _)
  | attachEmpty parent => exact grows_attach ht hparent _
  | fail failure => exact (grows_attach ht hparent (Node.error failure.message)).congr rfl

/-- An operation makes a node, or two. -/
theorem size_lt_apply (t : Tree) (op : Op) : t.size < (t.apply op).size := by
  have hattach (parent : Nat) (node : Node) : t.size < (t.attach parent node).size := by simp
  cases op with
  | openNonterminal => exact hattach _ _
  | openNamed => exact hattach _ _
  | attachTerminal parent kind lexeme =>
    rw [apply, attachMatch, size_attach, size_attach]
    omega
  | attachEmpty => exact hattach _ _
  | fail => exact hattach _ _

theorem edges_attach (t : Tree) (parent : Nat) (node : Node) :
    (t.attach parent node).edges = t.edges ++ [(parent, t.size, node.role)] := by
  simp [edges, attach, size, List.zipIdx_append, Nat.add_comm]

theorem edges_prefix_apply (t : Tree) (op : Op) : t.edges <+: (t.apply op).edges := by
  cases op with
  | openNonterminal => exact ⟨_, (edges_attach t _ _).symm⟩
  | openNamed => exact ⟨_, (edges_attach t _ _).symm⟩
  | attachTerminal =>
    rw [apply, attachMatch, edges_attach, edges_attach, List.append_assoc]
    exact List.prefix_append _ _
  | attachEmpty => exact ⟨_, (edges_attach t _ _).symm⟩
  | fail => exact ⟨_, (edges_attach t _ _).symm⟩

/-! ## Nodes and their roles -/

theorem length_nodes (t : Tree) : t.nodes.length = t.size := by
  simp [nodes, size]

theorem sum_countP_role (nodes : List Node) :
    nodes.countP (·.role = .root) + nodes.countP (·.role = .nonterminal) +
      nodes.countP (·.role = .terminal) + nodes.countP (·.role = .empty) +
      nodes.countP (·.role = .error) = nodes.length := by
  induction nodes with
  | nil => rfl
  | cons node nodes ih =>
    simp only [List.countP_cons, List.length_cons, decide_eq_true_eq]
    cases node.role <;> simp <;> omega

theorem Sound.root_iff (ht : t.Sound) {id : Nat} {node : Node} (hnode : t.nodes[id]? = some node) :
    node.role = .root ↔ id = 0 := by
  rw [getElem?_nodes] at hnode
  cases id with
  | zero =>
    obtain rfl := Option.some.inj hnode
    exact iff_of_true rfl rfl
  | succ i =>
    obtain ⟨a, ha, rfl⟩ := Option.map_eq_some_iff.mp hnode
    exact iff_of_false (ht.role_ne a (Array.mem_of_getElem? ha)) (Nat.succ_ne_zero i)

end Tree

end TopDown
