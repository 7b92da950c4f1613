import Mathlib.Data.List.Basic
import TopDown.Tree.View

/-!
# Children of attached nodes

In a tree whose parents are nodes of the tree, an attachment adds the new node at the end of the
children of its parent, and changes nothing else.
-/

namespace TopDown

namespace Tree

/-- Every parent is a node of the tree. -/
def Closed (t : Tree) : Prop :=
  ∀ a ∈ t.attachments, a.parent < t.size

theorem closed_empty : Closed {} := by
  simp [Closed]

/-- The ids, out of attachments with their ids, of those below `id`. -/
def idsBelow (id : Nat) (entries : List (Attachment × Nat)) : List Nat :=
  entries.filterMap fun (a, child) => if a.parent = id then some child else none

theorem getElem?_foldr_modify (entries : List (Attachment × Nat)) (table : Array (List Nat))
    (id : Nat) :
    (entries.foldr (fun (a, child) table => table.modify a.parent (child :: ·)) table)[id]? =
      table[id]?.map (idsBelow id entries ++ ·) := by
  induction entries with
  | nil => simp [idsBelow]
  | cons entry entries ih =>
    obtain ⟨a, child⟩ := entry
    rw [List.foldr_cons, Array.getElem?_modify, ih]
    by_cases hparent : a.parent = id
    · simp [idsBelow, hparent, Function.comp_def]
    · simp [idsBelow, hparent]

theorem children_of_lt {t : Tree} {id : Nat} (hid : id < t.size) :
    t.children id = idsBelow id (t.attachments.toList.zipIdx 1) := by
  rw [children, childTable, getElem?_foldr_modify, Array.getElem?_replicate, if_pos hid]
  simp

theorem children_of_le {t : Tree} {id : Nat} (hid : t.size ≤ id) : t.children id = [] := by
  rw [children, childTable, getElem?_foldr_modify, Array.getElem?_replicate, if_neg (by omega)]
  rfl

/-- A tree is accepted if nothing failed and the root has a child. -/
theorem accepted_iff {t : Tree} :
    t.accepted = true ↔ t.failure = none ∧ t.children 0 ≠ [] := by
  have hchild : (∃ a ∈ t.attachments, a.parent = 0) ↔ t.children 0 ≠ [] := by
    rw [children_of_lt (Nat.succ_pos _), idsBelow, ne_eq, List.filterMap_eq_nil_iff]
    constructor
    · rintro ⟨a, ha, hroot⟩ hnone
      obtain ⟨i, hi⟩ := List.mem_iff_getElem?.mp (Array.mem_toList_iff.mpr ha)
      have hentry := hnone (a, 1 + i) (List.mk_add_mem_zipIdx_iff_getElem?.mpr hi)
      simp [hroot] at hentry
    · intro hsome
      by_contra hno
      apply hsome
      rintro ⟨a, child⟩ hentry
      have ha : a ∈ t.attachments := Array.mem_toList_iff.mp (List.fst_mem_of_mem_zipIdx hentry)
      exact if_neg fun hroot => hno ⟨a, ha, hroot⟩
  rw [accepted, Bool.and_eq_true, Option.isNone_iff_eq_none, ← hchild]
  simp only [Array.any_eq_true', decide_eq_true_eq]

@[simp] theorem size_attach (t : Tree) (parent : Nat) (node : Node) :
    (t.attach parent node).size = t.size + 1 := by
  simp [size, attach]

theorem closed_attach {t : Tree} {parent : Nat} {node : Node} (ht : t.Closed)
    (hparent : parent < t.size) : (t.attach parent node).Closed := by
  intro a ha
  rw [size_attach]
  rcases Array.mem_push.mp ha with hold | rfl
  · have hlt := ht a hold
    omega
  · show parent < t.size + 1
    omega

theorem node?_attach_of_lt {t : Tree} {parent id : Nat} {node : Node} (hid : id < t.size) :
    (t.attach parent node).node? id = t.node? id := by
  cases id with
  | zero => rfl
  | succ i =>
    have hi : i ≠ t.attachments.size := by
      rw [size] at hid
      omega
    simp [node?, attach, Array.getElem?_push, hi]

theorem node?_attach_size (t : Tree) (parent : Nat) (node : Node) :
    (t.attach parent node).node? t.size = some node := by
  simp [node?, attach, size]

theorem lt_size_of_node?_eq_some {t : Tree} {id : Nat} {node : Node}
    (h : t.node? id = some node) : id < t.size := by
  cases id with
  | zero => exact Nat.succ_pos _
  | succ i =>
    obtain ⟨a, ha, _⟩ := Option.map_eq_some_iff.mp h
    obtain ⟨hi, _⟩ := Array.getElem?_eq_some_iff.mp ha
    exact Nat.succ_lt_succ hi

theorem exists_node?_of_lt_size {t : Tree} {id : Nat} (h : id < t.size) :
    ∃ node, t.node? id = some node := by
  cases id with
  | zero => exact ⟨Node.root, rfl⟩
  | succ i =>
    have hi : i < t.attachments.size := Nat.lt_of_succ_lt_succ h
    exact ⟨t.attachments[i].node, by simp [node?, hi]⟩

/-- No attachment of a closed tree is below a node that the tree does not have. -/
theorem idsBelow_of_le {t : Tree} {id : Nat} (ht : t.Closed) (hid : t.size ≤ id) :
    idsBelow id (t.attachments.toList.zipIdx 1) = [] := by
  rw [idsBelow, List.filterMap_eq_nil_iff]
  rintro ⟨a, child⟩ ha
  have hmem : a ∈ t.attachments := Array.mem_toList_iff.mp (List.fst_mem_of_mem_zipIdx ha)
  have hlt := ht a hmem
  exact if_neg (by omega)

theorem children_attach {t : Tree} {parent : Nat} {node : Node} (ht : t.Closed)
    (hparent : parent < t.size) (id : Nat) :
    (t.attach parent node).children id =
      t.children id ++ if parent = id then [t.size] else [] := by
  by_cases hid : id < t.size + 1
  · have hentries : (t.attach parent node).attachments.toList.zipIdx 1 =
        t.attachments.toList.zipIdx 1 ++ [(⟨parent, node⟩, t.size)] := by
      simp [attach, size, List.zipIdx_append, Nat.add_comm]
    have hold : idsBelow id (t.attachments.toList.zipIdx 1) = t.children id := by
      by_cases hlt : id < t.size
      · exact (children_of_lt hlt).symm
      · rw [idsBelow_of_le ht (by omega), children_of_le (by omega)]
    rw [children_of_lt (by simpa using hid), hentries, ← hold, idsBelow, idsBelow,
      List.filterMap_append]
    congr 1
    by_cases heq : parent = id
    · simp [heq]
    · simp [heq]
  · rw [children_of_le (by rw [size_attach]; omega), children_of_le (by omega),
      if_neg (by omega)]
    rfl

end Tree

end TopDown
