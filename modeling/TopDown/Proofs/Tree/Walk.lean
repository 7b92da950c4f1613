import Mathlib.Data.List.Nodup
import TopDown.Proofs.Tree.Numbering

/-!
# Walks

In a tree whose nodes come after their parents, each node but the root is a child of exactly one
node, and only once. A walk in pre-order follows the children down; the ids grow on the way, so that
none of it is cut off. It passes a node as often as it passes its parent, which is once.
-/

namespace TopDown

namespace Tree

variable {t : Tree} {id child : Nat}

/-- Every parent comes before its child. -/
def Ordered (t : Tree) : Prop :=
  ∀ (i : Nat) (a : Attachment), t.attachments[i]? = some a → a.parent ≤ i

theorem Ordered.closed (ht : t.Ordered) : t.Closed := by
  intro a ha
  obtain ⟨i, hi⟩ := Array.mem_iff_getElem?.mp ha
  have hparent := ht i a hi
  obtain ⟨hlt, _⟩ := Array.getElem?_eq_some_iff.mp hi
  rw [size]
  omega

theorem ordered_empty : Ordered {} := by
  simp [Ordered]

theorem Ordered.attach {parent : Nat} (ht : t.Ordered) (hparent : parent < t.size) (node : Node) :
    (t.attach parent node).Ordered := by
  intro i a ha
  rw [Tree.attach, Array.getElem?_push] at ha
  split at ha
  · next hi =>
    obtain rfl := Option.some.inj ha
    rw [hi]
    exact Nat.le_of_lt_succ hparent
  · exact ht i a ha

/-! ## Children -/

theorem mem_children_iff (ht : t.Closed) :
    child ∈ t.children id ↔
      ∃ i a, t.attachments[i]? = some a ∧ a.parent = id ∧ i + 1 = child := by
  constructor
  · intro h
    have hid : id < t.size := by
      by_contra hid
      simp [children_of_le (Nat.le_of_not_lt hid)] at h
    rw [children_of_lt hid, idsBelow, List.mem_filterMap] at h
    obtain ⟨⟨a, place⟩, hentry, hchild⟩ := h
    obtain ⟨i, rfl⟩ : ∃ i, place = 1 + i :=
      ⟨_, (Nat.add_sub_cancel' (List.le_snd_of_mem_zipIdx hentry)).symm⟩
    dsimp only at hchild
    split at hchild
    · next hparent =>
      obtain rfl := Option.some.inj hchild
      have ha := List.mk_add_mem_zipIdx_iff_getElem?.mp hentry
      exact ⟨i, a, by simpa using ha, hparent, Nat.add_comm i 1⟩
    · cases hchild
  · intro h
    obtain ⟨i, a, ha, rfl, rfl⟩ := h
    exact mem_children_of_getElem? ht ha

/-- The children of a node come in the order of their ids. -/
theorem pairwise_children (t : Tree) (id : Nat) : (t.children id).Pairwise (· < ·) := by
  by_cases hid : id < t.size
  · have hplaces : (t.attachments.toList.zipIdx 1).Pairwise fun p q => p.2 < q.2 := by
      rw [← List.pairwise_map (f := Prod.snd), List.zipIdx_map_snd]
      exact List.pairwise_lt_range' 1
    rw [children_of_lt hid, idsBelow, List.pairwise_filterMap]
    refine hplaces.imp fun {p q} hlt c hc d hd => ?_
    obtain ⟨_, hc⟩ := Option.ite_none_right_eq_some.mp hc
    obtain ⟨_, hd⟩ := Option.ite_none_right_eq_some.mp hd
    rwa [← Option.some.inj hc, ← Option.some.inj hd]
  · rw [children_of_le (Nat.le_of_not_lt hid)]
    exact List.Pairwise.nil

theorem Ordered.lt_of_mem_children (ht : t.Ordered) (h : child ∈ t.children id) :
    id < child ∧ child < t.size := by
  obtain ⟨i, a, ha, rfl, rfl⟩ := (mem_children_iff ht.closed).mp h
  have hparent := ht i a ha
  obtain ⟨hi, _⟩ := Array.getElem?_eq_some_iff.mp ha
  rw [size]
  omega

/-- Each node but the root has one parent, and comes once among its children. -/
theorem Ordered.exists_parent (ht : t.Ordered) (hpos : 0 < child) (hchild : child < t.size) :
    ∃ parent < child, ∀ host,
      (t.children host).count child = if host = parent then 1 else 0 := by
  obtain ⟨i, rfl⟩ := Nat.exists_eq_succ_of_ne_zero (Nat.ne_of_gt hpos)
  obtain ⟨a, ha⟩ : ∃ a, t.attachments[i]? = some a :=
    ⟨_, Array.getElem?_eq_getElem (Nat.lt_of_succ_lt_succ hchild)⟩
  refine ⟨a.parent, Nat.lt_succ_of_le (ht i a ha), fun host => ?_⟩
  have hmem : i + 1 ∈ t.children host ↔ host = a.parent := by
    rw [mem_children_iff ht.closed]
    constructor
    · intro h
      obtain ⟨j, b, hb, rfl, hj⟩ := h
      obtain rfl := Nat.succ.inj hj
      rw [Option.some.inj (hb.symm.trans ha)]
    · rintro rfl
      exact ⟨i, a, ha, rfl, rfl⟩
  rw [(pairwise_children t host).nodup.count]
  simp only [Nat.succ_eq_add_one, hmem]

/-! ## Walks -/

/-- What a walk from a node passes, cut off `height` levels down. -/
def walk (t : Tree) (height id : Nat) : List Nat :=
  (growFrom t.childTable height id).preorder

theorem walk_zero (t : Tree) (id : Nat) : t.walk 0 id = [id] :=
  rfl

theorem walk_succ (t : Tree) (height id : Nat) :
    t.walk (height + 1) id = id :: (t.children id).flatMap (t.walk height) := by
  rw [walk, growFrom, Rose.preorder_node, Rose.forestOnto_eq_flatMap, List.flatMap_map]
  rfl

/-- Below a node there are no more levels than later nodes. -/
theorem Ordered.growFrom_succ (ht : t.Ordered) {height : Nat} (hheight : t.size ≤ height + id) :
    growFrom t.childTable (height + 1) id = growFrom t.childTable height id := by
  induction height generalizing id with
  | zero =>
    have hnone : t.children id = [] := children_of_le (by omega)
    exact congrArg (fun ids => Rose.node id (ids.map (growFrom t.childTable 0))) hnone
  | succ height ih =>
    have hbelow : (t.children id).map (growFrom t.childTable (height + 1)) =
        (t.children id).map (growFrom t.childTable height) := by
      refine List.map_congr_left fun c hc => ih ?_
      have hlt := (ht.lt_of_mem_children hc).1
      omega
    rw [growFrom, growFrom]
    exact congrArg (Rose.node id) hbelow

/-- What is below a node is what is below its children, one after the other. -/
theorem Ordered.below_eq (ht : t.Ordered) (id : Nat) :
    t.below id = .node id ((t.children id).map t.below) :=
  (ht.growFrom_succ (Nat.le_add_right _ _)).symm

/-- The pre-order below a node is that of its children, one after the other. -/
theorem Ordered.preorder_eq (ht : t.Ordered) (id : Nat) :
    t.preorder id = id :: (t.children id).flatMap t.preorder := by
  rw [preorder, ht.below_eq, Rose.preorder_node, Rose.forestOnto_eq_flatMap, List.flatMap_map]
  rfl

/-- A walk from a node passes no earlier node. -/
theorem Ordered.le_of_mem_walk (ht : t.Ordered) {height x : Nat} (h : x ∈ t.walk height id) :
    id ≤ x := by
  induction height generalizing id with
  | zero => simp_all [walk_zero]
  | succ height ih =>
    rw [walk_succ, List.mem_cons, List.mem_flatMap] at h
    rcases h with rfl | ⟨c, hc, hx⟩
    · exact Nat.le_refl _
    · have hlt := (ht.lt_of_mem_children hc).1
      have hle := ih hx
      omega

theorem Ordered.lt_size_of_mem_walk (ht : t.Ordered) {height x : Nat} (hid : id < t.size)
    (h : x ∈ t.walk height id) : x < t.size := by
  induction height generalizing id with
  | zero => simp_all [walk_zero]
  | succ height ih =>
    rw [walk_succ, List.mem_cons, List.mem_flatMap] at h
    rcases h with rfl | ⟨c, hc, hx⟩
    · exact hid
    · exact ih (ht.lt_of_mem_children hc).2 hx

theorem Ordered.count_walk_self (ht : t.Ordered) (height id : Nat) :
    (t.walk height id).count id = 1 := by
  cases height with
  | zero => simp [walk_zero]
  | succ height =>
    have hbelow : id ∉ (t.children id).flatMap (t.walk height) := by
      intro h
      obtain ⟨c, hc, hid⟩ := List.mem_flatMap.mp h
      have hlt := (ht.lt_of_mem_children hc).1
      have hle := ht.le_of_mem_walk hid
      omega
    rw [walk_succ, List.count_cons_self, List.count_eq_zero_of_not_mem hbelow]

theorem count_flatMap_of_count {ids : List Nat} {f : Nat → List Nat} {x y : Nat}
    (h : ∀ c ∈ ids, (f c).count x = (f c).count y + if c = child then 1 else 0) :
    (ids.flatMap f).count x = (ids.flatMap f).count y + ids.count child := by
  induction ids with
  | nil => rfl
  | cons c ids ih =>
    obtain ⟨hc, hrest⟩ := List.forall_mem_cons.mp h
    rw [List.flatMap_cons, List.count_append, List.count_append, ih hrest, hc, List.count_cons,
      beq_eq_decide]
    simp only [decide_eq_true_eq]
    omega

/-- A walk that starts elsewhere passes a node as often as its parent. -/
theorem Ordered.count_walk (ht : t.Ordered) {parent height : Nat} (hparent : parent < child)
    (hchild : child < t.size)
    (hcount : ∀ host, (t.children host).count child = if host = parent then 1 else 0)
    (hheight : t.size ≤ height + id) (hne : id ≠ child) :
    (t.walk height id).count child = (t.walk height id).count parent := by
  induction height generalizing id with
  | zero =>
    have hparentne : id ≠ parent := by omega
    simp [walk_zero, hne, hparentne]
  | succ height ih =>
    -- Below `id`, the walk from the child itself is the one that counts for the child only.
    have hbelow : ∀ c ∈ t.children id, (t.walk height c).count child =
        (t.walk height c).count parent + if c = child then 1 else 0 := by
      intro c hc
      have hlt := (ht.lt_of_mem_children hc).1
      by_cases heq : c = child
      · subst heq
        have hnot : parent ∉ t.walk height c := fun h => by
          have hle := ht.le_of_mem_walk h
          omega
        rw [ht.count_walk_self, List.count_eq_zero_of_not_mem hnot, if_pos rfl]
      · rw [if_neg heq, ih (by omega) heq, Nat.add_zero]
    have hparents : (id :: (t.children id).flatMap (t.walk height)).count parent =
        ((t.children id).flatMap (t.walk height)).count parent + (t.children id).count child := by
      rw [List.count_cons, beq_eq_decide, hcount id]
      simp
    rw [walk_succ, hparents, List.count_cons_of_ne hne]
    exact count_flatMap_of_count hbelow

/-- A walk from the root passes each node once. -/
theorem Ordered.preorder_perm (ht : t.Ordered) : (t.preorder 0).Perm (List.range t.size) := by
  have hcount : ∀ id < t.size, (t.preorder 0).count id = 1 := by
    intro id
    induction id using Nat.strongRecOn with
    | ind id ih =>
      intro hid
      by_cases hroot : id = 0
      · subst hroot
        exact ht.count_walk_self t.size 0
      · obtain ⟨parent, hparent, hhosts⟩ := ht.exists_parent (Nat.pos_of_ne_zero hroot) hid
        have hsame : (t.preorder 0).count id = (t.preorder 0).count parent :=
          ht.count_walk hparent hid hhosts (Nat.le_add_right _ _) (Ne.symm hroot)
        rw [hsame, ih parent hparent (Nat.lt_trans hparent hid)]
  have hmem (id : Nat) (h : id ∈ t.preorder 0) : id < t.size :=
    ht.lt_size_of_mem_walk (Nat.succ_pos _) h
  refine List.perm_iff_count.mpr fun id => ?_
  rw [List.nodup_range.count]
  by_cases hid : id < t.size
  · rw [hcount id hid, if_pos (List.mem_range.mpr hid)]
  · rw [List.count_eq_zero_of_not_mem fun h => hid (hmem id h),
      if_neg fun h => hid (List.mem_range.mp h)]

end Tree

end TopDown
