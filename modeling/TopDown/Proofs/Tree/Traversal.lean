import TopDown.Proofs.Tree.Filling
import TopDown.Proofs.Tree.Shape
import TopDown.Proofs.Tree.Sink
import TopDown.Render.Outline

/-!
# Traversals with a stack

A deep tree is traversed in a loop, with a stack of the nodes that wait: the loop takes the node on
top and puts its children in its place, the first on top. Such a loop ends. What it lists, the lines
that it writes, and what it fills if it makes records, are what the recursive definitions give.
-/

namespace TopDown

open StateTransition

/-! ## Walks -/

/-- What waits to be visited, the next first, and what was visited, in order. -/
structure Traversal (α : Type) where
  stack : List α
  visited : List α := []

namespace Traversal

variable {α : Type}

/-- Visits what is on top of the stack, and puts what is below it in its place. -/
def step (below : α → List α) : Traversal α → Option (Traversal α)
  | ⟨[], _⟩ => none
  | ⟨a :: stack, visited⟩ => some ⟨below a ++ stack, visited ++ [a]⟩

variable {below list : α → List α}

theorem length_flatMap_lt (hlist : ∀ a, list a = a :: (below a).flatMap list) (a : α)
    (stack : List α) :
    ((below a ++ stack).flatMap list).length < ((a :: stack).flatMap list).length := by
  rw [List.flatMap_append, List.flatMap_cons, hlist a, List.length_append, List.length_append,
    List.length_cons]
  omega

/-- A traversal lists what waits on its stack, each with all below it. -/
theorem eval_step (hlist : ∀ a, list a = a :: (below a).flatMap list) (stack visited : List α) :
    eval (step below) ⟨stack, visited⟩ = Part.some ⟨[], visited ++ stack.flatMap list⟩ := by
  have hstep (s s' : Traversal α)
      (hs : s.visited ++ s.stack.flatMap list = visited ++ stack.flatMap list)
      (hnext : step below s = some s') :
      s'.visited ++ s'.stack.flatMap list = visited ++ stack.flatMap list ∧
        (s'.stack.flatMap list).length < (s.stack.flatMap list).length := by
    obtain ⟨_ | ⟨a, rest⟩, seen⟩ := s
    · cases hnext
    · obtain rfl := Option.some.inj hnext
      refine ⟨?_, length_flatMap_lt hlist a rest⟩
      rw [← hs, List.flatMap_cons, hlist a]
      simp
  obtain ⟨⟨stack', visited'⟩, hend, hinv⟩ :=
    exists_mem_eval (fun s : Traversal α => (s.stack.flatMap list).length) hstep
      (s := ⟨stack, visited⟩) rfl
  cases stack' with
  | cons a rest => cases (mem_eval.mp hend).2
  | nil =>
    obtain rfl : visited' = visited ++ stack.flatMap list := by simpa using hinv
    exact Part.eq_some_iff.mpr hend

end Traversal

/-! ## Trees that are built -/

namespace Tree

/-- What a walk in a loop passes from a node on. -/
def walkLoop (t : Tree) (id : Nat) : Part (List Nat) :=
  (eval (Traversal.step t.children) ⟨t.children id, [id]⟩).map Traversal.visited

/-- The children of a node, with their depth. -/
def deeper (t : Tree) (p : Nat × Nat) : List (Nat × Nat) :=
  (t.children p.2).map (p.1 + 1, ·)

/-- The depths and labels of what a walk in a loop passes. -/
def shapeLoop (t : Tree) (id : Nat) : Part (List (Nat × String)) :=
  (eval (Traversal.step t.deeper) ⟨[(0, id)], []⟩).map fun s =>
    s.visited.map fun p => (p.1, t.label p.2)

variable {t : Tree}

theorem Ordered.walkLoop_eq (ht : t.Ordered) (id : Nat) :
    t.walkLoop id = Part.some (t.preorder id) := by
  rw [walkLoop, Traversal.eval_step ht.preorder_eq, Part.map_some, ht.preorder_eq id]
  rfl

/-- A traversal that keeps the depths passes each node below `id` with its level. -/
theorem Ordered.eval_deeper (ht : t.Ordered) (id : Nat) :
    eval (Traversal.step t.deeper) ⟨[(0, id)], []⟩ = Part.some ⟨[], (t.below id).levels⟩ := by
  have hlevels (p : Nat × Nat) : ((t.below p.2).leveled p.1).preorder =
      p :: (t.deeper p).flatMap fun q => ((t.below q.2).leveled q.1).preorder := by
    rw [ht.below_eq, Rose.preorder_leveled_node, deeper, List.flatMap_map, List.flatMap_map]
  rw [Traversal.eval_step hlevels, List.flatMap_singleton]
  rfl

theorem Ordered.shapeLoop_eq (ht : t.Ordered) (id : Nat) :
    t.shapeLoop id = Part.some (t.shape id) := by
  rw [shapeLoop, ht.eval_deeper, Part.map_some]
  rfl

/-- The loops that traverse a tree with a stack end, and agree with the recursive definitions. A
walk lists a node and then the walks of its children. The shape lists the depths and the labels of
what the walk passes. The nested document of a node is its record with those of its children. And
nodes of any trees have one shape exactly if the labelled trees below them are the same. -/
theorem traversals_of_built (h : t.Built) (id : Nat) :
    (t.walkLoop id = Part.some (t.preorder id) ∧
      t.preorder id = id :: (t.children id).flatMap t.preorder) ∧
    (t.shapeLoop id = Part.some (t.shape id) ∧
      List.Forall₂ (fun node p => (∀ depth, t.Descends id depth node ↔ depth = p.1) ∧
        p.2 = t.label node) (t.preorder id) (t.shape id)) ∧
    ((∃ f ∈ eval (Filling.step t) (Filling.start id),
        ∀ d, f.Reads t 0 d ↔ d = t.nestedDocument id) ∧
      t.nestedDocument id = .record (recordFields id ((t.node? id).getD default)
        ((t.children id).map t.nestedDocument))) ∧
    t.labelled id = .node (t.label id) ((t.children id).map t.labelled) ∧
    ∀ (t' : Tree) (id' : Nat), t.shape id = t'.shape id' ↔ t.labelled id = t'.labelled id' := by
  have ht := h.sound.ordered
  exact ⟨⟨ht.walkLoop_eq id, ht.preorder_eq id⟩, ⟨ht.shapeLoop_eq id, ht.shape_preorder id⟩,
    ⟨Filling.exists_reads ht id, ht.nestedDocument_eq id⟩, ht.labelled_eq id,
    fun _ _ => shape_eq_shape_iff⟩

/-- Two trees are built in different orders: their walks pass other ids, but the labelled trees are
the same. -/
theorem traversals_of_built_twice :
    ∃ t t' : Tree, t.Built ∧ t'.Built ∧ t.walkLoop 0 = Part.some [0, 1, 3, 2] ∧
      t'.walkLoop 0 = Part.some [0, 1, 2, 3] ∧ t.labelled 0 = t'.labelled 0 ∧
      t.shapeLoop 0 =
        Part.some [(0, "Parse Tree"), (1, "<A>"), (2, "EMPTY"), (1, "<B>")] := by
  have hopened := Built.new.step (.openNonterminal 0 "A") (by decide)
  have ht := (hopened.step (.openNonterminal 0 "B") (by decide)).step (.attachEmpty 1) (by decide)
  have ht' := (hopened.step (.attachEmpty 1) (by decide)).step (.openNonterminal 0 "B") (by decide)
  obtain ⟨⟨hwalk, _⟩, ⟨hloop, _⟩, _, _, hsame⟩ := traversals_of_built ht 0
  obtain ⟨⟨hwalk', _⟩, _⟩ := traversals_of_built ht' 0
  refine ⟨_, _, ht, ht', hwalk.trans (congrArg _ ?_), hwalk'.trans (congrArg _ ?_),
    (hsame _ 0).mp ?_, hloop.trans (congrArg _ ?_)⟩ <;> decide +kernel

end Tree

/-! ## Outlines -/

namespace Outline

/-- The nodes that wait, each with its depth, the next first, and the lines so far. -/
structure Writing where
  stack : List (Nat × Nat)
  lines : List String := []

/-- Writes the line of the node on top, and puts its children in its place, one level deeper. -/
def Writing.step (indent : String) (t : Tree) : Writing → Option Writing
  | ⟨[], _⟩ => none
  | ⟨(depth, id) :: stack, lines⟩ =>
    let written := line indent depth ((t.node? id).getD default)
    some ⟨(t.children id).map (depth + 1, ·) ++ stack, lines ++ [written]⟩

/-- The outline that is written in a loop. -/
def renderLoop (indent : String) (t : Tree) : Part String :=
  (eval (Writing.step indent t) ⟨[(0, 0)], []⟩).map fun w => "\n".intercalate w.lines ++ "\n"

/-- The lines of what a traversal has visited. -/
def Writing.ofTraversal (indent : String) (t : Tree) (s : Traversal (Nat × Nat)) : Writing :=
  ⟨s.stack, s.visited.map fun p => line indent p.1 ((t.node? p.2).getD default)⟩

/-- An outline is written step by step with a traversal that keeps the depths. -/
theorem Writing.respects (indent : String) (t : Tree) :
    Respects (Traversal.step t.deeper) (Writing.step indent t)
      fun s w => Writing.ofTraversal indent t s = w := by
  rw [fun_respects]
  rintro ⟨_ | ⟨⟨depth, id⟩, stack⟩, visited⟩
  · rfl
  · have hstep : Writing.step indent t
        (Writing.ofTraversal indent t ⟨(depth, id) :: stack, visited⟩) =
          some (Writing.ofTraversal indent t
            ⟨t.deeper (depth, id) ++ stack, visited ++ [(depth, id)]⟩) := by
      simp [Writing.ofTraversal, Writing.step, Tree.deeper]
    exact Relation.TransGen.single hstep

theorem renderLoop_eq {t : Tree} (ht : t.Ordered) (indent : String) :
    renderLoop indent t = Part.some (render indent t) := by
  have hwritten : eval (Writing.step indent t) ⟨[(0, 0)], []⟩ =
      Part.some (Writing.ofTraversal indent t ⟨[], (t.below 0).levels⟩) := by
    have hloop := tr_eval' _ _ _ (Writing.respects indent t) ⟨[(0, 0)], []⟩
    rwa [ht.eval_deeper, Part.map_eq_map, Part.map_some] at hloop
  rw [renderLoop, hwritten, Part.map_some]
  rfl

end Outline

end TopDown
