import TopDown.Proofs.Parse.Growth
import TopDown.Proofs.Parse.Program
import TopDown.Proofs.Render.Rows
import TopDown.Proofs.Tree.Store

/-!
# Creation order

A parse creates the nodes of its tree in pre-order, whether it succeeds or fails. So the outline,
which follows the branches of the tree, the records, which follow the numbers, and the graph, which
follows the trace, all list the same node in the same place.
-/

namespace TopDown

/-- The documents that a document lists under `nodes`. -/
def Document.nodes : Document → List Document
  | .record fields =>
    match fields.lookup "nodes" with
    | some (.list items) => items
    | _ => []
  | _ => []

namespace Tree

variable {t : Tree} {id : Nat} {node : Node}

/-- The record of a node names it by its number and names its children by theirs. -/
theorem getElem?_document_nodes (hnode : t.node? id = some node) :
    t.document.nodes[id]? = some (.record [("id", .number id), ("label", .text node.label),
      ("role", .text node.role.name), ("children", .list ((t.children id).map .number))]) := by
  have hrecord : t.record id = ⟨id, node, t.children id⟩ := by simp [record, hnode]
  have hnodes : t.document.nodes = t.records.map Record.document := rfl
  rw [hnodes, List.getElem?_map, getElem?_records hnode, hrecord]
  rfl

/-- In a tree that is numbered in pre-order each level stands in the place of its node. -/
theorem getElem?_levels (ht : t.preorder 0 = List.range t.size) (hid : id < t.size) :
    ∃ depth, (t.below 0).levels[id]? = some (depth, id) := by
  have hplace : ((t.below 0).levels.map Prod.snd)[id]? = some id := by
    rw [Rose.map_snd_levels]
    exact (congrArg (·[id]?) ht).trans (List.getElem?_range hid)
  rw [List.getElem?_map, Option.map_eq_some_iff] at hplace
  obtain ⟨⟨depth, i⟩, hlevel, rfl⟩ := hplace
  exact ⟨depth, hlevel⟩

/-- In a tree that is numbered in pre-order each row of the outline shows the node of its number. -/
theorem getElem?_rows_outline (ht : t.preorder 0 = List.range t.size)
    (hnode : t.node? id = some node) {indent : String} (hindent : '\n' ∉ indent.toList)
    (hlabels : ∀ node ∈ t.nodes, '\n' ∉ node.label.toList) :
    ∃ depth, (t.shape 0)[id]? = some (depth, node.label) ∧
      (Text.rows (Outline.render indent t))[id]? =
        some (String.join (List.replicate depth indent) ++
          (if node.role = .error then "!! " else "") ++ node.label) := by
  obtain ⟨depth, hlevel⟩ := getElem?_levels ht (lt_size_of_node?_eq_some hnode)
  refine ⟨depth, ?_, ?_⟩
  · simp [shape, hlevel, label, hnode]
  · rw [Outline.rows_render hindent hlabels, List.getElem?_append_left, List.getElem?_map, hlevel]
    · rw [Option.map_some, hnode]
      rfl
    · rw [List.length_map]
      exact (List.getElem?_eq_some_iff.mp hlevel).1

/-- The statement of an attachment names both nodes by their labels and numbers. -/
theorem edgeText_eq (hnode : t.node? id = some node) (parent : Nat) :
    Dot.edgeText t ⟨parent, node⟩ id = "\t" ++ Dot.quote (t.title parent) ++
      " -> \x7b" ++ Dot.quote (node.label ++ "-" ++ toString id) ++ " [label=" ++
      Dot.quote (Dot.shownLabel node) ++ ", " ++ Dot.style node.role ++ "]\x7d;" := by
  have htitle : t.title id = node.label ++ "-" ++ toString id := by
    rw [title, label, hnode]
    rfl
  rw [← htitle, Dot.edgeText]
  show _ ++ (Dot.quote (t.title id) ++ " [label=" ++ Dot.quote (Dot.shownLabel node) ++ ", " ++
    Dot.style node.role ++ "]") ++ "\x7d;" = _
  simp only [String.append_assoc]
  rfl

/-- After the two first rows each row of a graph is the statement that adds the node of its
number. -/
theorem getElem?_rows_dot (ht : t.Closed) (hnode : t.node? id = some node) (hpos : 0 < id) :
    ∃ parent, id ∈ t.children parent ∧
      (Text.rows (Dot.render t))[id + 1]? = some ("\t" ++ Dot.quote (t.title parent) ++
        " -> \x7b" ++ Dot.quote (node.label ++ "-" ++ toString id) ++ " [label=" ++
        Dot.quote (Dot.shownLabel node) ++ ", " ++ Dot.style node.role ++ "]\x7d;") := by
  obtain ⟨i, rfl⟩ := Nat.exists_eq_succ_of_ne_zero (Nat.ne_of_gt hpos)
  obtain ⟨a, ha, rfl⟩ := Option.map_eq_some_iff.mp hnode
  refine ⟨a.parent, mem_children_of_getElem? ht ha, ?_⟩
  have hedge : ((t.attachments.toList.zipIdx 1).map fun p => Dot.edgeText t p.1 p.2)[i]? =
      some (Dot.edgeText t a (i + 1)) := by
    simp [ha, Nat.add_comm]
  have hi := (List.getElem?_eq_some_iff.mp hedge).1
  rw [Dot.rows_render, Dot.lines, List.cons_append, List.cons_append, List.append_assoc,
    List.cons_append, List.cons_append, List.getElem?_cons_succ, List.getElem?_cons_succ,
    List.getElem?_append_left hi, hedge, edgeText_eq hnode]

end Tree

/-- A parse builds its tree by operations that add the nodes in pre-order: a walk down from the root
counts, and each edge of the trace leads to the next node. In each place the outline that is written
in a loop, the records and, after the root, the statements of the graph show the same node. -/
theorem parse_creates_in_preorder {tokens : List Token} {depth : Nat} {session : Session}
    {failure : Option Failure} (h : parse tokens depth = some (session, failure)) :
    session.tree.Built ∧ session.tree.stored.Built ∧
      session.tree.walkLoop 0 = Part.some (List.range session.tree.size) ∧
      (∀ i edge, session.tree.stored.edges[i]? = some edge →
        edge.child = i + 1 ∧ edge.child ∈ session.tree.stored.children edge.parent) ∧
      (∀ indent, Outline.renderLoop indent session.tree =
        Part.some (Outline.render indent session.tree)) ∧
      ∀ k node, session.tree.node? k = some node →
        (∀ indent, '\n' ∉ indent.toList →
          (∀ node ∈ session.tree.nodes, '\n' ∉ node.label.toList) →
          ∃ level, (session.tree.shape 0)[k]? = some (level, node.label) ∧
            (Text.rows (Outline.render indent session.tree))[k]? =
              some (String.join (List.replicate level indent) ++
                (if node.role = .error then "!! " else "") ++ node.label)) ∧
        session.tree.document.nodes[k]? = some (.record [("id", .number k),
          ("label", .text node.label), ("role", .text node.role.name),
          ("children", .list ((session.tree.children k).map .number))]) ∧
        (0 < k → ∃ parent, k ∈ session.tree.children parent ∧
          (Text.rows (Dot.render session.tree))[k + 1]? =
            some ("\t" ++ Dot.quote (session.tree.title parent) ++ " -> \x7b" ++
              Dot.quote (node.label ++ "-" ++ toString k) ++ " [label=" ++
              Dot.quote (Dot.shownLabel node) ++ ", " ++ Dot.style node.role ++ "]\x7d;")) := by
  obtain ⟨ds, ts, fault, _, _, htree, _⟩ := parse_eq_some h
  have hbuilt := built_of_parse h
  have hordered := hbuilt.sound.ordered
  have hpreorder : session.tree.preorder 0 = List.range session.tree.size := by
    rw [Tree.preorder_congr htree, Tree.preorder_graft_empty, Tree.size_congr htree]
  refine ⟨hbuilt, hbuilt.stored, ?_, ?_, Outline.renderLoop_eq hordered, ?_⟩
  · rw [hordered.walkLoop_eq, hpreorder]
  · intro i edge hedge
    exact Tree.child_of_edges_stored hordered.closed hedge
  · intro k node hnode
    refine ⟨fun _ hindent hlabels => ?_, Tree.getElem?_document_nodes hnode, fun hpos => ?_⟩
    · exact Tree.getElem?_rows_outline hpreorder hnode hindent hlabels
    · exact Tree.getElem?_rows_dot hordered.closed hnode hpos

/-- The tree of a declaration has thirteen nodes, and the wrapper of its `var` is in the fifth place
everywhere. -/
theorem parse_creates_declaration_in_preorder :
    ∃ session, parse [⟨.kwVar, "var", 1, 1⟩, ⟨.identifier, "x", 1, 5⟩] 9 = some (session, none) ∧
      session.tree.walkLoop 0 = Part.some [0, 1, 2, 3, 4, 5, 6, 7, 8, 9, 10, 11, 12] ∧
      (∃ level, (Text.rows (Outline.render "  " session.tree))[5]? =
        some (String.join (List.replicate level "  ") ++ "" ++ "<var>")) ∧
      session.tree.document.nodes[5]? = some (.record [("id", .number 5),
        ("label", .text "<var>"), ("role", .text "nonterminal"),
        ("children", .list [.number 6])]) ∧
      ∃ parent, (Text.rows (Dot.render session.tree))[6]? =
        some ("\t" ++ Dot.quote (session.tree.title parent) ++ " -> \x7b" ++
          "\"<var>-5\"" ++ " [label=" ++ "\"<var>\"" ++ ", " ++
          "shape=rect, style=dotted" ++ "]\x7d;") := by
  have hparsed : (parse [⟨.kwVar, "var", 1, 1⟩, ⟨.identifier, "x", 1, 5⟩] 9).map (fun p =>
      (p.2, p.1.tree.size, p.1.tree.node? 5, p.1.tree.children 5,
        p.1.tree.nodes.all fun node => !node.label.toList.contains '\n')) =
      some (none, 13, some (Node.wrapper .kwVar), [6], true) := by
    decide +kernel
  obtain ⟨⟨session, failure⟩, hparse, hanswer⟩ := Option.map_eq_some_iff.mp hparsed
  simp only [Prod.mk.injEq] at hanswer
  obtain ⟨rfl, hsize, hnode, hchildren, hlabels⟩ := hanswer
  obtain ⟨_, _, hwalk, _, _, hplaces⟩ := parse_creates_in_preorder hparse
  have hlabel : (Node.wrapper .kwVar).label = "<var>" := by decide
  obtain ⟨houtline, hrecord, hgraph⟩ := hplaces 5 _ hnode
  have hfeeds : ∀ node ∈ session.tree.nodes, '\n' ∉ node.label.toList := by
    simpa using hlabels
  obtain ⟨level, _, hrow⟩ := houtline "  " (by decide) hfeeds
  obtain ⟨parent, _, hedge⟩ := hgraph (by decide)
  rw [hsize] at hwalk
  rw [hchildren, hlabel] at hrecord
  rw [hlabel] at hrow
  rw [hlabel, show Dot.quote ("<var>" ++ "-" ++ toString 5) = "\"<var>-5\"" by decide +kernel,
    show Dot.quote (Dot.shownLabel (Node.wrapper .kwVar)) = "\"<var>\"" by decide +kernel] at hedge
  exact ⟨session, hparse, hwalk, ⟨level, hrow⟩, hrecord, parent, hedge⟩

end TopDown
