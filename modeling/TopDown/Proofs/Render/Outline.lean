import TopDown.Proofs.Lexicon.Joined
import TopDown.Proofs.Parse.Labels
import TopDown.Proofs.Parse.Preorder
import TopDown.Render.Renderer

/-!
# Reading an outline

An outline writes its labels as they are, and still each line says the depth and the label of its
node, and whether the node is an error. The labels of a program text are plain: the lines of the
outline end where the renderer ends them, the spaces at the front of a line are the indent alone,
and the mark is there only where the renderer put it.
-/

namespace TopDown

open TopDown.Text

namespace Text

/-- Texts on one line each are the lines of the text that ends each with a line feed. -/
theorem lines_intercalate {parts : List String} (hne : parts ≠ [])
    (hparts : ∀ part ∈ parts, OneLine part) :
    lines ("\n".intercalate parts ++ "\n").toList = parts.map String.toList := by
  have hfirst {part : String} (hpart : OneLine part) (rest : List Char) :
      lines (part.toList ++ '\n' :: rest) = part.toList :: lines rest := by
    rw [lines, linesFrom_append_of_no_end hpart, linesFrom_newline, List.append_nil,
      List.reverse_reverse]
    rfl
  have hfeed : "\n".toList = ['\n'] := by decide
  induction parts with
  | nil => exact absurd rfl hne
  | cons part parts ih =>
    obtain ⟨hpart, hrest⟩ := List.forall_mem_cons.mp hparts
    cases parts with
    | nil =>
      rw [String.intercalate_singleton, String.toList_append, hfeed, hfirst hpart]
      rfl
    | cons next parts =>
      rw [String.intercalate_cons_cons, String.append_assoc, String.append_assoc,
        String.toList_append, String.toList_append, hfeed, List.singleton_append, hfirst hpart,
        ih (by simp) hrest]
      rfl

end Text

namespace Outline

/-! ## The reader -/

/-- The text without the mark of an error at its front. -/
def unmark (text : List Char) : List Char :=
  if errorMark.toList <+: text then text.drop errorMark.length else text

/-- The depth and the label that a line shows. -/
def readLine (line : List Char) : Nat × String :=
  ((line.takeWhile (· = ' ')).length / 2, String.ofList (unmark (line.dropWhile (· = ' '))))

/-- The depths and the labels that an outline shows, line by line. -/
def read (outline : String) : List (Nat × String) :=
  (lines outline.toList).map readLine

/-- The line shows a node at the given depth: by two spaces for each level, by the mark if the node
is an error, and by the label. -/
structure Displays (line : List Char) (depth : Nat) (node : Node) : Prop where
  indented : (line.takeWhile (· = ' ')).length = 2 * depth
  labelled : unmark (line.dropWhile (· = ' ')) = node.label.toList
  marked : errorMark.toList <+: line.dropWhile (· = ' ') ↔ node.role = .error

variable {text : List Char} {depth : Nat} {node : Node} {t : Tree}

theorem Displays.readLine_eq (h : Displays text depth node) :
    readLine text = (depth, node.label) := by
  have hdepth : 2 * depth / 2 = depth := by omega
  rw [readLine, h.indented, h.labelled, String.ofList_toList, hdepth]

/-! ## Lines -/

theorem toList_indent (depth : Nat) :
    (String.join (List.replicate depth "  ")).toList = List.replicate (2 * depth) ' ' := by
  have hspaces : "  ".toList = List.replicate 2 ' ' := by decide
  rw [String.toList_join, List.flatMap_replicate, hspaces, List.flatten_replicate_replicate,
    Nat.mul_comm]

theorem toList_line (depth : Nat) (node : Node) : (line "  " depth node).toList =
    List.replicate (2 * depth) ' ' ++ ((mark node.role).toList ++ node.label.toList) := by
  rw [line, String.toList_append, String.toList_append, toList_indent, List.append_assoc]

/-- The spaces at the front of an indented text are the indent, if the text starts with none. -/
theorem takeWhile_indent {shown : List Char} (hshown : shown.head? ≠ some ' ') (width : Nat) :
    (List.replicate width ' ' ++ shown).takeWhile (· = ' ') = List.replicate width ' ' ∧
      (List.replicate width ' ' ++ shown).dropWhile (· = ' ') = shown := by
  have hspaces : ∀ c ∈ List.replicate width ' ', decide (c = ' ') = true := by simp
  rw [List.takeWhile_append_of_pos hspaces, List.dropWhile_append_of_pos hspaces]
  cases shown with
  | nil => simp
  | cons c shown =>
    have hc : c ≠ ' ' := by simpa using hshown
    simp [hc]

theorem unmark_append (label : List Char) : unmark (errorMark.toList ++ label) = label := by
  have hlength : errorMark.length = errorMark.toList.length := String.length_toList.symm
  rw [unmark, if_pos (List.prefix_append _ _), hlength, List.drop_left]

/-- The line of a node with a plain label displays the node. -/
theorem displays_line (hplain : Plain node.label) (depth : Nat) :
    Displays (line "  " depth node).toList depth node := by
  rw [toList_line]
  by_cases herror : node.role = .error
  · have hhead : (errorMark.toList ++ node.label.toList).head? ≠ some ' ' := by
      show some '!' ≠ some ' '
      decide
    obtain ⟨htake, hdrop⟩ := takeWhile_indent hhead (2 * depth)
    rw [mark, if_pos herror]
    constructor
    · rw [htake, List.length_replicate]
    · rw [hdrop, unmark_append]
    · rw [hdrop]
      exact iff_of_true (List.prefix_append _ _) herror
  · obtain ⟨htake, hdrop⟩ := takeWhile_indent hplain.unindented (2 * depth)
    have hnone : "".toList ++ node.label.toList = node.label.toList := rfl
    rw [mark, if_neg herror, hnone]
    constructor
    · rw [htake, List.length_replicate]
    · rw [hdrop, unmark, if_neg hplain.unmarked]
    · rw [hdrop]
      exact iff_of_false hplain.unmarked herror

/-- To cut an outline at every line end gives the lines of the nodes in pre-order. -/
theorem lines_render {indent : String} (hindent : OneLine indent)
    (hlabels : ∀ node ∈ t.nodes, OneLine node.label) :
    lines (render indent t).toList = ((t.below 0).levels.map fun p =>
      line indent p.1 ((t.node? p.2).getD default)).map String.toList := by
  apply lines_intercalate
  · rw [ne_eq, List.map_eq_nil_iff]
    exact Rose.levels_ne_nil _
  · intro row hrow
    obtain ⟨⟨depth, id⟩, _, rfl⟩ := List.mem_map.mp hrow
    have hmark : OneLine errorMark := by decide
    exact forall_mem_line hindent hmark (label_of_forall (P := OneLine) hlabels (by decide) id)

/-- To cut an outline at its line feeds alone gives the same lines, and nothing after the last. -/
theorem rows_eq_lines {indent : String} (hindent : OneLine indent)
    (hlabels : ∀ node ∈ t.nodes, OneLine node.label) :
    rows (render indent t) = (lines (render indent t).toList).map String.ofList ++ [""] := by
  have hfeed {text : String} (htext : OneLine text) : '\n' ∉ text.toList :=
    fun hmem => absurd (htext _ hmem) (by decide)
  rw [lines_render hindent hlabels,
    rows_render (hfeed hindent) fun node hnode => hfeed (hlabels node hnode)]
  simp

/-- An outline with plain labels is read back to the shape of the tree. -/
theorem read_render (hplain : ∀ node ∈ t.nodes, Plain node.label) :
    read (render "  " t) = t.shape 0 := by
  rw [read, lines_render (by decide) fun node hnode => (hplain node hnode).oneLine, Tree.shape,
    List.map_map, List.map_map]
  apply List.map_congr_left
  rintro ⟨depth, id⟩ _
  have hlabel : Plain ((t.node? id).getD default).label :=
    label_of_forall hplain (plain_of_all (by decide)) id
  exact (displays_line hlabel depth).readLine_eq.trans
    (congrArg (Prod.mk depth) (Tree.label_eq t id).symm)

/-- In a tree that is numbered in pre-order each line of the outline displays the node of its
number. -/
theorem getElem?_lines_render (ht : t.preorder 0 = List.range t.size)
    (hplain : ∀ node ∈ t.nodes, Plain node.label) {id : Nat} (hnode : t.node? id = some node) :
    ∃ row depth, (lines (render "  " t).toList)[id]? = some row ∧
      (t.shape 0)[id]? = some (depth, node.label) ∧ Displays row depth node := by
  have hmem : node ∈ t.nodes := List.mem_of_getElem? ((Tree.getElem?_nodes t id).trans hnode)
  obtain ⟨depth, hlevel⟩ := Tree.getElem?_levels ht (Tree.lt_size_of_node?_eq_some hnode)
  refine ⟨(line "  " depth node).toList, depth, ?_, ?_, ?_⟩
  · rw [lines_render (by decide) fun node hnode => (hplain node hnode).oneLine]
    simp [hlevel, hnode]
  · simp [Tree.shape, hlevel, Tree.label, hnode]
  · exact displays_line (hplain node hmem) depth

end Outline

/-- The outline with the standard indent. -/
def Tree.outline (t : Tree) : String :=
  Renderer.render t (.outline "  ")

/-- The outline of a program text is read back. It has one line for each node, cut at line feeds or
at every line end. In each place the line, the pre-order and the shape are about the same node: the
line has two spaces for each level and then the label, behind the mark exactly if the node is an
error. So texts with the same outline have the same shape. -/
theorem parse_outline_reads_back {text : String} {limit : Nat} {session : Session}
    {failure : Option Failure} (h : parse (Token.scan text) limit = some (session, failure)) :
    rows session.tree.outline = (lines session.tree.outline.toList).map String.ofList ++ [""] ∧
      (lines session.tree.outline.toList).length = session.tree.size ∧
      (∀ k < session.tree.size, ∃ row id node depth,
        (lines session.tree.outline.toList)[k]? = some row ∧
          (session.tree.preorder 0)[k]? = some id ∧
          session.tree.node? id = some node ∧
          (session.tree.shape 0)[k]? = some (depth, node.label) ∧
          Outline.Displays row depth node) ∧
      Outline.read session.tree.outline = session.tree.shape 0 ∧
      ∀ text' limit' session' failure',
        parse (Token.scan text') limit' = some (session', failure') →
        session'.tree.outline = session.tree.outline →
          session'.tree.shape 0 = session.tree.shape 0 := by
  have hplain := plain_of_parse_scan h
  have hpreorder : session.tree.preorder 0 = List.range session.tree.size := by
    obtain ⟨_, _, _, _, _, htree, _⟩ := parse_eq_some h
    rw [Tree.preorder_congr htree, Tree.preorder_graft_empty, Tree.size_congr htree]
  have hread : Outline.read session.tree.outline = session.tree.shape 0 :=
    Outline.read_render hplain
  refine ⟨Outline.rows_eq_lines (by decide) fun node hnode => (hplain node hnode).oneLine, ?_, ?_,
    hread, ?_⟩
  · calc (lines session.tree.outline.toList).length
        = (session.tree.shape 0).length := by rw [← hread, Outline.read, List.length_map]
      _ = (session.tree.preorder 0).length := by
        rw [Tree.shape, Tree.preorder, ← Rose.map_snd_levels, List.length_map, List.length_map]
      _ = session.tree.size := by rw [hpreorder, List.length_range]
  · intro k hk
    obtain ⟨node, hnode⟩ := Tree.exists_node?_of_lt_size hk
    obtain ⟨row, depth, hrow, hshape, hdisplays⟩ :=
      Outline.getElem?_lines_render hpreorder hplain hnode
    have hplace : (session.tree.preorder 0)[k]? = some k := by
      rw [hpreorder, List.getElem?_range hk]
    exact ⟨row, k, node, depth, hrow, hplace, hnode, hshape, hdisplays⟩
  · intro text' limit' session' failure' h' hsame
    have hread' := Outline.read_render (plain_of_parse_scan h')
    rw [← hread, ← hread']
    exact congrArg Outline.read hsame

/-- The outline of a `read` without a name has eight lines, and the last is that of the error. -/
theorem parse_outline_of_unnamed_read_back :
    ∃ session f, parse (Token.scan "read 2") = some (session, some f) ∧
      Outline.read session.tree.outline =
        [(0, "Parse Tree"), (1, "<PROGRAM>"), (2, "<STMT_LIST>"), (3, "<STMT>"), (4, "<READ_STMT>"),
          (5, "<read>"), (6, "read"), (5, "expected identifier but found 2 (number)")] ∧
      (lines session.tree.outline.toList).length = 8 ∧
      ∃ row, (lines session.tree.outline.toList)[7]? = some row ∧
        Outline.Displays row 5 (Node.error "expected identifier but found 2 (number)") := by
  have hfails : (parse (Token.scan "read 2")).map (fun p => (p.2.isSome, p.1.tree.shape 0)) =
      some (true, [(0, "Parse Tree"), (1, "<PROGRAM>"), (2, "<STMT_LIST>"), (3, "<STMT>"),
        (4, "<READ_STMT>"), (5, "<read>"), (6, "read"),
        (5, "expected identifier but found 2 (number)")]) := by
    decide +kernel
  have hlast : (parse (Token.scan "read 2")).map (fun p =>
      (p.1.tree.size, (p.1.tree.preorder 0)[7]?, p.1.tree.node? 7)) =
      some (8, some 7, some (Node.error "expected identifier but found 2 (number)")) := by
    decide +kernel
  obtain ⟨⟨session, failure⟩, hparse, hanswer⟩ := Option.map_eq_some_iff.mp hfails
  obtain ⟨hfailure, hshape⟩ := Prod.mk.inj hanswer
  obtain ⟨f, rfl⟩ := Option.isSome_iff_exists.mp hfailure
  rw [hparse, Option.map_some, Option.some_inj] at hlast
  obtain ⟨hsize, hlast⟩ := Prod.mk.inj hlast
  obtain ⟨hseventh, herror⟩ := Prod.mk.inj hlast
  obtain ⟨_, hlength, hlines, hread, _⟩ := parse_outline_reads_back hparse
  obtain ⟨row, id, node, depth, hrow, hid, hnode, hlevel, hdisplays⟩ :=
    hlines 7 (hsize ▸ by decide)
  obtain rfl : 7 = id := Option.some.inj (hseventh.symm.trans hid)
  obtain rfl := Option.some.inj (herror.symm.trans hnode)
  obtain rfl : 5 = depth := by
    have hshown : session.tree.shape 0 = _ := hshape
    rw [hshown] at hlevel
    exact (Prod.mk.inj (Option.some.inj hlevel)).1
  exact ⟨session, f, hparse, hread.trans hshape, hlength.trans hsize, row, hrow, hdisplays⟩

end TopDown
