import TopDown.Proofs.Tree.Levels
import TopDown.Proofs.Tree.Numbering
import TopDown.Render.Dot
import TopDown.Render.Outline

/-!
# Rows of rendered trees

A rendered text is read back row by row: line feeds stand between the lines of a graph and of an
outline, and nowhere else. In a graph they are escaped wherever a label has one; an outline writes
labels as they are.
-/

namespace TopDown

namespace Text

/-- The parts of a text between its line feeds. -/
def rows (text : String) : List String :=
  (text.toList.splitOn '\n').map String.ofList

/-- Lines that hold no line feed are the rows of the text that ends each with one. -/
theorem rows_intercalate {lines : List String} (hne : lines ≠ [])
    (hlines : ∀ line ∈ lines, '\n' ∉ line.toList) :
    rows ("\n".intercalate lines ++ "\n") = lines ++ [""] := by
  have htext : "\n".intercalate lines ++ "\n" = "\n".intercalate (lines ++ [""]) := by
    rw [String.intercalate_append_of_ne_nil hne (by simp), String.intercalate_singleton,
      String.append_empty]
  have hfeed : "\n".toList = ['\n'] := by decide
  have hparts : ∀ part ∈ (lines ++ [""]).map String.toList, '\n' ∉ part := by
    intro part hpart
    obtain ⟨line, hline, rfl⟩ := List.mem_map.mp hpart
    rcases List.mem_append.mp hline with hmem | hlast
    · exact hlines line hmem
    · rw [List.mem_singleton.mp hlast]
      decide
  rw [rows, htext, String.toList_intercalate, hfeed, List.splitOn_intercalate '\n' hparts (by simp),
    List.map_map]
  exact (List.map_congr_left fun line _ => String.ofList_toList).trans (List.map_id _)

example : rows "a\n\nb\n" = ["a", "", "b", ""] := by decide +kernel

/-- A text has one row more than line feeds. -/
theorem length_rows (text : String) : (rows text).length = text.toList.count '\n' + 1 := by
  rw [rows, List.length_map]
  induction text.toList with
  | nil => rfl
  | cons c rest ih =>
    rw [List.splitOn_cons_eq_if_modifyHead, List.count_cons]
    split
    · rw [List.length_cons, ih]
    · rw [List.length_modifyHead, ih, Nat.add_zero]

end Text

namespace Outline

/-- A line is made of indents, the mark and the label. -/
theorem forall_mem_line {P : Char → Prop} {indent : String} {depth : Nat} {node : Node}
    (hindent : ∀ c ∈ indent.toList, P c) (hmark : ∀ c ∈ errorMark.toList, P c)
    (hlabel : ∀ c ∈ node.label.toList, P c) : ∀ c ∈ (line indent depth node).toList, P c := by
  have hmarked : ∀ c ∈ (mark node.role).toList, P c := by
    rw [mark]
    split
    · exact hmark
    · nofun
  rw [line, String.toList_append, String.toList_append, String.toList_join]
  simp only [List.forall_mem_append, List.mem_flatMap]
  refine ⟨⟨?_, hmarked⟩, hlabel⟩
  rintro c ⟨part, hpart, hc⟩
  rw [List.eq_of_mem_replicate hpart] at hc
  exact hindent c hc

/-- A line holds no line feed if the indent and the label hold none. -/
theorem not_mem_line {indent : String} {depth : Nat} {node : Node}
    (hindent : '\n' ∉ indent.toList) (hlabel : '\n' ∉ node.label.toList) :
    '\n' ∉ (line indent depth node).toList := by
  have hmark : '\n' ∉ errorMark.toList := by decide
  rw [← List.forall_mem_ne'] at hindent hmark hlabel ⊢
  exact forall_mem_line hindent hmark hlabel

/-- A property of all labels holds of the label that a line shows. -/
theorem label_of_forall {P : String → Prop} {t : Tree} (hlabels : ∀ node ∈ t.nodes, P node.label)
    (hempty : P "") (id : Nat) : P ((t.node? id).getD default).label := by
  cases hnode : t.node? id with
  | none => exact hempty
  | some node => exact hlabels node (List.mem_of_getElem? ((Tree.getElem?_nodes t id).trans hnode))

/-- The rows of an outline are the lines of the nodes in pre-order. -/
theorem rows_render {indent : String} {t : Tree} (hindent : '\n' ∉ indent.toList)
    (hlabels : ∀ node ∈ t.nodes, '\n' ∉ node.label.toList) :
    Text.rows (render indent t) = (t.below 0).levels.map (fun p =>
      line indent p.1 ((t.node? p.2).getD default)) ++ [""] := by
  apply Text.rows_intercalate
  · rw [ne_eq, List.map_eq_nil_iff]
    exact Rose.levels_ne_nil _
  · intro row hrow
    obtain ⟨⟨depth, id⟩, _, rfl⟩ := List.mem_map.mp hrow
    have hlabel : '\n' ∉ ((t.node? id).getD default).label.toList :=
      label_of_forall (P := fun label => '\n' ∉ label.toList) hlabels (by decide) id
    exact not_mem_line hindent hlabel

end Outline

namespace Dot

theorem not_mem_escape (c : Char) : '\n' ∉ escape c := by
  unfold escape
  split
  · next hmark => rcases hmark with rfl | rfl <;> decide
  · split
    · decide
    · next hfeed => simpa using fun h => hfeed h.symm

theorem not_mem_quote (text : String) : '\n' ∉ (quote text).toList := by
  simp [quote, not_mem_escape]

theorem not_mem_nodeText (title : String) (node : Node) :
    '\n' ∉ (nodeText title node).toList := by
  have hstyle : '\n' ∉ (style node.role).toList := by
    cases node.role <;> decide
  simp only [nodeText, String.toList_append, List.mem_append, not_or]
  exact ⟨⟨⟨⟨⟨not_mem_quote _, by decide⟩, not_mem_quote _⟩, by decide⟩, hstyle⟩, by decide⟩

theorem not_mem_edgeText (t : Tree) (a : Attachment) (id : Nat) :
    '\n' ∉ (edgeText t a id).toList := by
  simp only [edgeText, String.toList_append, List.mem_append, not_or]
  exact ⟨⟨⟨⟨by decide, not_mem_quote _⟩, by decide⟩, not_mem_nodeText _ _⟩, by decide⟩

/-- The rows of a graph are its lines. -/
theorem rows_render (t : Tree) : Text.rows (render t) = lines t ++ [""] := by
  apply Text.rows_intercalate (by simp [lines])
  intro line hline
  rw [lines, List.cons_append, List.cons_append] at hline
  rcases List.mem_cons.mp hline with rfl | hline
  · decide
  rcases List.mem_cons.mp hline with rfl | hline
  · simp only [String.toList_append, List.mem_append, not_or]
    exact ⟨⟨by decide, not_mem_nodeText _ _⟩, by decide⟩
  rcases List.mem_append.mp hline with hedge | hlast
  · obtain ⟨⟨a, id⟩, _, rfl⟩ := List.mem_map.mp hedge
    exact not_mem_edgeText t a id
  · rw [List.mem_singleton.mp hlast]
    decide

end Dot

end TopDown
