import TopDown.Proofs.Render.Rows
import TopDown.Proofs.Tree.Sink

/-!
# Graphs that are read back

A quoted text ends at its own closing quote, whatever follows, and is read back from between the
quotes. The digits at the end of the name of a node are its id, whatever dashes and digits its label
has, so that the statements of a graph name the parent, the node and the role of each attachment.
-/

namespace TopDown

namespace Dot

/-! ## Quoted texts -/

def replaceAll (old : Char) (new text : List Char) : List Char :=
  text.flatMap fun c => if c = old then new else [c]

/-- To escape a text is to replace its backslashes, then its quotes, then its line feeds. The
backslashes come first, so that those that the later replacements write are not doubled. -/
theorem flatMap_escape (text : List Char) :
    text.flatMap escape =
      replaceAll '\n' ['\\', 'n']
        (replaceAll '"' ['\\', '"'] (replaceAll '\\' ['\\', '\\'] text)) := by
  rw [replaceAll, replaceAll, replaceAll, List.flatMap_assoc, List.flatMap_assoc]
  congr 1
  funext c
  by_cases hbackslash : c = '\\'
  · subst hbackslash
    rfl
  by_cases hquote : c = '"'
  · subst hquote
    rfl
  · simp [escape, hbackslash, hquote]

/-- What is written up to the next quote that no backslash guards, and the rest after the quote. -/
def unquoteFrom : List Char → Option (List Char × List Char)
  | [] => none
  | '"' :: rest => some ([], rest)
  | '\\' :: c :: rest =>
    (unquoteFrom rest).map (Prod.map ((if c = 'n' then '\n' else c) :: ·) id)
  | c :: rest => (unquoteFrom rest).map (Prod.map (c :: ·) id)

/-- The text between the quotes at the head of `chars`, and what comes after them. -/
def unquote? : List Char → Option (String × List Char)
  | '"' :: rest => (unquoteFrom rest).map (Prod.map String.ofList id)
  | _ => none

theorem unquoteFrom_escape (c : Char) (rest : List Char) :
    unquoteFrom (escape c ++ rest) = (unquoteFrom rest).map (Prod.map (c :: ·) id) := by
  unfold escape
  split
  · next hmark => rcases hmark with rfl | rfl <;> rfl
  · next hmark =>
    obtain ⟨hquote, hbackslash⟩ := not_or.mp hmark
    split
    · next hfeed =>
      subst hfeed
      rfl
    · rw [List.singleton_append, unquoteFrom]
      · exact hquote
      · exact fun _ _ h => absurd h hbackslash

theorem unquoteFrom_flatMap_escape (text rest : List Char) :
    unquoteFrom (text.flatMap escape ++ '"' :: rest) = some (text, rest) := by
  induction text with
  | nil => rfl
  | cons c text ih =>
    rw [List.flatMap_cons, List.append_assoc, unquoteFrom_escape, ih]
    rfl

/-- A quoted text ends at its own closing quote and is read back. -/
theorem unquote?_quote (text : String) (rest : List Char) :
    unquote? ((quote text).toList ++ rest) = some (text, rest) := by
  have hchars : (quote text).toList ++ rest =
      '"' :: (text.toList.flatMap escape ++ '"' :: rest) := by
    simp [quote]
  rw [hchars, unquote?, unquoteFrom_flatMap_escape]
  simp

/-! ## Names of nodes -/

theorem dash_not_mem_digits (n : Nat) : '-' ∉ Nat.toDigits 10 n := by
  intro hmem
  have hdigit := Nat.isDigit_of_mem_toDigits (by decide) (by decide) hmem
  exact absurd hdigit (by decide)

theorem toList_name (label : String) (id : Nat) :
    (s!"{label}-{id}").toList = label.toList ++ '-' :: Nat.toDigits 10 id := by
  show (label ++ "-" ++ toString id).toList = _
  simp

/-- What stands after the last dash of a name is the id. -/
theorem takeWhile_reverse_name (label : String) (id : Nat) :
    (s!"{label}-{id}").toList.reverse.takeWhile (· ≠ '-') = (Nat.toDigits 10 id).reverse := by
  have hdigits : ∀ c ∈ (Nat.toDigits 10 id).reverse, decide (c ≠ '-') = true := by
    intro c hc
    rw [List.mem_reverse] at hc
    exact decide_eq_true fun h => dash_not_mem_digits id (h ▸ hc)
  rw [toList_name, List.reverse_append, List.reverse_cons, List.append_assoc,
    List.takeWhile_append_of_pos hdigits]
  simp

theorem name_inj {label other : String} {id otherId : Nat}
    (h : s!"{label}-{id}" = s!"{other}-{otherId}") : label = other ∧ id = otherId := by
  have hdigits := congrArg (fun name : String => name.toList.reverse.takeWhile (· ≠ '-')) h
  simp only [takeWhile_reverse_name, List.reverse_inj] at hdigits
  have hlabels := congrArg String.toList h
  rw [toList_name, toList_name, hdigits] at hlabels
  refine ⟨String.toList_inj.mp (List.append_cancel_right hlabels), ?_⟩
  rw [← Nat.ofDigitChars_ten_toDigits (n := id), hdigits, Nat.ofDigitChars_ten_toDigits]

/-! ## Statements -/

variable {t t' : Tree} {a a' : Attachment} {id : Nat}

/-- But for the root, roles look different. -/
theorem role_eq_of_style {role role' : Role} (hrole : role ≠ .root) (hrole' : role' ≠ .root)
    (h : style role = style role') : role = role' := by
  revert h
  cases role <;> cases role' <;> first | contradiction | decide

/-- What a statement says of an edge: the names of parent and child, and how the child looks. -/
structure Edge where
  parent : String
  child : String
  label : String
  style : String
  deriving DecidableEq

/-- Reads the statement of an edge. Only the style is not quoted; it ends at the bracket. -/
def readEdge? (statement : String) : Option Edge := do
  let rest ← statement.toList.dropPrefix? "\t".toList
  let (parent, rest) ← unquote? rest
  let rest ← rest.dropPrefix? " -> \x7b".toList
  let (child, rest) ← unquote? rest
  let rest ← rest.dropPrefix? " [label=".toList
  let (label, rest) ← unquote? rest
  let rest ← rest.dropPrefix? ", ".toList
  let style ← rest.dropSuffix? "]\x7d;".toList
  return ⟨parent, child, label, String.ofList style⟩

theorem dropPrefix?_append (front rest : List Char) :
    (front ++ rest).dropPrefix? front = some rest :=
  List.dropPrefix?_append_of_beq rest (beq_self_eq_true front)

theorem dropSuffix?_append (front rest : List Char) :
    (front ++ rest).dropSuffix? rest = some front :=
  List.dropSuffix?_eq_some_iff.mpr ⟨rest, rfl, beq_self_eq_true rest⟩

theorem readEdge?_edgeText (t : Tree) (a : Attachment) (id : Nat) :
    readEdge? (edgeText t a id) =
      some ⟨t.title a.parent, t.title id, shownLabel a.node, style a.node.role⟩ := by
  have hchars : (edgeText t a id).toList = "\t".toList ++ ((quote (t.title a.parent)).toList ++
      (" -> \x7b".toList ++ ((quote (t.title id)).toList ++ (" [label=".toList ++
        ((quote (shownLabel a.node)).toList ++ (", ".toList ++
          ((style a.node.role).toList ++ "]\x7d;".toList))))))) := by
    simp only [edgeText, nodeText, String.toList_append, List.append_assoc]
    rfl
  rw [readEdge?, hchars]
  simp only [dropPrefix?_append, unquote?_quote, dropSuffix?_append, Option.bind_eq_bind,
    Option.bind_some, String.ofList_toList]
  rfl

/-- A statement says which node is attached to which. -/
theorem edgeText_inj (hrole : a.node.role ≠ .root) (hrole' : a'.node.role ≠ .root)
    (hlabel : t.label id = a.node.label) (hlabel' : t'.label id = a'.node.label)
    (h : edgeText t a id = edgeText t' a' id) : a = a' := by
  have hread := congrArg readEdge? h
  rw [readEdge?_edgeText, readEdge?_edgeText, Option.some.injEq, Edge.mk.injEq] at hread
  obtain ⟨hparent, hname, _, hstyle⟩ := hread
  have hrole := role_eq_of_style hrole hrole' hstyle
  obtain ⟨parent, role, label⟩ := a
  obtain ⟨parent', role', label'⟩ := a'
  obtain rfl : parent = parent' := (name_inj hparent).2
  obtain rfl : role = role' := hrole
  obtain rfl : label = label' := hlabel.symm.trans ((name_inj hname).1.trans hlabel')
  rfl

/-- The statement of an edge of the trace. -/
def edgeStatement (t : Tree) : Nat × Nat × Role → String
  | (parent, id, _) => edgeText t ⟨parent, (t.node? id).getD default⟩ id

/-- The statements of a graph are those of the edges of the trace, in order. -/
theorem lines_eq (t : Tree) :
    lines t = "digraph ParseTree \x7b" :: ("\t" ++ nodeText (t.title 0) Node.root ++ ";")
      :: t.edges.map (edgeStatement t) ++ ["\x7d"] := by
  have hstatements : t.edges.map (edgeStatement t) =
      (t.attachments.toList.zipIdx 1).map fun entry => edgeText t entry.1 entry.2 := by
    rw [Tree.edges, List.map_map]
    refine List.map_congr_left fun entry hentry => ?_
    obtain ⟨a, id⟩ := entry
    obtain ⟨i, rfl⟩ : ∃ i, id = 1 + i :=
      ⟨_, (Nat.add_sub_cancel' (List.le_snd_of_mem_zipIdx hentry)).symm⟩
    have ha := List.mk_add_mem_zipIdx_iff_getElem?.mp hentry
    rw [Array.getElem?_toList] at ha
    simp [edgeStatement, Nat.add_comm 1, Tree.node?, ha]
  rw [hstatements]
  rfl

theorem count_render (t : Tree) : (render t).toList.count '\n' = t.size + 2 := by
  have hrows := Text.length_rows (render t)
  rw [rows_render] at hrows
  simp only [lines, List.cons_append, List.length_cons, List.length_append, List.length_map,
    List.length_zipIdx, Array.length_toList, List.length_nil] at hrows
  rw [Tree.size]
  omega

/-- Graphs with the same lines show the same attachments. -/
theorem attachments_eq_of_lines (ht : t.Sound) (ht' : t'.Sound) (h : lines t = lines t') :
    t.attachments = t'.attachments := by
  have hstatements := List.append_cancel_right (List.cons.inj (List.cons.inj h).2).2
  have hlabel {t : Tree} {i : Nat} {a : Attachment} (ha : t.attachments[i]? = some a) :
      t.label (i + 1) = a.node.label := by
    simp [Tree.label, Tree.node?, ha]
  refine Array.ext_getElem? fun i => ?_
  have hplace := congrArg (·[i]?) hstatements
  simp only [List.getElem?_map, List.getElem?_zipIdx, Array.getElem?_toList] at hplace
  cases ha : t.attachments[i]? with
  | none =>
    rw [ha] at hplace
    simpa using hplace.symm
  | some a =>
    cases ha' : t'.attachments[i]? with
    | none => simp [ha, ha'] at hplace
    | some a' =>
      rw [ha, ha'] at hplace
      have hstatement : edgeText t a (i + 1) = edgeText t' a' (i + 1) := by
        simpa [Nat.add_comm] using hplace
      rw [edgeText_inj (ht.role_ne a (Array.mem_of_getElem? ha))
        (ht'.role_ne a' (Array.mem_of_getElem? ha')) (hlabel ha) (hlabel ha') hstatement]

/-- The graph of a tree determines the tree. It has two line feeds more than the tree has nodes, and
one statement for each edge of the trace, in order. Each quoted text ends at its own closing quote
and is read back, so that a statement gives the names and the label it was made of; no two nodes
have the same name; and no tree with other nodes or edges has the same graph. -/
theorem render_determines_tree (ht : t.Built) :
    ((render t).toList.count '\n' = t.size + 2 ∧
        Text.rows (render t) =
          ["digraph ParseTree \x7b", "\t" ++ nodeText (t.title 0) Node.root ++ ";"]
            ++ t.edges.map (edgeStatement t) ++ ["\x7d", ""]) ∧
      (∀ text rest, unquote? ((quote text).toList ++ rest) = some (text, rest)) ∧
      (∀ id parent node, t.node? id = some node → (parent, id, node.role) ∈ t.edges →
        readEdge? (edgeStatement t (parent, id, node.role)) =
          some ⟨t.title parent, t.title id, shownLabel node, style node.role⟩) ∧
      (∀ id id', t.title id = t.title id' → id = id') ∧
      ∀ t' : Tree, t'.Built → render t = render t' →
        t.nodes = t'.nodes ∧ t.edges = t'.edges ∧ ∀ id, t.children id = t'.children id := by
  refine ⟨⟨count_render t, ?_⟩, unquote?_quote, ?_, fun id id' h => (name_inj h).2, ?_⟩
  · rw [rows_render, lines_eq]
    simp
  · intro id parent node hnode _
    rw [edgeStatement, readEdge?_edgeText, hnode]
    rfl
  · intro t' ht' h
    have hrows := congrArg Text.rows h
    rw [rows_render, rows_render] at hrows
    have hsame := attachments_eq_of_lines ht.sound ht'.sound (List.append_cancel_right hrows)
    refine ⟨Tree.nodes_congr hsame, ?_, Tree.children_congr hsame⟩
    rw [Tree.edges, Tree.edges, hsame]

/-- Labels that look like names, quotes and line ends do not mislead: two trees that failed for
different reasons have one graph, and the same nodes and edges. -/
theorem render_determines_awkward_tree :
    ∃ t t' : Tree, t.Built ∧ t'.Built ∧ t ≠ t' ∧ render t = render t' ∧
      (render t).toList.count '\n' = 5 ∧ t.nodes = t'.nodes ∧ t.edges = t'.edges := by
  have hopened := Tree.Built.new.step (.openNamed 0 "Parse Tree-0\"\\\n-1") (by decide)
  have ht := hopened.step (.fail ⟨.mismatch, "\\n-2-", 1, none⟩) (by decide)
  have ht' := hopened.step (.fail ⟨.redeclaration, "\\n-2-", 1, some ⟨.number, "7", 1, 1⟩⟩)
    (by decide)
  obtain ⟨⟨hcount, _⟩, _, _, _, hsame⟩ := render_determines_tree ht
  obtain ⟨hnodes, hedges, _⟩ := hsame _ ht' (by decide +kernel)
  exact ⟨_, _, ht, ht', by decide, by decide +kernel, hcount, hnodes, hedges⟩

end Dot

end TopDown
