import TopDown.Proofs.Render.Document
import TopDown.Proofs.Tree.Sink
import TopDown.Render.Renderer

/-!
# Documents of trees are read back

What the document of a tree says is taken from its fields again: whether the program was accepted,
the message of the failure, and the records. As the text of a document is read as the document, the
text of a tree says the same in every layout, and trees that say something else have other texts.
-/

namespace TopDown

namespace Document

def field? (key : String) : Document → Option Document
  | .record fields => fields.lookup key
  | _ => none

def bool? : Document → Option Bool
  | .bool value => some value
  | _ => none

def number? : Document → Option Nat
  | .number n => some n
  | _ => none

def text? : Document → Option String
  | .text s => some s
  | _ => none

/-- A text, or none if the document is null. -/
def optional? : Document → Option (Option String)
  | .null => some none
  | d => d.text?.map some

def items? : Document → Option (List Document)
  | .list items => some items
  | _ => none

end Document

open Document

theorem Role.ofName?_name (role : Role) : Role.ofName? role.name = some role := by
  cases role <;> decide

namespace Tree

def Record.ofDocument? (d : Document) : Option Record := do
  let id ← (← d.field? "id").number?
  let label ← (← d.field? "label").text?
  let role ← Role.ofName? (← (← d.field? "role").text?)
  let children ← (← (← d.field? "children").items?).mapM number?
  return ⟨id, ⟨role, label⟩, children⟩

/-- What a document says of a tree. -/
structure Summary where
  accepted : Bool
  message : Option String
  root : Nat
  records : List Record
  deriving DecidableEq

def Summary.ofDocument? (d : Document) : Option Summary := do
  let accepted ← (← d.field? "accepted").bool?
  let message ← (← d.field? "error").optional?
  let root ← (← d.field? "root").number?
  let records ← (← (← d.field? "nodes").items?).mapM Record.ofDocument?
  return ⟨accepted, message, root, records⟩

theorem mapM_map_eq_some {α β : Type} {write : α → β} {read : β → Option α}
    (h : ∀ a, read (write a) = some a) (list : List α) :
    (list.map write).mapM read = some list := by
  have hcomp : read ∘ write = fun a => pure a := funext h
  rw [List.mapM_map, hcomp, List.mapM_pure, List.map_id']
  rfl

theorem Record.ofDocument?_document (r : Record) : ofDocument? r.document = some r := by
  have hchildren : (r.children.map Document.number).mapM number? = some r.children :=
    mapM_map_eq_some (fun n => (rfl : number? (.number n) = some n)) r.children
  have hrole := Role.ofName?_name r.node.role
  simp [ofDocument?, document, recordFields, field?, number?, text?, items?, hrole, hchildren,
    List.lookup_cons]

theorem Summary.ofDocument?_document (t : Tree) :
    ofDocument? t.document = some ⟨t.accepted, t.failure.map (·.message), 0, t.records⟩ := by
  have hrecords : (t.records.map Record.document).mapM Record.ofDocument? = some t.records :=
    mapM_map_eq_some Record.ofDocument?_document t.records
  have hmessage : optional? (t.failure.elim .null (.text ·.message)) =
      some (t.failure.map (·.message)) := by
    cases t.failure <;> rfl
  simp [ofDocument?, document, field?, bool?, number?, items?, hmessage, hrecords,
    List.lookup_cons]

theorem nodes_eq_of_records {t t' : Tree} (h : t.records = t'.records) : t.nodes = t'.nodes := by
  have hnodes (t : Tree) : t.records.map (·.node) = t.nodes := by
    rw [records, List.map_map]
    exact List.zipIdx_map_fst 0 t.nodes
  rw [← hnodes t, h, hnodes t']

theorem children_eq_of_records {t t' : Tree} (h : t.records = t'.records) (id : Nat) :
    t.children id = t'.children id := by
  have hchildren (t : Tree) : t.children id = (t.records[id]?.map (·.children)).getD [] := by
    rcases Nat.lt_or_ge id t.size with hlt | hle
    · obtain ⟨node, hnode⟩ := exists_node?_of_lt_size hlt
      rw [getElem?_records hnode]
      rfl
    · have hnone : t.records[id]? = none := by
        simpa [records, length_nodes] using hle
      rw [children_of_le hle, hnone]
      rfl
  rw [hchildren t, h, ← hchildren t']

/-- The JSON of a tree is read back, however it is laid out. It is printable ASCII but for its line
feeds, and it is read as one document in every layout. From the document come whether the tree is
accepted, the message of its failure, the id of its root, and in the order of ids the record of each
node, with its role, its label and the ids of its children. Trees with the same text have the same
nodes. -/
theorem render_json_reads_back (t : Tree) (layout : Layout) :
    (∀ c ∈ (Renderer.render t (.json layout)).toList,
        c = '\n' ∨ (0x20 ≤ c.toNat ∧ c.toNat ≤ 0x7E)) ∧
      Document.read? (Renderer.render t (.json layout)) = some t.document ∧
      Summary.ofDocument? t.document =
        some ⟨t.accepted, t.failure.map (·.message), 0, t.records⟩ ∧
      (t.records.length = t.size ∧ ∀ id node, t.node? id = some node →
        t.records[id]? = some ⟨id, node, t.children id⟩) ∧
      ∀ (t' : Tree) (layout' : Layout),
        Renderer.render t (.json layout) = Renderer.render t' (.json layout') →
          t.accepted = t'.accepted ∧ t.failure.map (·.message) = t'.failure.map (·.message) ∧
            t.nodes = t'.nodes ∧ ∀ id, t.children id = t'.children id := by
  have hread (t : Tree) (layout : Layout) :
      Document.read? (Renderer.render t (.json layout)) = some t.document :=
    read?_write t.document layout
  refine ⟨?_, hread t layout, Summary.ofDocument?_document t, ⟨?_, ?_⟩, ?_⟩
  · intro c hc
    rw [Renderer.render, String.toList_ofList] at hc
    exact plain_write layout 0 t.document c hc
  · simp [records, length_nodes]
  · intro id node hnode
    rw [getElem?_records hnode, record, hnode]
    rfl
  · intro t' layout' h
    have hdocument : t.document = t'.document := by
      rw [← Option.some.injEq, ← hread t layout, h, hread]
    have hsummary := congrArg Summary.ofDocument? hdocument
    rw [Summary.ofDocument?_document, Summary.ofDocument?_document, Option.some.injEq,
      Summary.mk.injEq] at hsummary
    obtain ⟨haccepted, hmessage, _, hrecords⟩ := hsummary
    exact ⟨haccepted, hmessage, nodes_eq_of_records hrecords, children_eq_of_records hrecords⟩

/-- Escapes of every form are read back: of a quote, a control character, and a character outside
the first plane. What failed besides the message is not written, so that a tree with another failure
has the same text. -/
theorem render_json_reads_back_escapes :
    ∃ t t' : Tree, t.Built ∧ t'.Built ∧ t ≠ t' ∧ t.label 1 = "\"\\\n\x00\x7f\u00e9😀" ∧
      Renderer.render t (.json (.spread (-1))) = Renderer.render t' (.json (.spread (-1))) ∧
      (∀ layout, Document.read? (Renderer.render t (.json layout)) = some t.document) ∧
      t.failure.map (·.message) = t'.failure.map (·.message) ∧ t.nodes = t'.nodes := by
  have hopened := Built.new.step (.openNamed 0 "\"\\\n\x00\x7f\u00e9😀") (by decide)
  have ht := hopened.step (.fail ⟨.mismatch, "\\u0022\"", 1, none⟩) (by decide)
  have ht' := hopened.step (.fail ⟨.redeclaration, "\\u0022\"", 1, none⟩) (by decide)
  obtain ⟨t, t', ht, ht', hne, hlabel, hdocument⟩ : ∃ t t' : Tree, t.Built ∧ t'.Built ∧ t ≠ t' ∧
      t.label 1 = "\"\\\n\x00\x7f\u00e9😀" ∧ t.document = t'.document :=
    ⟨_, _, ht, ht', by decide, by decide, rfl⟩
  have htext : Renderer.render t (.json (.spread (-1))) =
      Renderer.render t' (.json (.spread (-1))) := by
    rw [Renderer.render, Renderer.render, hdocument]
  obtain ⟨_, _, _, _, hsame⟩ := render_json_reads_back t (.spread (-1))
  obtain ⟨_, hmessage, hnodes, _⟩ := hsame t' _ htext
  exact ⟨t, t', ht, ht', hne, hlabel, htext, fun layout => (render_json_reads_back t layout).2.1,
    hmessage, hnodes⟩

end Tree

end TopDown
