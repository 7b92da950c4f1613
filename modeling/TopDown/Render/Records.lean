import TopDown.Render.Document
import TopDown.Tree.View

/-!
# Trees as documents

A parse tree as a JSON document: whether the program was accepted, the message of the failure, and
the record of every node. The children of a record are ids, so that the document is no deeper for a
deeper tree. A subtree can also be written with its nodes nested.
-/

namespace TopDown

namespace Tree

def recordFields (id : Nat) (node : Node) (children : List Document) :
    List (String × Document) :=
  [("id", .number id), ("label", .text node.label), ("role", .text node.role.name),
    ("children", .list children)]

def Record.document (r : Record) : Document :=
  .record (recordFields r.id r.node (r.children.map .number))

/-- The document of a tree. -/
def document (t : Tree) : Document :=
  .record [("accepted", .bool t.accepted),
    ("error", t.failure.elim .null (.text ·.message)),
    ("root", .number 0),
    ("nodes", .list (t.records.map Record.document))]

/-- The document of a node with its children nested in it. -/
def nestedDocument (t : Tree) (id : Nat) : Document :=
  (t.below id).fold fun id children =>
    .record (recordFields id ((t.node? id).getD default) children)

end Tree

end TopDown
