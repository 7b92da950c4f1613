import TopDown.Tree.View

/-!
# Outlines

A parse tree as text, one node a line in pre-order, indented by its depth. The line of an error is
marked.
-/

namespace TopDown

namespace Outline

def errorMark : String := "!! "

def mark (role : Role) : String :=
  if role = .error then errorMark else ""

/-- The line of a node at the given depth. -/
def line (indent : String) (depth : Nat) (node : Node) : String :=
  String.join (List.replicate depth indent) ++ mark node.role ++ node.label

def render (indent : String) (t : Tree) : String :=
  let lines := (t.below 0).levels.map fun (depth, id) =>
    line indent depth ((t.node? id).getD default)
  "\n".intercalate lines ++ "\n"

end Outline

end TopDown
