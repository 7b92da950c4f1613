import TopDown.Tree.View

/-!
# DOT text

A parse tree as a Graphviz graph: a statement for the root and one for each attachment, in the order
of the trace. A node is named by its label and id. Non-terminals are dotted boxes, lexemes bold
ovals, empty alternatives a plain epsilon, and errors red.
-/

namespace TopDown

namespace Dot

/-- How a character is written between double quotes. -/
def escape (c : Char) : List Char :=
  if c = '"' ∨ c = '\\' then ['\\', c]
  else if c = '\n' then ['\\', 'n']
  else [c]

def quote (text : String) : String :=
  String.ofList ('"' :: text.toList.flatMap escape ++ ['"'])

def style : Role → String
  | .root => "shape=plaintext"
  | .nonterminal => "shape=rect, style=dotted"
  | .terminal => "shape=oval, style=bold"
  | .empty => "shape=plaintext"
  | .error => "shape=plaintext, color=red"

/-- The label that the graph shows. -/
def shownLabel (node : Node) : String :=
  if node.role = .empty then "&epsilon;" else node.label

/-- The name of a node with what the graph shows of it. -/
def nodeText (title : String) (node : Node) : String :=
  s!"{quote title} [label={quote (shownLabel node)}, {style node.role}]"

/-- The statement of an attachment that adds the node `id`. -/
def edgeText (t : Tree) (a : Attachment) (id : Nat) : String :=
  "\t" ++ quote (t.title a.parent) ++ " -> \x7b" ++ nodeText (t.title id) a.node ++ "\x7d;"

/-- The lines of the graph. -/
def lines (t : Tree) : List String :=
  "digraph ParseTree \x7b" :: ("\t" ++ nodeText (t.title 0) Node.root ++ ";")
    :: (t.attachments.toList.zipIdx 1).map (fun (a, id) => edgeText t a id) ++ ["\x7d"]

def render (t : Tree) : String :=
  "\n".intercalate (lines t) ++ "\n"

end Dot

end TopDown
