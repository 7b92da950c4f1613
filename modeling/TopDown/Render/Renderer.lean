import TopDown.Render.Dot
import TopDown.Render.Outline
import TopDown.Render.Records
import TopDown.Text.Quoted

/-!
# Renderers

A parse tree is rendered as DOT text, as an outline or as a JSON document. A renderer is chosen by
the name of its format, in letters of either case.
-/

namespace TopDown

inductive Renderer where
  | dot
  | outline (indent : String)
  | json (layout : Document.Layout)
  deriving DecidableEq, Inhabited

namespace Renderer

def render (t : Tree) : Renderer → String
  | dot => Dot.render t
  | outline indent => Outline.render indent t
  | json layout => String.ofList (t.document.write layout 0)

/-- The formats with their names, in the order of the names. -/
def formats : List (String × Renderer) :=
  [("dot", .dot), ("json", .json (.spread 2)), ("outline", .outline "  ")]

def ofFormat? (format : String) : Option Renderer :=
  formats.lookup format.toLower

end Renderer

/-- No renderer has this name. -/
structure UnknownFormat where
  name : String
  deriving DecidableEq, Inhabited

def UnknownFormat.message (e : UnknownFormat) : String :=
  s!"Unknown render format: {Text.quoted e.name}"

/-- Renders a parse tree in the named format. -/
def Tree.render (t : Tree) (format : String) : Except UnknownFormat String :=
  match Renderer.ofFormat? format with
  | some renderer => .ok (renderer.render t)
  | none => .error ⟨format⟩

end TopDown
