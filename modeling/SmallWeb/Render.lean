/-
SmallWeb/Render.lean

Rendering a document tree for a target.

A render first settles the target and the options and then checks the structure
of the tree; where any of this fails nothing is rendered.  Missing options are
the defaults of the target.
-/
import SmallWeb.Render.Finger
import SmallWeb.Render.Gemini
import SmallWeb.Render.Gopher
import SmallWeb.Structure

namespace SmallWeb

/-- What a caller may give as options: nothing, a record, or something else. -/
inductive OptionsInput
  | defaults
  | record (r : OptionRecord)
  | other (v : Value)

/-- The checked options for a target. -/
def OptionsInput.resolve (target : Target) : OptionsInput → Except ConfigFault RenderOptions
  | .defaults => target.defaults.record.validate
  | .record r => r.validate
  | .other v => .error (.notOptions v.kind)

/-- The renderer of a line-oriented target. -/
def gopherRenderer (o : RenderOptions) : Renderer := ⟨Gopher.format o, o.width, {}⟩

/-- The renderer of a line-oriented target. -/
def geminiRenderer (o : RenderOptions) : Renderer := ⟨Gemini.format, o.width, {}⟩

/-- The renderer that is the bare walk. -/
def treeRenderer (o : RenderOptions) : Renderer := ⟨treeFormat, o.width, {}⟩

/-- The output of a target's renderer for a document. -/
def Target.renderWith (target : Target) (o : RenderOptions) (doc : Value) :
    Except Fault (List Char) :=
  match target with
  | .gopher => ((gopherRenderer o).render doc).1
  | .gemini => ((geminiRenderer o).render doc).1
  | .finger => Finger.render o doc

/-- Checks the structure of a tree and renders it with options that have been
checked. -/
def renderChecked (target : Target) (o : RenderOptions) (doc : Value) :
    Except Fault (List Char) := do
  (Structure.check maxDepth doc).mapError .tree
  target.renderWith o doc

/-- Renders a document for a target. -/
def render (doc target : Value) (options : OptionsInput) : Except Fault (List Char) := do
  let target ← (Target.ofValue target).mapError .config
  let o ← (options.resolve target).mapError .config
  renderChecked target o doc

/-- The plain text of a document whose structure has been checked, one segment
per line. -/
def plainText (doc : Value) : Except Fault (List Char) := do
  (Structure.check maxDepth doc).mapError .tree
  extractText false ['\n'] doc

end SmallWeb
