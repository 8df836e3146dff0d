/-
SmallWeb/Render/Tree.lean

The bare walk as a format.

It leaves headings, code blocks, thematic breaks and list markers open, so a
document that has any of them cannot be rendered.  Code and links in running
text are their text.
-/
import SmallWeb.Render.Walk

namespace SmallWeb

/-- The lines of an item: the first line after `first`, the others after
`rest`. -/
def hangingLines (first rest : List Char) (lines : List Line) : List Line :=
  prependLines first rest lines

/-- As many spaces as a marker is long. -/
def hangingIndent (marker : List Char) : List Char := List.replicate marker.length ' '

/-- A preformatted line behind a quote mark. -/
def quotedVerbatim (text : List Char) : List Char :=
  if text.isEmpty then ['>'] else '>' :: ' ' :: text

/-- The number of an item: the start of the list and the index together. -/
def itemNumber (start : Value) (index : Nat) : Except Fault (List Char) :=
  match start.asInt?, start with
  | some n, _ => .ok (Text.ofInt (n + index))
  | none, .float x => .ok (Number.text (x + Float.ofNat index))
  | none, _ => .error .wrongType

/-- The marker of an item: its number in an ordered list, or else a bullet. -/
def itemMarker (bullet : List Char) (ordered start : Value) (index : Nat) :
    Walk (List Char) :=
  if ordered.truthy then do return (← Walk.ofExcept (itemNumber start index)) ++ ['.', ' ']
  else return bullet

/-- The walk alone. -/
def treeFormat : Format where
  heading _ _ _ := throw .unsupported
  codeBlock _ _ := throw .unsupported
  thematicBreak _ := throw .unsupported
  marker _ _ _ := throw .unsupported
  continuation := hangingIndent
  itemLines := hangingLines
  quoteVerbatim := quotedVerbatim
  codeSpan literal := literal
  link _ text := return .string text
  afterBlock log := ([], log)
  finish _ output := output
  linkCount log := log.registry.size
  restart log := { log with registry := {} }

end SmallWeb
