/-
SmallWeb/Render/Finger.lean

One line of text for Finger.

The segments of a document are put on one line with a space between each two;
segments without content are left out.  In compact mode the blanks inside prose
are collapsed, code keeps its inner spacing, and the line is cut to the width.
-/
import SmallWeb.Extract
import SmallWeb.Options
import SmallWeb.Wrap

namespace SmallWeb.Finger

/-- A text with a space for each line end, where a carriage return before a line
feed belongs to the line end. -/
def flattenLines : List Char → List Char
  | '\r' :: '\n' :: s => ' ' :: flattenLines s
  | '\n' :: s => ' ' :: flattenLines s
  | c :: s => c :: flattenLines s
  | [] => []

/-- The text of a segment on one line. -/
def segmentText (compact : Bool) (s : Segment) : List Char :=
  let t := flattenLines s.text
  if compact && !s.isCode then Text.trim (Text.collapse t) else t

/-- Segments on one line. -/
def joinSegments (compact : Bool) (segments : List Segment) : List Char :=
  Text.joinWith [' '] ((segments.map (segmentText compact)).filter fun t => !Text.isBlankText t)

/-- The line of a document, from its segments. -/
def line (o : RenderOptions) (segments : List Segment) : Except ConfigFault (List Char) :=
  let t := joinSegments o.compactMode segments
  if o.compactMode then
    if o.width > 0 then truncate (Text.trim t) o.width else .ok (Text.trim t)
  else .ok t

/-- Renders a document. -/
def render (o : RenderOptions) (doc : Value) : Except Fault (List Char) := do
  (line o (← segments false doc)).mapError .config

end SmallWeb.Finger
