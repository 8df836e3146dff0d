/-
SmallWeb/Render/Line.lean

Output lines and how blocks of lines are put together.

A line knows whether it is prose or preformatted.  A container prepends to each
of its lines; prose loses the blanks at its end then, and preformatted text is
never changed otherwise.  An empty preformatted line takes the trimmed prefix.

Blocks that follow one another are separated by one empty line, unless the
output ends in an empty line already.  A block without lines leaves no trace.
-/
import SmallWeb.Wrap

namespace SmallWeb

/-- A line of output. -/
inductive Line
  | prose (text : List Char)
  | verbatim (text : List Char)
  deriving DecidableEq, Repr

namespace Line

/-- The text of a line. -/
def text : Line → List Char
  | prose s => s
  | verbatim s => s

/-- Whether a line is preformatted. -/
def isVerbatim : Line → Bool
  | prose _ => false
  | verbatim _ => true

/-- A line with something prepended. -/
def prepend (lead : List Char) : Line → Line
  | prose s => prose (Text.trimEnd (lead ++ s))
  | verbatim s => verbatim (if s.isEmpty then Text.trimEnd lead else lead ++ s)

end Line

/-- Lines with `first` before the first one and `rest` before the others. -/
def prependLines (first rest : List Char) : List Line → List Line
  | [] => []
  | l :: ls => l.prepend first :: ls.map (Line.prepend rest)

/-- The output after one more block. -/
def appendBlock (output block : List Line) : List Line :=
  if block.isEmpty then output
  else match output.getLast? with
    | none => block
    | some l => if l.text.isEmpty then output ++ block else output ++ .prose [] :: block

/-- Blocks one after the other. -/
def stackBlocks (blocks : List (List Line)) : List Line := blocks.foldl appendBlock []

/-- Running text, which may hold line feeds, as prose with the same prefix on
every line. -/
def proseLines (text : List Char) (width : Int) (lead : List Char) :
    Except ConfigFault (List Line) :=
  if width < 0 then .error (.negativeWidth width)
  else .ok (((Text.lines text).flatMap (wrapLine width.toNat lead lead)).map .prose)

end SmallWeb
