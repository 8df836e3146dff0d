/-
SmallWeb/Markdown/Part.lean

The blocks of a Markdown text before its running text is read.

Running text is kept as written, since it cannot be read before all definitions
are known: a reference may stand before the definition of its label.  A paragraph
may begin with definitions, and where it holds nothing else it is no paragraph.
-/
import SmallWeb.Markdown.Line

namespace SmallWeb.Markdown

/-! ### Parts -/

/-- A closed block, with its running text as written. -/
inductive Part where
  | paragraph (text : List Char)
  | heading (level : Nat) (text : List Char)
  | rule
  | code (info literal : List Char)
  | html (raw : List Char)
  /-- Targets under labels. -/
  | defining (entries : List (List Char × List Char))
  | quote (parts : List Part)
  | list (marker : ListMarker) (items : List (List Part))

/-- The parts that the lines of a paragraph are: definitions at its beginning, and
the text after them if there is any. -/
def paragraphParts (lines : List (List Char)) : List Part × List Char :=
  let text := Text.dropEndWhile Html.isGap (Text.unlines lines)
  let (entries, rest) := definitions text.length text
  (if entries.isEmpty then [] else [.defining entries], rest)

/-- Parts in reverse with an item added, which joins the list before it if that
has markers of the same kind. -/
def addItem (marker : ListMarker) (item : List Part) : List Part → List Part
  | .list m items :: parts =>
    if m.sameKind marker then .list m (items ++ [item]) :: parts
    else .list marker [item] :: .list m items :: parts
  | parts => .list marker [item] :: parts

mutual

/-- The definitions in a part. -/
def Part.definitions : Part → List (List Char × List Char)
  | .defining entries => entries
  | .quote parts => definitionsIn parts
  | .list _ items => definitionsInItems items
  | _ => []

/-- The definitions in parts. -/
def definitionsIn : List Part → List (List Char × List Char)
  | [] => []
  | p :: ps => p.definitions ++ definitionsIn ps

/-- The definitions in the items of a list. -/
def definitionsInItems : List (List Part) → List (List Char × List Char)
  | [] => []
  | item :: items => definitionsIn item ++ definitionsInItems items

end

end SmallWeb.Markdown
