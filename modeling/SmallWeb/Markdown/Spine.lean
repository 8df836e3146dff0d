/-
SmallWeb/Markdown/Spine.lean

Reading lines into open blocks.

The open blocks form a spine: containers that are still open, one inside another,
and a leaf in the innermost that takes lines.  A line first passes through the
containers whose mark it carries.  Where it carries them all, the leaf decides;
where it leaves a container, that container is closed, unless the line merely
continues the paragraph that is open inside it.

The parts before an open block are kept in reverse, so the last one, which a
further list item may join, is at hand.
-/
import SmallWeb.Markdown.Part

namespace SmallWeb.Markdown

/-! ### Open blocks -/

/-- A block that takes lines, with the lines so far in reverse. -/
inductive Leaf
  /-- No block is open. -/
  | vacant
  | paragraph (lines : List (List Char))
  | indented (lines : List (List Char))
  | fenced (fence : Fence) (lines : List (List Char))
  | html (close : Html.End) (lines : List (List Char))

/-- An open leaf and the containers around it, with the parts before them in
reverse. -/
inductive Spine where
  | leaf (parts : List Part) (leaf : Leaf)
  | quote (parts : List Part) (inner : Spine)
  /-- An item whose lines are indented. -/
  | item (parts : List Part) (marker : ListMarker) (indent : Nat) (inner : Spine)

/-- A text of lines in reverse, each with its line end. -/
def terminated (lines : List (List Char)) : List Char := lines.reverse.flatMap (· ++ ['\n'])

/-- Parts in reverse with an open leaf closed. -/
def Leaf.close (parts : List Part) : Leaf → List Part
  | .vacant => parts
  | .paragraph lines =>
    let (definitions, rest) := paragraphParts lines.reverse
    if rest.isEmpty then definitions ++ parts else .paragraph rest :: (definitions ++ parts)
  | .indented lines => .code [] (terminated (lines.dropWhile (·.all isSpace))) :: parts
  | .fenced fence lines => .code fence.info (terminated lines) :: parts
  | .html _ lines => .html (terminated lines) :: parts

namespace Spine

/-- The parts in reverse with all open blocks closed. -/
def close : Spine → List Part
  | leaf parts l => l.close parts
  | quote parts inner => .quote inner.close.reverse :: parts
  | item parts marker _ inner => addItem marker inner.close.reverse parts

/-- What is open where more parts stand before it. -/
def after (earlier : List Part) : Spine → Spine
  | leaf parts l => leaf (parts ++ earlier) l
  | quote parts inner => quote (parts ++ earlier) inner
  | item parts marker indent inner => item (parts ++ earlier) marker indent inner

/-- Whether nothing has been read into an open block. -/
def isEmpty : Spine → Bool
  | leaf [] .vacant => true
  | _ => false

/-- Whether the open leaf is a paragraph. -/
def inParagraph : Spine → Bool
  | leaf _ (.paragraph _) => true
  | leaf _ _ => false
  | quote _ inner => inner.inParagraph
  | item _ _ _ inner => inner.inParagraph

/-- Adds a line to the open leaf if that is a paragraph. -/
def continueParagraph (line : List Char) : Spine → Spine
  | leaf parts (.paragraph lines) => leaf parts (.paragraph (line :: lines))
  | leaf parts l => leaf parts l
  | quote parts inner => quote parts (inner.continueParagraph line)
  | item parts marker indent inner => item parts marker indent (inner.continueParagraph line)

end Spine

/-! ### Beginnings -/

/-- The place after the mark of a quotation. -/
def afterQuoteMark? (c : Cursor) : Option Cursor :=
  if 4 ≤ c.indent then none
  else match c.skipAll.chars with
    | '>' :: _ => some ((c.skipAll.advance 1).skip 1)
    | _ => none

/-- What stands before a line: nothing that could take it, a paragraph in a
container that the line leaves, or a paragraph. -/
inductive Before
  | nothing
  | leftParagraph
  | paragraph
  deriving DecidableEq, Repr

/-- The leaf that a line begins, if it begins one that is not a paragraph. -/
def beginLeaf? (before : Before) (c : Cursor) : Option Spine :=
  let line := c.skipAll.chars
  if 4 ≤ c.indent then
    if before = .nothing then some (.leaf [] (.indented [(c.skip 4).chars])) else none
  else match heading? line with
  | some (level, text) => some (.leaf [.heading level text] .vacant)
  | none => match fence? c.indent line with
    | some fence => some (.leaf [] (.fenced fence []))
    | none => match Html.blockEnd? (before ≠ .nothing) line with
      | some close =>
        let leaf := .html close [c.chars]
        some (if close.isOn line then .leaf (leaf.close []) .vacant else .leaf [] leaf)
      | none => if isRule line then some (.leaf [.rule] .vacant) else none

mutual

/-- The block that a line begins, if it begins one that is not a paragraph.  The
fuel bounds the containers. -/
def begin? (fuel : Nat) (before : Before) (c : Cursor) : Option Spine :=
  match fuel with
  | 0 => none
  | fuel + 1 =>
    if c.isBlank then none
    else match afterQuoteMark? c with
    | some inner => some (.quote [] (openContent fuel inner))
    | none => match beginLeaf? before c with
      | some spine => some spine
      | none =>
        if 4 ≤ c.indent then none
        else (item? c (before = .paragraph)).map fun start =>
          .item [] start.marker start.indent (openContent fuel start.content)

/-- What is open after the rest of a line in a new container. -/
def openContent (fuel : Nat) (c : Cursor) : Spine :=
  match begin? fuel .nothing c with
  | some spine => spine
  | none => .leaf [] (if c.isBlank then .vacant else .paragraph [c.skipAll.chars])

end

/-- The block that a line begins, with fuel for as many containers as the line has
characters. -/
def beginLine? (before : Before) (c : Cursor) : Option Spine :=
  begin? (c.chars.length + 1) before c

/-- What is open after a line that stands after given parts. -/
def openAfter (parts : List Part) (c : Cursor) : Spine :=
  (openContent (c.chars.length + 1) c).after parts

/-! ### Lines -/

/-- The parts in reverse that the lines of a paragraph are where an underline
follows. -/
def underlined? (lines : List (List Char)) (c : Cursor) : Option (List Part) :=
  if 4 ≤ c.indent then none
  else (underline? c.skipAll.chars).bind fun level =>
    let (definitions, text) := paragraphParts lines.reverse
    if text.isEmpty then none else some (.heading level text :: definitions)

/-- Reads a line into an open leaf. -/
def Leaf.feed (parts : List Part) (c : Cursor) : Leaf → Spine
  | .vacant => openAfter parts c
  | .paragraph lines =>
    if c.isBlank then .leaf ((Leaf.paragraph lines).close parts) .vacant
    else match underlined? lines c with
    | some heading => .leaf (heading ++ parts) .vacant
    | none => match beginLine? .paragraph c with
      | some spine => spine.after ((Leaf.paragraph lines).close parts)
      | none => .leaf parts (.paragraph (c.skipAll.chars :: lines))
  | .indented lines =>
    if 4 ≤ c.indent then .leaf parts (.indented ((c.skip 4).chars :: lines))
    else if c.isBlank then .leaf parts (.indented ([] :: lines))
    else openAfter ((Leaf.indented lines).close parts) c
  | .fenced fence lines =>
    if c.indent < 4 && fence.closedBy c.skipAll.chars then
      .leaf ((Leaf.fenced fence lines).close parts) .vacant
    else .leaf parts (.fenced fence ((c.skip fence.indent).chars :: lines))
  | .html close lines =>
    if close == .blankLine && c.isBlank then .leaf ((Leaf.html close lines).close parts) .vacant
    else
      let leaf := Leaf.html close (c.chars :: lines)
      if close.isOn c.chars then .leaf (leaf.close parts) .vacant else .leaf parts leaf

namespace Spine

/-- What is open after a line that leaves the outermost container. -/
def leave (c : Cursor) (spine : Spine) : Spine :=
  if spine.inParagraph && !c.isBlank then
    match beginLine? .leftParagraph c with
    | some begun => begun.after spine.close
    | none => spine.continueParagraph c.skipAll.chars
  else openAfter spine.close c

/-- What is open after a line. -/
def feed (c : Cursor) : Spine → Spine
  | leaf parts l => l.feed parts c
  | quote parts inner =>
    match afterQuoteMark? c with
    | some c => quote parts (inner.feed c)
    | none => (quote parts inner).leave c
  | item parts marker indent inner =>
    if c.isBlank && inner.isEmpty then (item parts marker indent inner).leave c
    else if indent ≤ c.indent then item parts marker indent (inner.feed (c.skip indent))
    else if c.isBlank then item parts marker indent (inner.feed c.skipAll)
    else (item parts marker indent inner).leave c

end Spine

/-- The parts of a text, given by its lines. -/
def Part.ofLines (lines : List (List Char)) : List Part :=
  (lines.foldl (fun spine line => Spine.feed (.start line) spine) (.leaf [] .vacant)).close.reverse

end SmallWeb.Markdown
