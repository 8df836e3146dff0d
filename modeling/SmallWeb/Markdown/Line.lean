/-
SmallWeb/Markdown/Line.lean

What a line can begin.

Each recogniser takes a line without its indentation and says whether the line is
a heading, a rule, a fence, or the marker of a list item.  None of them looks at
other lines; where the order of the rules or the block before matters, the caller
decides.
-/
import SmallWeb.Markdown.Link
import SmallWeb.Text.Digit

namespace SmallWeb.Markdown

/-! ### Headings and rules -/

/-- The content of a heading without white space around it and without number
signs at its end. -/
def headingContent (s : List Char) : List Char :=
  let back := (s.dropWhile isSpace).reverse.dropWhile isSpace
  let stem := back.dropWhile (· == '#')
  match stem with
  | [] => []
  | c :: _ => if isSpace c then (stem.dropWhile isSpace).reverse else back.reverse

/-- The level and the content of a heading that begins with number signs. -/
def heading? (s : List Char) : Option (Nat × List Char) :=
  let level := (s.takeWhile (· == '#')).length
  let rest := s.drop level
  if 1 ≤ level && level ≤ 6 && (rest.head?.map isSpace).getD true then
    some (level, headingContent rest)
  else none

/-- The level that a line of equals signs or hyphens gives to the paragraph before
it. -/
def underline? (s : List Char) : Option Nat :=
  match Text.dropEndWhile isSpace s with
  | [] => none
  | c :: rest =>
    if c = '=' && rest.all (· == '=') then some 1
    else if c = '-' && rest.all (· == '-') then some 2
    else none

/-- Whether a line is a thematic break: three or more of one mark, with white space
anywhere. -/
def isRule (s : List Char) : Bool :=
  match s.filter fun c => !isSpace c with
  | [] => false
  | c :: rest => (c = '*' || c = '-' || c = '_') && rest.all (· == c) && 2 ≤ rest.length

/-! ### Fences -/

/-- The opening fence of a code block. -/
structure Fence where
  mark : Char
  size : Nat
  /-- The columns of white space before it. -/
  indent : Nat
  info : List Char
  deriving DecidableEq, Repr

/-- The fence that a line opens.  The info text after backticks holds no
backtick. -/
def fence? (indent : Nat) (s : List Char) : Option Fence :=
  match s with
  | [] => none
  | c :: _ =>
    let size := (s.takeWhile (· == c)).length
    let rest := s.drop size
    if (c = '\x60' && !rest.contains '\x60' || c = '~') && 3 ≤ size then
      some ⟨c, size, indent, unescape (Text.trim rest)⟩
    else none

/-- Whether a line closes a fence. -/
def Fence.closedBy (f : Fence) (s : List Char) : Bool :=
  let run := s.takeWhile (· == f.mark)
  f.size ≤ run.length && (s.drop run.length).all isSpace

/-! ### List items -/

/-- What marks the items of a list. -/
inductive ListMarker
  | bullet (mark : Char)
  | ordered (number : Nat) (delimiter : Char)
  deriving DecidableEq, Repr

/-- Whether two markers mark items of the same list. -/
def ListMarker.sameKind : ListMarker → ListMarker → Bool
  | .bullet a, .bullet b => a == b
  | .ordered _ a, .ordered _ b => a == b
  | _, _ => false

/-- The marker that a text begins with, its length and what follows. -/
def marker? (s : List Char) : Option (ListMarker × Nat × List Char) :=
  match s with
  | [] => none
  | c :: rest =>
    if c = '-' || c = '+' || c = '*' then some (.bullet c, 1, rest)
    else
      let digits := s.takeWhile Char.isDigit
      match s.drop digits.length with
      | d :: rest =>
        if (d = '.' || d = ')') && 1 ≤ digits.length && digits.length ≤ 9 then
          (Text.readDigits? digits).map fun n => (.ordered n d, digits.length + 1, rest)
        else none
      | [] => none

/-- Whether an item that begins with a marker may interrupt a paragraph. -/
def ListMarker.interrupts (m : ListMarker) (rest : List Char) : Bool :=
  !rest.all isSpace &&
    match m with
    | .ordered n _ => n == 1
    | .bullet _ => true

/-- The beginning of a list item. -/
structure ItemStart where
  marker : ListMarker
  /-- The columns that the lines of the item are indented by. -/
  indent : Nat
  /-- The place where the content of the item begins. -/
  content : Cursor
  deriving DecidableEq, Repr

/-- The item that a line begins.  Its content stands one to four columns after the
marker; where more white space follows, or nothing, one column belongs to the
marker. -/
def item? (c : Cursor) (inParagraph : Bool) : Option ItemStart :=
  let start := c.skipAll
  match marker? start.chars with
  | none => none
  | some (marker, size, rest) =>
    let after := start.advance size
    let gap := after.indent
    if !((rest.head?.map isSpace).getD true) then none
    else if inParagraph && !marker.interrupts rest then none
    else if after.isBlank then some ⟨marker, c.indent + size + 1, after.skipAll⟩
    else if gap ≤ 4 then some ⟨marker, c.indent + size + gap, after.skip gap⟩
    else some ⟨marker, c.indent + size + 1, after.skip 1⟩

end SmallWeb.Markdown
