/-
SmallWeb/Markdown/Cursor.lean

A place on a line, with the column that it lies in.

Markdown counts indentation in columns.  A tab reaches to the next multiple of
four, and a container may take a part of it: the columns that remain are spaces.
-/
namespace SmallWeb.Markdown

/-- The rest of a line and the column at which it begins. -/
structure Cursor where
  column : Nat
  chars : List Char
  deriving DecidableEq, Repr

/-- A space or a tab. -/
def isSpace (c : Char) : Bool := c = ' ' || c = '\t'

/-- The columns from a tab at a column to the next tab stop. -/
def tabWidth (column : Nat) : Nat := 4 - column % 4

/-- The width in columns of the white space that a text begins with. -/
def indentFrom (column : Nat) : List Char → Nat
  | ' ' :: s => 1 + indentFrom (column + 1) s
  | '\t' :: s => tabWidth column + indentFrom (column + tabWidth column) s
  | _ => 0

/-- A text without `n` columns of white space at its beginning, and the column
at which it begins then. -/
def dropColumns (n column : Nat) : List Char → Cursor
  | ' ' :: s => if n = 0 then ⟨column, ' ' :: s⟩ else dropColumns (n - 1) (column + 1) s
  | '\t' :: s =>
    if n = 0 then ⟨column, '\t' :: s⟩
    else if tabWidth column ≤ n then
      dropColumns (n - tabWidth column) (column + tabWidth column) s
    else ⟨column + n, List.replicate (tabWidth column - n) ' ' ++ s⟩
  | s => ⟨column, s⟩

namespace Cursor

/-- The beginning of a line. -/
def start (line : List Char) : Cursor := ⟨0, line⟩

/-- The width of the indentation. -/
def indent (c : Cursor) : Nat := indentFrom c.column c.chars

/-- The place after up to `n` columns of white space. -/
def skip (c : Cursor) (n : Nat) : Cursor := dropColumns n c.column c.chars

/-- The place after all white space. -/
def skipAll (c : Cursor) : Cursor := c.skip c.indent

/-- The place `n` characters further on, none of which is a tab. -/
def advance (c : Cursor) (n : Nat) : Cursor := ⟨c.column + n, c.chars.drop n⟩

/-- Whether only white space is left. -/
def isBlank (c : Cursor) : Bool := c.chars.all isSpace

end Cursor

end SmallWeb.Markdown
