/-
SmallWeb/Text/Split.lean

Cutting a text at separators and putting the parts together again.

`splitWhere` always yields at least one part, and a text that ends in a
separator has an empty last part.  `joinWith` is the inverse of `splitOn`: lines
cut at line feeds and joined with line feeds are the text again.  The words of a
text are its parts between blanks, less the empty ones.
-/
import SmallWeb.Text.Blank

namespace SmallWeb.Text

/-- The parts of a text between the characters in `p`. -/
def splitWhere (p : Char → Bool) : List Char → List (List Char)
  | [] => [[]]
  | c :: s =>
    if p c then [] :: splitWhere p s
    else match splitWhere p s with
      | [] => [[c]]
      | part :: parts => (c :: part) :: parts

/-- The parts of a text between the occurrences of a separator. -/
def splitOn (sep : Char) (s : List Char) : List (List Char) := splitWhere (· == sep) s

/-- The lines of a text, without the line feeds between them. -/
def lines (s : List Char) : List (List Char) := splitOn '\n' s

/-- The parts in order, with the separator between each two of them. -/
def joinWith (sep : List Char) (parts : List (List Char)) : List Char :=
  List.intercalate sep parts

/-- A text with each line end, of whichever kind, as a line feed. -/
def unifyLineEnds : List Char → List Char
  | '\r' :: '\n' :: s => '\n' :: unifyLineEnds s
  | '\r' :: s => '\n' :: unifyLineEnds s
  | c :: s => c :: unifyLineEnds s
  | [] => []

/-- The lines of a text, each with its line feed if it has one. -/
def linesWithEnds : List Char → List (List Char)
  | [] => []
  | c :: s =>
    if c = '\n' then ['\n'] :: linesWithEnds s
    else match linesWithEnds s with
      | [] => [[c]]
      | line :: ls => (c :: line) :: ls

/-- Lines as one text, with a line feed between each two of them. -/
def unlines (ls : List (List Char)) : List Char := joinWith ['\n'] ls

/-- The parts before and after the first occurrence of a separator. -/
def cut? (sep : Char) : List Char → Option (List Char × List Char)
  | [] => none
  | c :: s => if c = sep then some ([], s) else (cut? sep s).map fun (a, b) => (c :: a, b)

/-- The words of a text: its maximal runs of characters that are not blank. -/
def words (s : List Char) : List (List Char) :=
  (splitWhere isBlank s).filter fun w => !w.isEmpty

/-- Writes `target` for each character `source`. -/
def replaceChar (source target : Char) (s : List Char) : List Char :=
  s.map fun c => if c = source then target else c

/-- Whether a text does not come after another in the order of code points. -/
def inOrder : List Char → List Char → Bool
  | [], _ => true
  | _ :: _, [] => false
  | c :: s, d :: t => c.toNat < d.toNat || (c == d && inOrder s t)

end SmallWeb.Text
