/-
SmallWeb/Frontmatter.lean

The block of keys and values that a document may begin with.

A fence is a line of three hyphens and blanks.  Where the first line is a fence
and a later line is one as well, the lines between the first two fences are keys
and values, cut at the first colon, and the lines after the second one are the
document.  Lines without a colon are skipped.  Otherwise all lines are the
document.
-/
import SmallWeb.Dictionary
import SmallWeb.Text.Split

namespace SmallWeb.Frontmatter

/-- Whether a line, which may end in a line feed, is a fence. -/
def isFence : List Char → Bool
  | '-' :: '-' :: '-' :: rest => Text.isBlankText rest
  | _ => false

/-- The key and the value on a line. -/
def entry? (line : List Char) : Option (List Char × List Char) :=
  (Text.cut? ':' line).map fun (key, value) => (Text.trim key, Text.trim value)

/-- The lines before the first fence and after it. -/
def cutAtFence? : List (List Char) → Option (List (List Char) × List (List Char))
  | [] => none
  | l :: ls =>
    if isFence l then some ([], ls) else (cutAtFence? ls).map fun (a, b) => (l :: a, b)

/-- The keys and values at the beginning, and the lines of the document. -/
def split (lines : List (List Char)) : Dictionary (List Char) × List (List Char) :=
  match lines with
  | [] => ({}, [])
  | first :: rest =>
    if isFence first then
      match cutAtFence? rest with
      | some (block, content) => (.ofList (block.filterMap entry?), content)
      | none => ({}, lines)
    else ({}, lines)

end SmallWeb.Frontmatter
