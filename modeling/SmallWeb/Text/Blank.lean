/-
SmallWeb/Text/Blank.lean

Blank characters, and what goes by them: trimming and collapsing.

A text is a list of characters, so that its length counts code points and every
function on it is a structural recursion or a function of the list library.

Two notions of white space are kept apart throughout.  `isBlank` is the Unicode
one: trimming and the splitting into words use it.  `isBreak` is the ASCII one:
lines are broken at these six characters only, so a no-break space keeps its two
neighbours together and is trimmed at the end of a line all the same.
-/
namespace SmallWeb.Text

/-! ### Classes of characters -/

/-- Membership in a class of characters that is given by inclusive ranges of
code points. -/
def inRanges (ranges : List (Nat × Nat)) (c : Char) : Bool :=
  ranges.any fun r => r.1 ≤ c.toNat && c.toNat ≤ r.2

/-- The blank characters: the separators of category `Zs`, and the characters
whose bidirectional class is a white space, paragraph or segment separator. -/
def blankRanges : List (Nat × Nat) :=
  [(0x9, 0xd), (0x1c, 0x20), (0x85, 0x85), (0xa0, 0xa0), (0x1680, 0x1680), (0x2000, 0x200a),
   (0x2028, 0x2029), (0x202f, 0x202f), (0x205f, 0x205f), (0x3000, 0x3000)]

/-- A blank character, in the Unicode sense. -/
def isBlank (c : Char) : Bool := inRanges blankRanges c

/-- A character at which a line may be broken: the space, the tabs, the line
feed, the form feed and the carriage return. -/
def isBreak (c : Char) : Bool :=
  c = ' ' || (0x9 ≤ c.toNat && c.toNat ≤ 0xd)

/-- A text without content. -/
def isBlankText (s : List Char) : Bool := s.all isBlank

/-! ### Lengths -/

/-- The greatest length of a text.  It is asked for where a number alone decides how long
a text becomes, and is no limit of the memory that there is. -/
def maxLength : Nat := 9223372036854775807

/-- A character `count` times over, if that is a text; a negative count gives the
empty text. -/
def repeated? (count : Int) (c : Char) : Option (List Char) :=
  if count ≤ maxLength then some (List.replicate count.toNat c) else none

/-! ### Trimming -/

/-- Removes the longest end of the text that consists of characters in `p`. -/
def dropEndWhile (p : Char → Bool) (s : List Char) : List Char :=
  (s.reverse.dropWhile p).reverse

/-- Removes the blanks at the beginning. -/
def trimStart (s : List Char) : List Char := s.dropWhile isBlank

/-- Removes the blanks at the end. -/
def trimEnd (s : List Char) : List Char := dropEndWhile isBlank s

/-- Removes the blanks at both ends. -/
def trim (s : List Char) : List Char := trimEnd (trimStart s)

/-- Writes each run of blanks as one space: the last blank of a run gives the
space and the others nothing. -/
def collapse : List Char → List Char
  | [] => []
  | c :: s =>
    if isBlank c then
      if (s.head?.map isBlank).getD false then collapse s else ' ' :: collapse s
    else c :: collapse s

end SmallWeb.Text
