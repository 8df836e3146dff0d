/-
SmallWeb/Markdown/Link.lean

The parts of links: labels, destinations, titles and definitions.

A destination is written between angle brackets, or without white space and with
balanced parentheses.  A backslash before punctuation stands for that
punctuation.  Characters that a target may not hold are percent-encoded by the
octets of their UTF-8 form.
-/
import SmallWeb.Markdown.Html
import SmallWeb.Text.Casing
import SmallWeb.Text.Punctuation
import SmallWeb.Text.Split

namespace SmallWeb.Markdown

/-! ### Escapes -/

/-- A text with the backslashes before punctuation removed. -/
def unescape : List Char → List Char
  | '\\' :: c :: s =>
    if Text.isAsciiPunctuation c then c :: unescape s else '\\' :: unescape (c :: s)
  | c :: s => c :: unescape s
  | [] => []

/-- A character that stands for itself in a target. -/
def isTargetChar (c : Char) : Bool :=
  c.isAlphanum || "_.-~:/?#@!$&()*+,;=%".toList.contains c

/-- An octet in percent-encoding. -/
def percentEncode (b : UInt8) : List Char :=
  let digits := (Nat.toDigits 16 b.toNat).map Char.toUpper
  '%' :: (List.replicate (2 - digits.length) '0' ++ digits)

/-- A target with all other characters percent-encoded. -/
def encodeTarget (s : List Char) : List Char :=
  s.flatMap fun c =>
    if isTargetChar c then [c] else (String.singleton c).toUTF8.toList.flatMap percentEncode

/-! ### Labels -/

/-- The text up to the bracket that closes a label, and what follows it.
Brackets inside a label are escaped. -/
def labelText? : List Char → Option (List Char × List Char)
  | [] => none
  | '\\' :: c :: s => (labelText? s).map fun (a, b) => ('\\' :: c :: a, b)
  | ']' :: s => some ([], s)
  | '[' :: _ => none
  | c :: s => (labelText? s).map fun (a, b) => (c :: a, b)

/-- A label in brackets, and what follows it. -/
def label? : List Char → Option (List Char × List Char)
  | '[' :: s => (labelText? s).filter fun (a, _) => a.length < 1000
  | _ => none

/-- Labels are compared in lower case and with white space collapsed. -/
def normalizeLabel (s : List Char) : List Char :=
  Text.lower (Text.joinWith [' '] (Text.words s))

/-! ### Destinations and titles -/

/-- The text up to the angle bracket that closes a destination. -/
def angleDestination? : List Char → Option (List Char × List Char)
  | [] => none
  | '\\' :: c :: s =>
    if c = '\n' then none else (angleDestination? s).map fun (a, b) => ('\\' :: c :: a, b)
  | '>' :: s => some ([], s)
  | c :: s =>
    if c = '<' || c = '\n' then none else (angleDestination? s).map fun (a, b) => (c :: a, b)

/-- A destination without brackets, inside `depth` open parentheses, and what
follows it. -/
def bareDestination (depth : Nat) : List Char → List Char × List Char
  | [] => ([], [])
  | '\\' :: c :: s =>
    if Text.isAsciiPunctuation c then
      let (a, b) := bareDestination depth s
      ('\\' :: c :: a, b)
    else
      let (a, b) := bareDestination depth (c :: s)
      ('\\' :: a, b)
  | '(' :: s =>
    let (a, b) := bareDestination (depth + 1) s
    ('(' :: a, b)
  | ')' :: s =>
    if depth = 0 then ([], ')' :: s)
    else
      let (a, b) := bareDestination (depth - 1) s
      (')' :: a, b)
  | c :: s =>
    if c.toNat ≤ 0x20 || c.toNat = 0x7f then ([], c :: s)
    else
      let (a, b) := bareDestination depth s
      (c :: a, b)

/-- Whether the parentheses of a destination are balanced. -/
def balanced (depth : Nat) : List Char → Bool
  | [] => depth == 0
  | '\\' :: _ :: s => balanced depth s
  | '(' :: s => balanced (depth + 1) s
  | ')' :: s => depth != 0 && balanced (depth - 1) s
  | _ :: s => balanced depth s

/-- A destination, and what follows it. -/
def destination? : List Char → Option (List Char × List Char)
  | '<' :: s => angleDestination? s
  | s =>
    let (a, b) := bareDestination 0 s
    if a.isEmpty || !balanced 0 a then none else some (a, b)

/-- What follows the mark that closes a title. -/
def afterTitle? (close : Char) : List Char → Option (List Char)
  | [] => none
  | '\\' :: _ :: s => afterTitle? close s
  | c :: s => if c = close then some s else if close = ')' && c = '(' then none
    else afterTitle? close s

/-- What follows a title. -/
def title? : List Char → Option (List Char)
  | '\x22' :: s => afterTitle? '\x22' s
  | '\x27' :: s => afterTitle? '\x27' s
  | '(' :: s => afterTitle? ')' s
  | _ => none

/-- The target that a destination denotes. -/
def targetOf (destination : List Char) : List Char := encodeTarget (unescape destination)

/-- The target in parentheses after the text of a link, and what follows. -/
def inlineTarget? : List Char → Option (List Char × List Char)
  | '(' :: s =>
    match Html.skipGap s with
    | ')' :: rest => some ([], rest)
    | t => do
      let (destination, rest) ← destination? t
      let gap := Html.skipGap rest
      let rest := if gap.length < rest.length then (title? gap).getD gap else gap
      match Html.skipGap rest with
      | ')' :: rest => some (targetOf destination, rest)
      | _ => none
  | _ => none

/-! ### Definitions -/

/-- Whether only white space follows on a line, and the text after the line. -/
def restOfLine? (s : List Char) : Option (List Char) :=
  match s.dropWhile isSpace with
  | [] => some []
  | '\n' :: rest => some rest
  | _ => none

/-- The definition of a label that a text begins with: the label, its target and
what follows.  A title is skipped where it fills the rest of its line. -/
def definition? (s : List Char) : Option ((List Char × List Char) × List Char) := do
  let (label, rest) ← label? s
  if Text.isBlankText label then none
  else match rest with
    | ':' :: rest => do
      let (destination, rest) ← destination? (Html.skipGap rest)
      let gap := Html.skipGap rest
      let titled := if gap.length < rest.length then (title? gap).bind restOfLine? else none
      let rest ← titled.or (restOfLine? rest)
      some ((normalizeLabel label, targetOf destination), rest)
    | _ => none

/-- The definitions that a text begins with, at most `fuel`, and what follows
them. -/
def definitions : Nat → List Char → List (List Char × List Char) × List Char
  | 0, s => ([], s)
  | fuel + 1, s =>
    match definition? s with
    | some (d, rest) =>
      let (ds, rest) := definitions fuel rest
      (d :: ds, rest)
    | none => ([], s)

end SmallWeb.Markdown
