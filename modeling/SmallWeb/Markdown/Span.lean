/-
SmallWeb/Markdown/Span.lean

Spans of running text that are taken as written: code and automatic links.
-/
import SmallWeb.Markdown.Link

namespace SmallWeb.Markdown

/-! ### Code -/

/-- The text up to a run of exactly `size` backticks, and what follows it, after
`ticks` backticks. -/
def untilTicks? (size ticks : Nat) : List Char → Option (List Char × List Char)
  | [] => if ticks = size then some ([], []) else none
  | c :: s =>
    if c = '\x60' then untilTicks? size (ticks + 1) s
    else if ticks = size then some ([], c :: s)
    else (untilTicks? size 0 s).map fun (a, b) => (List.replicate ticks '\x60' ++ c :: a, b)

/-- The content of a code span: line ends are spaces, and one space is taken from
each side where there is one and more than spaces between. -/
def codeContent (s : List Char) : List Char :=
  let text := Text.replaceChar '\n' ' ' s
  if text.head? = some ' ' && text.getLast? = some ' ' && !text.all (· == ' ') then
    (text.drop 1).dropLast
  else text

/-- The code span between runs of `size` backticks, and what follows it. -/
def codeSpan? (size : Nat) (s : List Char) : Option (List Char × List Char) :=
  (untilTicks? size 0 s).map fun (a, b) => (codeContent a, b)

/-! ### Automatic links -/

/-- Whether a text is an absolute target: a scheme of two to 32 characters, a colon
and anything. -/
def isAbsolute (s : List Char) : Bool :=
  let scheme := s.takeWhile fun c => c.isAlphanum || c = '+' || c = '.' || c = '-'
  (s.head?.map Char.isAlpha).getD false && 2 ≤ scheme.length && scheme.length ≤ 32
    && (s.drop scheme.length).head? == some ':'

/-- Whether a text is a part of a domain name. -/
def isDomainLabel (s : List Char) : Bool :=
  1 ≤ s.length && s.length ≤ 63 && s.all (fun c => c.isAlphanum || c = '-')
    && s.head? != some '-' && s.getLast? != some '-'

/-- Whether a text is a mail address. -/
def isMailAddress (s : List Char) : Bool :=
  match Text.cut? '@' s with
  | some (name, domain) =>
    !name.isEmpty
      && name.all (fun c => c.isAlphanum || (Text.isAsciiPunctuation c
        && !"\x22(),:;<>@[\\]".toList.contains c))
      && (Text.splitOn '.' domain).all isDomainLabel
  | none => false

/-- The automatic link after an angle bracket: its target and its text, and what
follows it. -/
def autolink? (s : List Char) : Option ((List Char × List Char) × List Char) :=
  let inside := s.takeWhile fun c => ' ' < c && c != '<' && c != '>'
  match s.drop inside.length with
  | '>' :: rest =>
    if isAbsolute inside then some ((encodeTarget inside, inside), rest)
    else if isMailAddress inside then
      some (("mailto:".toList ++ encodeTarget inside, inside), rest)
    else none
  | _ => none

end SmallWeb.Markdown
