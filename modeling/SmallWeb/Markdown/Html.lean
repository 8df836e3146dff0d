/-
SmallWeb/Markdown/Html.lean

Raw markup inside Markdown.

Raw markup is recognised and never interpreted.  Inside running text it is a tag,
a comment, a processing instruction, a declaration or a character data section.
As a block it begins with one of seven forms of line and ends with a marker that
belongs to the form, or at the next blank line.
-/
import SmallWeb.Markdown.Cursor
import SmallWeb.Text.Blank

namespace SmallWeb.Markdown.Html

/-! ### Scanning -/

/-- What follows a given beginning. -/
def after? (lead s : List Char) : Option (List Char) :=
  if lead.isPrefixOf s then some (s.drop lead.length) else none

/-- What follows the first occurrence of a text. -/
def afterFirst? (mark : List Char) : List Char → Option (List Char)
  | [] => if mark.isEmpty then some [] else none
  | c :: s =>
    match after? mark (c :: s) with
    | some rest => some rest
    | none => afterFirst? mark s

/-- White space, which may hold line ends. -/
def isGap (c : Char) : Bool := c = ' ' || c = '\t' || c = '\n'

/-- What follows white space. -/
def skipGap (s : List Char) : List Char := s.dropWhile isGap

/-- A character of the name of a tag. -/
def isTagChar (c : Char) : Bool := c.isAlphanum || c = '-'

/-- The name of a tag, and what follows it. -/
def tagName? : List Char → Option (List Char × List Char)
  | c :: s => if c.isAlpha then some (c :: s.takeWhile isTagChar, s.dropWhile isTagChar) else none
  | [] => none

/-- What follows the value of an attribute. -/
def attributeValue? : List Char → Option (List Char)
  | '\x22' :: s => afterFirst? ['\x22'] s
  | '\x27' :: s => afterFirst? ['\x27'] s
  | s =>
    let rest := s.dropWhile fun c =>
      !(isGap c || c = '\x22' || c = '\x27' || c = '=' || c = '<' || c = '>' || c = '\x60')
    if rest.length < s.length then some rest else none

/-- What follows an attribute and the white space before it. -/
def attribute? (s : List Char) : Option (List Char) :=
  let t := skipGap s
  match t with
  | c :: u =>
    if t.length < s.length && (c.isAlpha || c = '_' || c = ':') then
      let rest := u.dropWhile fun c => isTagChar c || c = '_' || c = '.' || c = ':'
      match skipGap rest with
      | '=' :: v => (attributeValue? (skipGap v)).or (some rest)
      | _ => some rest
    else none
  | [] => none

/-- What follows as many attributes as there are, at most `fuel`. -/
def skipAttributes : Nat → List Char → List Char
  | 0, s => s
  | fuel + 1, s =>
    match attribute? s with
    | some rest => skipAttributes fuel rest
    | none => s

/-- The name of an opening tag, and what follows the tag. -/
def openTag? : List Char → Option (List Char × List Char)
  | '<' :: s => do
    let (name, rest) ← tagName? s
    match skipGap (skipAttributes rest.length rest) with
    | '/' :: '>' :: rest => some (name, rest)
    | '>' :: rest => some (name, rest)
    | _ => none
  | _ => none

/-- The name of a closing tag, and what follows the tag. -/
def closeTag? : List Char → Option (List Char × List Char)
  | '<' :: '/' :: s => do
    let (name, rest) ← tagName? s
    match skipGap rest with
    | '>' :: rest => some (name, rest)
    | _ => none
  | _ => none

/-- What follows raw markup inside running text. -/
def inline? (s : List Char) : Option (List Char) :=
  match s with
  | '<' :: '!' :: '-' :: '-' :: '>' :: rest => some rest
  | '<' :: '!' :: '-' :: '-' :: '-' :: '>' :: rest => some rest
  | '<' :: '!' :: '-' :: '-' :: rest => afterFirst? "-->".toList rest
  | '<' :: '?' :: rest => afterFirst? "?>".toList rest
  | '<' :: '!' :: rest =>
    match after? "[CDATA[".toList rest with
    | some rest => afterFirst? "]]>".toList rest
    | none => if (rest.head?.map Char.isAlpha).getD false then afterFirst? ['>'] rest else none
  | s => (openTag? s).or (closeTag? s) |>.map Prod.snd

/-! ### Blocks -/

/-- Where a block of raw markup ends: on the line that holds a marker, or before
a blank line. -/
inductive End
  | marker (texts : List (List Char))
  | blankLine
  deriving DecidableEq, Repr

/-- Whether a block ends on a line. -/
def End.isOn (e : End) (line : List Char) : Bool :=
  match e with
  | .marker texts => texts.any fun m => (afterFirst? m (line.map Char.toLower)).isSome
  | .blankLine => false

/-- Elements whose content is raw. -/
def rawElements : List String := ["pre", "script", "style", "textarea"]

/-- Elements that are blocks of their own. -/
def blockElements : List String :=
  ["address", "article", "aside", "base", "basefont", "blockquote", "body", "caption", "center",
   "col", "colgroup", "dd", "details", "dialog", "dir", "div", "dl", "dt", "fieldset",
   "figcaption", "figure", "footer", "form", "frame", "frameset", "h1", "h2", "h3", "h4", "h5",
   "h6", "head", "header", "hr", "html", "iframe", "legend", "li", "link", "main", "menu",
   "menuitem", "nav", "noframes", "ol", "optgroup", "option", "p", "param", "search", "section",
   "summary", "table", "tbody", "td", "tfoot", "th", "thead", "title", "tr", "track", "ul"]

/-- Whether the name of a tag is in a list, in any case. -/
def isNamed (names : List String) (name : List Char) : Bool :=
  names.any fun n => n.toList == name.map Char.toLower

/-- Whether a tag name is complete before the given rest. -/
def endsName (slash : Bool) : List Char → Bool
  | [] => true
  | '/' :: '>' :: _ => slash
  | c :: _ => c = '>' || isSpace c

/-- The end of the block of raw markup that a line begins, if it begins one.  A
single tag of any name does not interrupt a paragraph. -/
def blockEnd? (inParagraph : Bool) (line : List Char) : Option End :=
  let raw := match line with
    | '<' :: s => match tagName? s with
      | some (name, rest) => isNamed rawElements name && endsName false rest
      | none => false
    | _ => false
  let named := match line with
    | '<' :: '/' :: s => tagName? s
    | '<' :: s => tagName? s
    | _ => none
  let isBlockTag := match named with
    | some (name, rest) => isNamed blockElements name && endsName true rest
    | none => false
  let single := match (openTag? line).or (closeTag? line) with
    | some (name, rest) => !isNamed rawElements name && rest.all isSpace
    | none => false
  if raw then some (.marker (rawElements.map fun n => "</".toList ++ n.toList ++ ['>']))
  else if (after? "<!--".toList line).isSome then some (.marker ["-->".toList])
  else if (after? "<?".toList line).isSome then some (.marker ["?>".toList])
  else if (after? "<![CDATA[".toList line).isSome then some (.marker ["]]>".toList])
  else if match line with
    | '<' :: '!' :: c :: _ => c.isAlpha
    | _ => false
  then some (.marker [['>']])
  else if isBlockTag then some .blankLine
  else if single && !inParagraph then some .blankLine
  else none

end SmallWeb.Markdown.Html
