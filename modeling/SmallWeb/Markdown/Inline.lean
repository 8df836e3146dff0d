/-
SmallWeb/Markdown/Inline.lean

Reading running text.

The text is read from the left into pieces, in reverse.  An opening bracket sets
the pieces before it aside.  A closing bracket ends a link or an image where a
target follows, or a label that has one, or where the text between the brackets is
such a label; then the pieces between the brackets become its content.  Otherwise
both brackets are text.  Links do not hold links, so a link makes the brackets
around it text, except those of images.

Emphasis is paired inside each pair of brackets, and last in the whole text.
-/
import SmallWeb.Markdown.Emphasis
import SmallWeb.Markdown.Span

namespace SmallWeb.Markdown

/-- What the reading of running text depends on. -/
structure InlineContext where
  /-- Targets under labels, the first of each label deciding. -/
  targets : List (List Char × List Char) := []
  /-- Whether pairs of tildes strike text out. -/
  strikethrough : Bool := true

/-- The target of a label. -/
def InlineContext.target? (ctx : InlineContext) (label : List Char) : Option (List Char) :=
  (ctx.targets.find? fun d => d.1 == normalizeLabel label).map Prod.snd

/-- An opening bracket. -/
structure Bracket where
  image : Bool
  /-- Whether it may still begin a link. -/
  active : Bool
  /-- The text after it. -/
  source : List Char
  /-- The pieces before it in reverse. -/
  before : List Piece

/-- The text of an opening bracket. -/
def Bracket.text (b : Bracket) : List Char := if b.image then ['!', '['] else ['[']

/-- The pieces in reverse where an opening bracket is text. -/
def Bracket.asText (b : Bracket) (after : List Piece) : List Piece :=
  after ++ (Piece.ofText b.text).reverse ++ b.before

/-- A place in running text: the open brackets, the pieces after the last of them
in reverse, the character before the place and the text after it. -/
structure Place where
  brackets : List Bracket := []
  pieces : List Piece := []
  previous : Char := '\n'
  rest : List Char

namespace Place

/-! ### Single steps -/

/-- The place after a text that is taken as it is. -/
def addText (p : Place) (s rest : List Char) : Place :=
  { p with
    pieces := (Piece.ofText s).reverse ++ p.pieces
    previous := s.getLast?.getD p.previous
    rest := rest }

/-- The place after a token whose text ends in a character. -/
def addToken (p : Place) (t : Token) (last : Char) (rest : List Char) : Place :=
  { p with pieces := .token t :: p.pieces, previous := last, rest := rest }

/-- Whether the last piece is a space. -/
def isSpacePiece : Piece → Bool
  | .char c => c = ' '
  | _ => false

/-- The place after a line end.  Two spaces before it, or a backslash, keep the
break.  The spaces around it are not text. -/
def addLineEnd (p : Place) (escaped : Bool) (rest : List Char) : Place :=
  let hard := escaped || 2 ≤ (p.pieces.takeWhile isSpacePiece).length
  let pieces := if escaped then p.pieces else p.pieces.dropWhile isSpacePiece
  { p with
    pieces := .token (.bare (if hard then .lineBreak else .softBreak)) :: pieces
    previous := '\n'
    rest := rest.dropWhile (· == ' ') }

/-- The place after a backslash. -/
def addEscape (p : Place) (rest : List Char) : Place :=
  match rest with
  | '\n' :: rest => p.addLineEnd true rest
  | c :: after =>
    if Text.isAsciiPunctuation c then p.addText [c] after else p.addText ['\\'] rest
  | [] => p.addText ['\\'] []

/-- The place after a run of backticks, or after the code span that it opens. -/
def addTicks (p : Place) (size : Nat) (rest : List Char) : Place :=
  match codeSpan? size rest with
  | some (text, rest) => p.addToken (.leaf .codeSpan text) '\x60' rest
  | none => p.addText (List.replicate size '\x60') rest

/-- The place after a run of emphasis marks.  A run opens where it stands at the
beginning of a word and closes where it stands at the end of one.  A run of
underscores inside a word does neither, and tildes come in twos. -/
def addRun (p : Place) (mark : Char) (size : Nat) (rest : List Char) : Place :=
  let next := rest.head?.getD '\n'
  let wordBefore := !Text.isBlank p.previous && !Text.isPunctuation p.previous
  let wordAfter := !Text.isBlank next && !Text.isPunctuation next
  let left := !Text.isBlank next && (!Text.isPunctuation next || !wordBefore)
  let right := !Text.isBlank p.previous && (!Text.isPunctuation p.previous || !wordAfter)
  let opens := left && (mark != '_' || !right || Text.isPunctuation p.previous)
  let closes := right && (mark != '_' || !left || Text.isPunctuation next)
  if mark = '~' && size != 2 then p.addText (List.replicate size mark) rest
  else
    { p with
      pieces := .run ⟨mark, size, opens, closes⟩ :: p.pieces
      previous := mark
      rest := rest }

/-- The place after an angle bracket, an automatic link or raw markup. -/
def addAngle (p : Place) (rest : List Char) : Place :=
  match autolink? rest with
  | some ((url, text), rest) =>
    p.addToken (.mk .link none { url := some (.string url) } (some [.leaf .text text])) '>' rest
  | none => match Html.inline? ('<' :: rest) with
    | some after =>
      let raw := ('<' :: rest).take (rest.length + 1 - after.length)
      p.addToken (.leaf .inlineHtml raw) '>' after
    | none => p.addText ['<'] rest

/-! ### Brackets -/

/-- The place after an opening bracket. -/
def openBracket (p : Place) (image : Bool) (rest : List Char) : Place where
  brackets := ⟨image, true, rest, p.pieces⟩ :: p.brackets
  pieces := []
  previous := '['
  rest := rest

/-- The target of the link that a closing bracket ends, the last character of the
link, and what follows it. -/
def linkEnd? (ctx : InlineContext) (source rest : List Char) :
    Option (List Char × Char × List Char) :=
  match inlineTarget? rest with
  | some (target, rest) => some (target, ')', rest)
  | none =>
    let written := (label? ('[' :: source)).bind fun (label, after) =>
      if after.length = rest.length then ctx.target? label else none
    match label? rest with
    | some ([], after) => written.map fun target => (target, ']', after)
    | some (label, after) => (ctx.target? label).map fun target => (target, ']', after)
    | none => written.map fun target => (target, ']', rest)

/-- Makes brackets text that cannot begin a link any more. -/
def deactivate (b : Bracket) : Bracket := if b.image then b else { b with active := false }

/-- The place after a closing bracket. -/
def closeBracket (ctx : InlineContext) (p : Place) (rest : List Char) : Place :=
  match p.brackets with
  | [] => p.addText [']'] rest
  | b :: bs =>
    match if b.active then linkEnd? ctx b.source rest else none with
    | some (target, last, rest) =>
      let children := pairUp p.pieces.reverse
      let kind := if b.image then TokenKind.image else .link
      let link := Token.mk kind none { url := some (.string target) } (some children)
      { brackets := if b.image then bs else bs.map deactivate
        pieces := .token link :: b.before
        previous := last
        rest := rest }
    | none =>
      { brackets := bs
        pieces := .char ']' :: b.asText p.pieces
        previous := ']'
        rest := rest }

/-! ### The whole text -/

/-- How often a character follows at the beginning of a text. -/
def runLength (c : Char) (s : List Char) : Nat := (s.takeWhile (· == c)).length

/-- The place one step further on. -/
def step (ctx : InlineContext) (p : Place) (c : Char) (s : List Char) : Place :=
  if c = '\\' then p.addEscape s
  else if c = '\n' then p.addLineEnd false s
  else if c = '\x60' then p.addTicks (runLength c s + 1) (s.drop (runLength c s))
  else if c = '*' || c = '_' || (c = '~' && ctx.strikethrough) then
    p.addRun c (runLength c s + 1) (s.drop (runLength c s))
  else if c = '<' then p.addAngle s
  else if c = '[' then p.openBracket false s
  else if c = '!' && s.head? = some '[' then p.openBracket true (s.drop 1)
  else if c = ']' then closeBracket ctx p s
  else p.addText [c] s

/-- The place at the end of the text, if the fuel suffices for a step per
character. -/
def advance (ctx : InlineContext) (fuel : Nat) (p : Place) : Place :=
  match fuel, p.rest with
  | fuel + 1, c :: s => advance ctx fuel (step ctx p c s)
  | _, _ => p

/-- The pieces in order with open brackets as text. -/
def finish (p : Place) : List Piece :=
  (p.brackets.foldl (fun after b => b.asText after) p.pieces).reverse

end Place

/-- The tokens of running text. -/
def readInlines (ctx : InlineContext) (text : List Char) : List Token :=
  pairUp (Place.advance ctx text.length { rest := text }).finish

end SmallWeb.Markdown
