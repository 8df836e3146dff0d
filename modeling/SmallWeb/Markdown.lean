/-
SmallWeb/Markdown.lean

Reading Markdown.

A text is read in two passes: first its lines into parts, which also finds all
definitions, then the running text of each part.  The result is tokens, which
`Document.ofTokens` turns into a document.
-/
import SmallWeb.Markdown.Inline
import SmallWeb.Markdown.Spine
import SmallWeb.Token.Document

namespace SmallWeb.Markdown

/-- The attributes of a list with a marker at its first item. -/
def ListMarker.attributes : ListMarker → TokenAttributes
  | .bullet _ => { ordered := some (.bool false) }
  | .ordered n _ => { ordered := some (.bool true), start := some (.int n) }

mutual

/-- The tokens for a part. -/
def Part.tokens (ctx : InlineContext) : Part → List Token
  | .paragraph text => [.node .paragraph (readInlines ctx text)]
  | .heading level text =>
    [.mk .heading none { level := some (.int level) } (some (readInlines ctx text))]
  | .rule => [.bare .thematicBreak]
  | .code info literal =>
    let attributes : TokenAttributes :=
      if info.isEmpty then {} else { info := some (.string info) }
    [.mk .blockCode (some literal) attributes none]
  | .html raw => [.leaf .blockHtml raw]
  | .defining _ => []
  | .quote parts => [.node .blockQuote (partTokens ctx parts)]
  | .list marker items => [.mk .list none marker.attributes (some (itemTokens ctx items))]

/-- The tokens for parts. -/
def partTokens (ctx : InlineContext) : List Part → List Token
  | [] => []
  | p :: ps => p.tokens ctx ++ partTokens ctx ps

/-- The tokens for the items of a list. -/
def itemTokens (ctx : InlineContext) : List (List Part) → List Token
  | [] => []
  | item :: items => .node (.other "list_item".toList) (partTokens ctx item) :: itemTokens ctx items

end

/-- The lines of a text, without line ends of any kind. -/
def sourceLines (source : List Char) : List (List Char) :=
  (Text.linesWithEnds (Text.unifyLineEnds source)).map fun l => l.filter (· != '\n')

/-- The tokens of a Markdown text. -/
def tokens (strikethrough : Bool) (source : List Char) : List Token :=
  let parts := Part.ofLines (sourceLines source)
  partTokens ⟨definitionsIn parts, strikethrough⟩ parts

/-- The document that a Markdown text denotes. -/
def document (strikethrough : Bool) (source : List Char) : Except Fault Document :=
  Document.ofTokens (tokens strikethrough source)

end SmallWeb.Markdown
