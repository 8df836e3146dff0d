/-
SmallWeb/Token.lean

Tokens: the nested output of a reader of marked-up text.

A token has a kind and, depending on the kind, a raw text, attributes and child
tokens.  Raw text and children may be absent, which is not the same as empty.
Attributes are loosely typed, since readers fill them from the text they read.
-/
import SmallWeb.Value

namespace SmallWeb

/-- The kinds of tokens.  A kind that this library does not know keeps its
name. -/
inductive TokenKind
  | text
  | softBreak
  | lineBreak
  | codeSpan
  | emphasis
  | strong
  | link
  | image
  | heading
  | paragraph
  | blockText
  | list
  | blockCode
  | blockQuote
  | thematicBreak
  | blankLine
  | blockHtml
  | inlineHtml
  | other (name : List Char)
  deriving DecidableEq, Repr

/-- The kinds that have a name here. -/
def TokenKind.names : List (String × TokenKind) :=
  [("text", .text), ("softbreak", .softBreak), ("linebreak", .lineBreak),
   ("codespan", .codeSpan), ("emphasis", .emphasis), ("strong", .strong), ("link", .link),
   ("image", .image), ("heading", .heading), ("paragraph", .paragraph),
   ("block_text", .blockText), ("list", .list), ("block_code", .blockCode),
   ("block_quote", .blockQuote), ("thematic_break", .thematicBreak),
   ("blank_line", .blankLine), ("block_html", .blockHtml), ("inline_html", .inlineHtml)]

/-- The kind with a name. -/
def TokenKind.ofName (name : List Char) : TokenKind :=
  match names.find? fun n => n.1.toList == name with
  | some n => n.2
  | none => .other name

/-- The attributes that tokens have. -/
structure TokenAttributes where
  /-- The level of a heading. -/
  level : Option Value := none
  /-- The target of a link or an image. -/
  url : Option Value := none
  /-- Whether a list is ordered. -/
  ordered : Option Value := none
  /-- The number of the first item of a list. -/
  start : Option Value := none
  /-- What follows the opening fence of a code block. -/
  info : Option Value := none

/-- A token. -/
inductive Token where
  | mk (kind : TokenKind) (raw : Option (List Char)) (attributes : TokenAttributes)
      (children : Option (List Token))

namespace Token

/-- The kind of a token. -/
def kind : Token → TokenKind
  | mk kind _ _ _ => kind

/-- The raw text of a token, if it has any. -/
def raw : Token → Option (List Char)
  | mk _ raw _ _ => raw

/-- The children of a token, if it has any. -/
def children : Token → Option (List Token)
  | mk _ _ _ children => children

/-- A token with a raw text. -/
def leaf (kind : TokenKind) (raw : List Char) : Token := mk kind (some raw) {} none

/-- A token with neither text nor children. -/
def bare (kind : TokenKind) : Token := mk kind none {} none

/-- A token with children. -/
def node (kind : TokenKind) (children : List Token) : Token := mk kind none {} (some children)

end Token

end SmallWeb
