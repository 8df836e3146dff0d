/-
SmallWeb/Token/Document.lean

Documents from tokens.

A token of a known kind becomes the node of that kind.  The same kind means
different things in the two positions: in running text a paragraph is a container
of unknown kind, and among blocks emphasis is.  Containers of unknown kind are
transparent, so their children take their place.  Raw markup and blank lines are
dropped.  In running text a token of unknown kind without children contributes
its raw text.

Attributes are read as they come: a level is any value that denotes an integer
and is brought into the range 1 to 6, the start of a list is 1 unless an integer
other than zero is given, and a code block has the first word of its info text as
its language.

Nesting is limited.  The content of a list item lies two deeper than the list,
and the children of a transparent container one deeper than the container.
-/
import SmallWeb.Document
import SmallWeb.Token
import SmallWeb.Value.Pieces

namespace SmallWeb

/-! ### Attributes -/

/-- The integer that a value denotes. -/
def Value.toInt (v : Value) : Except Fault Int :=
  match v.asInt?, v with
  | some n, _ => .ok n
  | none, .float x =>
    match Number.truncate? x with
    | some n => .ok n
    | none => .error .notFinite
  | none, .string s =>
    match Text.readInt? s with
    | some n => .ok n
    | none => .error (.notANumber s)
  | none, _ => .error .wrongType

namespace TokenAttributes

/-- The level of a heading, brought into the range 1 to 6. -/
def headingLevel (a : TokenAttributes) : Except Fault Int :=
  match a.level with
  | none => .ok 1
  | some v => do return max 1 (min 6 (← v.toInt))

/-- Whether a list is ordered. -/
def isOrdered (a : TokenAttributes) : Bool := (a.ordered.map Value.truthy).getD false

/-- The number of the first item of a list. -/
def firstNumber (a : TokenAttributes) : Except Fault Int :=
  match a.start with
  | none => .ok 1
  | some v => if v.truthy then v.toInt else .ok 1

/-- The target of a link. -/
def href (a : TokenAttributes) : List Char := (a.url.map Value.plain).getD []

/-- The language of a code block. -/
def language (a : TokenAttributes) : Option (List Char) :=
  match a.info with
  | none => none
  | some v => if v.truthy then (Text.words v.plain).head? else none

end TokenAttributes

/-! ### Running text -/

namespace Token

mutual

/-- The inline nodes for the children of a token. -/
def inlineChildren (depth : Nat) : Option (List Token) → Except Fault (List Inline)
  | none => do
    checkDepth depth
    return []
  | some ts => do
    checkDepth depth
    inlines depth ts

/-- The inline nodes for tokens in running text. -/
def inlines (depth : Nat) : List Token → Except Fault (List Inline)
  | [] => .ok []
  | t :: ts => do
    let ns ← inline depth t
    return ns ++ (← inlines depth ts)

/-- The inline nodes for one token in running text. -/
def inline (depth : Nat) : Token → Except Fault (List Inline)
  | mk .text raw _ _ => .ok [.text (raw.getD [])]
  | mk .softBreak _ _ _ => .ok [.text [' ']]
  | mk .lineBreak _ _ _ => .ok [.lineBreak]
  | mk .codeSpan raw _ _ => .ok [.code (raw.getD [])]
  | mk .emphasis _ _ children => do return [.emphasis (← inlineChildren (depth + 1) children)]
  | mk .strong _ _ children => do return [.strong (← inlineChildren (depth + 1) children)]
  | mk .link _ a children => do return [.link a.href (← inlineChildren (depth + 1) children)]
  | mk .image _ a children => do return [.link a.href (← inlineChildren (depth + 1) children)]
  | mk .blankLine _ _ _ => .ok []
  | mk .blockHtml _ _ _ => .ok []
  | mk .inlineHtml _ _ _ => .ok []
  | mk _ _ _ (some ts) => do
    checkDepth (depth + 1)
    inlines (depth + 1) ts
  | mk _ (some raw) _ none => .ok [.text raw]
  | mk _ none _ none => .ok []

end

/-! ### Blocks -/

mutual

/-- The blocks for the children of a token. -/
def blockChildren (depth : Nat) : Option (List Token) → Except Fault (List Block)
  | none => do
    checkDepth depth
    return []
  | some ts => do
    checkDepth depth
    blocks depth ts

/-- The blocks for tokens among blocks. -/
def blocks (depth : Nat) : List Token → Except Fault (List Block)
  | [] => .ok []
  | t :: ts => do
    let bs ← block depth t
    return bs ++ (← blocks depth ts)

/-- The items for the children of a list, if it has any. -/
def listItems (depth : Nat) : Option (List Token) → Except Fault (List (List Block))
  | none => .ok []
  | some ts => items depth ts

/-- The items for the tokens in a list, of whatever kind. -/
def items (depth : Nat) : List Token → Except Fault (List (List Block))
  | [] => .ok []
  | t :: ts => do
    let bs ← itemBlocks depth t
    return bs :: (← items depth ts)

/-- The blocks of one item. -/
def itemBlocks (depth : Nat) : Token → Except Fault (List Block)
  | mk _ _ _ children => blockChildren depth children

/-- The blocks for one token among blocks. -/
def block (depth : Nat) : Token → Except Fault (List Block)
  | mk .heading _ a children => do
    let level ← a.headingLevel
    return [.heading level (← inlineChildren (depth + 1) children)]
  | mk .paragraph _ _ children => do return [.paragraph (← inlineChildren (depth + 1) children)]
  | mk .blockText _ _ children => do return [.paragraph (← inlineChildren (depth + 1) children)]
  | mk .list _ a children => do
    let start ← a.firstNumber
    return [.list a.isOrdered (← listItems (depth + 2) children) start]
  | mk .blockCode raw a _ => .ok [.codeBlock (raw.getD []) a.language]
  | mk .blockQuote _ _ children => do return [.blockquote (← blockChildren (depth + 1) children)]
  | mk .thematicBreak _ _ _ => .ok [.thematicBreak]
  | mk .blankLine _ _ _ => .ok []
  | mk .blockHtml _ _ _ => .ok []
  | mk .inlineHtml _ _ _ => .ok []
  | mk _ _ _ none => .ok []
  | mk _ _ _ (some ts) => do
    if ts.isEmpty then return []
    checkDepth (depth + 1)
    blocks (depth + 1) ts

end

end Token

/-! ### Documents -/

/-- The document for tokens. -/
def Document.ofTokens (ts : List Token) : Except Fault Document := do
  return ⟨← Token.blockChildren 1 (some ts)⟩

end SmallWeb
