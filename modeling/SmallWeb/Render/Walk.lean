/-
SmallWeb/Render/Walk.lean

The walk over a document tree that the line-oriented formats share.

The walk is depth first and visits a node before its children.  It takes any
value and carries a log of the links that it has met; the log survives where the
walk fails.  Lists, quotes, paragraphs and running text are walked here, and a
`Format` says how the other nodes are written.

A container narrows the width by the length of its prefix before its children
are rendered, and prepends the prefix afterwards.  At a limited width at least
one character remains.  Blocks inside a quote are separated like blocks at the
top level; blocks inside a list item are not.
-/
import SmallWeb.LinkRegistry
import SmallWeb.Options
import SmallWeb.Render.Line
import SmallWeb.Value.Pieces

namespace SmallWeb

/-! ### The log of links -/

/-- What a walk has noted about links: the numbered targets, the links whose
lines are still to be written, each as target and text, and how many have been
written. -/
structure LinkLog where
  registry : LinkRegistry := {}
  pending : List (List Char × List Char) := []
  written : Nat := 0
  deriving DecidableEq, Repr

/-- A computation that reads and extends the log and may fail.  The log of a
failed computation remains. -/
abbrev Walk := ExceptT Fault (StateM LinkLog)

/-- A result that does not touch the log. -/
def Walk.ofExcept {α : Type} (e : Except Fault α) : Walk α := ExceptT.mk (pure e)

/-- Numbers a link target. -/
def Walk.registerLink (href : List Char) : Walk Nat := do
  let log ← get
  let (n, registry) := log.registry.register href
  set { log with registry }
  return n

/-- Notes a link whose line is to be written after the block. -/
def Walk.noteLink (href text : List Char) : Walk Unit :=
  modify fun log => { log with pending := log.pending ++ [(href, text)] }

/-! ### Formats -/

/-- What a line-oriented format decides. -/
structure Format where
  /-- The lines of a heading, from its level and the walk over its text. -/
  heading (level : Value) (text : Walk (List Char)) (width : Int) : Walk (List Line)
  /-- The lines of a code block. -/
  codeBlock (literal language : Value) : Walk (List Line)
  /-- The lines of a thematic break. -/
  thematicBreak (width : Int) : Walk (List Line)
  /-- What stands before an item of a list. -/
  marker (ordered start : Value) (index : Nat) : Walk (List Char)
  /-- What stands before the further lines of an item. -/
  continuation (marker : List Char) : List Char
  /-- The lines of an item with what stands before them. -/
  itemLines (first rest : List Char) (lines : List Line) : List Line
  /-- A preformatted line inside a quote. -/
  quoteVerbatim (text : List Char) : List Char
  /-- Code inside running text. -/
  codeSpan (literal : Value) : Value
  /-- A link, from its target and the text of its children. -/
  link (href : Value) (text : List Char) : Walk Value
  /-- The lines that follow a top-level block, and the log after them. -/
  afterBlock (log : LinkLog) : List Line × LinkLog
  /-- The whole output, from the lines of all blocks. -/
  finish (log : LinkLog) (output : List Line) : List Line
  /-- How many links the output shows. -/
  linkCount (log : LinkLog) : Nat
  /-- What a render starts from, given the log that the last one left. -/
  restart (log : LinkLog) : LinkLog

/-- The width that remains beside a prefix. -/
def innerWidth (width : Int) (taken : Nat) : Int :=
  if width > 0 then max 1 (width - taken) else 0

namespace Format

variable (fmt : Format)

/-! ### Running text -/

mutual

/-- The text of a value in the place of a run of inline nodes. -/
def run : Value → Walk (List Char)
  | .tuple vs => do Walk.ofExcept (joinPieces (← pieces vs))
  | .array vs => do Walk.ofExcept (joinPieces (← pieces vs))
  | v =>
    match v.plainElements? with
    | none => throw .wrongType
    | some [] => return []
    | some (_ :: _) => throw (.tree (.cannotRenderInline (Value.string []).kind))

/-- The pieces of a run of inline nodes. -/
def pieces : List Value → Walk (List Value)
  | [] => return []
  | v :: vs => do
    let p ← piece v
    return p :: (← pieces vs)

/-- The piece of one inline node. -/
def piece : Value → Walk Value
  | .text _ t => return t
  | .code _ literal => return fmt.codeSpan literal
  | .lineBreak _ => return .string ['\n']
  | .emphasis _ children => do return .string (← run children)
  | .strong _ children => do return .string (← run children)
  | .link _ href children => do fmt.link href (← run children)
  | v => throw (.tree (.cannotRenderInline v.kind))

end

/-! ### Blocks -/

/-- The lines of one list item, from a walk over its blocks at the width that
the marker leaves.  An item without lines has one empty line. -/
def item (ordered start : Value) (index : Nat) (width : Int)
    (content : Int → Walk (List (List Line))) : Walk (List Line) := do
  let marker ← fmt.marker ordered start index
  let lines := (← content (innerWidth width marker.length)).flatten
  return fmt.itemLines marker (fmt.continuation marker)
    (if lines.isEmpty then [.prose []] else lines)

/-- A line inside a quote. -/
def quoteLine : Line → Line
  | .prose s => .prose (Text.trimEnd ('>' :: ' ' :: s))
  | .verbatim s => .verbatim (fmt.quoteVerbatim s)

/-- The blocks of a value that is neither a sequence nor a node. -/
def plainBlocks (depth : Nat) : List (List Char) → Walk (List (List Line))
  | [] => return []
  | e :: _ => do
    Walk.ofExcept (checkDepth depth)
    throw (.tree (.cannotRenderBlock (Value.string e).kind))

/-- The items of a value that is neither a sequence nor a node. -/
def plainItems (depth : Nat) (width : Int) (ordered start : Value) (index : Nat) :
    List (List Char) → Walk (List (List Line))
  | [] => return []
  | e :: es => do
    let lines ← fmt.item ordered start index width fun _ =>
      plainBlocks depth (e.map fun c => [c])
    return lines :: (← plainItems depth width ordered start (index + 1) es)

mutual

/-- The lines of a value in the place of a block. -/
def block (depth : Nat) (width : Int) : Value → Walk (List Line)
  | .heading _ level inline => do
    Walk.ofExcept (checkDepth depth)
    fmt.heading level (fmt.run inline) width
  | .paragraph _ inline => do
    Walk.ofExcept (checkDepth depth)
    let text ← fmt.run inline
    Walk.ofExcept ((proseLines text width []).mapError .config)
  | .list _ ordered items start => do
    Walk.ofExcept (checkDepth depth)
    return (← itemsOf (depth + 1) width ordered start items).flatten
  | .codeBlock _ literal language => do
    Walk.ofExcept (checkDepth depth)
    fmt.codeBlock literal language
  | .blockquote _ children => do
    Walk.ofExcept (checkDepth depth)
    let lines := stackBlocks (← blocksOf (depth + 1) (innerWidth width 2) children)
    return lines.map fmt.quoteLine
  | .thematicBreak _ => do
    Walk.ofExcept (checkDepth depth)
    fmt.thematicBreak width
  | v => do
    Walk.ofExcept (checkDepth depth)
    throw (.tree (.cannotRenderBlock v.kind))

/-- The blocks of a value in the place of a sequence of blocks, each as its
lines. -/
def blocksOf (depth : Nat) (width : Int) : Value → Walk (List (List Line))
  | .tuple vs => blocks depth width vs
  | .array vs => blocks depth width vs
  | v =>
    match v.plainElements? with
    | some es => plainBlocks depth es
    | none => throw .wrongType

/-- Values in the places of blocks, each as its lines. -/
def blocks (depth : Nat) (width : Int) : List Value → Walk (List (List Line))
  | [] => return []
  | v :: vs => do
    let lines ← block depth width v
    return lines :: (← blocks depth width vs)

/-- The items of a value in the place of the items of a list, each as its
lines. -/
def itemsOf (depth : Nat) (width : Int) (ordered start : Value) :
    Value → Walk (List (List Line))
  | .tuple items => eachItem depth width ordered start 0 items
  | .array items => eachItem depth width ordered start 0 items
  | v =>
    match v.plainElements? with
    | some es => fmt.plainItems depth width ordered start 0 es
    | none => throw .wrongType

/-- Values in the places of list items from the given index on, each as its
lines. -/
def eachItem (depth : Nat) (width : Int) (ordered start : Value) (index : Nat) :
    List Value → Walk (List (List Line))
  | [] => return []
  | v :: vs => do
    let lines ← fmt.item ordered start index width fun inner => blocksOf depth inner v
    return lines :: (← eachItem depth width ordered start (index + 1) vs)

end

/-! ### Documents -/

/-- The lines of a top-level block and of what follows it. -/
def topBlock (width : Int) (v : Value) : Walk (List Line) := do
  let lines ← fmt.block 1 width v
  let (after, log) := fmt.afterBlock (← get)
  set log
  return lines ++ after

/-- The top-level blocks, each as its lines. -/
def topBlocks (width : Int) : List Value → Walk (List (List Line))
  | [] => return []
  | v :: vs => do
    let lines ← fmt.topBlock width v
    return lines :: (← topBlocks width vs)

/-- The output lines of a value in the place of a document. -/
def documentLines (width : Int) : Value → Walk (List Line)
  | .document _ blocks => do
    let groups ← match blocks with
      | .tuple vs => fmt.topBlocks width vs
      | .array vs => fmt.topBlocks width vs
      | v => match v.plainElements? with
        | some es => plainBlocks 1 es
        | none => throw .wrongType
    return fmt.finish (← get) (stackBlocks groups)
  | _ => throw .noField

/-- The output for a value in the place of a document. -/
def render (width : Int) (doc : Value) : Walk (List Char) := do
  return Text.unlines ((← fmt.documentLines width doc).map Line.text)

end Format

/-! ### Renderers -/

/-- A renderer: a format at a width, with the log of its last run. -/
structure Renderer where
  format : Format
  width : Int
  log : LinkLog := {}

/-- Renders a document.  The renderer keeps the log, also where the render fails. -/
def Renderer.render (r : Renderer) (doc : Value) : Except Fault (List Char) × Renderer :=
  let (result, log) := ((r.format.render r.width doc).run).run (r.format.restart r.log)
  (result, { r with log })

end SmallWeb
