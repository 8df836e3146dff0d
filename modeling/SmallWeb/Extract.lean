/-
SmallWeb/Extract.lean

The plain text of a document tree.

Every leaf block gives one segment: a heading or paragraph its running text, a
code block its literal without the line feeds at the end.  Emphasis and links
contribute the text of their children, and a link its target as well where
targets are asked for.

The walk takes any value.  Values that are no nodes contribute nothing inside
running text and an empty segment in the place of a block.  The document has
depth 0 and the running text of a block lies one deeper than the block, even
where it is empty.
-/
import SmallWeb.Value.Pieces

namespace SmallWeb

/-- The text of a leaf block, and whether it is code. -/
structure Segment where
  text : List Char
  isCode : Bool
  deriving DecidableEq, Repr

namespace Extract

mutual

/-- The text of a value in the place of a run of inline nodes. -/
def runText (hrefs : Bool) (depth : Nat) : Value → Except Fault (List Char)
  | .tuple vs => do
    checkDepth depth
    joinPieces (← pieces hrefs depth vs)
  | .array vs => do
    checkDepth depth
    joinPieces (← pieces hrefs depth vs)
  | v => do
    checkDepth depth
    match v.plainElements? with
    | some _ => return []
    | none => throw .wrongType

/-- The pieces of a run of inline nodes. -/
def pieces (hrefs : Bool) (depth : Nat) : List Value → Except Fault (List Value)
  | [] => .ok []
  | v :: vs => do
    let ps ← piece hrefs depth v
    return ps ++ (← pieces hrefs depth vs)

/-- The piece of one value in a run, if it has any. -/
def piece (hrefs : Bool) (depth : Nat) : Value → Except Fault (List Value)
  | .text _ t => .ok [t]
  | .code _ literal => .ok [literal]
  | .lineBreak _ => .ok [.string ['\n']]
  | .emphasis _ children => do return [.string (← runText hrefs (depth + 1) children)]
  | .strong _ children => do return [.string (← runText hrefs (depth + 1) children)]
  | .link _ href children => do
    let text ← runText hrefs (depth + 1) children
    return [if hrefs && href.truthy then withTarget text href else .string text]
  | _ => .ok []

end

/-- The segments of values that are neither sequences nor nodes. -/
def plainSegments (depth : Nat) (elements : List (List Char)) : Except Fault (List Segment) :=
  if elements.isEmpty then .ok []
  else do
    checkDepth depth
    return elements.map fun _ => ⟨[], false⟩

/-- The text of a code block: its literal without line feeds at the end. -/
def literalText : Value → Except Fault (List Char)
  | .string s => .ok (Text.dropEndWhile (· == '\n') s)
  | _ => .error .noField

mutual

/-- The segments of a value in the place of a block. -/
def segmentsOf (hrefs : Bool) (depth : Nat) : Value → Except Fault (List Segment)
  | .document _ blocks => do
    checkDepth depth
    segmentsIn hrefs (depth + 1) blocks
  | .heading _ _ inline => do
    checkDepth depth
    return [⟨← runText hrefs (depth + 1) inline, false⟩]
  | .paragraph _ inline => do
    checkDepth depth
    return [⟨← runText hrefs (depth + 1) inline, false⟩]
  | .codeBlock _ literal _ => do
    checkDepth depth
    return [⟨← literalText literal, true⟩]
  | .list _ _ items _ => do
    checkDepth depth
    itemSegments hrefs (depth + 1) items
  | .blockquote _ children => do
    checkDepth depth
    segmentsIn hrefs (depth + 1) children
  | .thematicBreak _ => do
    checkDepth depth
    return []
  | v => do
    checkDepth depth
    return [⟨← joinPieces (← pieces hrefs depth [v]), false⟩]

/-- The segments of a value in the place of a sequence of blocks. -/
def segmentsIn (hrefs : Bool) (depth : Nat) : Value → Except Fault (List Segment)
  | .tuple vs => segmentsAll hrefs depth vs
  | .array vs => segmentsAll hrefs depth vs
  | v =>
    match v.plainElements? with
    | some es => plainSegments depth es
    | none => .error .wrongType

/-- The segments of values in the places of blocks. -/
def segmentsAll (hrefs : Bool) (depth : Nat) : List Value → Except Fault (List Segment)
  | [] => .ok []
  | v :: vs => do
    let ss ← segmentsOf hrefs depth v
    return ss ++ (← segmentsAll hrefs depth vs)

/-- The segments of a value in the place of the items of a list. -/
def itemSegments (hrefs : Bool) (depth : Nat) : Value → Except Fault (List Segment)
  | .tuple items => itemSegmentsAll hrefs depth items
  | .array items => itemSegmentsAll hrefs depth items
  | v =>
    match v.plainElements? with
    | some es => plainSegments depth (es.flatMap fun e => e.map fun c => [c])
    | none => .error .wrongType

/-- The segments of values in the places of list items. -/
def itemSegmentsAll (hrefs : Bool) (depth : Nat) : List Value → Except Fault (List Segment)
  | [] => .ok []
  | item :: items => do
    let ss ← segmentsIn hrefs depth item
    return ss ++ (← itemSegmentsAll hrefs depth items)

end

end Extract

/-- The text of a run of inline nodes. -/
def extractInline (hrefs : Bool) (inlines : Value) : Except Fault (List Char) :=
  Extract.runText hrefs 1 inlines

/-- The segments of a node: those of a document, or those of a single node at
the depth of a top-level block. -/
def segments (hrefs : Bool) (node : Value) : Except Fault (List Segment) :=
  match node with
  | .document .. => Extract.segmentsOf hrefs 0 node
  | _ => Extract.segmentsOf hrefs 1 node

/-- The texts of the segments of a node. -/
def extractBlocks (hrefs : Bool) (node : Value) : Except Fault (List (List Char)) := do
  return (← segments hrefs node).map Segment.text

/-- The text of a node, with a separator between each two segments. -/
def extractText (hrefs : Bool) (separator : List Char) (node : Value) :
    Except Fault (List Char) := do
  return Text.joinWith separator (← extractBlocks hrefs node)

end SmallWeb
