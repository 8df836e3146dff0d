/-
SmallWeb/Proofs/Render/Layout.lean

Documents laid out in lines, without a walk.

The walk over a tree carries a log of links, may fail, and takes values of any
shape.  None of this is needed to say what the lines of a document are.  A
`Layout` is what remains of a line-oriented format when the number of every link
is known: plain functions on text.  `Layout.block` and its companions lay out a
typed document by recursion on its blocks.

The walk is recovered in three parts, each a function on the tree: the lines
(`Layout.block`), the links in the order in which the walk finishes them
(`Layout.notes`), and whether all rules can be drawn (`Layout.fits`).  That these
are the outcome of the walk is shown for every format that follows a layout.

Widths are natural numbers here, with zero for no limit.
-/
import SmallWeb.Document
import SmallWeb.Proofs.Render.Line
import SmallWeb.Proofs.Text.Lines
import SmallWeb.Proofs.Wrap.Bound
import SmallWeb.Text.Digit

namespace SmallWeb

/-! ### Lines -/

/-- The width that remains beside a prefix; at a limited width at least one. -/
def innerRoom (width taken : Nat) : Nat := if width = 0 then 0 else max 1 (width - taken)

/-- Running text as prose, with the same prefix on every line. -/
def proseBlock (width : Nat) (lead text : List Char) : List Line :=
  ((Text.lines text).flatMap (wrapLine width lead lead)).map .prose

theorem exists_of_mem_proseBlock {width : Nat} {lead text : List Char} {l : Line}
    (hl : l ∈ proseBlock width lead text) :
    ∃ piece ∈ Text.lines text, ∃ t ∈ wrapLine width lead lead piece, l = .prose t := by
  obtain ⟨t, ht, rfl⟩ := List.mem_map.mp hl
  obtain ⟨piece, hpiece, ht⟩ := List.mem_flatMap.mp ht
  exact ⟨piece, hpiece, t, ht, rfl⟩

/-- What stands before a line in a quote. -/
def quoteMark : List Char := ['>', ' ']

/-- The plain functions that a line-oriented format amounts to. -/
structure Layout where
  /-- What stands before each line of a heading. -/
  headingMark (level : Int) : List Char
  /-- The text of a heading, from its running text. -/
  headingText (text : List Char) : List Char
  /-- The lines of a code block. -/
  code (literal : List Char) (language : Option (List Char)) : List (List Char)
  code_ne_nil : ∀ literal language, code literal language ≠ []
  /-- The line of a thematic break. -/
  rule (width : Nat) : List Char
  /-- Whether that line is a text. -/
  ruleFits (width : Nat) : Bool
  /-- The marker of an unordered item. -/
  bullet : List Char
  /-- Whether preformatted lines keep the beginning of the line for
  themselves. -/
  fenced : Bool
  /-- Code inside running text. -/
  codeSpan (literal : List Char) : List Char
  /-- A link with a target, from the target and the text of its children. -/
  link (href text : List Char) : List Char
  /-- The lines after a top-level block, from the links in it. -/
  after (notes : List (List Char × List Char)) : List Line

namespace Layout

variable (s : Layout)

/-- The marker of an item. -/
def marker (ordered : Bool) (start : Int) (index : Nat) : List Char :=
  if ordered then Text.ofInt (start + index) ++ ['.', ' '] else s.bullet

/-- A marker is on one line. -/
theorem notMem_newline_marker (hbullet : '\n' ∉ s.bullet) (ordered : Bool) (start : Int)
    (index : Nat) : '\n' ∉ s.marker ordered start index := by
  have hdot : '\n' ∉ ['.', ' '] := by decide
  unfold marker
  split
  · exact Text.notMem_newline_append (Text.notMem_newline_ofInt _) hdot
  · exact hbullet

/-- What stands before the further lines of an item. -/
def continuation (marker : List Char) : List Char :=
  if s.fenced then [] else List.replicate marker.length ' '

/-- A line inside a quote. -/
def quoteLine (l : Line) : Line := if s.fenced && l.isVerbatim then l else l.prepend quoteMark

/-- The lines of an item such that the first one can take the marker. -/
def openItem : List Line → List Line
  | [] => [.prose []]
  | l :: ls => if s.fenced && l.isVerbatim then .prose [] :: l :: ls else l :: ls

/-- The lines of an item behind its marker. -/
def itemLines (marker : List Char) (lines : List Line) : List Line :=
  prependLines marker (s.continuation marker) (s.openItem lines)

/-! ### Running text -/

mutual

/-- The text of an inline node. -/
def text : Inline → List Char
  | .text t => t
  | .code literal => s.codeSpan literal
  | .lineBreak => ['\n']
  | .emphasis children => run children
  | .strong children => run children
  | .link href children => if href.isEmpty then run children else s.link href (run children)

/-- The text of a run. -/
def run : List Inline → List Char
  | [] => []
  | i :: is => text i ++ run is

end

mutual

/-- The links of an inline node that have a target, as target and text, an inner
link before the one around it. -/
def notes : Inline → List (List Char × List Char)
  | .text _ => []
  | .code _ => []
  | .lineBreak => []
  | .emphasis children => runNotes children
  | .strong children => runNotes children
  | .link href children =>
    runNotes children ++ if href.isEmpty then [] else [(href, s.run children)]

/-- The links of a run. -/
def runNotes : List Inline → List (List Char × List Char)
  | [] => []
  | i :: is => notes i ++ runNotes is

end

/-! ### Blocks -/

mutual

/-- The lines of a block. -/
def block (width : Nat) : Block → List Line
  | .heading level inline =>
    proseBlock width (s.headingMark level) (s.headingText (s.run inline))
  | .paragraph inline => proseBlock width [] (s.run inline)
  | .list ordered bss start => (items width ordered start 0 bss).flatten
  | .codeBlock literal language => (s.code literal language).map .verbatim
  | .blockquote children =>
    (stackBlocks (blocks (innerRoom width quoteMark.length) children)).map s.quoteLine
  | .thematicBreak => [.prose (s.rule width)]

/-- The lines of each of several blocks. -/
def blocks (width : Nat) : List Block → List (List Line)
  | [] => []
  | b :: bs => block width b :: blocks width bs

/-- The lines of each item of a list, from the given index on. -/
def items (width : Nat) (ordered : Bool) (start : Int) (index : Nat) :
    List (List Block) → List (List Line)
  | [] => []
  | bs :: bss =>
    let marker := s.marker ordered start index
    s.itemLines marker (blocks (innerRoom width marker.length) bs).flatten ::
      items width ordered start (index + 1) bss

end

mutual

/-- The links of a block. -/
def blockNotes : Block → List (List Char × List Char)
  | .heading _ inline => s.runNotes inline
  | .paragraph inline => s.runNotes inline
  | .list _ bss _ => itemsNotes bss
  | .codeBlock _ _ => []
  | .blockquote children => blocksNotes children
  | .thematicBreak => []

/-- The links of several blocks. -/
def blocksNotes : List Block → List (List Char × List Char)
  | [] => []
  | b :: bs => blockNotes b ++ blocksNotes bs

/-- The links of the items of a list. -/
def itemsNotes : List (List Block) → List (List Char × List Char)
  | [] => []
  | bs :: bss => blocksNotes bs ++ itemsNotes bss

end

mutual

/-- Whether the rules in a block can be drawn. -/
def fits (width : Nat) : Block → Bool
  | .heading _ _ => true
  | .paragraph _ => true
  | .list ordered bss start => itemsFit width ordered start 0 bss
  | .codeBlock _ _ => true
  | .blockquote children => blocksFit (innerRoom width quoteMark.length) children
  | .thematicBreak => s.ruleFits width

/-- Whether the rules in several blocks can be drawn. -/
def blocksFit (width : Nat) : List Block → Bool
  | [] => true
  | b :: bs => fits width b && blocksFit width bs

/-- Whether the rules in the items of a list can be drawn. -/
def itemsFit (width : Nat) (ordered : Bool) (start : Int) (index : Nat) :
    List (List Block) → Bool
  | [] => true
  | bs :: bss =>
    blocksFit (innerRoom width (s.marker ordered start index).length) bs &&
      itemsFit width ordered start (index + 1) bss

end

/-! ### Documents -/

/-- The lines of a document: those of each top-level block and what follows
it. -/
def document (width : Nat) (d : Document) : List Line :=
  stackBlocks (d.blocks.map fun b => s.block width b ++ s.after (s.blockNotes b))

end Layout

/-! ### Blocks without lines -/

mutual

/-- Whether a block has any lines: an empty list has none, nor has a quote around
such blocks only. -/
def Block.hasLines : Block → Bool
  | .heading _ _ => true
  | .paragraph _ => true
  | .list _ bss _ => !bss.isEmpty
  | .codeBlock _ _ => true
  | .blockquote children => Block.anyHasLines children
  | .thematicBreak => true

/-- Whether one of several blocks has any lines. -/
def Block.anyHasLines : List Block → Bool
  | [] => false
  | b :: bs => b.hasLines || Block.anyHasLines bs

end

/-- An output is empty where it was before and all blocks are. -/
theorem foldl_appendBlock_isEmpty (blocks : List (List Line)) (output : List Line) :
    (blocks.foldl appendBlock output).isEmpty = (output.isEmpty && blocks.all List.isEmpty) := by
  induction blocks generalizing output with
  | nil => simp
  | cons block blocks ih =>
    rw [List.foldl_cons, ih, appendBlock_eq, List.all_cons]
    cases block with
    | nil => simp
    | cons l ls => cases output <;> simp

theorem proseBlock_ne_nil (width : Nat) (lead text : List Char) :
    proseBlock width lead text ≠ [] := by
  obtain ⟨l, ls, hls⟩ := List.exists_cons_of_ne_nil (Text.lines_ne_nil text)
  obtain ⟨m, ms, hms⟩ := List.exists_cons_of_ne_nil (wrapLine_ne_nil width lead lead l)
  unfold proseBlock
  rw [hls, List.flatMap_cons, hms]
  exact List.cons_ne_nil _ _

namespace Layout

variable (s : Layout)

theorem blocks_eq_map (width : Nat) (bs : List Block) :
    s.blocks width bs = bs.map (s.block width) := by
  induction bs with
  | nil => rfl
  | cons b bs ih => rw [Layout.blocks, ih, List.map_cons]

theorem itemLines_ne_nil (marker : List Char) (lines : List Line) :
    s.itemLines marker lines ≠ [] := by
  unfold itemLines openItem
  split
  · exact List.cons_ne_nil _ _
  · split <;> exact List.cons_ne_nil _ _

mutual

/-- **Whether a block has lines** does not depend on the layout or the width. -/
theorem block_isEmpty (width : Nat) (b : Block) : (s.block width b).isEmpty = !b.hasLines := by
  cases b with
  | heading level inline => exact List.isEmpty_eq_false_iff.mpr (proseBlock_ne_nil _ _ _)
  | paragraph inline => exact List.isEmpty_eq_false_iff.mpr (proseBlock_ne_nil _ _ _)
  | list ordered bss start =>
    cases bss with
    | nil => rfl
    | cons bs bss =>
      obtain ⟨l, ls, hls⟩ := List.exists_cons_of_ne_nil (s.itemLines_ne_nil
        (s.marker ordered start 0) (s.blocks (innerRoom width _) bs).flatten)
      rw [Layout.block, Layout.items, List.flatten_cons, hls]
      rfl
  | codeBlock literal language =>
    rw [Layout.block, List.isEmpty_map]
    exact List.isEmpty_eq_false_iff.mpr (s.code_ne_nil literal language)
  | blockquote children =>
    -- Separators stand between lines only, so they add none where there is none.
    rw [Layout.block, List.isEmpty_map, stackBlocks, foldl_appendBlock_isEmpty,
      blocks_all_isEmpty]
    rfl
  | thematicBreak => rfl

theorem blocks_all_isEmpty (width : Nat) (bs : List Block) :
    (s.blocks width bs).all List.isEmpty = !Block.anyHasLines bs := by
  cases bs with
  | nil => rfl
  | cons b bs =>
    rw [Layout.blocks, List.all_cons, block_isEmpty, blocks_all_isEmpty, Block.anyHasLines,
      Bool.not_or]

end

end Layout

end SmallWeb
