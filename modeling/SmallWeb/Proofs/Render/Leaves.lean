/-
SmallWeb/Proofs/Render/Leaves.lean

The running text of a document and where it stands.

Headings and paragraphs are the blocks whose lines depend on a text and on the width.  A
`Leaf` is what is needed of such a block: the containers around it, what stands before
each of its lines, and the text.  `Layout.runLeaves` lists the leaves of a document, and
what is assumed of the text of a document is assumed of each leaf there.

A container narrows the width for the blocks in it, and it is around their leaves then.
So an assumption about a leaf at a width is one about the leaf inside the container at the
width that the container leaves (`innerRoom_cost`).
-/
import SmallWeb.Proofs.Render.Gemini
import SmallWeb.Proofs.Render.Gopher
import SmallWeb.Proofs.Render.Provenance

namespace SmallWeb

/-- Running text on the page: the containers around it, the outermost first, what
stands before each of its lines, and the text. -/
structure Leaf where
  path : List Frame
  mark : List Char
  text : List Char

/-- A leaf with one more container around it. -/
def Leaf.within (f : Frame) (l : Leaf) : Leaf := { l with path := f :: l.path }

/-- The width that containers and mark take together. -/
def Leaf.taken (l : Leaf) : Nat := pathCost l.path + l.mark.length

@[simp] theorem Leaf.taken_within (f : Frame) (l : Leaf) :
    (l.within f).taken = f.cost + l.taken := Nat.add_assoc _ _ _

namespace Layout

variable (s : Layout)

mutual

/-- The leaves of a block. -/
def leaves : Block → List Leaf
  | .heading level inline => [⟨[], s.headingMark level, s.headingText (s.run inline)⟩]
  | .paragraph inline => [⟨[], [], s.run inline⟩]
  | .list ordered bss start => itemsLeaves ordered start 0 bss
  | .codeBlock _ _ => []
  | .blockquote children => (runLeaves children).map (Leaf.within .quote)
  | .thematicBreak => []

/-- The leaves of several blocks. -/
def runLeaves : List Block → List Leaf
  | [] => []
  | b :: bs => leaves b ++ runLeaves bs

/-- The leaves of the items of a list, from the given index on. -/
def itemsLeaves (ordered : Bool) (start : Int) (index : Nat) : List (List Block) → List Leaf
  | [] => []
  | bs :: bss =>
    (runLeaves bs).map (Leaf.within (.item (s.marker ordered start index))) ++
      itemsLeaves ordered start (index + 1) bss

end

theorem mem_runLeaves {bs : List Block} {l : Leaf} (hl : l ∈ s.runLeaves bs) :
    ∃ b ∈ bs, l ∈ s.leaves b := by
  induction bs with
  | nil => exact absurd hl List.not_mem_nil
  | cons c bs ih =>
    rcases List.mem_append.mp hl with hl | hl
    · exact ⟨c, List.mem_cons_self, hl⟩
    · obtain ⟨b, hb, hl⟩ := ih hl
      exact ⟨b, List.mem_cons_of_mem c hb, hl⟩

end Layout

/-- The leaves of Gopher text. -/
def Gopher.leaves (o : RenderOptions) (d : Document) : List Leaf :=
  (Gopher.layout o (Gopher.refs o d)).runLeaves d.blocks

/-- The leaves of gemtext. -/
def Gemini.leaves (d : Document) : List Leaf := Gemini.layout.runLeaves d.blocks

/-- A container has been given the width that it takes, if a leaf in it has room. -/
theorem innerRoom_cost {width taken more : Nat} (h : taken + more < width) :
    innerRoom width taken = width - taken := by
  unfold innerRoom
  split <;> omega

/-- Where there is no limit, there is none in a container. -/
theorem innerRoom_eq_zero_iff {width taken : Nat} : innerRoom width taken = 0 ↔ width = 0 := by
  unfold innerRoom
  split <;> omega

end SmallWeb
