/-
SmallWeb/Proofs/Render/Provenance.lean

Which block a line of output comes from.

A layout yields bare lines.  `Layout.placed` lays out the same document with a
note on every line: the block that the line was written for, and the containers
between that block and the page.  The notes change nothing about the lines
(`placed_line`, `placedDocument_line`), so whatever is shown of the noted lines
holds of the output.

A container adds itself to the notes of the lines inside it when it prepends its
own prefix to them.  A path therefore grows in the same step as the line it
belongs to, and an invariant about both is kept by one lemma.
-/
import SmallWeb.Proofs.Render.Layout

namespace SmallWeb

/-- A container around a block: a quote, or an item with its marker. -/
inductive Frame
  | quote
  | item (marker : List Char)

/-- The characters that a container takes from the width. -/
def Frame.cost : Frame → Nat
  | quote => quoteMark.length
  | item marker => marker.length

/-- The characters that containers take from the width together. -/
def pathCost : List Frame → Nat
  | [] => 0
  | f :: path => f.cost + pathCost path

@[simp] theorem pathCost_nil : pathCost [] = 0 := rfl

@[simp] theorem pathCost_cons (f : Frame) (path : List Frame) :
    pathCost (f :: path) = f.cost + pathCost path := rfl

/-- A line and where it comes from: the containers, the outermost first, and the
block.  A line that separates blocks or opens an item comes from no block. -/
structure Placed where
  line : Line
  origin : Option (List Frame × Block) := none

namespace Placed

/-- A line that comes from no block. -/
def blank : Placed := { line := .prose [] }

/-- A line inside a container, which changes it by `g`. -/
def within (f : Frame) (g : Line → Line) (p : Placed) : Placed where
  line := g p.line
  origin := p.origin.map fun (path, b) => (f :: path, b)

/-- The output after one more block. -/
def append (output block : List Placed) : List Placed :=
  if block.isEmpty then output
  else match output.getLast? with
    | none => block
    | some p => if p.line.text.isEmpty then output ++ block else output ++ blank :: block

/-- Blocks one after the other. -/
def stack (blocks : List (List Placed)) : List Placed := blocks.foldl append []

theorem append_line (output block : List Placed) :
    (append output block).map line = appendBlock (output.map line) (block.map line) := by
  unfold append appendBlock
  rw [List.isEmpty_map, List.getLast?_map]
  cases block.isEmpty with
  | true => rfl
  | false =>
    cases output.getLast? with
    | none => rfl
    | some p =>
      simp only [Option.map_some, Bool.false_eq_true, if_false]
      split <;> simp [blank]

theorem stack_line (blocks : List (List Placed)) :
    (stack blocks).map line = stackBlocks (blocks.map (List.map line)) := by
  -- The output before the first block is arbitrary for the induction on the blocks.
  have hfold : ∀ output : List Placed, (blocks.foldl append output).map line =
      (blocks.map (List.map line)).foldl appendBlock (output.map line) := by
    induction blocks with
    | nil =>
      intro output
      rfl
    | cons block blocks ih =>
      intro output
      rw [List.foldl_cons, ih, append_line, List.map_cons, List.foldl_cons]
  exact hfold []

/-- A line of a stack stands in one of the blocks or separates two of them. -/
theorem mem_append {output block : List Placed} {p : Placed} (h : p ∈ append output block) :
    p ∈ output ∨ p ∈ block ∨ p = blank := by
  unfold append at h
  split at h
  · exact .inl h
  · split at h
    · exact .inr (.inl h)
    · split at h
      · rcases List.mem_append.mp h with h | h
        · exact .inl h
        · exact .inr (.inl h)
      · rcases List.mem_append.mp h with h | h
        · exact .inl h
        · rcases List.mem_cons.mp h with h | h
          · exact .inr (.inr h)
          · exact .inr (.inl h)

theorem mem_stack {blocks : List (List Placed)} {p : Placed} (h : p ∈ stack blocks) :
    (∃ block ∈ blocks, p ∈ block) ∨ p = blank := by
  have hfold : ∀ output : List Placed, p ∈ blocks.foldl append output →
      p ∈ output ∨ (∃ block ∈ blocks, p ∈ block) ∨ p = blank := by
    clear h
    induction blocks with
    | nil =>
      intro output h
      exact .inl h
    | cons block blocks ih =>
      intro output h
      rcases ih _ h with h | ⟨c, hc, h⟩ | h
      · rcases mem_append h with h | h | h
        · exact .inl h
        · exact .inr (.inl ⟨block, List.mem_cons_self, h⟩)
        · exact .inr (.inr h)
      · exact .inr (.inl ⟨c, List.mem_cons_of_mem block hc, h⟩)
      · exact .inr (.inr h)
  rcases hfold [] h with h | h
  · exact absurd h List.not_mem_nil
  · exact h

end Placed

namespace Layout

variable (s : Layout)

/-! ### Noted lines -/

/-- The lines of an item such that the first one can take the marker. -/
def openPlaced : List Placed → List Placed
  | [] => [.blank]
  | p :: ps => if s.fenced && p.line.isVerbatim then .blank :: p :: ps else p :: ps

/-- The lines of an item behind its marker. -/
def placedItem (marker : List Char) (ps : List Placed) : List Placed :=
  match s.openPlaced ps with
  | [] => []
  | p :: ps => p.within (.item marker) (Line.prepend marker) ::
      ps.map (Placed.within (.item marker) (Line.prepend (s.continuation marker)))

/-- The noted lines of a block that contains no other. -/
def own (width : Nat) (b : Block) : List Placed :=
  (s.block width b).map fun l => { line := l, origin := some ([], b) }

mutual

/-- The noted lines of a block. -/
def placed (width : Nat) : Block → List Placed
  | .list ordered bss start => (placedItems width ordered start 0 bss).flatten
  | .blockquote children =>
    (Placed.stack (placedBlocks (innerRoom width quoteMark.length) children)).map
      (Placed.within .quote s.quoteLine)
  | .heading level inline => s.own width (.heading level inline)
  | .paragraph inline => s.own width (.paragraph inline)
  | .codeBlock literal language => s.own width (.codeBlock literal language)
  | .thematicBreak => s.own width .thematicBreak

/-- The noted lines of each of several blocks. -/
def placedBlocks (width : Nat) : List Block → List (List Placed)
  | [] => []
  | b :: bs => placed width b :: placedBlocks width bs

/-- The noted lines of each item of a list. -/
def placedItems (width : Nat) (ordered : Bool) (start : Int) (index : Nat) :
    List (List Block) → List (List Placed)
  | [] => []
  | bs :: bss =>
    let marker := s.marker ordered start index
    s.placedItem marker (placedBlocks (innerRoom width marker.length) bs).flatten ::
      placedItems width ordered start (index + 1) bss

end

/-- The noted lines of a document. -/
def placedDocument (width : Nat) (d : Document) : List Placed :=
  Placed.stack (d.blocks.map fun b =>
    s.placed width b ++ (s.after (s.blockNotes b)).map fun l => { line := l })

/-! ### The notes change nothing -/

theorem placedItem_line (marker : List Char) (ps : List Placed) :
    (s.placedItem marker ps).map Placed.line = s.itemLines marker (ps.map Placed.line) := by
  have hopen : (s.openPlaced ps).map Placed.line = s.openItem (ps.map Placed.line) := by
    cases ps with
    | nil => rfl
    | cons p ps =>
      simp only [openPlaced, openItem, List.map_cons]
      split <;> rfl
  rw [itemLines, ← hopen, placedItem]
  cases s.openPlaced ps with
  | nil => rfl
  | cons p ps =>
    simp only [List.map_cons, List.map_map, prependLines]
    rfl

mutual

/-- **The noted lines are the lines** of a block. -/
theorem placed_line (width : Nat) (b : Block) :
    (s.placed width b).map Placed.line = s.block width b := by
  have hown : ∀ c, (s.own width c).map Placed.line = s.block width c := by
    intro c
    rw [own, List.map_map]
    exact List.map_id _
  cases b with
  | list ordered bss start =>
    rw [placed, Layout.block, List.map_flatten, placedItems_line]
  | blockquote children =>
    rw [placed, Layout.block, ← placedBlocks_line, ← Placed.stack_line, List.map_map,
      List.map_map]
    rfl
  | heading level inline => rw [placed, hown]
  | paragraph inline => rw [placed, hown]
  | codeBlock literal language => rw [placed, hown]
  | thematicBreak => rw [placed, hown]

theorem placedBlocks_line (width : Nat) (bs : List Block) :
    (s.placedBlocks width bs).map (List.map Placed.line) = s.blocks width bs := by
  cases bs with
  | nil => rfl
  | cons b bs =>
    rw [placedBlocks, Layout.blocks, List.map_cons, placed_line, placedBlocks_line]

theorem placedItems_line (width : Nat) (ordered : Bool) (start : Int) (index : Nat)
    (bss : List (List Block)) :
    (s.placedItems width ordered start index bss).map (List.map Placed.line) =
      s.items width ordered start index bss := by
  cases bss with
  | nil => rfl
  | cons bs bss =>
    simp only [placedItems, Layout.items, List.map_cons]
    rw [placedItem_line, List.map_flatten, placedBlocks_line, placedItems_line]

end

/-- **The noted lines are the lines** of a document. -/
theorem placedDocument_line (width : Nat) (d : Document) :
    (s.placedDocument width d).map Placed.line = s.document width d := by
  rw [placedDocument, Placed.stack_line, Layout.document, List.map_map]
  congr 1
  refine List.map_congr_left fun b _ => ?_
  show List.map _ (_ ++ _) = _
  rw [List.map_append, placed_line, List.map_map]
  exact congrArg _ (List.map_id _)

end Layout

end SmallWeb
