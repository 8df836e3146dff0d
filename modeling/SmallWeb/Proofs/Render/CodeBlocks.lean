/-
SmallWeb/Proofs/Render/CodeBlocks.lean

Code survives verbatim.

In gemtext no container touches a preformatted line, so the groups of lines to be
found in the output are the code blocks themselves.  In Gopher text every
container prefixes them, and what stands before a line of code depends on where
it stands: the first line of an item has the marker, all others are indented.
`Gopher.codeGroups` says which prefixes these are.  It carries two texts down the
tree, one for the first line that the block writes and one for the others, and it
knows of no width.

The claim about one block is made for the lines of the block behind any two such
prefixes.  Containers only ever make the prefixes longer
(`prependLines_prependLines`), so this form carries itself through the induction.

Main result: `code_survives`.
-/
import SmallWeb.Proofs.Groups
import SmallWeb.Proofs.Render.Gemini
import SmallWeb.Proofs.Render.Gopher

namespace SmallWeb

/-! ### Gopher text -/

namespace Gopher

/-- The marker of an item. -/
def marker (ordered : Bool) (start : Int) (index : Nat) : List Char :=
  if ordered then Text.ofInt (start + index) ++ ['.', ' '] else bullet

/-- A line of code behind a prefix.  An empty line is the prefix without the
blanks at its end. -/
def behind (lead line : List Char) : List Char :=
  if line.isEmpty then Text.trimEnd lead else lead ++ line

/-- Lines of code, the first one behind one prefix and the others behind
another. -/
def groupBehind (first rest : List Char) : List (List Char) → List (List Char)
  | [] => []
  | l :: ls => behind first l :: ls.map (behind rest)

mutual

/-- The groups of lines that the code blocks in a block are, where `first` stands
before the first line of the block and `rest` before the others. -/
def codeGroups (first rest : List Char) : Block → List (List (List Char))
  | .heading _ _ => []
  | .paragraph _ => []
  | .list ordered bss start => itemGroups first rest ordered start 0 bss
  | .codeBlock literal _ => [groupBehind first rest (codeText literal)]
  | .blockquote children => runGroups (first ++ quoteMark) (rest ++ quoteMark) children
  | .thematicBreak => []

/-- The groups in a sequence of blocks.  The first block with lines has the first
line. -/
def runGroups (first rest : List Char) : List Block → List (List (List Char))
  | [] => []
  | b :: bs => codeGroups first rest b ++ runGroups (if b.hasLines then rest else first) rest bs

/-- The groups in the items of a list, from the given index on.  The marker of an
item stands before its first line. -/
def itemGroups (first rest : List Char) (ordered : Bool) (start : Int) (index : Nat) :
    List (List Block) → List (List (List Char))
  | [] => []
  | bs :: bss =>
    let mark := marker ordered start index
    runGroups (first ++ mark) (rest ++ List.replicate mark.length ' ') bs ++
      itemGroups rest rest ordered start (index + 1) bss

end

section Induction

variable (o : RenderOptions) (refs : List (List Char))

/-- The texts of lines behind prefixes. -/
def textsBehind (first rest : List Char) (ls : List Line) : List (List Char) :=
  (prependLines first rest ls).map Line.text

theorem textsBehind_nil (first rest : List Char) : textsBehind first rest [] = [] := rfl

theorem textsBehind_verbatim (first rest : List Char) (ls : List (List Char)) :
    textsBehind first rest (ls.map .verbatim) = groupBehind first rest ls := by
  cases ls with
  | nil => rfl
  | cons l ls =>
    unfold textsBehind groupBehind
    rw [List.map_cons, prependLines, List.map_cons, List.map_map, List.map_map]
    rfl

theorem textsBehind_append (first rest : List Char) (ls ms : List Line) :
    textsBehind first rest (ls ++ ms) =
      textsBehind first rest ls ++ textsBehind (if ls.isEmpty then first else rest) rest ms := by
  unfold textsBehind
  rw [prependLines_append, List.map_append]

/-- A block behind an output, with or without a separator: the first line of the
block has the first prefix if there was no output. -/
theorem inOrder_append {gs : List (List (List Char))} {first rest : List Char}
    {output separator block : List Line} {hs : List Char → List (List (List Char))}
    (houtput : InOrder gs (textsBehind first rest output))
    (hseparator : output = [] → separator = [])
    (hblock : ∀ lead, InOrder (hs lead) (textsBehind lead rest block)) :
    InOrder (gs ++ hs (if output.isEmpty then first else rest))
      (textsBehind first rest (output ++ separator ++ block)) := by
  cases output with
  | nil =>
    rw [hseparator rfl]
    exact houtput.append (hblock first)
  | cons l ls =>
    rw [List.append_assoc, textsBehind_append, textsBehind_append]
    simp only [List.isEmpty_cons, Bool.false_eq_true, if_false, ite_self]
    exact houtput.append ((hblock rest).prepend _)

mutual

/-- **The code in a block is found in its lines**, behind any prefixes. -/
theorem codeGroups_inOrder (width : Nat) (b : Block) (first rest : List Char) :
    InOrder (codeGroups first rest b)
      (textsBehind first rest ((layout o refs).block width b)) := by
  cases b with
  | heading level inline => trivial
  | paragraph inline => trivial
  | thematicBreak => trivial
  | codeBlock literal language =>
    rw [codeGroups, Layout.block]
    show InOrder _ (textsBehind first rest ((codeText literal).map .verbatim))
    rw [textsBehind_verbatim]
    exact InOrder.singleton _
  | list ordered bss start =>
    rw [codeGroups, Layout.block]
    exact itemGroups_inOrder width ordered start 0 bss first rest
  | blockquote children =>
    have hquote : (layout o refs).quoteLine = Line.prepend quoteMark := rfl
    rw [codeGroups, Layout.block, hquote, ← prependLines_same, textsBehind,
      prependLines_prependLines]
    have hjoin : ∀ output block, appendBlock output block =
        if block.isEmpty then output else output ++ separator output ++ block := appendBlock_eq
    have hstart : InOrder [] (textsBehind (first ++ quoteMark) (rest ++ quoteMark) []) := trivial
    exact runGroups_inOrder hjoin separator_nil _ children _ _ hstart

/-- The code in a sequence of blocks is found in its lines, whichever way the
blocks are joined. -/
theorem runGroups_inOrder {join : List Line → List Line → List Line}
    {separator : List Line → List Line}
    (hjoin : ∀ output block, join output block =
      if block.isEmpty then output else output ++ separator output ++ block)
    (hseparator : separator [] = []) (width : Nat) (bs : List Block) (first rest : List Char)
    {gs : List (List (List Char))} {output : List Line}
    (houtput : InOrder gs (textsBehind first rest output)) :
    InOrder (gs ++ runGroups (if output.isEmpty then first else rest) rest bs)
      (textsBehind first rest (((layout o refs).blocks width bs).foldl join output)) := by
  cases bs with
  | nil =>
    rw [runGroups, List.append_nil]
    exact houtput
  | cons b bs =>
    have hblock : ∀ lead, InOrder (codeGroups lead rest b)
        (textsBehind lead rest ((layout o refs).block width b)) :=
      fun lead => codeGroups_inOrder width b lead rest
    have hempty := (layout o refs).block_isEmpty width b
    rw [runGroups, Layout.blocks, List.foldl_cons, ← List.append_assoc, hjoin, hempty]
    cases hlines : b.hasLines with
    | false =>
      -- A block without lines leaves the first line to the blocks behind it.
      rw [hlines, Bool.not_false, List.isEmpty_iff] at hempty
      have hnone := hblock (if output.isEmpty then first else rest)
      rw [hempty] at hnone
      have houtput' := houtput.append hnone
      rw [textsBehind_nil, List.append_nil] at houtput'
      exact runGroups_inOrder hjoin hseparator width bs first rest houtput'
    | true =>
      have hsep : output = [] → separator output = [] := by
        rintro rfl
        exact hseparator
      have houtput' := inOrder_append houtput hsep hblock
      rw [hlines, Bool.not_true, List.isEmpty_eq_false_iff] at hempty
      have hfull : (output ++ separator output ++ (layout o refs).block width b).isEmpty = false :=
        List.isEmpty_eq_false_iff.mpr (List.append_ne_nil_of_right_ne_nil _ hempty)
      have hrest := runGroups_inOrder hjoin hseparator width bs first rest houtput'
      simp only [hfull, Bool.false_eq_true, if_false] at hrest
      exact hrest

/-- The code in the items of a list is found in its lines. -/
theorem itemGroups_inOrder (width : Nat) (ordered : Bool) (start : Int) (index : Nat)
    (bss : List (List Block)) (first rest : List Char) :
    InOrder (itemGroups first rest ordered start index bss)
      (textsBehind first rest
        ((layout o refs).items width ordered start index bss).flatten) := by
  cases bss with
  | nil => trivial
  | cons bs bss =>
    have hrest := itemGroups_inOrder width ordered start (index + 1) bss rest rest
    have hmarker : (layout o refs).marker ordered start index = marker ordered start index := rfl
    rw [itemGroups, Layout.items, List.flatten_cons, textsBehind_append]
    rw [List.isEmpty_eq_false_iff.mpr ((layout o refs).itemLines_ne_nil _ _), if_neg (by simp)]
    refine InOrder.append ?_ hrest
    rw [Layout.itemLines, textsBehind, prependLines_prependLines, hmarker]
    have hjoin : ∀ output block : List Line, output ++ block =
        if block.isEmpty then output else output ++ [] ++ block := by
      intro output block
      cases block <;> simp
    have hstart : InOrder [] (textsBehind (first ++ marker ordered start index)
        (rest ++ List.replicate (marker ordered start index).length ' ') []) := trivial
    have hlines := runGroups_inOrder hjoin rfl
      (innerRoom width (marker ordered start index).length) bs _ _ hstart
    rw [List.foldl_append_eq_append, List.map_id'] at hlines
    -- An item without lines has an empty one, which holds no code.
    rcases hall : ((layout o refs).blocks _ bs).flatten with - | ⟨l, ls⟩
    · rw [hall] at hlines
      exact hlines.append_right _
    · rw [hall] at hlines
      exact hlines

end

end Induction

/-! #### Lines of groups #### -/

theorem notMem_newline_marker (ordered : Bool) (start : Int) (index : Nat) :
    '\n' ∉ marker ordered start index := by
  have hbullet : '\n' ∉ bullet := by decide
  exact (layout {} []).notMem_newline_marker hbullet ordered start index

theorem notMem_newline_behind {lead line : List Char} (hlead : '\n' ∉ lead)
    (hline : '\n' ∉ line) : '\n' ∉ behind lead line := by
  unfold behind
  split
  · exact Text.notMem_newline_trimEnd hlead
  · exact Text.notMem_newline_append hlead hline

mutual

/-- The lines of groups are lines. -/
theorem notMem_newline_codeGroups (b : Block) {first rest : List Char} (hfirst : '\n' ∉ first)
    (hrest : '\n' ∉ rest) : ∀ g ∈ codeGroups first rest b, ∀ l ∈ g, '\n' ∉ l := by
  have hquote : '\n' ∉ quoteMark := by decide
  cases b with
  | heading level inline =>
    intro g hg
    simp [codeGroups] at hg
  | paragraph inline =>
    intro g hg
    simp [codeGroups] at hg
  | thematicBreak =>
    intro g hg
    simp [codeGroups] at hg
  | list ordered bss start =>
    exact notMem_newline_itemGroups bss ordered start 0 hfirst hrest
  | blockquote children =>
    exact notMem_newline_runGroups children (Text.notMem_newline_append hfirst hquote)
      (Text.notMem_newline_append hrest hquote)
  | codeBlock literal language =>
    have hcode : ∀ l ∈ codeText literal, '\n' ∉ l := fun l hl => Text.notMem_of_mem_lines hl
    intro g hg l hl
    rw [codeGroups, List.mem_singleton] at hg
    subst hg
    rcases hlines : codeText literal with - | ⟨m, ms⟩
    · rw [hlines] at hl
      exact absurd hl List.not_mem_nil
    · rw [hlines] at hl hcode
      rcases List.mem_cons.mp hl with rfl | hl
      · exact notMem_newline_behind hfirst (hcode m List.mem_cons_self)
      · obtain ⟨k, hk, rfl⟩ := List.mem_map.mp hl
        exact notMem_newline_behind hrest (hcode k (List.mem_cons_of_mem m hk))

theorem notMem_newline_runGroups (bs : List Block) {first rest : List Char}
    (hfirst : '\n' ∉ first) (hrest : '\n' ∉ rest) :
    ∀ g ∈ runGroups first rest bs, ∀ l ∈ g, '\n' ∉ l := by
  cases bs with
  | nil =>
    intro g hg
    simp [runGroups] at hg
  | cons b bs =>
    intro g hg
    rcases List.mem_append.mp hg with hg | hg
    · exact notMem_newline_codeGroups b hfirst hrest g hg
    · have hlead : '\n' ∉ if b.hasLines then rest else first := by
        split
        · exact hrest
        · exact hfirst
      exact notMem_newline_runGroups bs hlead hrest g hg

theorem notMem_newline_itemGroups (bss : List (List Block)) (ordered : Bool) (start : Int)
    (index : Nat) {first rest : List Char} (hfirst : '\n' ∉ first) (hrest : '\n' ∉ rest) :
    ∀ g ∈ itemGroups first rest ordered start index bss, ∀ l ∈ g, '\n' ∉ l := by
  cases bss with
  | nil =>
    intro g hg
    simp [itemGroups] at hg
  | cons bs bss =>
    have hindent : '\n' ∉ List.replicate (marker ordered start index).length ' ' :=
      Text.notMem_newline_replicate (by decide)
    intro g hg
    rcases List.mem_append.mp hg with hg | hg
    · exact notMem_newline_runGroups bs
        (Text.notMem_newline_append hfirst (notMem_newline_marker ordered start index))
        (Text.notMem_newline_append hrest hindent) g hg
    · exact notMem_newline_itemGroups bss ordered start (index + 1) hrest hrest g hg

end

/-! #### Documents #### -/

end Gopher

/-! ### Code blocks -/

mutual

/-- The code blocks in a block, each as its literal and its language. -/
def Block.codeBlocks : Block → List (List Char × Option (List Char))
  | .heading _ _ => []
  | .paragraph _ => []
  | .list _ bss _ => Block.itemsCodeBlocks bss
  | .codeBlock literal language => [(literal, language)]
  | .blockquote children => Block.runCodeBlocks children
  | .thematicBreak => []

/-- The code blocks in a sequence of blocks. -/
def Block.runCodeBlocks : List Block → List (List Char × Option (List Char))
  | [] => []
  | b :: bs => b.codeBlocks ++ Block.runCodeBlocks bs

/-- The code blocks in the items of a list. -/
def Block.itemsCodeBlocks : List (List Block) → List (List Char × Option (List Char))
  | [] => []
  | bs :: bss => Block.runCodeBlocks bs ++ Block.itemsCodeBlocks bss

end

/-- The code blocks in a document. -/
def Document.codeBlocks (d : Document) : List (List Char × Option (List Char)) :=
  Block.runCodeBlocks d.blocks

/-! ### Gemtext -/

namespace Gemini

/-- The lines that a code block is in the output. -/
def codeGroup (c : List Char × Option (List Char)) : List Line :=
  (codeText c.1 c.2).map .verbatim

theorem isVerbatim_of_mem_codeGroups {cs : List (List Char × Option (List Char))} :
    ∀ g ∈ cs.map codeGroup, ∀ l ∈ g, l.isVerbatim = true := by
  intro g hg l hl
  obtain ⟨c, -, rfl⟩ := List.mem_map.mp hg
  obtain ⟨t, -, rfl⟩ := List.mem_map.mp hl
  rfl

/-- What leaves preformatted lines alone leaves code alone. -/
theorem inOrder_map {cs : List (List Char × Option (List Char))} {ls : List Line}
    {f : Line → Line} (hf : ∀ l, l.isVerbatim = true → f l = l)
    (h : InOrder (cs.map codeGroup) ls) : InOrder (cs.map codeGroup) (ls.map f) := by
  have hmap := h.map f
  have hsame : (cs.map codeGroup).map (List.map f) = cs.map codeGroup := by
    refine (List.map_congr_left fun g hg => ?_).trans (List.map_id _)
    refine (List.map_congr_left fun l hl => ?_).trans (List.map_id g)
    exact hf l (isVerbatim_of_mem_codeGroups g hg l hl)
  rwa [hsame] at hmap

/-- An item leaves code alone.  Its first line is never preformatted: where it
would be, the marker has a line of its own. -/
theorem inOrder_itemLines {cs : List (List Char × Option (List Char))} {ls : List Line}
    (marker : List Char) (h : InOrder (cs.map codeGroup) ls) :
    InOrder (cs.map codeGroup) (layout.itemLines marker ls) := by
  obtain ⟨t, ms, hopen, hms⟩ : ∃ t ms, layout.openItem ls = .prose t :: ms ∧
      InOrder (cs.map codeGroup) (Line.prose t :: ms) := by
    cases ls with
    | nil => exact ⟨[], [], rfl, h.append_right _⟩
    | cons l ls =>
      cases l with
      | prose t => exact ⟨t, ls, rfl, h⟩
      | verbatim t => exact ⟨[], .verbatim t :: ls, rfl, h.prepend [Line.prose []]⟩
  have hnot : ∀ g ∈ cs.map codeGroup, g ≠ [] ∧ Line.prose t ∉ g := by
    intro g hg
    refine ⟨?_, fun hmem => ?_⟩
    · obtain ⟨c, -, rfl⟩ := List.mem_map.mp hg
      exact List.cons_ne_nil _ _
    · exact absurd (isVerbatim_of_mem_codeGroups g hg _ hmem) (by simp [Line.isVerbatim])
  have hprepend : ∀ l : Line, l.isVerbatim = true → l.prepend [] = l := by
    intro l hl
    cases l with
    | prose t => simp [Line.isVerbatim] at hl
    | verbatim t => exact Line.prepend_nil_verbatim t
  rw [Layout.itemLines, hopen]
  exact (inOrder_map hprepend (hms.tail hnot)).prepend [_]

theorem runCodeBlocks_map (bs : List Block) :
    (Block.runCodeBlocks bs).map codeGroup =
      (bs.map fun b => b.codeBlocks.map codeGroup).flatten := by
  induction bs with
  | nil => rfl
  | cons b bs ih => rw [Block.runCodeBlocks, List.map_append, ih, List.map_cons, List.flatten_cons]

mutual

/-- **The code in a block is found in its lines**, unchanged. -/
theorem codeBlocks_inOrder (width : Nat) (b : Block) :
    InOrder (b.codeBlocks.map codeGroup) (layout.block width b) := by
  cases b with
  | heading level inline => trivial
  | paragraph inline => trivial
  | thematicBreak => trivial
  | codeBlock literal language => exact InOrder.singleton _
  | blockquote children =>
    have hquote : ∀ l : Line, l.isVerbatim = true → layout.quoteLine l = l := by
      intro l hl
      cases l with
      | prose t => simp [Line.isVerbatim] at hl
      | verbatim t => rfl
    rw [Layout.block]
    refine inOrder_map hquote ?_
    rw [Block.codeBlocks, runCodeBlocks_map]
    exact InOrder.stackBlocks (runCodeBlocks_inOrder _ children)
  | list ordered bss start =>
    rw [Layout.block, Block.codeBlocks]
    exact itemsCodeBlocks_inOrder width ordered start 0 bss

theorem runCodeBlocks_inOrder (width : Nat) (bs : List Block) :
    List.Forall₂ InOrder (bs.map fun b => b.codeBlocks.map codeGroup)
      (layout.blocks width bs) := by
  cases bs with
  | nil => exact .nil
  | cons b bs => exact .cons (codeBlocks_inOrder width b) (runCodeBlocks_inOrder width bs)

theorem itemsCodeBlocks_inOrder (width : Nat) (ordered : Bool) (start : Int) (index : Nat)
    (bss : List (List Block)) :
    InOrder ((Block.itemsCodeBlocks bss).map codeGroup)
      (layout.items width ordered start index bss).flatten := by
  cases bss with
  | nil => trivial
  | cons bs bss =>
    rw [Block.itemsCodeBlocks, List.map_append, Layout.items, List.flatten_cons]
    refine InOrder.append (inOrder_itemLines _ ?_)
      (itemsCodeBlocks_inOrder width ordered start (index + 1) bss)
    rw [runCodeBlocks_map]
    exact InOrder.flatten (runCodeBlocks_inOrder _ bs)

end

theorem notMem_newline_bodyLines (literal : List Char) : ∀ l ∈ bodyLines literal, '\n' ∉ l := by
  intro l hl
  unfold bodyLines at hl
  split at hl
  · exact absurd hl List.not_mem_nil
  · exact Text.notMem_of_mem_lines hl

end Gemini

/-! ### Renders -/

end SmallWeb
