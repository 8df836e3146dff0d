/-
SmallWeb/Proofs/Document/Links.lean

The link targets of a document.

Targets are listed in the order in which a walk finishes the links: document
order, with a link inside another one before it.  Links without a target do not
count.  A layout notes the same targets, each with the text that it gives to the
link.

The links themselves are listed in the same order, each with its target and its
children (`Block.links`); what a layout notes is this list with the children laid
out (`Layout.blockNotes_eq`).
-/
import SmallWeb.Document
import SmallWeb.Proofs.Document.Reading
import SmallWeb.Proofs.Render.Layout

namespace SmallWeb

/-! ### Targets -/

mutual

/-- The targets of the links in an inline node. -/
def Inline.targets : Inline → List (List Char)
  | .text _ => []
  | .code _ => []
  | .lineBreak => []
  | .emphasis children => Inline.runTargets children
  | .strong children => Inline.runTargets children
  | .link href children => Inline.runTargets children ++ if href.isEmpty then [] else [href]

/-- The targets of the links in a run. -/
def Inline.runTargets : List Inline → List (List Char)
  | [] => []
  | i :: is => i.targets ++ Inline.runTargets is

end

mutual

/-- The targets of the links in a block. -/
def Block.targets : Block → List (List Char)
  | .heading _ inline => Inline.runTargets inline
  | .paragraph inline => Inline.runTargets inline
  | .list _ bss _ => Block.itemsTargets bss
  | .codeBlock _ _ => []
  | .blockquote children => Block.runTargets children
  | .thematicBreak => []

/-- The targets of the links in a sequence of blocks. -/
def Block.runTargets : List Block → List (List Char)
  | [] => []
  | b :: bs => b.targets ++ Block.runTargets bs

/-- The targets of the links in the items of a list. -/
def Block.itemsTargets : List (List Block) → List (List Char)
  | [] => []
  | bs :: bss => Block.runTargets bs ++ Block.itemsTargets bss

end

/-- The targets of the links in a document. -/
def Document.targets (d : Document) : List (List Char) := Block.runTargets d.blocks

mutual

theorem Inline.ne_nil_of_mem_targets {i : Inline} {href : List Char} (h : href ∈ i.targets) :
    href ≠ [] := by
  cases i with
  | text t => exact absurd h List.not_mem_nil
  | code literal => exact absurd h List.not_mem_nil
  | lineBreak => exact absurd h List.not_mem_nil
  | emphasis children => exact Inline.ne_nil_of_mem_runTargets h
  | strong children => exact Inline.ne_nil_of_mem_runTargets h
  | link target children =>
    rcases List.mem_append.mp h with h | h
    · exact Inline.ne_nil_of_mem_runTargets h
    · split at h
      · exact absurd h List.not_mem_nil
      · rename_i htarget
        obtain rfl := List.mem_singleton.mp h
        simpa using htarget

theorem Inline.ne_nil_of_mem_runTargets {is : List Inline} {href : List Char}
    (h : href ∈ Inline.runTargets is) : href ≠ [] := by
  cases is with
  | nil => exact absurd h List.not_mem_nil
  | cons i is =>
    rcases List.mem_append.mp h with h | h
    · exact Inline.ne_nil_of_mem_targets h
    · exact Inline.ne_nil_of_mem_runTargets h

end

mutual

/-- No target is empty. -/
theorem Block.ne_nil_of_mem_targets {b : Block} {href : List Char} (h : href ∈ b.targets) :
    href ≠ [] := by
  cases b with
  | heading level inline => exact Inline.ne_nil_of_mem_runTargets h
  | paragraph inline => exact Inline.ne_nil_of_mem_runTargets h
  | list ordered bss start => exact Block.ne_nil_of_mem_itemsTargets h
  | codeBlock literal language => exact absurd h List.not_mem_nil
  | blockquote children => exact Block.ne_nil_of_mem_runTargets h
  | thematicBreak => exact absurd h List.not_mem_nil

theorem Block.ne_nil_of_mem_runTargets {bs : List Block} {href : List Char}
    (h : href ∈ Block.runTargets bs) : href ≠ [] := by
  cases bs with
  | nil => exact absurd h List.not_mem_nil
  | cons b bs =>
    rcases List.mem_append.mp h with h | h
    · exact Block.ne_nil_of_mem_targets h
    · exact Block.ne_nil_of_mem_runTargets h

theorem Block.ne_nil_of_mem_itemsTargets {bss : List (List Block)} {href : List Char}
    (h : href ∈ Block.itemsTargets bss) : href ≠ [] := by
  cases bss with
  | nil => exact absurd h List.not_mem_nil
  | cons bs bss =>
    rcases List.mem_append.mp h with h | h
    · exact Block.ne_nil_of_mem_runTargets h
    · exact Block.ne_nil_of_mem_itemsTargets h

end

theorem Document.ne_nil_of_mem_targets (d : Document) {href : List Char} (h : href ∈ d.targets) :
    href ≠ [] := Block.ne_nil_of_mem_runTargets h

/-! ### Layouts note the targets -/

namespace Layout

variable (s : Layout)

mutual

theorem notes_fst (i : Inline) : (s.notes i).map Prod.fst = i.targets := by
  cases i with
  | text t => rfl
  | code literal => rfl
  | lineBreak => rfl
  | emphasis children => exact runNotes_fst children
  | strong children => exact runNotes_fst children
  | link href children =>
    rw [Layout.notes, Inline.targets, List.map_append, runNotes_fst children]
    cases href <;> rfl

theorem runNotes_fst (is : List Inline) :
    (s.runNotes is).map Prod.fst = Inline.runTargets is := by
  cases is with
  | nil => rfl
  | cons i is =>
    rw [Layout.runNotes, Inline.runTargets, List.map_append, notes_fst i, runNotes_fst is]

end

mutual

/-- A layout notes the targets of a block. -/
theorem blockNotes_fst (b : Block) : (s.blockNotes b).map Prod.fst = b.targets := by
  cases b with
  | heading level inline => exact s.runNotes_fst inline
  | paragraph inline => exact s.runNotes_fst inline
  | list ordered bss start => exact itemsNotes_fst bss
  | codeBlock literal language => rfl
  | blockquote children => exact blocksNotes_fst children
  | thematicBreak => rfl

theorem blocksNotes_fst (bs : List Block) :
    (s.blocksNotes bs).map Prod.fst = Block.runTargets bs := by
  cases bs with
  | nil => rfl
  | cons b bs =>
    rw [Layout.blocksNotes, Block.runTargets, List.map_append, blockNotes_fst b,
      blocksNotes_fst bs]

theorem itemsNotes_fst (bss : List (List Block)) :
    (s.itemsNotes bss).map Prod.fst = Block.itemsTargets bss := by
  cases bss with
  | nil => rfl
  | cons bs bss =>
    rw [Layout.itemsNotes, Block.itemsTargets, List.map_append, blocksNotes_fst bs,
      itemsNotes_fst bss]

end

theorem flatten_blockNotes (bs : List Block) :
    (bs.map s.blockNotes).flatten = s.blocksNotes bs := by
  induction bs with
  | nil => rfl
  | cons b bs ih => rw [List.map_cons, List.flatten_cons, ih, Layout.blocksNotes]

end Layout

/-! ### Links -/

mutual

/-- The links with a target in an inline node, each as its target and its
children, an inner link before the one around it. -/
def Inline.links : Inline → List (List Char × List Inline)
  | .text _ => []
  | .code _ => []
  | .lineBreak => []
  | .emphasis children => Inline.runLinks children
  | .strong children => Inline.runLinks children
  | .link href children =>
    Inline.runLinks children ++ if href.isEmpty then [] else [(href, children)]

/-- The links in a run. -/
def Inline.runLinks : List Inline → List (List Char × List Inline)
  | [] => []
  | i :: is => i.links ++ Inline.runLinks is

end

mutual

/-- The links in a block. -/
def Block.links : Block → List (List Char × List Inline)
  | .heading _ inline => Inline.runLinks inline
  | .paragraph inline => Inline.runLinks inline
  | .list _ bss _ => Block.itemsLinks bss
  | .codeBlock _ _ => []
  | .blockquote children => Block.runLinks children
  | .thematicBreak => []

/-- The links in a sequence of blocks. -/
def Block.runLinks : List Block → List (List Char × List Inline)
  | [] => []
  | b :: bs => b.links ++ Block.runLinks bs

/-- The links in the items of a list. -/
def Block.itemsLinks : List (List Block) → List (List Char × List Inline)
  | [] => []
  | bs :: bss => Block.runLinks bs ++ Block.itemsLinks bss

end

/-- The links in a document. -/
def Document.links (d : Document) : List (List Char × List Inline) := Block.runLinks d.blocks

namespace Layout

variable (s : Layout)

/-- A link as a layout notes it. -/
def noteOf (l : List Char × List Inline) : List Char × List Char := (l.1, s.run l.2)

mutual

theorem notes_eq (i : Inline) : s.notes i = i.links.map s.noteOf := by
  cases i with
  | text t => rfl
  | code literal => rfl
  | lineBreak => rfl
  | emphasis children => exact runNotes_eq children
  | strong children => exact runNotes_eq children
  | link href children =>
    rw [Layout.notes, Inline.links, List.map_append, runNotes_eq children]
    cases href <;> rfl

theorem runNotes_eq (is : List Inline) :
    s.runNotes is = (Inline.runLinks is).map s.noteOf := by
  cases is with
  | nil => rfl
  | cons i is => rw [Layout.runNotes, Inline.runLinks, List.map_append, notes_eq i, runNotes_eq is]

end

mutual

/-- **A layout notes the links** of a block, each with its text. -/
theorem blockNotes_eq (b : Block) : s.blockNotes b = b.links.map s.noteOf := by
  cases b with
  | heading level inline => exact s.runNotes_eq inline
  | paragraph inline => exact s.runNotes_eq inline
  | list ordered bss start => exact itemsNotes_eq bss
  | codeBlock literal language => rfl
  | blockquote children => exact blocksNotes_eq children
  | thematicBreak => rfl

theorem blocksNotes_eq (bs : List Block) :
    s.blocksNotes bs = (Block.runLinks bs).map s.noteOf := by
  cases bs with
  | nil => rfl
  | cons b bs =>
    rw [Layout.blocksNotes, Block.runLinks, List.map_append, blockNotes_eq b, blocksNotes_eq bs]

theorem itemsNotes_eq (bss : List (List Block)) :
    s.itemsNotes bss = (Block.itemsLinks bss).map s.noteOf := by
  cases bss with
  | nil => rfl
  | cons bs bss =>
    rw [Layout.itemsNotes, Block.itemsLinks, List.map_append, blocksNotes_eq bs,
      itemsNotes_eq bss]

end

end Layout

/-! #### How deep links lie #### -/

mutual

theorem Inline.runHeight_lt_of_mem_links {i : Inline} {l : List Char × List Inline}
    (h : l ∈ i.links) : Inline.runHeight l.2 < i.height + 1 := by
  cases i with
  | text t => exact absurd h List.not_mem_nil
  | code literal => exact absurd h List.not_mem_nil
  | lineBreak => exact absurd h List.not_mem_nil
  | emphasis children => exact Nat.lt_succ_of_lt (Inline.runHeight_lt_of_mem_runLinks h)
  | strong children => exact Nat.lt_succ_of_lt (Inline.runHeight_lt_of_mem_runLinks h)
  | link href children =>
    rcases List.mem_append.mp h with h | h
    · exact Nat.lt_succ_of_lt (Inline.runHeight_lt_of_mem_runLinks h)
    · split at h
      · exact absurd h List.not_mem_nil
      · obtain rfl := List.mem_singleton.mp h
        exact Nat.lt_succ_self _

theorem Inline.runHeight_lt_of_mem_runLinks {is : List Inline} {l : List Char × List Inline}
    (h : l ∈ Inline.runLinks is) : Inline.runHeight l.2 < Inline.runHeight is := by
  cases is with
  | nil => exact absurd h List.not_mem_nil
  | cons i is =>
    rw [Inline.runHeight]
    rcases List.mem_append.mp h with h | h
    · exact Nat.lt_of_lt_of_le (Inline.runHeight_lt_of_mem_links h) (Nat.le_max_left _ _)
    · exact Nat.lt_of_lt_of_le (Inline.runHeight_lt_of_mem_runLinks h) (Nat.le_max_right _ _)

end

mutual

theorem Block.runHeight_lt_of_mem_links {b : Block} {l : List Char × List Inline}
    (h : l ∈ b.links) : Inline.runHeight l.2 < b.height + 1 := by
  cases b with
  | heading level inline => exact Nat.lt_succ_of_lt (Inline.runHeight_lt_of_mem_runLinks h)
  | paragraph inline => exact Nat.lt_succ_of_lt (Inline.runHeight_lt_of_mem_runLinks h)
  | list ordered bss start => exact Nat.lt_succ_of_lt (Block.runHeight_lt_of_mem_itemsLinks h)
  | codeBlock literal language => exact absurd h List.not_mem_nil
  | blockquote children => exact Nat.lt_succ_of_lt (Block.runHeight_lt_of_mem_runLinks h)
  | thematicBreak => exact absurd h List.not_mem_nil

/-- The children of a link lie deeper than the blocks around it. -/
theorem Block.runHeight_lt_of_mem_runLinks {bs : List Block} {l : List Char × List Inline}
    (h : l ∈ Block.runLinks bs) : Inline.runHeight l.2 < Block.runHeight bs := by
  cases bs with
  | nil => exact absurd h List.not_mem_nil
  | cons b bs =>
    rw [Block.runHeight]
    rcases List.mem_append.mp h with h | h
    · exact Nat.lt_of_lt_of_le (Block.runHeight_lt_of_mem_links h) (Nat.le_max_left _ _)
    · exact Nat.lt_of_lt_of_le (Block.runHeight_lt_of_mem_runLinks h) (Nat.le_max_right _ _)

theorem Block.runHeight_lt_of_mem_itemsLinks {bss : List (List Block)}
    {l : List Char × List Inline} (h : l ∈ Block.itemsLinks bss) :
    Inline.runHeight l.2 < Block.itemsHeight bss := by
  cases bss with
  | nil => exact absurd h List.not_mem_nil
  | cons bs bss =>
    rw [Block.itemsHeight]
    rcases List.mem_append.mp h with h | h
    · exact Nat.lt_of_lt_of_le (Block.runHeight_lt_of_mem_runLinks h) (Nat.le_max_left _ _)
    · exact Nat.lt_of_lt_of_le (Block.runHeight_lt_of_mem_itemsLinks h) (Nat.le_max_right _ _)

end

end SmallWeb
