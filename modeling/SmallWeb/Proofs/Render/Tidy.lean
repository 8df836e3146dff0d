/-
SmallWeb/Proofs/Render/Tidy.lean

Blank lines on a page.

A block is put behind an empty line unless the output ends in one already.  The rule looks
at the end of the output only.  So what a page looks like can be told of its blocks one by
one: they stand one blank line apart exactly if each of them begins with content and has
no two blank lines together, and the last one ends with content.  A block that begins with
a blank line makes two of them, or puts one on top of the page.

The step is appending one block (`opens_appendBlock_iff`); its induction is over the
blocks of a stack.

Main result: `tidy_output_iff`.
-/
import SmallWeb.Proofs.Render.Line
import SmallWeb.Proofs.Text.Lines
import SmallWeb.Proofs.Wrap.Content

namespace SmallWeb

open Text (isBlankText)

/-! ### Blank lines -/

/-- The first line has content, and no two blank lines follow each other. -/
structure Opens (ls : List (List Char)) : Prop where
  begins : ∀ l ∈ ls.head?, ¬ isBlankText l = true
  apart : Alternating ls

/-- No two blank lines follow each other, and none is the first or the last line. -/
structure Tidy (ls : List (List Char)) : Prop extends Opens ls where
  ends : ∀ l ∈ ls.getLast?, ¬ isBlankText l = true

theorem opens_nil : Opens [] where
  begins := by simp
  apart := List.isChain_nil

theorem opens_of_forall {ls : List (List Char)} (h : ∀ l ∈ ls, ¬ isBlankText l = true) :
    Opens ls where
  begins l hl := h l (List.mem_of_mem_head? hl)
  apart := by
    induction ls with
    | nil => exact List.isChain_nil
    | cons l ls ih =>
      have hrest := ih fun m hm => h m (List.mem_cons_of_mem l hm)
      refine List.isChain_cons.mpr ⟨fun m _ hblank => ?_, hrest⟩
      exact h l List.mem_cons_self hblank.1

/-- Behind a blank line the first line must have content. -/
theorem opens_append_iff {ls ms : List (List Char)} {last : List Char}
    (hblank : isBlankText last = true) :
    Opens (ls ++ [last] ++ ms) ↔ Opens (ls ++ [last]) ∧ Opens ms := by
  have hne : ls ++ [last] ≠ [] := by simp
  constructor
  · rintro ⟨hbegins, hchain⟩
    rw [List.head?_append_of_ne_nil _ hne] at hbegins
    obtain ⟨hleft, hright, hseam⟩ := List.isChain_append.mp hchain
    exact ⟨⟨hbegins, hleft⟩, fun m hm hmblank => hseam last (by simp) m hm ⟨hblank, hmblank⟩, hright⟩
  · rintro ⟨hleft, hright⟩
    refine ⟨?_, List.isChain_append.mpr ⟨hleft.apart, hright.apart, fun l _ m hm hboth => ?_⟩⟩
    · rw [List.head?_append_of_ne_nil _ hne]
      exact hleft.begins
    · exact hright.begins m hm hboth.2

/-- A blank line may follow content. -/
theorem opens_append_blank_iff {ls : List (List Char)} {last blank : List Char}
    (hlast : ¬ isBlankText last = true) :
    Opens (ls ++ [last] ++ [blank]) ↔ Opens (ls ++ [last]) := by
  have hne : ls ++ [last] ≠ [] := by simp
  constructor
  · rintro ⟨hbegins, hchain⟩
    rw [List.head?_append_of_ne_nil _ hne] at hbegins
    exact ⟨hbegins, hchain.left_of_append⟩
  · rintro ⟨hbegins, hchain⟩
    refine ⟨?_, List.isChain_append.mpr ⟨hchain, List.isChain_singleton _, fun l hl m _ hboth => ?_⟩⟩
    · rwa [List.head?_append_of_ne_nil _ hne]
    · obtain rfl : last = l := by simpa using hl
      exact hlast hboth.1

/-! ### Stacks of blocks -/

/-- A line that is empty if it is blank. -/
def Line.Settled (l : Line) : Prop := isBlankText l.text = true → l.text = []

/-- **What an output opens with** is what its parts open with. -/
theorem opens_appendBlock_iff {output : List Line} (hsettled : ∀ l ∈ output, l.Settled)
    (block : List Line) : Opens ((appendBlock output block).map Line.text) ↔
      Opens (output.map Line.text) ∧ Opens (block.map Line.text) := by
  rw [appendBlock_eq]
  by_cases hempty : block.isEmpty = true
  · rw [if_pos hempty, List.isEmpty_iff.mp hempty, List.map_nil, and_iff_left opens_nil]
  rw [if_neg hempty]
  rcases output.eq_nil_or_concat' with rfl | ⟨before, last, rfl⟩
  · rw [List.map_nil, and_iff_right opens_nil]
    rfl
  · have hlast : last.Settled := hsettled last (by simp)
    simp only [List.map_append, List.map_singleton]
    unfold separator
    rw [List.getLast?_concat]
    dsimp only
    by_cases hnil : last.text = []
    · -- The output ends in an empty line, and no other one is added.
      rw [if_pos (List.isEmpty_iff.mpr hnil), List.map_nil, List.append_nil, hnil]
      exact opens_append_iff rfl
    · rw [if_neg (by simpa using hnil), List.map_singleton]
      exact (opens_append_iff rfl).trans
        (and_congr_left fun _ => opens_append_blank_iff fun hblank => hnil (hlast hblank))

theorem stackBlocks_cons (block : List Line) (blocks : List (List Line)) :
    stackBlocks (block :: blocks) = appendBlock block (stackBlocks blocks) := by
  have happend := stackBlocks_append [block] blocks
  have hfirst : stackBlocks [block] = block := nil_appendBlock block
  rwa [hfirst] at happend

theorem opens_stackBlocks_iff {blocks : List (List Line)}
    (hsettled : ∀ block ∈ blocks, ∀ l ∈ block, l.Settled) :
    Opens ((stackBlocks blocks).map Line.text) ↔
      ∀ block ∈ blocks, Opens (block.map Line.text) := by
  induction blocks with
  | nil => exact ⟨fun _ block hblock => absurd hblock List.not_mem_nil, fun _ => opens_nil⟩
  | cons block blocks ih =>
    obtain ⟨hblock, hblocks⟩ := List.forall_mem_cons.mp hsettled
    rw [stackBlocks_cons, opens_appendBlock_iff hblock, ih hblocks, List.forall_mem_cons]

/-- A stack ends as its last block with lines. -/
theorem getLast?_stackBlocks (blocks : List (List Line)) :
    (stackBlocks blocks).getLast? = blocks.flatten.getLast? := by
  induction blocks with
  | nil => rfl
  | cons block blocks ih =>
    rw [stackBlocks_cons, appendBlock_eq, List.flatten_cons]
    by_cases hstack : stackBlocks blocks = []
    · rw [hstack, List.getLast?_nil] at ih
      rw [hstack, List.getLast?_eq_none_iff.mp ih.symm, if_pos List.isEmpty_nil, List.append_nil]
    · have hflatten : blocks.flatten ≠ [] := by
        intro hnil
        rw [hnil, List.getLast?_nil] at ih
        exact hstack (List.getLast?_eq_none_iff.mp ih)
      rw [if_neg (by simpa using hstack), List.getLast?_append_of_ne_nil _ hstack,
        List.getLast?_append_of_ne_nil _ hflatten, ih]

theorem stackBlocks_ne_nil {blocks : List (List Line)} {block : List Line} (hmem : block ∈ blocks)
    (hne : block ≠ []) : stackBlocks blocks ≠ [] := by
  intro hnil
  have hlast := getLast?_stackBlocks blocks
  rw [hnil, List.getLast?_nil] at hlast
  exact hne (List.flatten_eq_nil_iff.mp (List.getLast?_eq_none_iff.mp hlast.symm) block hmem)

/-- Groups of lines that can be put together: each begins with content and has no two
blank lines together, and the last line of all has content. -/
def WellSpaced (groups : List (List Line)) : Prop :=
  (∀ g ∈ groups, Opens (g.map Line.text)) ∧
    ∀ l ∈ groups.flatten.getLast?, ¬ isBlankText l.text = true

/-- **Whether a page is tidy** can be told of its groups of lines. -/
theorem tidy_stackBlocks_iff {groups : List (List Line)}
    (hsettled : ∀ g ∈ groups, ∀ l ∈ g, l.Settled) :
    Tidy ((stackBlocks groups).map Line.text) ↔ WellSpaced groups := by
  have hends : (∀ t ∈ ((stackBlocks groups).map Line.text).getLast?, ¬ isBlankText t = true) ↔
      ∀ l ∈ groups.flatten.getLast?, ¬ isBlankText l.text = true := by
    rw [List.getLast?_map, getLast?_stackBlocks]
    simp
  rw [WellSpaced, ← opens_stackBlocks_iff hsettled, ← hends]
  exact ⟨fun h => ⟨h.toOpens, h.ends⟩, fun h => ⟨h.1, h.2⟩⟩

/-- Lines with content everywhere are well spaced. -/
theorem wellSpaced_of_forall {groups : List (List Line)}
    (h : ∀ g ∈ groups, ∀ l ∈ g, ¬ isBlankText l.text = true) : WellSpaced groups := by
  refine ⟨fun g hg => opens_of_forall fun t ht => ?_, fun l hl => ?_⟩
  · obtain ⟨l, hl, rfl⟩ := List.mem_map.mp ht
    exact h g hg l hl
  · obtain ⟨g, hg, hl⟩ := List.mem_flatten.mp (List.mem_of_getLast? hl)
    exact h g hg l hl

/-- A group that begins with an empty line is not well spaced. -/
theorem not_wellSpaced_of_mem {groups : List (List Line)} {rest : List Line}
    (h : .prose [] :: rest ∈ groups) : ¬ WellSpaced groups :=
  fun hspaced => (hspaced.1 _ h).begins [] rfl rfl

/-! ### Pages -/

/-- **The page and its groups of lines.**  If there are any lines, and each of them is one
line and settled, then the output is tidy exactly if the groups are well spaced. -/
theorem tidy_output_iff {groups : List (List Line)} (hne : ∃ g ∈ groups, g ≠ [])
    (hlines : ∀ g ∈ groups, ∀ l ∈ g, '\n' ∉ l.text ∧ l.Settled) :
    Tidy (Text.lines (Text.unlines ((stackBlocks groups).map Line.text))) ↔ WellSpaced groups := by
  obtain ⟨g, hg, hgne⟩ := hne
  have hstack := stackBlocks_ne_nil hg hgne
  have hone : ∀ l ∈ stackBlocks groups, '\n' ∉ l.text :=
    forall_mem_stackBlocks (P := fun l => '\n' ∉ l.text) List.not_mem_nil
      fun g hg l hl => (hlines g hg l hl).1
  have hsingle : ∀ t ∈ (stackBlocks groups).map Line.text, '\n' ∉ t := List.forall_mem_map.mpr hone
  rw [Text.lines_unlines_of_notMem (by simpa using hstack) hsingle]
  exact tidy_stackBlocks_iff fun g hg l hl => (hlines g hg l hl).2

end SmallWeb
